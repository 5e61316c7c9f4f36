import MethodPack.Storage.Disk

/-! What the program does with files, apart from where they are kept. A new file is
filled under a name of its own and then takes its place in one step. -/
namespace MethodPack

/-- The file operations; `Temp` names a temporary file. -/
structure FileAccess (Temp : Type) (m : Type → Type) where
  /-- All bytes of a file. -/
  read : (path : String) → m (Except StorageFault (List UInt8))
  /-- Makes an empty temporary file in a directory. -/
  createTemp : (directory : String) → m (Except StorageFault Temp)
  /-- Adds bytes behind those of a temporary file. The bytes that it does not take come back. -/
  write : Temp → List UInt8 → m (Except StorageFault Unit × List UInt8)
  /-- Passes on what has been written to a temporary file. -/
  flush : Temp → m (Except StorageFault Unit)
  /-- Makes the content of a temporary file last. -/
  sync : Temp → m (Except StorageFault Unit)
  /-- Makes a temporary file the file at a path, in place of one that is there. -/
  replace : Temp → (path : String) → m (Except StorageFault Unit)
  /-- Takes a temporary file away. -/
  discard : Temp → m Unit

/-- What goes wrong with temporary files for reasons that lie outside the disk's state. -/
structure FaultPlan where
  create : Option StorageFault := none
  /-- How many bytes a temporary file has room for, and why a write beyond them fails. -/
  write : Option (Nat × StorageFault) := none
  flush : Option StorageFault := none
  sync : Option StorageFault := none
  replace : Option StorageFault := none
deriving DecidableEq, Repr, Inhabited

namespace Disk

/-- Fails with a planned fault. -/
def planned (fault : Option StorageFault) (otherwise : Except StorageFault α) :
    Except StorageFault α :=
  match fault with
  | some fault => .error fault
  | none => otherwise

/-- Makes an empty temporary file in a directory. -/
def createTemp (plan : FaultPlan) (d : Disk) (directory : String) :
    Except StorageFault Place × Disk :=
  match planned plan.create (d.tempPlace directory) with
  | .error fault => (.error fault, d)
  | .ok place => (.ok place, d.put place (.file []))

/-- Adds bytes behind those of a temporary file. A write beyond the planned room stores what
fits and fails. -/
def writeTemp (plan : FaultPlan) (d : Disk) (temp : Place) (bytes : List UInt8) :
    (Except StorageFault Unit × List UInt8) × Disk :=
  let content := (d.file? temp).getD []
  match plan.write with
  | none => ((.ok (), []), d.put temp (.file (content ++ bytes)))
  | some (room, fault) =>
    let free := room - content.length
    ((if bytes.length ≤ free then .ok () else .error fault, bytes.drop free),
      d.put temp (.file (content ++ bytes.take free)))

/-- Moves a temporary file to a path. -/
def replaceBy (plan : FaultPlan) (d : Disk) (temp : Place) (path : String) :
    Except StorageFault Unit × Disk :=
  match planned plan.replace (d.destination path) with
  | .error fault => (.error fault, d)
  | .ok place => (.ok (), (d.erase temp).put place (.file ((d.file? temp).getD [])))

/-- The file operations of a disk in memory. -/
def access (plan : FaultPlan) : FileAccess Place (StateM Disk) where
  read path := fun d => (d.read path, d)
  createTemp directory := fun d => d.createTemp plan directory
  write temp bytes := fun d => d.writeTemp plan temp bytes
  flush _ := fun d => (planned plan.flush (.ok ()), d)
  sync _ := fun d => (planned plan.sync (.ok ()), d)
  replace temp path := fun d => d.replaceBy plan temp path
  discard temp := fun d => ((), d.erase temp)

end Disk
end MethodPack
