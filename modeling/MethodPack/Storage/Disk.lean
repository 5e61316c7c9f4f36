import MethodPack.Number.Digits
import MethodPack.Storage.Fault
import MethodPack.Storage.Path

/-! A disk in memory: directories and files by their place, and the working directory.
Looking a name up needs a directory to look in, also for a name that stays put, so that
a path with a slash behind it never leads to a file. -/
namespace MethodPack

/-- Names from the root. -/
abbrev Place := List String

inductive Entry where
  | directory
  | file (content : List UInt8)
deriving DecidableEq, Repr

/-- The entries below the root, and the working directory. -/
structure Disk where
  entries : List (Place × Entry) := []
  here : Place := []
deriving DecidableEq, Repr, Inhabited

namespace Disk

/-- What is at a place. The root is a directory. -/
def get? (d : Disk) (place : Place) : Option Entry :=
  if place = [] then some .directory
  else (d.entries.find? fun e => e.1 = place).map Prod.snd

/-- Takes away what is at a place. -/
def erase (d : Disk) (place : Place) : Disk :=
  { d with entries := d.entries.filter fun e => e.1 ≠ place }

/-- Puts an entry at a place below the root. -/
def put (d : Disk) (place : Place) (entry : Entry) : Disk :=
  { d with entries := (place, entry) :: (d.erase place).entries }

/-- The content of the file at a place. -/
def file? (d : Disk) (place : Place) : Option (List UInt8) :=
  match d.get? place with
  | some (.file content) => some content
  | _ => none

theorem get?_erase (d : Disk) {place : Place} (h : place ≠ []) (other : Place) :
    (d.erase place).get? other = if other = place then none else d.get? other := by
  by_cases same : other = place
  · subst same
    simp [get?, erase, h]
  · by_cases root : other = []
    · simp [get?, root, Ne.symm h]
    · simp only [get?, erase, root, same, if_false, List.find?_filter]
      congr 2
      funext e
      by_cases he : e.1 = other <;> simp [he, same]

theorem get?_put (d : Disk) {place : Place} (h : place ≠ []) (entry : Entry) (other : Place) :
    (d.put place entry).get? other = if other = place then some entry else d.get? other := by
  by_cases same : other = place
  · subst same
    simp [get?, put, h]
  · have := d.get?_erase h other
    by_cases root : other = []
    · simp [get?, root, Ne.symm h]
    · simp only [get?, put, root, same, if_false] at this ⊢
      rw [List.find?_cons_of_neg (by simpa using Ne.symm same)]
      exact this

/-! ## Paths -/

/-- Where names lead from a place. -/
def follow (d : Disk) (place : Place) : List String → Except StorageFault Place
  | [] => .ok place
  | name :: rest =>
    match d.get? place with
    | none => .error .notFound
    | some (.file _) => .error .notDirectory
    | some .directory =>
      if Path.staysPut name then d.follow place rest
      else if name = ".." then d.follow place.dropLast rest
      else if !Path.fitsName name then .error .nameTooLong
      else
        let next := place ++ [name]
        if (d.get? next).isNone then .error .notFound else d.follow next rest

/-- Where a path starts. -/
def origin (d : Disk) (path : String) : Place := if Path.isAbsolute path then [] else d.here

/-- Refuses a path that no disk can follow; `zero` is the fault of a zero character. -/
def check (zero : StorageFault) (path : String) : Except StorageFault Unit :=
  if path.contains '\x00' then .error zero
  else if path.isEmpty then .error .notFound
  else if !Path.fitsPath path then .error .nameTooLong
  else .ok ()

/-- The place a path leads to. -/
def locate (d : Disk) (path : String) : Except StorageFault Place := do
  check .zeroInPath path
  d.follow (d.origin path) (Path.names path)

/-- The content of the file a path leads to. -/
def read (d : Disk) (path : String) : Except StorageFault (List UInt8) := do
  match d.get? (← d.locate path) with
  | some (.file content) => return content
  | some .directory => throw .isDirectory
  | none => throw .notFound

/-! ## Temporary files -/

/-- The name of the temporary file with the given number. -/
def tempName (number : Nat) : String := ".tmp" ++ Number.paddedDecimal 6 number

/-- The path of a temporary file from the root, as it is opened. -/
def tempPath (d : Disk) (directory : String) : String :=
  let base := if Path.isAbsolute directory then directory
    else Path.join ("/" ++ "/".intercalate d.here) directory
  Path.join base (tempName 0)

/-- A place in a directory where nothing is. -/
def freshPlace? (d : Disk) (directory : Place) : Option Place :=
  ((List.range (d.entries.length + 1)).map fun n => directory ++ [tempName n]).find?
    fun place => (d.get? place).isNone

/-- A place for a new file in the directory a path leads to. -/
def tempPlace (d : Disk) (directory : String) : Except StorageFault Place := do
  check .zeroInPath (d.tempPath directory)
  let place ← d.locate directory
  match d.get? place with
  | some (.file _) => throw .notDirectory
  | none => throw .notFound
  | some .directory =>
    match d.freshPlace? place with
    | none => throw .noFreeName
    | some fresh => return fresh

/-- The place that a file moved to `path` takes: a directory is never replaced, and a
path that can only mean a directory is refused. -/
def destination (d : Disk) (path : String) : Except StorageFault Place := do
  check .invalidArgument path
  let names := Path.names path
  let kept := (names.reverse.dropWhile (· == "")).reverse
  let parent ← d.follow (d.origin path) kept.dropLast
  match kept.getLast? with
  | none => throw .busy
  | some name =>
    match d.get? parent with
    | none => throw .notFound
    | some (.file _) => throw .notDirectory
    | some .directory =>
      if name = "." ∨ name = ".." then throw .busy
      else if !Path.fitsName name then throw .nameTooLong
      else if kept.length < names.length then throw .notDirectory
      else
        let place := parent ++ [name]
        if d.get? place = some .directory then throw .isDirectory else return place

end Disk
end MethodPack
