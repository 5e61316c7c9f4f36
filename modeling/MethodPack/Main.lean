import MethodPack.Command.Help
import MethodPack.Command.Run

/-! The program: file operations of the system, and what a run prints. -/
namespace MethodPack.Main

/-- The fault a system error stands for. -/
def faultOf : IO.Error → StorageFault
  | .noFileOrDirectory .. => .notFound
  | .resourceBusy .. => .busy
  | .inappropriateType _ 20 _ => .notDirectory
  | .inappropriateType _ 21 _ => .isDirectory
  | e => .other (toString e)

/-- Runs a system operation and catches its error. -/
def attempt (operation : IO α) : IO (Except StorageFault α) := do
  try return .ok (← operation)
  catch e => return .error (faultOf e)

/-- A temporary file: its path, and the handle that writes it. -/
structure Temp where
  path : String
  handle : IO.FS.Handle

/-- Makes a temporary file under the first of some random names that is free. -/
def createTemp (directory : String) : (attempts : Nat) → IO (Except StorageFault Temp)
  | 0 => return .error .noFreeName
  | attempts + 1 => do
    let path := directory ++ "/.tmp" ++ Number.decimal (← IO.rand 0 999999999)
    match ← (IO.FS.Handle.mk path .writeNew).toBaseIO with
    | .ok handle => return .ok ⟨path, handle⟩
    | .error (.alreadyExists ..) => createTemp directory attempts
    | .error e => return .error (faultOf e)

/-- The file operations of the system. -/
def access : FileAccess Temp IO where
  read path := attempt do return (← IO.FS.readBinFile path).data.toList
  createTemp directory := createTemp directory 1000
  -- how much of a write was taken before it failed is not known, so nothing comes back
  write temp bytes := return (← attempt (temp.handle.write ⟨bytes.toArray⟩), [])
  flush temp := attempt temp.handle.flush
  sync temp := attempt temp.handle.flush
  replace temp path := attempt (IO.FS.rename temp.path path)
  discard temp := do
    let _ ← attempt (IO.FS.removeFile temp.path)

end MethodPack.Main

open MethodPack in
/-- Runs the command line and prints what comes of it. -/
def main (words : List String) : IO UInt32 := do
  match ← Command.run Main.access words with
  | .error fault =>
    if fault.status = 0 then IO.print Command.helpText
    else IO.eprintln ("error: " ++ fault.message)
    return fault.status.toUInt32
  | .ok outcome =>
    IO.print outcome.output
    if let some reason := outcome.reason then IO.eprintln ("error: " ++ reason)
    return outcome.status.toUInt32
