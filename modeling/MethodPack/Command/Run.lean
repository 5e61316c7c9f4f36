import MethodPack.Command.Arguments
import MethodPack.Export.Publish
import MethodPack.Listing.Dump
import MethodPack.Metadata.Decode

/-! Running a command line over files. A run ends with a status, the text it prints and,
when it fails, the reason. -/
namespace MethodPack.Command

open Export (ExportError Summary)
open Metadata (Problem)
open Packed (Module StreamError)

variable {Temp : Type} {m : Type → Type} [Monad m]

/-- Why a metadata file yields no types. -/
inductive LoadError where
  | unreadable (path : String) (fault : StorageFault)
  | invalid (path : String) (problem : Problem)
deriving DecidableEq, Repr

def LoadError.message : LoadError → String
  | unreadable path fault => "failed to read " ++ path ++ ": " ++ fault.message
  | invalid path problem =>
    "invalid metadata in " ++ path ++ ": " ++ (problem.message?).getD "the text is no JSON document"

/-- The types of some bytes, which must be UTF-8 before they are read as a document. -/
def typesOf (path : String) (bytes : List UInt8) : Except LoadError (List TypeDef) :=
  match Text.ofUtf8? bytes with
  | none => .error (.unreadable path .notText)
  | some text => (Metadata.parseTypes text).mapError (.invalid path)

/-- The types of a metadata file. -/
def loadTypes (files : FileAccess Temp m) (path : String) :
    m (Except LoadError (List TypeDef)) := do
  match ← files.read path with
  | .error fault => return .error (.unreadable path fault)
  | .ok bytes => return typesOf path bytes

/-- The stream of a file. -/
def loadModule (files : FileAccess Temp m) (path : String) : m (Except StreamError Module) := do
  match ← files.read path with
  | .error fault => return .error (.storage fault)
  | .ok bytes => return Module.ofBytes bytes

/-- The line that reports an export. -/
def summaryLine (path : String) (s : Summary) : String :=
  let part (n : Nat) (what : String) : String := Number.decimal n ++ " " ++ what
  "wrote " ++ path ++ ": " ++ ", ".intercalate
    [part s.types "types", part s.methods "methods", part s.instructions "instructions",
      part s.strings "strings", part s.blobs "blobs"]

/-- How a run ends. -/
structure Outcome where
  status : Nat := 0
  output : String := ""
  reason : Option String := none
deriving DecidableEq, Repr

/-- A run that fails with a reason. -/
def Outcome.failed (reason : String) : Outcome := { status := 1, reason }

/-- Runs a task. -/
def Task.run (files : FileAccess Temp m) : Task → m Outcome
  | .pack metadata ns output => do
    match ← loadTypes files metadata with
    | .error e => return .failed e.message
    | .ok types =>
      match ← Export.publish files types ns output with
      | .error e => return .failed e.message
      | .ok summary => return { output := Listing.line (summaryLine output summary) }
  | .dump path => do list path Listing.dump
  | .members path => do list path Listing.listMembers
where
  /-- Prints a stream in a given way. -/
  list (path : String) (text : Module → String) : m Outcome := do
    match ← loadModule files path with
    | .error e => return .failed (path ++ ": " ++ e.message)
    | .ok module => return { output := text module }

/-- Runs a command line. -/
def run (files : FileAccess Temp m) (words : List String) : m (Except UsageFault Outcome) :=
  match Invocation.ofArguments words with
  | .error fault => return .error fault
  | .ok invocation => return .ok (← invocation.task.run files)

end MethodPack.Command
