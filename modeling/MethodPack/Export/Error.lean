import MethodPack.Model.Definition
import MethodPack.Packed.Section
import MethodPack.Storage.Fault

/-! Why an export stops. -/
namespace MethodPack.Export

open Packed (KeyOverflow SectionTag MethodSignature maxLength)

/-- Why an export stops. Problems of a method carry its full name. -/
inductive ExportError where
  /-- The operand has a shape without encoding. -/
  | unsupportedOperand (method : String) (opcode : Opcode) (shape : String)
  /-- No instruction of the method carries the label. -/
  | unresolvedTarget (method : String) (label : Label)
  | duplicateLabel (method : String) (label : Label)
  | keyOverflow (overflow : KeyOverflow)
  | tooManyStrings (count : Nat)
  | tooManyBlobs (count : Nat)
  | tooManyInstructions (method : String) (count : Nat)
  | tooManyArguments (method : String) (count : Nat)
  | entryTooLarge (tag : SectionTag) (length : Nat)
  | storage (fault : StorageFault)
deriving DecidableEq, Repr

namespace ExportError

/-- A count beyond its limit. -/
def excess (what : String) (count limit : Nat) : String :=
  "too many " ++ what ++ ": " ++ Number.decimal count ++ " (max " ++ Number.decimal limit ++ ")"

def message : ExportError → String
  | unsupportedOperand method opcode shape =>
    method ++ ": unsupported operand kind `" ++ shape ++ "` on `" ++ opcode.mnemonic ++ "`"
  | unresolvedTarget method label =>
    method ++ ": branch target " ++ label.text ++ " is not an instruction of this method"
  | duplicateLabel method label => method ++ ": duplicate instruction label " ++ label.text
  | keyOverflow overflow => overflow.message
  | tooManyStrings count => excess "strings" count maxLength
  | tooManyBlobs count => excess "blobs" count maxLength
  | tooManyInstructions method count => method ++ ": " ++ excess "instructions" count maxLength
  | tooManyArguments method count =>
    method ++ ": " ++ excess "arguments" count MethodSignature.maxArgs
  | entryTooLarge tag length =>
    tag.text ++ " entry too large: " ++ Number.decimal length ++ " bytes"
  | storage fault => "io error: " ++ fault.message

end ExportError
end MethodPack.Export
