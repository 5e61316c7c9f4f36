import MethodPack.Number.Binary
import MethodPack.Number.Digits
import MethodPack.Opcode
import MethodPack.Model.TypeRef

/-! Decoded instructions: a label, an opcode and an operand. The operand's shape
decides how it is encoded, whatever kind the opcode announces. -/
namespace MethodPack

open Number (Binary32 Binary64)

/-- The identity of an instruction within its method; branches point at labels. -/
structure Label where
  offset : UInt32
deriving DecidableEq, Hashable, Repr, Inhabited

/-- A label as text: its offset in four or more hexadecimal digits. -/
def Label.text (l : Label) : String := "IL_" ++ Number.paddedHex 4 l.offset.toNat

/-- An operand as decoded. Floating-point literals are kept by their bits. -/
inductive Operand where
  | none
  | f32 (value : Binary32)
  | f64 (value : Binary64)
  | i8 (value : Int8)
  | u8 (value : UInt8)
  | i32 (value : Int32)
  | u32 (value : UInt32)
  | i64 (value : Int64)
  | u64 (value : UInt64)
  | string (value : String)
  | target (label : Label)
  | targets (labels : List Label)
  | member (ref : MemberRef)
  | slot (index : UInt16)
  /-- A shape that has no encoding, by the name it was handed over with. -/
  | unsupported (shape : String)
deriving DecidableEq, Repr, Inhabited

/-- The short name of an operand's shape. -/
def Operand.shapeName : Operand → String
  | none => "none"
  | f32 _ => "f32"
  | f64 _ => "f64"
  | i8 _ => "i8"
  | u8 _ => "u8"
  | i32 _ => "i32"
  | u32 _ => "u32"
  | i64 _ => "i64"
  | u64 _ => "u64"
  | string _ => "string"
  | target _ => "target"
  | targets _ => "targets"
  | member _ => "member"
  | slot _ => "variable"
  | unsupported shape => shape

/-- One decoded instruction. -/
structure Instruction where
  label : Label
  opcode : Opcode
  operand : Operand
deriving DecidableEq, Repr

/-- An instruction without an operand. -/
def Instruction.bare (offset : UInt32) (opcode : Opcode) : Instruction :=
  ⟨⟨offset⟩, opcode, .none⟩

end MethodPack
