import MethodPack.Export.BlobTable
import MethodPack.Export.Positions
import MethodPack.Export.StringTable

/-! Encoding operands and references. The operand field carries no mark of its kind:
the shape of the operand decides how it is encoded. What an encoding adds to the
tables stays there when it fails later on. -/
namespace MethodPack.Export

open Packed (StringId BlobId MemberKey RawInstruction ByteOrder)

/-- The two tables an export fills. -/
structure Tables where
  strings : StringTable := .empty
  blobs : BlobTable := .empty
deriving Inhabited

/-- A step that works on the tables and may fail; the tables outlive the failure. -/
abbrev Encoder := ExceptT ExportError (StateM Tables)

namespace Encoder

/-- The place of a string. -/
def intern (s : String) : Encoder StringId := fun ⟨strings, blobs⟩ =>
  let (result, strings) := strings.intern s
  (result, ⟨strings, blobs⟩)

/-- The place of a new blob. -/
def push (blob : List UInt8) : Encoder BlobId := fun ⟨strings, blobs⟩ =>
  let (result, blobs) := blobs.push blob
  (result, ⟨strings, blobs⟩)

/-- The reference word of a member. Namespace, type and name are interned in this
order, all three before the word is packed. -/
def reference (type : QualifiedType) (member : String) : Encoder MemberKey := do
  let ns ← intern type.ns
  let path ← intern type.path
  let name ← intern member
  match MemberKey.pack ns path name with
  | .ok key => return key
  | .error overflow => throw (.keyOverflow overflow)

/-- The reference word of a member operand. -/
def memberReference (m : MemberRef) : Encoder MemberKey := reference m.declaring.qualify m.name

/-- The position of a label. -/
def resolve (method : String) (positions : Positions) (label : Label) : Encoder UInt32 :=
  match positions.position? label with
  | some position => return position
  | none => throw (.unresolvedTarget method label)

/-- The blob that lists positions. Writers are little-endian. -/
def switchBlob (positions : List UInt32) : List UInt8 :=
  positions.flatMap fun p => ByteOrder.little.encodeInt32 p.toInt32

/-- The operand field of an instruction, as a number. -/
def operand (method : String) (positions : Positions) (i : Instruction) : Encoder UInt64 := do
  match i.operand with
  | .none => return 0
  | .f32 x => return x.widen.bits
  | .f64 x => return x.bits
  | .i8 v => return v.toInt64.toUInt64
  | .u8 v => return v.toUInt64
  | .i32 v => return v.toInt64.toUInt64
  | .u32 v => return v.toUInt64
  | .i64 v => return v.toUInt64
  | .u64 v => return v
  | .string s => return (← intern s).index.toUInt64
  | .target label => return (← resolve method positions label).toUInt64
  | .targets labels =>
    let targets ← labels.mapM (resolve method positions)
    return (← push (switchBlob targets)).index.toUInt64
  | .member m => return (← memberReference m).word
  | .slot index => return index.toUInt64
  | .unsupported shape => throw (.unsupportedOperand method i.opcode shape)

/-- An instruction as it stands in a stream. -/
def instruction (method : String) (positions : Positions) (i : Instruction) :
    Encoder RawInstruction := do
  return ⟨i.opcode, ← operand method positions i⟩

end Encoder
end MethodPack.Export
