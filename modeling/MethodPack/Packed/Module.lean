import MethodPack.Packed.Cursor
import MethodPack.Number.Binary

/-! Decoded streams: the method records and both tables. Operand fields stay raw
until they are asked for, since the opcode says what they mean. -/
namespace MethodPack.Packed

/-- A method record: which method it is, its signature and its body. -/
structure MethodRecord where
  key : MemberKey
  signature : MethodSignature
  instructions : List RawInstruction
deriving DecidableEq, Repr

/-- A decoded stream. -/
structure Module where
  order : ByteOrder
  methods : List MethodRecord
  strings : Array String
  blobs : Array (List UInt8)
deriving DecidableEq, Repr

namespace Section

def record? : Section → Option MethodRecord
  | method key signature body => some ⟨key, .unpack signature, body⟩
  | _ => none

def strings? : Section → Option (List String)
  | strings entries => some entries
  | _ => none

def blobs? : Section → Option (List (List UInt8))
  | blobs entries => some entries
  | _ => none

end Section

namespace Module

/-- The module that a list of sections makes up. -/
def ofSections (order : ByteOrder) (sections : List Section) : Except StreamError Module :=
  match sections.findSome? Section.strings?, sections.findSome? Section.blobs? with
  | none, _ => .error (.missingSection .string)
  | some _, none => .error (.missingSection .blob)
  | some strings, some blobs =>
    .ok ⟨order, sections.filterMap Section.record?, strings.toArray, blobs.toArray⟩

/-- Decodes a stream. Every section takes a byte at least, so the length of the
stream bounds their number. -/
def ofBytes (bytes : List UInt8) : Except StreamError Module := do
  let (order, c) ← Reader.marker ⟨0, bytes⟩
  let (sections, _) ← Reader.sections order c.rest.length [] [] c
  ofSections order sections

end Module

/-- What an operand field means to its opcode. -/
inductive OperandValue where
  | none
  | integer (value : Int64)
  | float (value : Number.Binary64)
  /-- A place in the string table; none if the field holds no place. -/
  | string (id : Option StringId)
  | target (position : UInt64)
  | targets (id : Option BlobId)
  | member (key : MemberKey)
  | slot (index : UInt64)
  | signature (word : UInt64)
deriving DecidableEq, Repr

namespace RawInstruction

/-- The operand field as a place in a table. -/
def tableId? (i : RawInstruction) : Option (TableId table) :=
  if i.raw.toNat < 0x100000000 then TableId.ofIndex? i.raw.toUInt32 else none

/-- The operand field as its opcode reads it. -/
def operand (i : RawInstruction) : OperandValue :=
  match i.opcode.kind with
  | .none => .none
  | .integer => .integer i.raw.toInt64
  | .float => .float ⟨i.raw⟩
  | .string => .string i.tableId?
  | .target => .target i.raw
  | .targets => .targets i.tableId?
  | .member => .member ⟨i.raw⟩
  | .slot => .slot i.raw
  | .signature => .signature i.raw

end RawInstruction
end MethodPack.Packed
