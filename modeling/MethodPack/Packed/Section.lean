import MethodPack.Opcode
import MethodPack.Packed.ByteOrder
import MethodPack.Packed.Reference
import MethodPack.Text.Utf8

/-! The sections of a stream and their bytes. A stream is the version marker and
then sections, each behind a tag: method records and, once each, the string table
and the blob table. Counts and lengths are signed words of four bytes. -/
namespace MethodPack.Packed

inductive SectionTag where
  | method
  | string
  | blob
deriving DecidableEq, Repr

namespace SectionTag

def byte : SectionTag → UInt8
  | method => 0
  | string => 1
  | blob => 2

def ofByte? (b : UInt8) : Option SectionTag :=
  match b with
  | 0 => some method
  | 1 => some string
  | 2 => some blob
  | _ => none

def text : SectionTag → String
  | method => "METHOD"
  | string => "STRING"
  | blob => "BLOB"

end SectionTag

/-- An instruction in a stream. -/
structure RawInstruction where
  opcode : Opcode
  /-- The operand field as a number. -/
  raw : UInt64
deriving DecidableEq, Repr

/-- A section of a stream. -/
inductive Section where
  | method (key : MemberKey) (signature : Int32) (body : List RawInstruction)
  | strings (entries : List String)
  | blobs (entries : List (List UInt8))
deriving DecidableEq, Repr

/-- The largest count or length of a section. -/
def maxLength : Nat := 0x7fffffff

/-- A count or length as a word. -/
def countBytes (order : ByteOrder) (n : Nat) : List UInt8 := order.encodeInt32 (Int32.ofNat n)

/-- An opcode byte and its operand field. -/
def RawInstruction.bytes (order : ByteOrder) (i : RawInstruction) : List UInt8 :=
  i.opcode.byte :: order.encode64 i.raw

/-- A table entry behind its length. -/
def entryBytes (order : ByteOrder) (entry : List UInt8) : List UInt8 :=
  countBytes order entry.length ++ entry

/-- The tag and the count that open a table. -/
def tableHeader (order : ByteOrder) (tag : SectionTag) (count : Nat) : List UInt8 :=
  tag.byte :: countBytes order count

/-- The bytes of a table. -/
def tableBytes (order : ByteOrder) (tag : SectionTag) (entries : List (List UInt8)) : List UInt8 :=
  tableHeader order tag entries.length ++ entries.flatMap (entryBytes order)

/-- The bytes of a section. -/
def Section.bytes (order : ByteOrder) : Section → List UInt8
  | method key signature body =>
    SectionTag.method.byte :: order.encode64 key.word ++ order.encodeInt32 signature ++
      countBytes order body.length ++ body.flatMap (RawInstruction.bytes order)
  | strings entries => tableBytes order .string (entries.map Text.toUtf8)
  | blobs entries => tableBytes order .blob entries

/-- The bytes of a whole stream. -/
def streamBytes (order : ByteOrder) (sections : List Section) : List UInt8 :=
  order.encode16 version ++ sections.flatMap (Section.bytes order)

end MethodPack.Packed
