import MethodPack.Packed.Error

/-! Reading a stream from front to back. A reader takes bytes off the front of the
rest and keeps count of the offset, which errors report. -/
namespace MethodPack.Packed

/-- A place in a stream. -/
structure Cursor where
  offset : Nat
  rest : List UInt8
deriving DecidableEq, Repr

/-- A step that takes bytes off the front, or fails. -/
abbrev Reader := StateT Cursor (Except StreamError)

namespace Reader

/-- The current offset. -/
def offset : Reader Nat := fun c => .ok (c.offset, c)

/-- Takes `n` bytes. -/
def take (n : Nat) : Reader (List UInt8) := fun c =>
  let taken := c.rest.take n
  if taken.length = n then .ok (taken, ⟨c.offset + n, c.rest.drop n⟩)
  else .error (.endOfStream c.offset n)

def byte : Reader UInt8 := do return (← take 1).headD 0

def word64 (order : ByteOrder) : Reader UInt64 := do return order.decode64 (← take 8)

def int32 (order : ByteOrder) : Reader Int32 := do return order.decodeInt32 (← take 4)

/-- A count or length, which must not be negative. -/
def count (order : ByteOrder) (what : Counted) : Reader Nat := do
  let offset ← offset
  let value ← int32 order
  if value < 0 then throw (.negativeLength what value offset) else return value.toInt.toNat

/-- Reads `n` things numbered from `first`, behind those of `before`, last first. -/
def repeating (read : Nat → Reader α) : (n first : Nat) → (before : List α) → Reader (List α)
  | 0, _, before => return before.reverse
  | n + 1, first, before => do
    let x ← read first
    repeating read n (first + 1) (x :: before)

/-- An opcode byte and its operand field. -/
def instruction (order : ByteOrder) : Reader RawInstruction := do
  let offset ← offset
  let byte ← byte
  match Opcode.ofByte? byte with
  | none => throw (.unknownOpcode byte offset)
  | some opcode => return ⟨opcode, ← word64 order⟩

/-- A method record behind its tag. -/
def method (order : ByteOrder) : Reader Section := do
  let key ← word64 order
  let signature ← int32 order
  let n ← count order .instructions
  return .method ⟨key⟩ signature (← repeating (fun _ => instruction order) n 0 [])

/-- The string with the given number. -/
def string (order : ByteOrder) (number : Nat) : Reader String := do
  let length ← count order .stringLength
  let bytes ← take length
  match Text.ofUtf8? bytes with
  | none => throw (.invalidUtf8 number)
  | some s => return s

/-- The string table behind its tag. -/
def strings (order : ByteOrder) : Reader Section := do
  let n ← count order .strings
  return .strings (← repeating (string order) n 1 [])

/-- The blob table behind its tag. -/
def blobs (order : ByteOrder) : Reader Section := do
  let n ← count order .blobs
  return .blobs (← repeating (fun _ => do take (← count order .blobLength)) n 0 [])

/-- The section behind a tag. -/
def sectionOf (order : ByteOrder) : SectionTag → Reader Section
  | .method => method order
  | .string => strings order
  | .blob => blobs order

/-- A tag at the current offset. -/
def tag : Reader SectionTag := do
  let offset ← offset
  let byte ← byte
  match SectionTag.ofByte? byte with
  | none => throw (.unknownTag byte offset)
  | some tag => return tag

/-- Reads sections to the end, at most `fuel` of them, behind those of `before`, last
first. A table of which there is one already is refused at its tag. -/
def sections (order : ByteOrder) : (fuel : Nat) → (seen : List SectionTag) → (before : List Section) →
    Reader (List Section)
  | 0, _, before => return before.reverse
  | fuel + 1, seen, before => do
    if (← get).rest.isEmpty then return before.reverse
    let tag ← tag
    if tag ∈ seen then throw (.duplicateSection tag)
    let read ← sectionOf order tag
    let seen := if tag = .method then seen else tag :: seen
    sections order fuel seen (read :: before)

/-- The version marker. -/
def marker : Reader ByteOrder := do
  let bytes ← take 2
  match ByteOrder.detect? bytes with
  | none => throw (.unknownVersion bytes)
  | some order => return order

end Reader
end MethodPack.Packed
