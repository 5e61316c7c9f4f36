import MethodPack.Json.Tree
import MethodPack.Number.FloatText
import MethodPack.Text.Quoted

/-! Why a metadata document is refused, and how that is worded. -/
namespace MethodPack.Metadata

open Number (Binary64 FloatLayout)
open Json (Fault)

/-- The integers a field takes. -/
structure IntRange where
  name : String
  low : Int
  high : Int
deriving DecidableEq, Repr

namespace IntRange

def signed8 : IntRange := ⟨"i8", -0x80, 0x7f⟩
def unsigned8 : IntRange := ⟨"u8", 0, 0xff⟩
def unsigned16 : IntRange := ⟨"u16", 0, 0xffff⟩
def signed32 : IntRange := ⟨"i32", -0x80000000, 0x7fffffff⟩
def unsigned32 : IntRange := ⟨"u32", 0, 0xffffffff⟩
def signed64 : IntRange := ⟨"i64", -0x8000000000000000, 0x7fffffffffffffff⟩
def unsigned64 : IntRange := ⟨"u64", 0, 0xffffffffffffffff⟩

end IntRange

/-- A record of the document: its name in messages and its fields in order. -/
structure Record where
  name : String
  fields : List String
deriving DecidableEq, Repr

namespace Record

def typeDef : Record := ⟨"TypeDef", ["namespace", "name", "methods", "nested"]⟩

def methodDef : Record :=
  ⟨"MethodDef", ["name", "generic_params", "params", "has_this", "return_type", "instructions"]⟩

def instruction : Record := ⟨"Instruction", ["label", "opcode", "operand"]⟩

def operand : Record := ⟨"RawOperand", ["kind", "value"]⟩

def typeRef : Record := ⟨"TypeRef", ["namespace", "name", "declaring"]⟩

def memberRef : Record := ⟨"MemberRef", ["declaring", "name"]⟩

end Record

/-- What a field asks for. -/
inductive Wanted where
  | string
  | bool
  | sequence
  | integer (range : IntRange)
  | record (record : Record)
deriving DecidableEq, Repr

/-- What stands in the document instead. -/
inductive Found where
  | null
  | bool (value : Bool)
  | integer (value : Int)
  | float (value : Binary64)
  | string (value : String)
  | sequence
  | map
deriving DecidableEq, Repr

/-- Why a document is refused. -/
inductive Problem where
  /-- The text is no JSON, or nests too deeply, or holds a number too large. -/
  | fault (fault : Fault)
  | wrongType (found : Found) (wanted : Wanted)
  | outOfRange (value : Int) (range : IntRange)
  | missingField (name : String)
  | duplicateField (name : String)
  /-- A record written as an array lacks the field at `index`. -/
  | tooShort (index : Nat) (record : Record)
  /-- A record written as an array has more items than fields. -/
  | tooLong (length : Nat)
  | unknownMnemonic (mnemonic : String)
  | unknownFloat (literal : String)
  | floatBitsOutOfRange (bits : UInt64)
  | noFloatForm
deriving DecidableEq, Repr

/-- Messages write a number positionally from 1e-5 up to 1e16, and with a plus before
a positive exponent. -/
def messageFloat : FloatLayout :=
  { leadingZeros := 5, wholeDigits := 16, exponentPlus := "+", tie := .toEven }

def quoted (s : String) : String := "`" ++ s ++ "`"

def Wanted.text : Wanted → String
  | string => "a string"
  | bool => "a boolean"
  | sequence => "a sequence"
  | integer range => range.name
  | record r => "struct " ++ r.name

def Found.text : Found → String
  | null => "null"
  | bool b => "boolean " ++ quoted (if b then "true" else "false")
  | integer i => "integer " ++ quoted (Number.decimalInt i)
  | float x => "floating point " ++ quoted (messageFloat.render x)
  | string s => "string " ++ Text.quote s
  | sequence => "sequence"
  | map => "map"

/-! ## Position marks

A message never carries the line and column of the fault. A text that ends like such
a mark loses its end, too. -/

/-- The number of leading digits, if there are some and they fit 64 bits, and the
characters behind them. The characters are given last first. -/
def takeNumberBackward (chars : List Char) : Option (Nat × List Char) :=
  let digits := (chars.takeWhile Char.isDigit).reverse
  let value := Json.Numeral.ofDigits (digits.map fun c => c.toNat - '0'.toNat)
  if digits.isEmpty || 0x10000000000000000 ≤ value then none
  else some (value, chars.dropWhile Char.isDigit)

/-- The line of a position mark at the end of a text and the text before the mark. -/
def splitPosition? (s : String) : Option (Nat × String) := do
  let (_, rest) ← takeNumberBackward s.toList.reverse
  guard (" column ".toList.reverse.isPrefixOf rest)
  let (line, rest) ← takeNumberBackward (rest.drop " column ".length)
  guard (" at line ".toList.reverse.isPrefixOf rest)
  pure (line, String.ofList (rest.drop " at line ".length).reverse)

/-- The text without one position mark at its end. -/
def dropPosition (s : String) : String :=
  match splitPosition? s with
  | some (_, before) => before
  | none => s

/-- The text without a position mark at its end; behind a mark of line zero a second
one goes, too. -/
def dropPositions (s : String) : String :=
  match splitPosition? s with
  | some (0, before) => dropPosition before
  | some (_, before) => before
  | none => s

/-- The message of a problem with the content; a fault of the text has none. -/
def Problem.message? : Problem → Option String
  | fault _ => none
  | wrongType found wanted => some s!"invalid type: {found.text}, expected {wanted.text}"
  | outOfRange value range =>
    some ("invalid value: " ++ (Found.integer value).text ++ ", expected " ++ range.name)
  | missingField name => some ("missing field " ++ quoted name)
  | duplicateField name => some ("duplicate field " ++ quoted name)
  | tooShort index record =>
    some ("invalid length " ++ Number.decimal index ++ ", expected struct " ++ record.name ++
      " with " ++ Number.decimal record.fields.length ++ " elements")
  | tooLong length =>
    some ("invalid length " ++ Number.decimal length ++ ", expected fewer elements in array")
  | unknownMnemonic mnemonic => some (dropPosition ("unknown opcode mnemonic: " ++ mnemonic))
  | unknownFloat literal => some (dropPositions ("unknown float literal: " ++ literal))
  | floatBitsOutOfRange bits => some ("f32 bits out of range: 0x" ++ Number.hex bits.toNat)
  | noFloatForm => some "data did not match any variant of untagged enum FloatLiteral"

end MethodPack.Metadata
