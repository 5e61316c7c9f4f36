import MethodPack.Listing.Width
import MethodPack.Number.FloatText
import MethodPack.Packed.Lookup
import MethodPack.Text.Blank
import MethodPack.Text.Quoted

/-! The listing of a whole module: its strings, its blobs, and its methods with one
line for each instruction. Numbers in a column have leading zeros. -/
namespace MethodPack.Listing

open Number (paddedDecimal paddedInt decimal FloatLayout)
open Packed (Module MethodRecord RawInstruction)

/-- Listings write a number positionally from 1e-4 up to 1e16. -/
def listingFloat : FloatLayout :=
  { leadingZeros := 4, wholeDigits := 16, exponentPlus := "", tie := .up }

/-- The widths of the columns of one module. -/
structure Columns where
  string : Nat
  blob : Nat

def Columns.of (m : Module) : Columns :=
  ⟨widthFor (m.strings.size + 1), widthFor (m.blobs.size + 1)⟩

/-- A line with its end. -/
def line (s : String) : String := s ++ "\n"

/-- Bytes in hexadecimal with spaces between them. -/
def spacedBytes (bytes : List UInt8) : String :=
  " ".intercalate (bytes.map fun b => Number.paddedHex 2 b.toNat)

/-- The name of a string by its place and its quoted text. -/
def stringEntry (columns : Columns) (index : Nat) (s : String) : String :=
  "S" ++ paddedDecimal columns.string index ++ " " ++ Text.quote s

/-- The name of a blob by its place. -/
def blobName (columns : Columns) (index : Nat) : String :=
  "B" ++ paddedDecimal columns.blob index

def stringLines (m : Module) (columns : Columns) : List String :=
  m.strings.toList.zipIdx.map fun (s, i) => stringEntry columns (i + 1) s

def blobLines (m : Module) (columns : Columns) : List String :=
  m.blobs.toList.zipIdx.map fun (blob, i) =>
    blobName columns (i + 1) ++ " = [" ++ spacedBytes blob ++ "]"

/-- The operand of an instruction; `width` is that of positions in the method. -/
def operandText (m : Module) (columns : Columns) (width : Nat) (i : RawInstruction) : String :=
  match i.operand with
  | .none => ""
  | .integer v => Number.decimalInt v.toInt
  | .float x => listingFloat.render x
  | .string id =>
    match id.bind fun id => (m.string? id).map fun s => (id, s) with
    | some (id, s) => stringEntry columns id.index.toNat s
    | none => "S? 0x" ++ Number.hex i.raw.toNat
  | .target position => paddedDecimal width position.toNat
  | .targets none => "B? 0x" ++ Number.hex i.raw.toNat
  | .targets (some id) =>
    let targets := match m.switchTargets? id with
      | some positions => ", ".intercalate (positions.map fun p => paddedInt width p.toInt)
      | none => "?"
    blobName columns id.index.toNat ++ " (" ++ targets ++ ")"
  | .member key => m.memberText key
  | .slot index => "V" ++ decimal index.toNat
  | .signature word => "0x" ++ Number.paddedHex 16 word.toNat

/-- The line of the instruction at a position. -/
def instructionLine (m : Module) (columns : Columns) (width position : Nat) (i : RawInstruction) :
    String :=
  Text.trimEnd ("  " ++ paddedDecimal width position ++ "  " ++
    Text.padRight 14 i.opcode.mnemonic ++ operandText m columns width i)

/-- The head line of a method and the lines of its instructions. -/
def methodLines (m : Module) (columns : Columns) (r : MethodRecord) : List String :=
  let head := m.memberText r.key ++ " (args " ++ decimal r.signature.argCount.toNat ++
    (if r.signature.returnsValue then ", returns" else "") ++ ")"
  let width := widthFor r.instructions.length
  head :: r.instructions.zipIdx.map fun (i, position) =>
    instructionLine m columns width position i

/-- The whole listing. -/
def dump (m : Module) : String :=
  let columns := Columns.of m
  let methods := m.methods.map fun r => String.join ((methodLines m columns r).map line)
  line "[strings]" ++ String.join ((stringLines m columns).map line) ++ "\n" ++
    line "[blobs]" ++ String.join ((blobLines m columns).map line) ++ "\n" ++
    line "[methods]" ++ "\n".intercalate methods

/-- The line of a method in the list of members. -/
def memberLine (m : Module) (r : MethodRecord) : String :=
  m.memberText r.key ++ "(" ++ decimal r.signature.argCount.toNat ++ ")" ++
    (if r.signature.returnsValue then " -> value" else "")

/-- The list of members: one line for each method record, in stream order. -/
def listMembers (m : Module) : String := String.join (m.methods.map fun r => line (memberLine m r))

end MethodPack.Listing
