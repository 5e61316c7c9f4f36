import MethodPack.Storage.Fault
import MethodPack.Packed.Section

/-! Why a stream is refused. -/
namespace MethodPack.Packed

/-- The counts and lengths of a stream. -/
inductive Counted where
  | instructions
  | strings
  | stringLength
  | blobs
  | blobLength
deriving DecidableEq, Repr

def Counted.text : Counted → String
  | instructions => "instruction count"
  | strings => "string count"
  | stringLength => "string length"
  | blobs => "blob count"
  | blobLength => "blob length"

/-- Why a stream is refused. Offsets are those of the offending word or byte. -/
inductive StreamError where
  | endOfStream (offset needed : Nat)
  | unknownVersion (marker : List UInt8)
  | unknownTag (tag : UInt8) (offset : Nat)
  | unknownOpcode (byte : UInt8) (offset : Nat)
  | negativeLength (what : Counted) (value : Int32) (offset : Nat)
  /-- The string with the given number, counted from one, is no UTF-8. -/
  | invalidUtf8 (index : Nat)
  | missingSection (tag : SectionTag)
  | duplicateSection (tag : SectionTag)
  | storage (fault : StorageFault)
deriving DecidableEq, Repr

open Number in
def StreamError.message : StreamError → String
  | endOfStream offset needed =>
    "unexpected end of stream at offset " ++ decimal offset ++ " (needed " ++ decimal needed ++ " bytes)"
  | unknownVersion marker =>
    "unknown version marker [" ++ ", ".intercalate (marker.map fun b => paddedHex 2 b.toNat) ++ "]"
  | unknownTag tag offset =>
    "unknown record tag " ++ decimal tag.toNat ++ " at offset " ++ decimal offset
  | unknownOpcode byte offset =>
    "unknown opcode " ++ decimal byte.toNat ++ " at offset " ++ decimal offset
  | negativeLength what value offset =>
    "negative " ++ what.text ++ " " ++ decimalInt value.toInt ++ " at offset " ++ decimal offset
  | invalidUtf8 index => "string " ++ decimal index ++ " is not valid UTF-8"
  | missingSection tag => "missing " ++ tag.text ++ " section"
  | duplicateSection tag => "duplicate " ++ tag.text ++ " section"
  | storage fault => "io error: " ++ fault.message

end MethodPack.Packed
