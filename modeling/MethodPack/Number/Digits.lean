/-! Numbers as text: decimal and hexadecimal digits, and zero padding on the
left to a least width. A minus sign counts towards the width. -/
namespace MethodPack.Number

/-- The decimal digits of `n`, without leading zeros. -/
def decimal (n : Nat) : String := String.ofList (Nat.toDigits 10 n)

/-- The lowercase hexadecimal digits of `n`, without leading zeros. -/
def hex (n : Nat) : String := String.ofList (Nat.toDigits 16 n)

/-- `s` behind as many zeros as make it `width` characters long. -/
def zeroPad (width : Nat) (s : String) : String :=
  String.ofList (List.replicate (width - s.length) '0') ++ s

/-- `n` in at least `width` decimal digits. -/
def paddedDecimal (width n : Nat) : String := zeroPad width (decimal n)

/-- `n` in at least `width` hexadecimal digits. -/
def paddedHex (width n : Nat) : String := zeroPad width (hex n)

/-- An integer in decimal, with a minus sign if it is negative. -/
def decimalInt : Int → String
  | .ofNat n => decimal n
  | .negSucc n => "-" ++ decimal (n + 1)

/-- An integer in at least `width` characters, the zeros after its sign. -/
def paddedInt (width : Nat) : Int → String
  | .ofNat n => paddedDecimal width n
  | .negSucc n => "-" ++ paddedDecimal (width - 1) (n + 1)

/-- Bytes as pairs of hexadecimal digits, one behind the other. -/
def hexBytes (bytes : List UInt8) : String :=
  String.join (bytes.map fun b => paddedHex 2 b.toNat)

end MethodPack.Number
