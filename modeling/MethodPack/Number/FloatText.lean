import MethodPack.Number.Digits
import MethodPack.Number.Shortest

/-! Floating-point numbers as text. The digits are the shortest that read back;
a `FloatLayout` says where positional notation ends and how the rest is written. -/
namespace MethodPack.Number

/-- How a floating-point number is laid out. -/
structure FloatLayout where
  /-- Fewest zeros between point and first digit that call for an exponent. -/
  leadingZeros : Nat
  /-- Most digits before the point in positional notation. -/
  wholeDigits : Nat
  /-- The sign written before a positive exponent. -/
  exponentPlus : String
  tie : DecimalTie
deriving DecidableEq, Repr

namespace FloatLayout

/-- Digits around the point: at least one on either side. -/
def positional (digits : String) (point : Int) : String :=
  match point with
  | .ofNat 0 => "0." ++ digits
  | .ofNat k =>
    if digits.length ≤ k then
      digits ++ String.ofList (List.replicate (k - digits.length) '0') ++ ".0"
    else (digits.take k).toString ++ "." ++ (digits.drop k).toString
  | .negSucc k => "0." ++ String.ofList (List.replicate (k + 1) '0') ++ digits

/-- One digit, a point and the others if there are any, and the exponent. -/
def scientific (layout : FloatLayout) (digits : String) (point : Int) : String :=
  let mantissa :=
    if digits.length ≤ 1 then digits
    else (digits.take 1).toString ++ "." ++ (digits.drop 1).toString
  let e := point - 1
  mantissa ++ "e" ++ (if 0 ≤ e then layout.exponentPlus else "") ++ decimalInt e

/-- The text of a finite magnitude. -/
def finite (layout : FloatLayout) (magnitude : Nat) : String :=
  if magnitude = 0 then "0.0"
  else
    let d := Decimal.shortest layout.tie .double magnitude
    let digits := decimal d.digits
    if -(layout.leadingZeros : Int) < d.point ∧ d.point ≤ layout.wholeDigits then
      positional digits d.point
    else layout.scientific digits d.point

/-- The text of a 64-bit floating-point word. -/
def render (layout : FloatLayout) (x : Binary64) : String :=
  let sign := if x.isNegative then "-" else ""
  let m := x.magnitude
  if m < BinaryFormat.double.infinity then sign ++ layout.finite m
  else if m = BinaryFormat.double.infinity then sign ++ "inf"
  else "NaN"

end FloatLayout
end MethodPack.Number
