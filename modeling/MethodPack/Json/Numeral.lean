import MethodPack.Number.Binary

/-! JSON numerals and the numbers they stand for. A numeral without point and
exponent that fits 64 bits is an integer. Any other numeral is a floating-point
number, computed the cheap way: the leading digits that fit 64 bits form a
significand, which is then scaled by one rounded power of ten. -/
namespace MethodPack.Json

open Number (Binary64)

/-- A numeral as written: sign, digits before the point, digits after it, and the
exponent with its own sign. Only a numeral with a point has fraction digits. -/
structure Numeral where
  negative : Bool
  whole : List Nat
  fraction : List Nat := []
  exponent : Option (Bool × List Nat) := none
deriving DecidableEq, Repr, Inhabited

/-- What a numeral stands for. -/
inductive Number where
  | integer (value : Int)
  | float (value : Binary64)
deriving DecidableEq, Repr, Inhabited

namespace Numeral

/-- The largest significand. -/
def significandMax : Nat := 0xffffffffffffffff

/-- The largest magnitude of a written exponent. -/
def exponentMax : Nat := 0x7fffffff

/-- Appends digits to a significand while it fits, and counts those left out. The
first digit that does not fit ends the significand. -/
def gather (significand : Nat) : List Nat → Nat × Nat
  | [] => (significand, 0)
  | d :: ds =>
    if significand * 10 + d ≤ significandMax then gather (significand * 10 + d) ds
    else (significand, ds.length + 1)

/-- The number written by decimal digits. -/
def ofDigits (digits : List Nat) : Nat := digits.foldl (fun n d => n * 10 + d) 0

/-- The power of ten, rounded to a floating-point number. -/
def tenTo (k : Nat) : Binary64 := .ofNat (Nat.pow 10 k)

/-- `significand · 10 ^ exponent`. The significand is rounded first, then scaled by
at most two rounded powers of ten; none is left after the second power of a
negative exponent below -616. Without an answer if the result is infinite. -/
def scale (significand : Nat) (exponent : Int) : Option Binary64 :=
  let f := Binary64.ofNat significand
  match exponent with
  | .ofNat e =>
    if e ≤ 308 then
      let product := f.mul (tenTo e)
      if product.isInfinite then none else some product
    else if significand = 0 then some .zero
    else none
  | .negSucc e =>
    let e := e + 1
    if e ≤ 308 then some (f.div (tenTo e))
    else if e ≤ 616 then some ((f.div (tenTo 308)).div (tenTo (e - 308)))
    else some .zero

/-- An exponent kept within 32 bits. -/
def clamp (e : Int) : Int := max (-2147483648) (min 2147483647 e)

/-- The number with its sign. -/
def signed (negative : Bool) (x : Binary64) : Binary64 := if negative then x.negate else x

/-- The floating-point number of a numeral, if it is finite. -/
def float? (n : Numeral) : Option Binary64 :=
  let (head, dropped) := gather 0 n.whole
  let (significand, left) := gather head n.fraction
  let start : Int := (dropped : Int) - ((n.fraction.length - left : Nat) : Int)
  match n.exponent with
  | none => (scale significand start).map (signed n.negative)
  | some (down, digits) =>
    let written := ofDigits digits
    if exponentMax < written then
      if significand ≠ 0 ∧ !down then none else some (signed n.negative .zero)
    else
      let e : Int := if down then start - written else start + written
      (scale significand (clamp e)).map (signed n.negative)

/-- The integer of a numeral, if it is written as one and fits 64 bits: unsigned, or
signed and negative. A negative zero is no integer. -/
def integer? (n : Numeral) : Option Int :=
  if n.fraction.isEmpty && n.exponent.isNone then
    let value := ofDigits n.whole
    if n.negative then
      if value ≠ 0 ∧ value ≤ 0x8000000000000000 then some (-(value : Int)) else none
    else if value ≤ significandMax then some value
    else none
  else none

/-- What the numeral stands for; none if it is too large for a finite number. -/
def value? (n : Numeral) : Option Number :=
  match n.integer? with
  | some i => some (.integer i)
  | none => n.float?.map .float

/-- The numeral of a natural number. -/
def ofNat (n : Nat) : Numeral :=
  { negative := false, whole := (Nat.toDigits 10 n).map fun c => c.toNat - '0'.toNat }

/-- The numeral of an integer. -/
def ofInt : Int → Numeral
  | .ofNat n => ofNat n
  | .negSucc n => { ofNat (n + 1) with negative := true }

end Numeral
end MethodPack.Json
