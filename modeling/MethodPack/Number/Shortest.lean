import MethodPack.Number.Binary

/-! The fewest decimal digits that read back as a given floating-point number,
and among those the nearest to it. -/
namespace MethodPack.Number

/-- How an exact tie between two equally short decimals is settled. -/
inductive DecimalTie where
  | up
  | toEven
deriving DecidableEq, Repr

/-- A decimal `0.d₁d₂… · 10 ^ point` by its digits, as one number, and the place
of its point. -/
structure Decimal where
  digits : Nat
  point : Int
deriving DecidableEq, Repr

namespace Decimal

/-- A positive rational with the interval of numbers that round to it, all over
one denominator. -/
structure Target where
  value : Nat
  low : Nat
  high : Nat
  den : Nat
  /-- Whether the ends of the interval round to the value, too. -/
  closed : Bool

/-- The interval of a finite magnitude: half the distance to either neighbour,
the lower neighbour of a power of two being twice as near. -/
def Target.ofMagnitude (f : BinaryFormat) (magnitude : Nat) : Target :=
  let (significand, scale) := f.parts magnitude
  let unit := 1 <<< scale
  let below := if significand = f.hiddenBit ∧ 0 < scale then 1 else 2
  { value := 4 * significand * unit
    low := (4 * significand - below) * unit
    high := (4 * significand + 2) * unit
    den := 4 <<< f.stepsLog
    closed := significand % 2 == 0 }

/-- Whether `candidate / den` rounds to the value. -/
def Target.accepts (t : Target) (candidate : Nat) : Bool :=
  if t.closed then t.low ≤ candidate && candidate ≤ t.high
  else t.low < candidate && candidate < t.high

/-- The target and the grid step `10 ^ e` brought over one denominator. -/
def Target.onGrid (t : Target) (e : Int) : Target × Nat :=
  match e with
  | .ofNat k => (t, t.den * Nat.pow 10 k)
  | .negSucc k =>
    let m := Nat.pow 10 (k + 1)
    ({ t with value := t.value * m, low := t.low * m, high := t.high * m, den := t.den * m }, t.den)

/-- The better of the two neighbours of the value on the grid of multiples of
`10 ^ e`, if one rounds to the value. -/
def Target.neighbour? (t : Target) (tie : DecimalTie) (e : Int) : Option Nat :=
  let (t, step) := t.onGrid e
  let below := t.value / step
  let rest := t.value % step
  let belowFits := t.accepts (below * step)
  let aboveFits := t.accepts ((below + 1) * step)
  if belowFits && aboveFits then
    if 2 * rest < step then some below
    else if step < 2 * rest then some (below + 1)
    else match tie with
      | .up => some (below + 1)
      | .toEven => some (below + below % 2)
  else if belowFits then some below
  else if aboveFits then some (below + 1)
  else none

/-- The decimal exponent of `num / den`: how many digits stand before its
point, which is negative or zero for a number below one tenth or one. -/
def pointOf (num den : Nat) : Int :=
  if den ≤ num then ((Nat.toDigits 10 (num / den)).length : Int)
  else
    let inverse := (Nat.toDigits 10 (den / num)).length
    if den ≤ num * Nat.pow 10 (inverse - 1) then 2 - (inverse : Int) else 1 - (inverse : Int)

/-- Drops trailing zeros, at most `fuel` of them. -/
def strip : Nat → Nat → Nat
  | 0, n => n
  | fuel + 1, n => if n ≠ 0 ∧ n % 10 = 0 then strip fuel (n / 10) else n

/-- Tries the grids of `count`, `count + 1`, … digits, `fuel` of them. -/
def search (t : Target) (tie : DecimalTie) (point : Int) : Nat → Nat → Decimal
  | 0, count => ⟨t.value * Nat.pow 10 count / t.den, point⟩
  | fuel + 1, count =>
    match t.neighbour? tie (point - count) with
    | some n =>
      if n = Nat.pow 10 count then ⟨1, point + 1⟩ else ⟨strip count n, point⟩
    | none => search t tie point fuel (count + 1)

/-- The shortest decimal of a positive finite magnitude. Seventeen digits always
suffice for the 64-bit format. -/
def shortest (tie : DecimalTie) (f : BinaryFormat) (magnitude : Nat) : Decimal :=
  let t := Target.ofMagnitude f magnitude
  search t tie (pointOf t.value t.den) 17 1

end Decimal
end MethodPack.Number
