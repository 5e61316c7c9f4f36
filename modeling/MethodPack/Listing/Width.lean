/-! Column widths: how many digits the numbers below a count take. The width comes
from a base-ten logarithm in 64-bit floating point, which rounds up to a whole number
just below a power of ten; such a count gets the width of the power. -/
namespace MethodPack.Listing

/-- `n` rounded to 53 significant bits, a tie to the even neighbour. -/
def roundTo53 (n : Nat) : Nat :=
  let unit := 1 <<< (Nat.log2 n - 52)
  let q := n / unit
  let twice := 2 * (n % unit)
  (if twice < unit then q else if unit < twice then q + 1 else q + q % 2) * unit

/-- Whether the logarithm of `n` is at least `k` once it is rounded. It is rounded to
multiples of 2⁻⁴⁹ up to 16 and of 2⁻⁴⁸ above; 2.31 stands for the derivative of the
power, the natural logarithm of ten. -/
def logReaches (n k : Nat) : Bool :=
  let step := if k ≤ 16 then 50 else 49
  let power := Nat.pow 10 k
  power ≤ n || (power - n) * 100 <<< step ≤ 231 * power

/-- The digits of numbers below `count`, at least one. -/
def widthFor (count : Nat) : Nat :=
  if count ≤ 1 then 1
  else
    let n := roundTo53 (count - 1)
    let digits := (Nat.toDigits 10 n).length
    if logReaches n digits then digits + 1 else digits

end MethodPack.Listing
