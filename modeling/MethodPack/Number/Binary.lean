/-! Binary floating-point words: what a word stands for, and the word nearest to
a quotient of natural numbers. A finite magnitude is a natural number of *steps*,
the least positive magnitude of the format, so that rounding and decoding stay in
the natural numbers. -/
namespace MethodPack.Number

/-- A binary format by the widths of its fraction and of its exponent field. -/
structure BinaryFormat where
  fractionBits : Nat
  exponentBits : Nat
deriving DecidableEq, Repr

namespace BinaryFormat

/-- The 32-bit format. -/
def single : BinaryFormat := ⟨23, 8⟩

/-- The 64-bit format. -/
def double : BinaryFormat := ⟨52, 11⟩

/-- The binary logarithm of the number of steps in one. -/
def stepsLog (f : BinaryFormat) : Nat := 1 <<< (f.exponentBits - 1) - 2 + f.fractionBits

/-- The weight of the lowest bit of the exponent field. -/
def hiddenBit (f : BinaryFormat) : Nat := 1 <<< f.fractionBits

/-- The magnitude word of infinity: every exponent bit set, no fraction. -/
def infinity (f : BinaryFormat) : Nat := (1 <<< f.exponentBits - 1) * f.hiddenBit

/-- The weight of the sign bit. -/
def signBit (f : BinaryFormat) : Nat := 1 <<< (f.exponentBits + f.fractionBits)

/-- The magnitude of a word, its sign bit cleared. -/
def magnitude (f : BinaryFormat) (word : Nat) : Nat := word % f.signBit

/-- Whether the sign bit of a word is set. -/
def isNegative (f : BinaryFormat) (word : Nat) : Bool := word / f.signBit % 2 == 1

/-- The significand of a finite magnitude and the exponent of two that scales it
to steps. -/
def parts (f : BinaryFormat) (magnitude : Nat) : Nat × Nat :=
  let field := magnitude / f.hiddenBit
  let fraction := magnitude % f.hiddenBit
  if field = 0 then (fraction, 0) else (fraction + f.hiddenBit, field - 1)

/-- The number of steps in a finite magnitude. -/
def steps (f : BinaryFormat) (magnitude : Nat) : Nat :=
  let (significand, scale) := f.parts magnitude
  significand <<< scale

/-- `num / den` to the nearest natural number, a tie to the even one. -/
def roundQuotient (num den : Nat) : Nat :=
  let q := num / den
  let twice := 2 * (num % den)
  if twice < den then q
  else if den < twice then q + 1
  else q + q % 2

/-- The magnitude nearest to `num / den` steps, a tie to the even significand;
infinity beyond the largest finite one. A significand that rounds up to the next
power of two carries into the exponent field by itself. -/
def nearest (f : BinaryFormat) (num den : Nat) : Nat :=
  let whole := num / den
  let scale := Nat.log2 whole - f.fractionBits
  min f.infinity (scale * f.hiddenBit + roundQuotient num (den <<< scale))

/-- A NaN seen in a wider or narrower format: sign and leading fraction bits
stay, and the result is quiet. -/
def convertNaN (source target : BinaryFormat) (fraction : Nat) : Nat :=
  let top := 1 <<< (target.fractionBits - 1)
  let moved := fraction <<< target.fractionBits >>> source.fractionBits
  target.infinity + (if moved / top % 2 = 1 then moved else moved + top)

/-- The word of another format nearest to a word. -/
def convert (source target : BinaryFormat) (word : Nat) : Nat :=
  let m := source.magnitude word
  let sign := if source.isNegative word then target.signBit else 0
  if m < source.infinity then
    sign + target.nearest (source.steps m <<< target.stepsLog) (1 <<< source.stepsLog)
  else if m = source.infinity then sign + target.infinity
  else sign + convertNaN source target (m - source.infinity)

end BinaryFormat

/-- A 32-bit floating-point word. -/
structure Binary32 where
  bits : UInt32
deriving DecidableEq, Repr, Inhabited

/-- A 64-bit floating-point word. -/
structure Binary64 where
  bits : UInt64
deriving DecidableEq, Repr, Inhabited

/-- The 64-bit word of the same value; a NaN becomes quiet. -/
def Binary32.widen (x : Binary32) : Binary64 :=
  ⟨(BinaryFormat.single.convert .double x.bits.toNat).toUInt64⟩

namespace Binary64

open BinaryFormat

/-- The quiet NaN with no further bits. -/
def nan : Binary64 := ⟨0x7ff8000000000000⟩

def infinity : Binary64 := ⟨0x7ff0000000000000⟩

def zero : Binary64 := ⟨0⟩

/-- The magnitude word. -/
def magnitude (x : Binary64) : Nat := double.magnitude x.bits.toNat

def isNegative (x : Binary64) : Bool := double.isNegative x.bits.toNat

def isInfinite (x : Binary64) : Bool := x.magnitude == double.infinity

/-- The same magnitude with the other sign. -/
def negate (x : Binary64) : Binary64 := ⟨x.bits ^^^ 0x8000000000000000⟩

/-- The nearest word to a quotient. -/
def ofQuotient (num den : Nat) : Binary64 :=
  ⟨(double.nearest (num <<< double.stepsLog) den).toUInt64⟩

/-- The nearest word to a natural number. -/
def ofNat (n : Nat) : Binary64 := ofQuotient n 1

/-- The nearest word to an integer. -/
def ofInt : Int → Binary64
  | .ofNat n => ofNat n
  | .negSucc n => (ofNat (n + 1)).negate

/-- The product of two finite magnitudes, rounded once. -/
def mul (x y : Binary64) : Binary64 :=
  ofQuotient (double.steps x.magnitude * double.steps y.magnitude) (1 <<< (2 * double.stepsLog))

/-- The quotient of two finite magnitudes, rounded once. -/
def div (x y : Binary64) : Binary64 :=
  ofQuotient (double.steps x.magnitude) (double.steps y.magnitude)

/-- The nearest 32-bit word. -/
def narrow (x : Binary64) : Binary32 :=
  ⟨(double.convert .single x.bits.toNat).toUInt32⟩

end Binary64
end MethodPack.Number
