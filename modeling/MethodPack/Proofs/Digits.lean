import MethodPack.Number.Digits

/-!
# Digits

A number that is written in digits reads back, and only digits stand in it.
-/

namespace MethodPack.Number

/-! ## Characters of a number -/

/-- The character is no digit of any base up to sixteen. -/
def NoDigit (c : Char) : Prop := ∀ d < 16, c ≠ Nat.digitChar d

instance (c : Char) : Decidable (NoDigit c) := inferInstanceAs (Decidable (∀ d < 16, _))

namespace NoDigit

variable {c : Char} {s : String}

theorem notMem_toDigits {b : Nat} (h : NoDigit c) (hb : 1 < b) (hb' : b ≤ 16) (n : Nat) :
    c ∉ Nat.toDigits b n := by
  induction n using Nat.strongRecOn with
  | ind n ih =>
    rw [Nat.toDigits_eq_if hb]
    split
    · rename_i hn
      simpa using h n (by omega)
    · have hlast : n % b < b := Nat.mod_lt n (by omega)
      have hrest : n / b < n := Nat.div_lt_self (by omega) hb
      simpa using ⟨ih (n / b) hrest, h (n % b) (by omega)⟩

theorem notMem_zeroPad (h : NoDigit c) (hs : c ∉ s.toList) (width : Nat) :
    c ∉ (zeroPad width s).toList := by
  have hzero : c ≠ '0' := h 0 (by omega)
  simp [zeroPad, hs, hzero]

theorem notMem_decimal (h : NoDigit c) (n : Nat) : c ∉ (decimal n).toList := by
  rw [decimal, String.toList_ofList]
  exact h.notMem_toDigits (by decide) (by decide) n

theorem notMem_hex (h : NoDigit c) (n : Nat) : c ∉ (hex n).toList := by
  rw [hex, String.toList_ofList]
  exact h.notMem_toDigits (by decide) (by decide) n

theorem notMem_paddedDecimal (h : NoDigit c) (width n : Nat) :
    c ∉ (paddedDecimal width n).toList :=
  h.notMem_zeroPad (h.notMem_decimal n) width

theorem notMem_paddedHex (h : NoDigit c) (width n : Nat) : c ∉ (paddedHex width n).toList :=
  h.notMem_zeroPad (h.notMem_hex n) width

end NoDigit

/-! ## Hexadecimal digits read back -/

/-- The value of a hexadecimal digit. -/
def hexValue (c : Char) : Nat :=
  if c.isDigit then c.toNat - '0'.toNat else c.toNat - 'a'.toNat + 10

/-- A number with one more hexadecimal digit behind it. -/
def appendHex (value : Nat) (c : Char) : Nat := value * 16 + hexValue c

theorem hexValue_digitChar : ∀ d < 16, hexValue d.digitChar = d := by decide

theorem appendHex_digitChar (value : Nat) {d : Nat} (h : d < 16) :
    appendHex value d.digitChar = value * 16 + d := by
  rw [appendHex, hexValue_digitChar d h]

/-- Digit by digit, a number comes back. -/
theorem foldl_appendHex_toDigits (n : Nat) : (Nat.toDigits 16 n).foldl appendHex 0 = n := by
  induction n using Nat.strongRecOn with
  | ind n ih =>
    rw [Nat.toDigits_eq_if (by decide)]
    split
    · rename_i hn
      rw [List.foldl_cons, List.foldl_nil, appendHex_digitChar 0 hn]
      omega
    · have hrest : n / 16 < n := Nat.div_lt_self (by omega) (by decide)
      rw [List.foldl_append, ih (n / 16) hrest, List.foldl_cons, List.foldl_nil,
        appendHex_digitChar _ (Nat.mod_lt n (by decide))]
      omega

/-- A byte takes two digits. -/
theorem toList_paddedHex_byte (b : UInt8) :
    (paddedHex 2 b.toNat).toList = [(b.toNat / 16).digitChar, (b.toNat % 16).digitChar] := by
  have hlt : b.toNat < 256 := b.toNat_lt
  rw [paddedHex, zeroPad, hex, Nat.toDigits_eq_if (by decide)]
  split
  · rename_i hsmall
    rw [Nat.div_eq_of_lt hsmall, Nat.mod_eq_of_lt hsmall]
    simp
  · rw [Nat.toDigits_of_lt_base (by omega)]
    simp

end MethodPack.Number
