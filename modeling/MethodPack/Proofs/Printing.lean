import Mathlib.Tactic.IntervalCases
import MethodPack.Proofs.Spelling
import MethodPack.Proofs.Trees

/-!
# Printing

The text of a tree without blanks. What is printed is a text of the grammar for the same tree
(`Document.spelled_print`), provided that every unit of its strings may stand in a string and
its numerals are written as numerals are.
-/

namespace MethodPack.Json

/-! ## Strings -/

/-- The letter of the short escape a character is printed with. A slash needs none. -/
def escapeLetter? (c : Char) : Option Char :=
  (shortEscapes.find? fun p => p.1 == c && c != '/').map Prod.snd

/-- The four hexadecimal digits of sixteen bits. -/
def hexDigits (bits : UInt16) : List Char :=
  [bits.toNat / 4096, bits.toNat / 256 % 16, bits.toNat / 16 % 16, bits.toNat % 16].map
    Nat.digitChar

def TextUnit.print : TextUnit → List Char
  | .char c =>
    match escapeLetter? c with
    | some letter => ['\\', letter]
    | none => [c]
  | .escape bits => '\\' :: 'u' :: hexDigits bits

/-- A control character can be written only where it has a short escape. -/
def TextUnit.Printable : TextUnit → Prop
  | .char c => 0x20 ≤ c.toNat ∨ (escapeLetter? c).isSome
  | .escape _ => True

def Text.print (t : Text) : List Char := '"' :: (t.units.flatMap TextUnit.print ++ ['"'])

theorem hexDigit_digitChar (value : Nat) (h : value < 16) : HexDigit value.digitChar value := by
  interval_cases value <;> exact .inl rfl

theorem mem_of_escapeLetter? {c letter : Char} (h : escapeLetter? c = some letter) :
    (c, letter) ∈ shortEscapes := by
  obtain ⟨⟨c', _⟩, hfind, rfl⟩ := Option.map_eq_some_iff.mp h
  have hc := List.find?_some hfind
  simp only [Bool.and_eq_true, beq_iff_eq] at hc
  exact hc.1 ▸ List.mem_of_find?_eq_some hfind

theorem TextUnit.spelled_print {unit : TextUnit} (h : unit.Printable) :
    unit.Spelled unit.print := by
  cases unit with
  | char c =>
    rw [TextUnit.print]
    split
    · exact .short (mem_of_escapeLetter? ‹_›)
    · rename_i hnone
      refine .plain (by simpa [Printable, hnone] using h) ?_ ?_ <;>
        (rintro rfl; revert hnone; decide)
  | escape bits =>
    have hlt : bits.toNat < 65536 := bits.toNat_lt
    have hspelled := TextUnit.Spelled.numeric
      (hexDigit_digitChar (bits.toNat / 4096) (by omega))
      (hexDigit_digitChar (bits.toNat / 256 % 16) (by omega))
      (hexDigit_digitChar (bits.toNat / 16 % 16) (by omega))
      (hexDigit_digitChar (bits.toNat % 16) (by omega))
    have hvalue : ((bits.toNat / 4096 * 16 + bits.toNat / 256 % 16) * 16 +
        bits.toNat / 16 % 16) * 16 + bits.toNat % 16 = bits.toNat := by omega
    rw [hvalue, Nat.toUInt16_eq, UInt16.ofNat_toNat] at hspelled
    exact hspelled

theorem Text.spelled_print {t : Text} (hfault : t.fault = none)
    (h : ∀ unit ∈ t.units, unit.Printable) : t.Spelled t.print := by
  obtain ⟨units, fault⟩ := t
  subst hfault
  refine .quoted ?_
  induction units with
  | nil => exact .nil
  | cons unit units ih =>
    obtain ⟨hunit, hunits⟩ := List.forall_mem_cons.mp h
    exact .cons (TextUnit.spelled_print hunit) (ih hunits)

/-! ## Numerals -/

def Numeral.print (n : Numeral) : List Char :=
  (if n.negative then ['-'] else []) ++ (digitChars n.whole ++
    ((if n.fraction.isEmpty then [] else '.' :: digitChars n.fraction) ++
      match n.exponent with
      | none => []
      | some (down, digits) => 'e' :: ((if down then ['-'] else []) ++ digitChars digits)))

structure Numeral.Printable (n : Numeral) : Prop where
  whole : WholeSpelled n.whole (digitChars n.whole)
  fraction : Digits n.fraction
  exponent : ∀ down digits, n.exponent = some (down, digits) → digits ≠ [] ∧ Digits digits

theorem Numeral.spelled_print {n : Numeral} (h : n.Printable) : n.Spelled n.print := by
  obtain ⟨negative, whole, fraction, exponent⟩ := n
  obtain ⟨hwhole, hfraction, hexponent⟩ := h
  refine .parts hwhole ?_ ?_
  · cases fraction with
    | nil => exact .absent
    | cons d ds => exact .point hfraction
  · rcases exponent with _ | ⟨down, digits⟩
    · exact .absent
    · obtain ⟨hne, hdigits⟩ := hexponent down digits rfl
      obtain ⟨d, ds, rfl⟩ := List.exists_cons_of_ne_nil hne
      cases down
      · exact .marked (.inl rfl) (by simp) hdigits
      · exact .marked (.inl rfl) (by simp) hdigits

/-- The last digit of a number, behind the digits of the rest of it. -/
theorem Numeral.whole_ofNat (n : Nat) : (ofNat n).whole =
    if n < 10 then [n] else (ofNat (n / 10)).whole ++ [n % 10] := by
  have hdigit (d : Nat) (h : d < 10) : d.digitChar.toNat - '0'.toNat = d := by
    rw [Nat.toNat_digitChar_of_lt_ten h]
    exact Nat.add_sub_cancel_left ..
  rw [ofNat, Nat.toDigits_eq_if (by decide)]
  split
  · rename_i h
    simp only [List.map_cons, List.map_nil, hdigit n h]
  · rw [List.map_append, List.map_cons, List.map_nil, hdigit _ (Nat.mod_lt n (by decide))]
    rfl

/-- The digits of a number are digits, and begin with a zero only for zero. -/
theorem Numeral.spelled_whole_ofNat (n : Nat) :
    WholeSpelled (ofNat n).whole (digitChars (ofNat n).whole) := by
  have hdigits (n : Nat) : Digits (ofNat n).whole ∧
      (n ≠ 0 → ∃ d ds, (ofNat n).whole = d :: ds ∧ d ≠ 0) := by
    induction n using Nat.strong_induction_on with
    | h n ih =>
      rw [whole_ofNat]
      split
      · rename_i h
        exact ⟨by simpa [Digits] using h, fun hn => ⟨n, [], rfl, hn⟩⟩
      · obtain ⟨hdigits, hfirst⟩ := ih (n / 10) (by omega)
        obtain ⟨d, ds, hwhole, hd⟩ := hfirst (by omega)
        refine ⟨?_, fun _ => ⟨d, ds ++ [n % 10], by rw [hwhole]; rfl, hd⟩⟩
        intro x hx
        rcases List.mem_append.mp hx with hx | hx
        · exact hdigits x hx
        · rw [List.mem_singleton.mp hx]
          exact Nat.mod_lt n (by decide)
  obtain ⟨hdigits, hfirst⟩ := hdigits n
  by_cases hn : n = 0
  · subst hn
    exact .zero
  · obtain ⟨d, ds, hwhole, hd⟩ := hfirst hn
    rw [hwhole] at hdigits ⊢
    exact .digits hd hdigits

/-- The digits of a number stand for it. -/
theorem Numeral.ofDigits_whole_ofNat (n : Nat) : ofDigits (ofNat n).whole = n := by
  have h := Nat.ofDigitChars_ten_toDigits (n := n)
  rw [Nat.ofDigitChars_eq_foldl] at h
  rw [ofDigits, ofNat, List.foldl_map]
  simpa only [Nat.mul_comm] using h

theorem Numeral.printable_ofNat (n : Nat) : (ofNat n).Printable where
  whole := spelled_whole_ofNat n
  fraction _ h := by cases h
  exponent _ _ h := by cases h

theorem Numeral.printable_ofInt (i : Int) : (ofInt i).Printable := by
  cases i with
  | ofNat n => exact printable_ofNat n
  | negSucc n =>
    exact { whole := spelled_whole_ofNat (n + 1)
            fraction := fun _ h => by cases h
            exponent := fun _ _ h => by cases h }

/-- A written integer that fits 64 bits, with a sign or without, stands for itself. -/
theorem Numeral.integer?_ofInt {i : Int} (hlow : -0x8000000000000000 ≤ i)
    (hhigh : i ≤ 0xffffffffffffffff) : (ofInt i).integer? = some i := by
  cases i with
  | ofNat n =>
    have hfits : n ≤ significandMax := Int.ofNat_le.mp hhigh
    have : (ofNat n).integer? = if n ≤ significandMax then some (n : Int) else none := by
      rw [integer?, ofDigits_whole_ofNat]
      rfl
    exact this.trans (if_pos hfits)
  | negSucc n =>
    have hfits : n + 1 ≤ 0x8000000000000000 := by omega
    have : (ofInt (.negSucc n)).integer? =
        if n + 1 ≠ 0 ∧ n + 1 ≤ 0x8000000000000000 then some (-((n + 1 : Nat) : Int)) else none := by
      rw [ofInt, integer?, ofDigits_whole_ofNat]
      rfl
    exact this.trans (if_pos ⟨Nat.succ_ne_zero n, hfits⟩)

theorem Numeral.value?_ofInt {i : Int} (hlow : -0x8000000000000000 ≤ i)
    (hhigh : i ≤ 0xffffffffffffffff) : (ofInt i).value? = some (.integer i) := by
  rw [value?, integer?_ofInt hlow hhigh]

/-! ## Values -/

mutual

def Node.print : Node → List Char
  | .null => ['n', 'u', 'l', 'l']
  | .bool b => if b then ['t', 'r', 'u', 'e'] else ['f', 'a', 'l', 's', 'e']
  | .number n => n.print
  | .string t => t.print
  | .array items => '[' :: (items.print ++ [']'])
  | .object members => '\x7b' :: (members.print ++ ['\x7d'])
  | .cutNumeral | .broken _ => []

/-- The items with commas between them. -/
def Items.print : Items → List Char
  | .done _ => []
  | .cons head (.done _) => head.print
  | .cons head tail => head.print ++ ',' :: tail.print

/-- The members with commas between them. -/
def Members.print : Members → List Char
  | .done _ => []
  | .cons key value (.done _) => key.print ++ ':' :: value.print
  | .cons key value tail => key.print ++ ':' :: (value.print ++ ',' :: tail.print)

end

/-- The value is written as it is printed. -/
def Node.Prints (node : Node) : Prop := node.Spelled node.print

theorem blank_nil : Blank [] := fun _ h => by cases h

theorem Items.spelled_print (node : Node) (nodes : List Node)
    (h : ∀ n ∈ node :: nodes, n.Prints) :
    (ofList (node :: nodes)).Spelled (ofList (node :: nodes)).print := by
  induction nodes generalizing node with
  | nil =>
    have hspelled := Items.Spelled.last blank_nil (h node List.mem_cons_self) blank_nil
    simpa [Items.print] using hspelled
  | cons next nodes ih =>
    obtain ⟨hnode, hnodes⟩ := List.forall_mem_cons.mp h
    exact .more blank_nil hnode blank_nil (ih next hnodes)

theorem Members.spelled_print (member : Text × Node) (members : List (Text × Node))
    (h : ∀ m ∈ member :: members, m.1.Spelled m.1.print ∧ m.2.Prints) :
    (ofList (member :: members)).Spelled (ofList (member :: members)).print := by
  induction members generalizing member with
  | nil =>
    obtain ⟨hkey, hvalue⟩ := h member List.mem_cons_self
    have hspelled := Members.Spelled.last blank_nil hkey blank_nil blank_nil hvalue blank_nil
    simpa [Members.print] using hspelled
  | cons next members ih =>
    obtain ⟨⟨hkey, hvalue⟩, hmembers⟩ := List.forall_mem_cons.mp h
    exact .more blank_nil hkey blank_nil blank_nil hvalue blank_nil (ih next hmembers)

theorem Node.prints_array {nodes : List Node} (h : ∀ node ∈ nodes, node.Prints) :
    (Node.array (.ofList nodes)).Prints := by
  cases nodes with
  | nil => exact .emptyArray blank_nil
  | cons node nodes => exact .array (Items.spelled_print node nodes h)

theorem Node.prints_object {members : List (Text × Node)}
    (h : ∀ m ∈ members, m.1.Spelled m.1.print ∧ m.2.Prints) :
    (Node.object (.ofList members)).Prints := by
  cases members with
  | nil => exact .emptyObject blank_nil
  | cons member members => exact .object (Members.spelled_print member members h)

/-- The document with the value, without blanks. -/
def Document.print (node : Node) : String := String.ofList node.print

theorem Document.spelled_print {node : Node} (h : node.Prints) :
    Document.Spelled node (Document.print node) := by
  have hspelled := Document.Spelled.framed blank_nil h blank_nil
  simpa [Document.print] using hspelled

end MethodPack.Json
