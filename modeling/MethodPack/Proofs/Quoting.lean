import MethodPack.Proofs.Digits
import MethodPack.Proofs.Lines
import MethodPack.Text.Quoted

/-!
# Quoting

Quoted text reads back from its first quotation mark on, whatever follows it
(`unquote?_quote`), and takes one line.
-/

namespace MethodPack.Text

open Number (NoDigit appendHex)

/-! ## The quoted forms of a character -/

/-- The character of a short escape. -/
def unescape? : Char → Option Char
  | '"' => some '"'
  | '\\' => some '\\'
  | 'n' => some '\n'
  | 'r' => some '\r'
  | 't' => some '\t'
  | '0' => some '\x00'
  | _ => none

/-- The ways to quote a character. -/
inductive QuotedAs : Char → List Char → Prop
  | short {c letter : Char} (h : unescape? letter = some c) : QuotedAs c ['\\', letter]
  | number (c : Char) :
    QuotedAs c ('\\' :: 'u' :: '\x7b' :: (Nat.toDigits 16 c.toNat ++ ['\x7d']))
  | plain {c : Char} (hquote : c ≠ '"') (hback : c ≠ '\\') (hend : c ≠ '\n') : QuotedAs c [c]

theorem quotedAs_quoteChar (c : Char) : QuotedAs c (quoteChar c).toList := by
  unfold quoteChar
  split
  · exact .short rfl
  · exact .short rfl
  · exact .short rfl
  · exact .short rfl
  · exact .short rfl
  · exact .short rfl
  · rename_i hquote hback hend _ _ _
    split
    · simpa [Number.hex] using QuotedAs.number c
    · simpa using QuotedAs.plain hquote hback hend

variable {c letter : Char} {cs rest : List Char}

theorem unescape?_ne {d : Char} (h : unescape? letter = some c) (hd : unescape? d = none) :
    letter ≠ d := by
  rintro rfl
  rw [hd] at h
  cases h

/-! ## Reading quoted text -/

/-- What a reader of quoted text has just seen. -/
inductive QuoteState where
  | plain
  /-- A backslash. -/
  | escape
  /-- A backslash and the letter before a number. -/
  | opening
  /-- The digits of a number so far. -/
  | number (value : Nat)

/-- Reads up to the closing quotation mark: the characters, and what follows the mark. -/
def unquoteFrom : QuoteState → List Char → Option (List Char × List Char)
  | _, [] => none
  | .plain, c :: rest =>
    if c = '"' then some ([], rest)
    else if c = '\\' then unquoteFrom .escape rest
    else (unquoteFrom .plain rest).map fun (cs, behind) => (c :: cs, behind)
  | .escape, c :: rest =>
    if c = 'u' then unquoteFrom .opening rest
    else (unescape? c).bind fun d =>
      (unquoteFrom .plain rest).map fun (cs, behind) => (d :: cs, behind)
  | .opening, c :: rest => if c = '\x7b' then unquoteFrom (.number 0) rest else none
  | .number value, c :: rest =>
    if c = '\x7d' then
      (unquoteFrom .plain rest).map fun (cs, behind) => (.ofNat value :: cs, behind)
    else unquoteFrom (.number (appendHex value c)) rest

/-- Reads the quoted text at the beginning of some characters. -/
def unquote? : List Char → Option (String × List Char)
  | [] => none
  | c :: rest =>
    if c = '"' then (unquoteFrom .plain rest).map fun (cs, behind) => (.ofList cs, behind) else none

/-- The digits of a number are read one by one. -/
theorem unquoteFrom_digits {digits : List Char} (h : '\x7d' ∉ digits) (value : Nat)
    (rest : List Char) :
    unquoteFrom (.number value) (digits ++ '\x7d' :: rest) =
      unquoteFrom (.number (digits.foldl appendHex value)) ('\x7d' :: rest) := by
  induction digits generalizing value with
  | nil => rfl
  | cons d digits ih =>
    have hd : d ≠ '\x7d' := fun heq => h (heq ▸ List.mem_cons_self)
    have hdigits : '\x7d' ∉ digits := fun hmem => h (List.mem_cons_of_mem d hmem)
    rw [List.cons_append, unquoteFrom, if_neg hd, ih hdigits, List.foldl_cons]

/-- A character is read back from any of its quoted forms. -/
theorem QuotedAs.unquoteFrom (h : QuotedAs c cs) (rest : List Char) :
    unquoteFrom .plain (cs ++ rest) =
      (unquoteFrom .plain rest).map fun (ds, behind) => (c :: ds, behind) := by
  cases h with
  | short hletter =>
    have hnumber := unescape?_ne hletter (d := 'u') rfl
    simp [Text.unquoteFrom, hnumber, hletter]
  | number =>
    have hdigits : '\x7d' ∉ Nat.toDigits 16 c.toNat :=
      NoDigit.notMem_toDigits (by decide) (by decide) (by decide) _
    have hread := unquoteFrom_digits hdigits 0 rest
    rw [Number.foldl_appendHex_toDigits] at hread
    simp [Text.unquoteFrom, hread]
  | plain hquote hback _ => simp [Text.unquoteFrom, hquote, hback]

theorem unquoteFrom_flatMap (cs rest : List Char) :
    unquoteFrom .plain (cs.flatMap (fun c => (quoteChar c).toList) ++ '"' :: rest) =
      some (cs, rest) := by
  induction cs with
  | nil => rfl
  | cons c cs ih =>
    rw [List.flatMap_cons, List.append_assoc, (quotedAs_quoteChar c).unquoteFrom, ih]
    rfl

theorem toList_quote (s : String) : (quote s).toList =
    '"' :: (s.toList.flatMap (fun c => (quoteChar c).toList) ++ ['"']) := by
  simp [quote, String.toList_join, List.flatMap_map]

/-- Quoted text reads back, whatever follows it. -/
theorem unquote?_quote (s : String) (rest : List Char) :
    unquote? ((quote s).toList ++ rest) = some (s, rest) := by
  rw [toList_quote, List.cons_append, List.append_assoc, List.singleton_append, unquote?,
    if_pos rfl, unquoteFrom_flatMap]
  simp

/-! ## Quoted text takes one line -/

theorem QuotedAs.oneLine (h : QuotedAs c cs) : '\n' ∉ cs := by
  cases h with
  | short hletter =>
    have hend := unescape?_ne hletter (d := '\n') rfl
    simp [Ne.symm hend]
  | number =>
    have hdigits : '\n' ∉ Nat.toDigits 16 c.toNat :=
      NoDigit.notMem_toDigits (by decide) (by decide) (by decide) _
    simp [hdigits]
  | plain _ _ hend => simpa using Ne.symm hend

theorem oneLine_quote (s : String) : OneLine (quote s) := by
  have hquoted (c : Char) : '\n' ∉ (quoteChar c).toList := (quotedAs_quoteChar c).oneLine
  rw [OneLine, toList_quote]
  simp [hquoted]

end MethodPack.Text
