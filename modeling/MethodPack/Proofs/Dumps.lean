import MethodPack.Proofs.ByteOrders
import MethodPack.Proofs.Quoting

/-!
# Dumps

The dump of a module begins with its tables, one line for each entry. Strings stand in it quoted,
so none of them breaks a line or looks like the end of the section. Main statement: the tables
are read back from the dump, and modules with the same dump have the same tables
(`dump_tables`).
-/

namespace MethodPack.Listing

open Text (OneLine lines unquote?)
open Number (NoDigit hexValue paddedDecimal paddedHex)
open Packed (Module AbstractStream)

/-! ## Reading the tables of a dump -/

/-- The lines of the sections of both tables. -/
structure TableLines where
  strings : List String
  blobs : List String
deriving DecidableEq

/-- The lines between a header and the next empty line, and those behind it. -/
def sectionLines? (header : String) : List String → Option (List String × List String)
  | [] => none
  | first :: rest =>
    if first = header then some (rest.takeWhile (· ≠ ""), (rest.dropWhile (· ≠ "")).drop 1)
    else none

/-- The lines of the tables in a dump. The methods follow. -/
def tableLines? (text : String) : Option TableLines := do
  let (strings, rest) ← sectionLines? "[strings]" (lines text)
  let (blobs, rest) ← sectionLines? "[blobs]" rest
  let _ ← sectionLines? "[methods]" rest
  return ⟨strings, blobs⟩

/-- What follows the first occurrence of a mark in a line. -/
def behind (mark : Char) (s : String) : List Char := (s.toList.dropWhile (· != mark)).drop 1

/-- The string that a line of the string table shows. -/
def shownString? (s : String) : Option String := (unquote? (behind ' ' s)).map Prod.fst

/-- The bytes that pairs of digits stand for, each with one character behind it. -/
def readBytes : List Char → List UInt8
  | high :: low :: _ :: rest => (hexValue high * 16 + hexValue low).toUInt8 :: readBytes rest
  | _ => []

/-- The blob that a line of the blob table shows. -/
def shownBlob (s : String) : List UInt8 := readBytes (behind '[' s)

/-! ## Entries of the tables -/

theorem behind_eq {mark : Char} {s : String} {before after : List Char}
    (htext : s.toList = before ++ mark :: after) (h : mark ∉ before) : behind mark s = after := by
  have hskip : ∀ c ∈ before, (c != mark) = true := by
    intro c hc
    simpa using fun heq : c = mark => h (heq ▸ hc)
  rw [behind, htext, List.dropWhile_append_of_pos hskip]
  simp

/-- The line of an entry of the blob table. -/
def blobEntry (columns : Columns) (index : Nat) (blob : List UInt8) : String :=
  blobName columns index ++ " = [" ++ spacedBytes blob ++ "]"

variable (columns : Columns) (index : Nat)

/-- The string that an entry was made for is read back from it. -/
theorem shownString?_stringEntry (s : String) :
    shownString? (stringEntry columns index s) = some s := by
  have htext : (stringEntry columns index s).toList =
      ('S' :: (paddedDecimal columns.string index).toList) ++ ' ' :: (Text.quote s).toList := by
    simp [stringEntry]
  have hdigits : ' ' ∉ (paddedDecimal columns.string index).toList :=
    NoDigit.notMem_paddedDecimal (by decide) _ _
  have hread := Text.unquote?_quote s []
  rw [List.append_nil] at hread
  rw [shownString?, behind_eq htext (by simp [hdigits]), hread]
  rfl

theorem readBytes_byte (b : UInt8) (c : Char) (rest : List Char) :
    readBytes ((paddedHex 2 b.toNat).toList ++ c :: rest) = b :: readBytes rest := by
  have hlt : b.toNat < 256 := b.toNat_lt
  have hhigh := Number.hexValue_digitChar (b.toNat / 16) (by omega)
  have hlow := Number.hexValue_digitChar (b.toNat % 16) (by omega)
  have hvalue : b.toNat / 16 * 16 + b.toNat % 16 = b.toNat := by omega
  rw [Number.toList_paddedHex_byte, List.cons_append, List.cons_append, List.nil_append, readBytes,
    hhigh, hlow, hvalue, Nat.toUInt8_eq, UInt8.ofNat_toNat]

theorem readBytes_spacedBytes (bytes : List UInt8) :
    readBytes ((spacedBytes bytes).toList ++ [']']) = bytes := by
  rw [spacedBytes]
  induction bytes with
  | nil => rfl
  | cons b rest ih =>
    cases rest with
    | nil => simpa [readBytes] using readBytes_byte b ']' []
    | cons b' rest =>
      rw [List.map_cons, List.map_cons, String.intercalate_cons_cons, String.toList_append,
        String.toList_append, List.append_assoc, List.append_assoc]
      rw [List.map_cons] at ih
      exact (readBytes_byte b ' ' _).trans (congrArg _ ih)

/-- The blob that an entry was made for is read back from it. -/
theorem shownBlob_blobEntry (blob : List UInt8) :
    shownBlob (blobEntry columns index blob) = blob := by
  have htext : (blobEntry columns index blob).toList =
      ('B' :: (paddedDecimal columns.blob index).toList ++ [' ', '=', ' ']) ++
        '[' :: ((spacedBytes blob).toList ++ [']']) := by
    simp [blobEntry, blobName]
  have hdigits : '[' ∉ (paddedDecimal columns.blob index).toList :=
    NoDigit.notMem_paddedDecimal (by decide) _ _
  rw [shownBlob, behind_eq htext (by simp [hdigits]), readBytes_spacedBytes]

theorem oneLine_paddedDecimal (width n : Nat) : OneLine (paddedDecimal width n) :=
  NoDigit.notMem_paddedDecimal (by decide) width n

theorem oneLine_stringEntry (s : String) : OneLine (stringEntry columns index s) := by
  have hopening : OneLine "S" := by decide
  have hspace : OneLine " " := by decide
  simp [stringEntry, hopening, hspace, oneLine_paddedDecimal, Text.oneLine_quote]

theorem oneLine_spacedBytes (bytes : List UInt8) : OneLine (spacedBytes bytes) := by
  apply Text.oneLine_intercalate (by decide)
  intro s hs
  obtain ⟨b, _, rfl⟩ := List.mem_map.mp hs
  exact NoDigit.notMem_paddedHex (by decide) _ _

theorem oneLine_blobEntry (blob : List UInt8) : OneLine (blobEntry columns index blob) := by
  have hopening : OneLine "B" := by decide
  have hmark : OneLine " = [" := by decide
  have hclosing : OneLine "]" := by decide
  simp [blobEntry, blobName, hopening, hmark, hclosing, oneLine_paddedDecimal, oneLine_spacedBytes]

/-! ## The lines of a dump -/

variable (m : Module)

theorem mem_stringLines {s : String} (h : s ∈ stringLines m columns) :
    ∃ index entry, s = stringEntry columns index entry := by
  obtain ⟨⟨entry, index⟩, _, rfl⟩ := List.mem_map.mp h
  exact ⟨index + 1, entry, rfl⟩

theorem blobLines_eq : blobLines m columns =
    m.blobs.toList.zipIdx.map fun entry => blobEntry columns (entry.2 + 1) entry.1 := rfl

theorem mem_blobLines {s : String} (h : s ∈ blobLines m columns) :
    ∃ index blob, s = blobEntry columns index blob := by
  obtain ⟨⟨blob, index⟩, _, rfl⟩ := List.mem_map.mp h
  exact ⟨index + 1, blob, rfl⟩

/-- The tables take a line for each entry and for each header, with an empty line behind. -/
theorem lines_dump : ∃ rest, lines (dump m) =
    "[strings]" :: (stringLines m (.of m) ++
      "" :: "[blobs]" :: (blobLines m (.of m) ++ "" :: "[methods]" :: rest)) := by
  have hstrings : ∀ s ∈ stringLines m (.of m), OneLine s := by
    intro s hs
    obtain ⟨index, entry, rfl⟩ := mem_stringLines _ m hs
    exact oneLine_stringEntry _ index entry
  have hblobs : ∀ s ∈ blobLines m (.of m), OneLine s := by
    intro s hs
    obtain ⟨index, blob, rfl⟩ := mem_blobLines _ m hs
    exact oneLine_blobEntry _ index blob
  let methods := "\n".intercalate
    (m.methods.map fun r => String.join ((methodLines m (.of m) r).map line))
  have hempty : line "" = "\n" := rfl
  have htext : dump m =
      line "[strings]" ++ (String.join ((stringLines m (.of m)).map line) ++ (line "" ++
        (line "[blobs]" ++ (String.join ((blobLines m (.of m)).map line) ++ (line "" ++
          (line "[methods]" ++ methods)))))) := by
    simp only [dump, hempty, String.append_assoc, methods]
  refine ⟨lines methods, ?_⟩
  rw [htext, Text.lines_of_oneLine (by decide), Text.lines_join, Text.flatMap_pieces hstrings,
    Text.lines_of_oneLine (by decide), Text.lines_of_oneLine (by decide), Text.lines_join,
    Text.flatMap_pieces hblobs, Text.lines_of_oneLine (by decide),
    Text.lines_of_oneLine (by decide)]

theorem sectionLines?_cons (header : String) (rest : List String) :
    sectionLines? header (header :: rest) =
      some (rest.takeWhile (· ≠ ""), (rest.dropWhile (· ≠ "")).drop 1) := if_pos rfl

theorem sectionLines?_eq {header : String} {entries rest : List String} (h : "" ∉ entries) :
    sectionLines? header (header :: (entries ++ "" :: rest)) = some (entries, rest) := by
  have hne : ∀ s ∈ entries, decide (s ≠ "") = true := by
    intro s hs
    simpa using fun heq : s = "" => h (heq ▸ hs)
  rw [sectionLines?_cons, List.takeWhile_append_of_pos hne, List.dropWhile_append_of_pos hne]
  simp

theorem tableLines?_dump :
    tableLines? (dump m) = some ⟨stringLines m (.of m), blobLines m (.of m)⟩ := by
  have hstrings : "" ∉ stringLines m (.of m) := by
    intro h
    obtain ⟨index, entry, hentry⟩ := mem_stringLines _ m h
    have := congrArg String.toList hentry
    simp [stringEntry] at this
  have hblobs : "" ∉ blobLines m (.of m) := by
    intro h
    obtain ⟨index, blob, hentry⟩ := mem_blobLines _ m h
    have := congrArg String.toList hentry
    simp [blobEntry, blobName] at this
  obtain ⟨rest, hlines⟩ := lines_dump m
  simp only [tableLines?, hlines, sectionLines?_eq hstrings, sectionLines?_eq hblobs,
    sectionLines?_cons, Option.bind_eq_bind, Option.bind_some]
  rfl

/-- What the lines of the string table show are the strings. -/
theorem map_shownString?_stringLines :
    (stringLines m columns).map shownString? = m.strings.toList.map some := by
  have hshown : (stringLines m columns).map shownString? =
      m.strings.toList.zipIdx.map (some ∘ Prod.fst) := by
    simp only [stringLines, List.map_map, Function.comp_def, shownString?_stringEntry]
  rw [hshown, ← List.map_map, List.zipIdx_map_fst]

theorem map_shownBlob_blobLines : (blobLines m columns).map shownBlob = m.blobs.toList := by
  have hshown : (blobLines m columns).map shownBlob =
      m.blobs.toList.zipIdx.map Prod.fst := by
    simp only [blobLines_eq, List.map_map, Function.comp_def, shownBlob_blobEntry]
  rw [hshown, List.zipIdx_map_fst]

/-- **The dump shows the tables.** Modules with the same dump have the same strings and the same
blobs. In every dump the sections of both tables consist of one line for each entry, which
shows the entry. -/
theorem dump_tables :
    (∀ m m' : Module, dump m = dump m' → m.strings = m'.strings ∧ m.blobs = m'.blobs) ∧
    ∀ m : Module, ∃ shown, tableLines? (dump m) = some shown ∧
      shown.strings.length = m.strings.size ∧ shown.blobs.length = m.blobs.size ∧
      shown.strings.map shownString? = m.strings.toList.map some ∧
      shown.blobs.map shownBlob = m.blobs.toList := by
  constructor
  · intro m m' h
    have hlines := tableLines?_dump m
    rw [h, tableLines?_dump m', Option.some.injEq, TableLines.mk.injEq] at hlines
    obtain ⟨hstrings, hblobs⟩ := hlines
    have hshown := congrArg (List.map shownString?) hstrings
    rw [map_shownString?_stringLines, map_shownString?_stringLines] at hshown
    have hbytes := congrArg (List.map shownBlob) hblobs
    rw [map_shownBlob_blobLines, map_shownBlob_blobLines] at hbytes
    have hentries := List.map_injective_iff.mpr (Option.some_injective String) hshown
    exact ⟨(Array.toList_inj.mp hentries).symm, (Array.toList_inj.mp hbytes).symm⟩
  · intro m
    exact ⟨_, tableLines?_dump m, by simp [stringLines], by simp [blobLines],
      map_shownString?_stringLines _ m, map_shownBlob_blobLines _ m⟩

/-- Two streams in different byte orders with the same dump. A string of theirs looks like the end
of the section with a header behind it. -/
theorem dump_tables_sample :
    let little : List UInt8 := [1, 0, 1, 2, 0, 0, 0, 10, 0, 0, 0, 97, 10, 10, 91, 98, 108, 111, 98,
      115, 93, 2, 0, 0, 0, 34, 92, 2, 1, 0, 0, 0, 8, 0, 0, 0, 0, 0, 0, 0, 255, 255, 255, 255]
    let big : List UInt8 := [0, 1, 1, 0, 0, 0, 2, 0, 0, 0, 10, 97, 10, 10, 91, 98, 108, 111, 98,
      115, 93, 0, 0, 0, 2, 34, 92, 2, 0, 0, 0, 1, 0, 0, 0, 8, 0, 0, 0, 0, 255, 255, 255, 255]
    ∃ m m', Module.ofBytes little = .ok m ∧ Module.ofBytes big = .ok m' ∧ m.order ≠ m'.order ∧
      dump m = dump m' ∧ m.strings = m'.strings ∧ m.blobs = m'.blobs ∧
      ∃ shown, tableLines? (dump m) = some shown ∧ shown.strings.length = 2 ∧
        shown.strings.map shownString? = [some "a\n\n[blobs]", some "\"\\"] ∧
        shown.blobs.map shownBlob = [[0, 0, 0, 0, 255, 255, 255, 255]] := by
  intro little big
  let st : AbstractStream :=
    ⟨[.strings ["a\n\n[blobs]", "\"\\"], .switches [[0, -1]]],
      by simp [Packed.AbstractSection.Fits, Packed.maxLength]; decide, by decide, by decide⟩
  have hlittle : st.bytes .little = little := by decide
  have hbig : st.bytes .big = big := by decide
  have hdump : dump (st.module .little) = dump (st.module .big) := by decide +kernel
  obtain ⟨hstrings, hblobs⟩ := dump_tables.1 _ _ hdump
  obtain ⟨shown, hread, hcount, -, hshown, hbytes⟩ := dump_tables.2 (st.module .little)
  exact ⟨_, _, hlittle ▸ st.ofBytes_bytes .little, hbig ▸ st.ofBytes_bytes .big, by decide, hdump,
    hstrings, hblobs, shown, hread, hcount, hshown, hbytes⟩

end MethodPack.Listing
