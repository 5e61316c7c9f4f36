import Mathlib.Data.List.Basic
import MethodPack.Proofs.Steps
import MethodPack.Proofs.Words

/-!
# Tables

What the tables hold is told by the trace of the strings that were interned, in
order and with repetitions: the string table is the trace without its repetitions,
and the place of a string is its rank there, counted from one. Places do not change
when the trace goes on (`place_of_isPrefix`).
-/

namespace MethodPack.Export

open Packed (StringId BlobId TableId maxLength)

/-! ## Traces -/

/-- The place of a string: its rank among the strings of a trace in the order of
their first occurrences, counted from one. -/
def place (trace : List String) (s : String) : Nat := trace.eraseDups.idxOf s + 1

variable {trace more : List String} {s : String}

theorem eraseDups_concat_of_mem (h : s ∈ trace) : (trace ++ [s]).eraseDups = trace.eraseDups := by
  simp [List.eraseDups_append, List.removeAll, h]

theorem eraseDups_concat_of_notMem (h : s ∉ trace) :
    (trace ++ [s]).eraseDups = trace.eraseDups ++ [s] := by
  simp [List.eraseDups_append, List.removeAll, h, List.eraseDups_cons]

theorem eraseDups_isPrefix (h : trace <+: more) : trace.eraseDups <+: more.eraseDups := by
  obtain ⟨rest, rfl⟩ := h
  rw [List.eraseDups_append]
  exact List.prefix_append _ _

/-- A string keeps its place when the trace goes on. -/
theorem place_of_isPrefix (h : trace <+: more) (hs : s ∈ trace) : place more s = place trace s := by
  rw [place, place, (eraseDups_isPrefix h).idxOf_eq_of_mem (List.mem_eraseDups.mpr hs)]

/-- The entry at the place of a string is the string. -/
theorem getElem?_place (hs : s ∈ trace) : trace.eraseDups[place trace s - 1]? = some s :=
  List.getElem?_idxOf (List.mem_eraseDups.mpr hs)

theorem place_le (hs : s ∈ trace) : place trace s ≤ trace.eraseDups.length :=
  List.idxOf_lt_length_of_mem (List.mem_eraseDups.mpr hs)

/-- Every string of a trace that a table can hold has a place. -/
theorem exists_stringId (hs : s ∈ trace) (hcount : trace.eraseDups.length ≤ maxLength) :
    ∃ id : StringId, id.index.toNat = place trace s := by
  have hplace := place_le hs
  rw [maxLength] at hcount
  rw [place] at hplace
  exact ⟨.atPosition (trace.eraseDups.idxOf s) (by omega), TableId.toNat_index_atPosition _⟩

/-! ## The string table -/

namespace StringTable

/-- The table is what interning the strings of the trace leaves. -/
def Holds (t : StringTable) (trace : List String) : Prop := t.entries.toList = trace.eraseDups

theorem holds_empty : empty.Holds [] := rfl

variable {t t' : StringTable} {id : StringId} {e : ExportError}

theorem Holds.mem_iff (h : t.Holds trace) : s ∈ trace ↔ ∃ i, t.positions[s]? = some i := by
  rw [← List.mem_eraseDups, ← h, List.mem_iff_getElem?]
  simp [t.positions_spec]

theorem Holds.notMem (h : t.Holds trace) (hs : t.positions[s]? = none) : s ∉ trace := by
  intro hmem
  obtain ⟨i, hi⟩ := h.mem_iff.mp hmem
  rw [hs] at hi
  cases hi

/-- The position that the table has for a string is its rank. -/
theorem Holds.position (h : t.Holds trace) {i : Nat} (hi : t.positions[s]? = some i) :
    i + 1 = place trace s := by
  have hs : s ∈ trace := h.mem_iff.mpr ⟨i, hi⟩
  have hrank := getElem?_place hs
  rw [← h, Array.getElem?_toList, ← t.positions_spec, hi] at hrank
  rw [place] at *
  simpa using hrank

theorem entries_push (h : t.positions[s]? = none) (room : t.size < maxLength) :
    (t.push s h room).entries = t.entries.push s := rfl

/-- Interning extends the trace, and gives the string's place. -/
theorem intern_ok (h : t.Holds trace) (hi : t.intern s = (.ok id, t')) :
    t'.Holds (trace ++ [s]) ∧ id.index.toNat = place (trace ++ [s]) s := by
  rw [intern] at hi
  split at hi
  -- the string has its place already, and the trace without repetitions does not change
  · rename_i i hpos
    cases hi
    have hs : s ∈ trace := h.mem_iff.mpr ⟨i, hpos⟩
    refine ⟨by rw [Holds, eraseDups_concat_of_mem hs, h], ?_⟩
    rw [TableId.toNat_index_atPosition, h.position hpos,
      place_of_isPrefix (List.prefix_append _ _) hs]
  -- the string is new, and its place is the next one
  · rename_i hpos
    split at hi
    · cases hi
      have hs : s ∉ trace := h.notMem hpos
      have hentries : (t.push s hpos ‹_›).entries.toList = (trace ++ [s]).eraseDups := by
        rw [entries_push, Array.toList_push, h, eraseDups_concat_of_notMem hs]
      refine ⟨hentries, ?_⟩
      rw [TableId.toNat_index_atPosition, place, eraseDups_concat_of_notMem hs,
        List.idxOf_append_of_notMem (by rwa [List.mem_eraseDups]), ← h]
      simp [size]
    · cases hi

/-- Interning fails only when the string is new and the table is full. -/
theorem intern_error (h : t.Holds trace) (hi : t.intern s = (.error e, t')) :
    t' = t ∧ e = .tooManyStrings (maxLength + 1) ∧
      maxLength < (trace ++ [s]).eraseDups.length := by
  have := t.size_le
  rw [intern] at hi
  split at hi
  · cases hi
  · rename_i hpos
    split at hi
    · cases hi
    · rename_i hfull
      cases hi
      have hs : s ∉ trace := h.notMem hpos
      have hsize : t.size = maxLength := by
        rw [size] at hfull ⊢
        omega
      refine ⟨rfl, by rw [hsize], ?_⟩
      rw [eraseDups_concat_of_notMem hs, ← h]
      rw [size] at hfull
      simp
      omega

end StringTable

/-! ## The blob table -/

namespace BlobTable

variable {t t' : BlobTable} {blob : List UInt8} {id : BlobId} {e : ExportError}

/-- Pushing appends the blob, and gives the size of the table afterwards. -/
theorem push_ok (h : t.push blob = (.ok id, t')) :
    t'.entries.toList = t.entries.toList ++ [blob] ∧ id.index.toNat = t.entries.size + 1 := by
  rw [push] at h
  split at h
  · cases h
    simp
  · cases h

/-- Pushing fails only when the table is full. -/
theorem push_error (h : t.push blob = (.error e, t')) :
    t' = t ∧ e = .tooManyBlobs (maxLength + 1) ∧ t.entries.size = maxLength := by
  have := t.size_le
  rw [push] at h
  split at h
  · cases h
  · cases h
    have hsize : t.entries.size = maxLength := by omega
    exact ⟨rfl, by rw [hsize], hsize⟩

end BlobTable

/-! ## Both tables -/

namespace Tables

/-- The tables are what the strings of the trace and the blobs leave. -/
structure Holds (t : Tables) (trace : List String) (blobs : List (List UInt8)) : Prop where
  strings : t.strings.Holds trace
  blobs : t.blobs.entries.toList = blobs

theorem holds_empty : ({} : Tables).Holds [] [] := ⟨rfl, rfl⟩

end Tables

namespace Encoder

variable {t t' : Tables} {all : List String} {blobs : List (List UInt8)} {blob : List UInt8}
  {e : ExportError}

theorem outcome_intern (s : String) (t : Tables) : outcome (intern s) t =
    ((t.strings.intern s).1, ⟨(t.strings.intern s).2, t.blobs⟩) := rfl

theorem outcome_push (blob : List UInt8) (t : Tables) : outcome (push blob) t =
    ((t.blobs.push blob).1, ⟨t.strings, (t.blobs.push blob).2⟩) := rfl

/-- Interning extends the trace, and gives the place that the string has in the end. -/
theorem intern_ok {id : StringId} (h : t.Holds trace blobs) (hall : trace ++ [s] <+: all)
    (hi : outcome (intern s) t = (.ok id, t')) :
    t'.Holds (trace ++ [s]) blobs ∧ id.index.toNat = place all s := by
  rw [outcome_intern, Prod.mk.injEq] at hi
  obtain ⟨hid, rfl⟩ := hi
  obtain ⟨hstrings, hplace⟩ := StringTable.intern_ok h.strings (Prod.ext hid rfl)
  exact ⟨⟨hstrings, h.blobs⟩, by rw [hplace, place_of_isPrefix hall (by simp)]⟩

theorem intern_error (h : t.Holds trace blobs) (hi : outcome (intern s) t = (.error e, t')) :
    e = .tooManyStrings (maxLength + 1) ∧ maxLength < (trace ++ [s]).eraseDups.length := by
  rw [outcome_intern, Prod.mk.injEq] at hi
  exact (StringTable.intern_error h.strings (Prod.ext hi.1 rfl)).2

theorem push_ok {id : BlobId} (h : t.Holds trace blobs)
    (hp : outcome (push blob) t = (.ok id, t')) :
    t'.Holds trace (blobs ++ [blob]) ∧ id.index.toNat = blobs.length + 1 := by
  rw [outcome_push, Prod.mk.injEq] at hp
  obtain ⟨hid, rfl⟩ := hp
  obtain ⟨hblobs, hplace⟩ := BlobTable.push_ok (Prod.ext hid rfl)
  rw [h.blobs] at hblobs
  exact ⟨⟨h.strings, hblobs⟩, by rw [hplace, ← h.blobs, Array.length_toList]⟩

theorem push_error (h : t.Holds trace blobs) (hp : outcome (push blob) t = (.error e, t')) :
    e = .tooManyBlobs (maxLength + 1) ∧ blobs.length = maxLength := by
  rw [outcome_push, Prod.mk.injEq] at hp
  rw [← h.blobs, Array.length_toList]
  exact (BlobTable.push_error (Prod.ext hp.1 rfl)).2

end Encoder
end MethodPack.Export
