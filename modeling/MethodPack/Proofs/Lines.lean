import Mathlib.Algebra.GroupWithZero.Nat
import MethodPack.Listing.Dump

/-!
# Lines

The lines of a text are what stands before its newlines. Texts that are written one behind the
other, each with a newline behind it, fall into as many lines as there are texts exactly where
none of them holds a newline.
-/

namespace MethodPack.Text

open Listing (line)

/-- The pieces of a text between its newlines. -/
def pieces (s : String) : List String := (s.toList.splitOn '\n').map String.ofList

/-- The lines of a text, each ended by a newline; what follows the last newline is not one. -/
def lines (s : String) : List String := (pieces s).dropLast

/-- The text holds no newline. -/
def OneLine (s : String) : Prop := '\n' ∉ s.toList

instance (s : String) : Decidable (OneLine s) := inferInstanceAs (Decidable (¬ _))

/-- The number of newlines in a text. -/
def newlines (s : String) : Nat := s.toList.count '\n'

variable {s t rest : String} {ls : List String}

theorem oneLine_iff_newlines : OneLine s ↔ newlines s = 0 := List.count_eq_zero.symm

@[simp] theorem oneLine_append : OneLine (s ++ t) ↔ OneLine s ∧ OneLine t := by
  simp [OneLine]

@[simp] theorem newlines_append : newlines (s ++ t) = newlines s + newlines t := by
  simp [newlines]

theorem oneLine_intercalate (ht : OneLine t) (h : ∀ s ∈ ls, OneLine s) :
    OneLine (t.intercalate ls) := by
  induction ls with
  | nil =>
    rw [String.intercalate_nil]
    decide
  | cons s ls ih =>
    obtain ⟨hs, hls⟩ := List.forall_mem_cons.mp h
    cases ls with
    | nil => rwa [String.intercalate_singleton]
    | cons s' ls =>
      rw [String.intercalate_cons_cons, oneLine_append, oneLine_append]
      exact ⟨⟨hs, ht⟩, ih hls⟩

/-! ## Pieces -/

theorem pieces_of_oneLine (h : OneLine s) : pieces s = [s] := by
  rw [pieces, List.splitOn_eq_singleton h]
  simp

theorem pieces_ne_nil (s : String) : pieces s ≠ [] := by simp [pieces]

theorem length_pieces (s : String) : (pieces s).length = newlines s + 1 := by
  rw [pieces, List.length_map, newlines]
  induction s.toList with
  | nil => rfl
  | cons c cs ih =>
    rw [List.splitOn_cons_eq_if_modifyHead, List.count_cons]
    split
    · rw [List.length_cons, ih]
    · rw [List.length_modifyHead, ih, Nat.add_zero]

theorem pieces_line_append : pieces (line s ++ rest) = pieces s ++ pieces rest := by
  have htext : (line s ++ rest).toList = s.toList ++ '\n' :: rest.toList := by simp [line]
  rw [pieces, htext, List.splitOn_append_cons_self, List.map_append, pieces, pieces]

/-! ## Lines -/

theorem lines_line_append : lines (line s ++ rest) = pieces s ++ lines rest := by
  rw [lines, pieces_line_append, List.dropLast_append_of_ne_nil (pieces_ne_nil rest), lines]

theorem lines_of_oneLine (h : OneLine s) : lines (line s ++ rest) = s :: lines rest := by
  rw [lines_line_append, pieces_of_oneLine h, List.singleton_append]

/-- Each text of a list is written on a line of its own, or on several. -/
theorem lines_join (ls : List String) (rest : String) :
    lines (String.join (ls.map line) ++ rest) = ls.flatMap pieces ++ lines rest := by
  induction ls with
  | nil => simp
  | cons s ls ih =>
    rw [List.map_cons, String.join_cons, String.append_assoc, lines_line_append, ih,
      List.flatMap_cons, List.append_assoc]

theorem length_flatMap_pieces (ls : List String) :
    (ls.flatMap pieces).length = ls.length + (ls.map newlines).sum := by
  induction ls with
  | nil => rfl
  | cons s ls ih =>
    rw [List.flatMap_cons, List.length_append, length_pieces, ih, List.length_cons, List.map_cons,
      List.sum_cons]
    omega

/-- There are as many pieces as texts exactly where no text holds a newline. -/
theorem length_flatMap_pieces_eq_iff :
    (ls.flatMap pieces).length = ls.length ↔ ∀ s ∈ ls, OneLine s := by
  rw [length_flatMap_pieces, Nat.add_eq_left, List.sum_eq_zero_iff_forall_eq_nat]
  simp [oneLine_iff_newlines]

theorem flatMap_pieces (h : ∀ s ∈ ls, OneLine s) : ls.flatMap pieces = ls := by
  induction ls with
  | nil => rfl
  | cons s ls ih =>
    obtain ⟨hs, hls⟩ := List.forall_mem_cons.mp h
    rw [List.flatMap_cons, pieces_of_oneLine hs, ih hls, List.singleton_append]

end MethodPack.Text
