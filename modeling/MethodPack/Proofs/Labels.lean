import Mathlib.Data.List.Nodup
import MethodPack.Export.Positions

/-!
# Labels

The positions of a method number its labels in order. Numbering succeeds exactly when
no label is repeated, and otherwise names the first label that occurs before.
-/

namespace MethodPack.Export

open Packed (maxLength)

/-- The labels of a body, in order. -/
def bodyLabels (body : List Instruction) : List Label := body.map Instruction.label

/-- The first label that occurs before it, in `before` or in the list. -/
def firstRepeated? (before : List Label) : List Label → Option Label
  | [] => none
  | l :: rest => if l ∈ before then some l else firstRepeated? (before ++ [l]) rest

theorem firstRepeated?_eq_none {before labels : List Label} (hbefore : before.Nodup) :
    firstRepeated? before labels = none ↔ (before ++ labels).Nodup := by
  induction labels generalizing before with
  | nil => simpa [firstRepeated?] using hbefore
  | cons l rest ih =>
    by_cases hl : l ∈ before
    · simp only [firstRepeated?, hl, if_true, reduceCtorEq, false_iff]
      intro hnodup
      exact (List.nodup_append.mp hnodup).2.2 l hl l (by simp) rfl
    -- the labels before stay distinct when a new one joins them
    · have hnext : (before ++ [l]).Nodup := by
        refine List.nodup_append.mpr ⟨hbefore, by simp, ?_⟩
        intro a ha b hb heq
        rw [List.mem_singleton.mp hb] at heq
        exact hl (heq ▸ ha)
      simp only [firstRepeated?, hl, if_false]
      rw [ih hnext, List.append_assoc, List.singleton_append]

namespace Positions

/-- The map gives each of the labels its rank and knows no other label. -/
def Numbers (p : Positions) (labels : List Label) : Prop :=
  ∀ l, p.position? l = if l ∈ labels then some (labels.idxOf l).toUInt32 else none

variable {method : String} {p q : Positions} {before : List Label} {body : List Instruction}
  {e : ExportError}

theorem numbers_empty : ({} : Positions).Numbers [] := fun l => by simp [position?]

theorem Numbers.contains_iff (h : p.Numbers before) (l : Label) :
    p.byLabel.contains l = true ↔ l ∈ before := by
  have hl := h l
  rw [position?] at hl
  rw [Std.HashMap.contains_eq_isSome_getElem?, hl]
  split <;> simp [*]

/-- A new label gets the next position. -/
theorem Numbers.insert (h : p.Numbers before) {l : Label} (hl : l ∉ before) :
    Numbers ⟨p.byLabel.insert l before.length.toUInt32⟩ (before ++ [l]) := by
  intro l'
  have hold := h l'
  rw [position?] at hold
  rw [position?, Std.HashMap.getElem?_insert, hold, List.idxOf_append]
  by_cases heq : l = l'
  · subst heq
    simp [hl]
  · by_cases hmem : l' ∈ before
    · simp [heq, hmem]
    · simp [heq, hmem, Ne.symm heq]

theorem number_ok (h : p.Numbers before) (hn : number method p before.length body = .ok q) :
    firstRepeated? before (bodyLabels body) = none ∧ q.Numbers (before ++ bodyLabels body) := by
  induction body generalizing p before with
  | nil =>
    cases hn
    exact ⟨rfl, by simpa [bodyLabels] using h⟩
  | cons i rest ih =>
    rw [number] at hn
    split at hn
    · cases hn
    · rename_i hnew
      rw [h.contains_iff] at hnew
      have hnext := h.insert hnew
      rw [show before.length + 1 = (before ++ [i.label]).length by simp] at hn
      obtain ⟨hrest, hnumbers⟩ := ih hnext hn
      rw [List.append_assoc, List.singleton_append] at hnumbers
      exact ⟨by simpa [bodyLabels, firstRepeated?, hnew] using hrest, hnumbers⟩

theorem number_error (h : p.Numbers before) (hn : number method p before.length body = .error e) :
    (firstRepeated? before (bodyLabels body)).map (.duplicateLabel method) = some e := by
  induction body generalizing p before with
  | nil => cases hn
  | cons i rest ih =>
    rw [number] at hn
    split at hn
    · rename_i hold
      cases hn
      rw [h.contains_iff] at hold
      simp [bodyLabels, firstRepeated?, hold]
    · rename_i hnew
      rw [h.contains_iff] at hnew
      have hnext := h.insert hnew
      rw [show before.length + 1 = (before ++ [i.label]).length by simp] at hn
      simpa [bodyLabels, firstRepeated?, hnew] using ih hnext hn

/-- Positions that were built number the labels of the body, of which none is repeated. -/
theorem build_ok (h : build method body = .ok q) :
    body.length ≤ maxLength ∧ (bodyLabels body).Nodup ∧ q.Numbers (bodyLabels body) := by
  rw [build] at h
  split at h
  · cases h
  · have hfirst : number method {} ([] : List Label).length body = .ok q := h
    obtain ⟨hrepeated, hnumbers⟩ := number_ok numbers_empty hfirst
    exact ⟨by omega, (firstRepeated?_eq_none List.nodup_nil).mp hrepeated, hnumbers⟩

/-- Building fails on a body that is too long, or names the first repeated label. -/
theorem build_error (h : build method body = .error e) :
    (maxLength < body.length ∧ e = .tooManyInstructions method body.length) ∨
      (firstRepeated? [] (bodyLabels body)).map (.duplicateLabel method) = some e := by
  rw [build] at h
  split at h
  · cases h
    exact .inl ⟨‹_›, rfl⟩
  · have hfirst : number method {} ([] : List Label).length body = .error e := h
    exact .inr (number_error numbers_empty hfirst)

end Positions
end MethodPack.Export
