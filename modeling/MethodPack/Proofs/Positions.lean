import MethodPack.Proofs.Operands

/-!
# Positions

The map of the positions of a method is built instruction by instruction, and given up at the
first label that has a position already. Main statement: it is built exactly for distinct
labels, and then leads from each label to its instruction and from nowhere else
(`build_positions`).
-/

namespace MethodPack.Export

open Packed (maxLength)

/-! ## Repeated labels -/

/-- The label at the position occurs before it. -/
def RepeatsAt (labels : List Label) (n : Nat) : Prop := ∃ l ∈ labels[n]?, l ∈ labels.take n

instance (labels : List Label) (n : Nat) : Decidable (RepeatsAt labels n) :=
  inferInstanceAs (Decidable (∃ l ∈ labels[n]?, l ∈ labels.take n))

/-- The first repeated label stands at the first position that repeats one. -/
theorem exists_position_of_firstRepeated? {before labels : List Label} {l : Label}
    (h : firstRepeated? before labels = some l) :
    ∃ n, labels[n]? = some l ∧ l ∈ before ++ labels.take n ∧
      ∀ k < n, ∀ l', labels[k]? = some l' → l' ∉ before ++ labels.take k := by
  induction labels generalizing before with
  | nil => cases h
  | cons head rest ih =>
    rw [firstRepeated?] at h
    by_cases hhead : head ∈ before
    · rw [if_pos hhead] at h
      cases h
      refine ⟨0, rfl, by simpa using hhead, ?_⟩
      intro k hk
      omega
    · rw [if_neg hhead] at h
      obtain ⟨n, hn, hl, hfirst⟩ := ih h
      refine ⟨n + 1, hn, by simpa using hl, ?_⟩
      intro k hk l' hl'
      cases k with
      | zero =>
        cases hl'
        simpa using hhead
      | succ k => simpa using hfirst k (by omega) l' hl'

/-- Labels that are not distinct have a first position that repeats one of them. -/
theorem exists_first_repeat {labels : List Label} (h : ¬ labels.Nodup) :
    ∃ n l, labels[n]? = some l ∧ firstRepeated? [] labels = some l ∧ RepeatsAt labels n ∧
      ∀ k < n, ¬ RepeatsAt labels k := by
  have hrepeated : firstRepeated? [] labels ≠ none :=
    mt (firstRepeated?_eq_none List.nodup_nil).mp h
  obtain ⟨l, hl⟩ := Option.ne_none_iff_exists'.mp hrepeated
  obtain ⟨n, hn, hbefore, hfirst⟩ := exists_position_of_firstRepeated? hl
  refine ⟨n, l, hn, hl, ⟨l, hn, hbefore⟩, ?_⟩
  rintro k hk ⟨l', hl', hmem⟩
  exact hfirst k hk l' hl' hmem

namespace Positions

variable {method : String} {p q : Positions} {body : List Instruction} {labels : List Label}
  {l : Label}

/-! ## Positions that were built -/

/-- Every instruction that is numbered adds a label to the map. -/
theorem size_number {position : Nat} (h : number method p position body = .ok q) :
    q.size = p.size + body.length := by
  induction body generalizing p position with
  | nil =>
    cases h
    rfl
  | cons i rest ih =>
    rw [number] at h
    split at h
    · cases h
    · rename_i hnew
      have hinsert : (p.byLabel.insert i.label position.toUInt32).size = p.size + 1 := by
        rw [Std.HashMap.size_insert, if_neg (by simpa using hnew)]
        rfl
      rw [ih h, size, hinsert, List.length_cons]
      omega

theorem size_build (h : build method body = .ok q) : q.size = body.length := by
  rw [build] at h
  split at h
  · cases h
  · simpa [size] using size_number h

/-- The map leads from a label to the position where it stands. -/
theorem Numbers.position?_eq_some_iff (h : p.Numbers labels) (hnodup : labels.Nodup)
    (hlen : labels.length < 2 ^ 31) (n : Nat) :
    (p.position? l).map UInt32.toNat = some n ↔ labels[n]? = some l := by
  rw [h l]
  by_cases hl : l ∈ labels
  · have hrank : labels.idxOf l < labels.length := List.idxOf_lt_length_of_mem hl
    have hword : (labels.idxOf l).toUInt32.toNat = labels.idxOf l :=
      UInt32.toNat_ofNat_of_lt' (by show labels.idxOf l < 2 ^ 32; omega)
    rw [if_pos hl, Option.map_some, hword, Option.some.injEq]
    constructor
    · rintro rfl
      exact List.getElem?_idxOf hl
    · intro hn
      obtain ⟨hlt, rfl⟩ := List.getElem?_eq_some_iff.mp hn
      exact hnodup.idxOf_getElem n hlt
  · rw [if_neg hl]
    constructor
    · intro hn
      cases hn
    · intro hn
      exact absurd (List.mem_of_getElem? hn) hl

/-- A position below 2^31 is the same number as a signed word of either width. -/
theorem signed_position {k : UInt32} (hk : k.toNat < 2 ^ 31) :
    k.toInt32.toInt = k.toNat ∧ k.toUInt64.toInt64.toInt = k.toNat := by
  constructor
  · rw [← Int32.toInt_toBitVec, UInt32.toBitVec_toInt32, BitVec.toInt_eq_toNat_bmod,
      UInt32.toNat_toBitVec]
    exact Int.bmod_eq_of_le (by omega) (by omega)
  · have hword : k.toUInt64.toNat = k.toNat := UInt32.toNat_toUInt64 k
    rw [toInt_toInt64_of_lt (by omega), hword]

/-- The labels are distinct where positions were built, and only there. -/
theorem build_ok_iff (hlen : body.length < 2 ^ 31) :
    (∃ p, build method body = .ok p) ↔ (bodyLabels body).Nodup := by
  constructor
  · rintro ⟨p, hp⟩
    exact (build_ok hp).2.1
  · intro hnodup
    rcases hbuild : build method body with e | p
    · have hnone : firstRepeated? [] (bodyLabels body) = none :=
        (firstRepeated?_eq_none List.nodup_nil).mpr hnodup
      rcases build_error hbuild with ⟨hlong, _⟩ | hrepeated
      · rw [maxLength] at hlong
        omega
      · rw [hnone] at hrepeated
        cases hrepeated
    · exact ⟨p, rfl⟩

/-- Where a label is repeated, the first one that is stands in the error. -/
theorem build_of_repeated (hlen : body.length < 2 ^ 31)
    (hl : firstRepeated? [] (bodyLabels body) = some l) :
    build method body = .error (.duplicateLabel method l) := by
  rcases hbuild : build method body with e | p
  · rcases build_error hbuild with ⟨hlong, _⟩ | hrepeated
    · rw [maxLength] at hlong
      omega
    · rw [hl] at hrepeated
      cases hrepeated
      rfl
  · have hnone : firstRepeated? [] (bodyLabels body) = none :=
      (firstRepeated?_eq_none List.nodup_nil).mpr (build_ok hbuild).2.1
    rw [hnone] at hl
    cases hl

/-- **The positions of a method.** They are built exactly when the labels are distinct. The map
then leads from a label to a position exactly when the instruction there carries the label, has
one entry for each instruction, and its positions are the same numbers as signed words of four
bytes and of eight. Otherwise the error names the label of the first instruction whose label
occurs before it. -/
theorem build_positions (method : String) {body : List Instruction}
    (hlen : body.length < 2 ^ 31) :
    ((∃ p, build method body = .ok p) ↔ (bodyLabels body).Nodup) ∧
    (∀ p, build method body = .ok p →
      (∀ l n, (p.position? l).map UInt32.toNat = some n ↔
        (body[n]?).map Instruction.label = some l) ∧
      p.size = body.length ∧
      ∀ l k, p.position? l = some k →
        k.toInt32.toInt = k.toNat ∧ k.toUInt64.toInt64.toInt = k.toNat) ∧
    (¬ (bodyLabels body).Nodup → ∃ n i, body[n]? = some i ∧
      RepeatsAt (bodyLabels body) n ∧ (∀ k < n, ¬ RepeatsAt (bodyLabels body) k) ∧
      build method body = .error (.duplicateLabel method i.label)) := by
  have hlabels (n : Nat) : (bodyLabels body)[n]? = (body[n]?).map Instruction.label :=
    List.getElem?_map
  refine ⟨build_ok_iff hlen, ?_, ?_⟩
  · intro p hp
    obtain ⟨_, hnodup, hnumbers⟩ := build_ok hp
    have hposition (l : Label) (n : Nat) :
        (p.position? l).map UInt32.toNat = some n ↔ (body[n]?).map Instruction.label = some l := by
      rw [hnumbers.position?_eq_some_iff hnodup (by simpa [bodyLabels] using hlen), hlabels]
    refine ⟨hposition, size_build hp, ?_⟩
    intro l k hk
    -- a stored position is that of an instruction, so it is below the length
    have hcarries := (hposition l k.toNat).mp (by rw [hk]; rfl)
    obtain ⟨i, hi, _⟩ := Option.map_eq_some_iff.mp hcarries
    have hlt := (List.getElem?_eq_some_iff.mp hi).1
    exact signed_position (by omega)
  · intro hdistinct
    obtain ⟨n, l, hn, hl, hrepeats, hfirst⟩ := exists_first_repeat hdistinct
    rw [hlabels] at hn
    obtain ⟨i, hi, rfl⟩ := Option.map_eq_some_iff.mp hn
    exact ⟨n, i, hi, hrepeats, hfirst, build_of_repeated hlen hl⟩

/-- Labels need not ascend. Of two labels that are repeated, the one whose repetition comes first
is named. -/
theorem build_positions_sample :
    let distinct : List Instruction := [.bare 7 .ldarg0, .bare 0 .nop, .bare 3 .ret]
    let repeated := distinct ++ [.bare 0 .nop, .bare 7 .ret]
    (∃ p, build "App.Main::Run" distinct = .ok p ∧ p.size = 3 ∧
      (p.position? ⟨0⟩).map UInt32.toNat = some 1 ∧ p.position? ⟨5⟩ = none) ∧
    build "App.Main::Run" repeated = .error (.duplicateLabel "App.Main::Run" ⟨0⟩) := by
  intro distinct repeated
  constructor
  · have hlen : distinct.length < 2 ^ 31 := by decide
    obtain ⟨hok, hbuilt, _⟩ := build_positions "App.Main::Run" hlen
    obtain ⟨p, hp⟩ := hok.mpr (by decide)
    obtain ⟨hposition, hsize, _⟩ := hbuilt p hp
    refine ⟨p, hp, hsize, (hposition _ 1).mpr (by decide), ?_⟩
    rcases hfive : p.position? ⟨5⟩ with _ | k
    · rfl
    · have hcarries := (hposition ⟨5⟩ k.toNat).mp (by rw [hfive]; rfl)
      have hmem : ⟨5⟩ ∈ bodyLabels distinct := by
        rw [← List.getElem?_map] at hcarries
        exact List.mem_of_getElem? hcarries
      exact absurd hmem (by decide)
  · have hlen : repeated.length < 2 ^ 31 := by decide
    obtain ⟨-, -, hrefused⟩ := build_positions "App.Main::Run" hlen
    obtain ⟨n, i, hi, hrepeats, hfirst, herror⟩ := hrefused (by decide)
    have hn : n = 3 := by
      have hle : n ≤ 3 := by
        by_contra hlt
        exact hfirst 3 (by omega) (by decide)
      have hall : ∀ k ≤ 3, RepeatsAt (bodyLabels repeated) k → k = 3 := by decide
      exact hall n hle hrepeats
    subst hn
    cases hi
    exact herror

end Positions
end MethodPack.Export
