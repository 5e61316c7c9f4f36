import Mathlib.Data.List.Forall2
import Mathlib.Data.List.Nodup
import Mathlib.Data.List.Perm.Basic
import MethodPack.Metadata.Decode
import MethodPack.Proofs.Steps
import MethodPack.Proofs.Trees

/-!
# Settling

What a value becomes when it is read as a whole. Items keep their places. Members are sorted
by key, and of two with one key the later counts; without repeated keys the settled members
are those of the object in another order (`Members.settle_perm`).
-/

namespace MethodPack.Json

variable {room : Nat}

theorem Text.ofString_injective {s t : String} (h : Text.ofString s = Text.ofString t) : s = t := by
  have := congrArg Text.name? h
  simpa using this

/-- Items are settled one by one. -/
theorem Items.settle_ok_iff {nodes : List Node} {items : Items} :
    (ofList nodes).settle room = .ok items ↔
      ∃ settled, items = ofList settled ∧
        List.Forall₂ (fun node node' => node.settle room = .ok node') nodes settled := by
  induction nodes generalizing items with
  | nil => simp [Items.settle, eq_comm]
  | cons node nodes ih =>
    simp only [ofList_cons, Items.settle, bind_ok_iff, ih, List.forall₂_cons_left_iff]
    constructor
    · rintro ⟨node', hnode, _, ⟨settled, rfl, hsettled⟩, hitems⟩
      cases hitems
      exact ⟨node' :: settled, rfl, node', settled, hnode, hsettled, rfl⟩
    · rintro ⟨_, rfl, node', settled, hnode, hsettled, rfl⟩
      exact ⟨node', hnode, _, ⟨settled, rfl, hsettled⟩, rfl⟩

/-- What a member is settled to: its key is written plainly, its value is settled. -/
def SettlesTo (room : Nat) (m m' : Text × Node) : Prop :=
  ∃ key, m.1.decode = .ok key ∧ m'.1 = .ofString key ∧ m.2.settle room = .ok m'.2

/-- The keys are written plainly. -/
def PlainKeys (members : List (Text × Node)) : Prop := ∀ m ∈ members, ∃ key, m.1 = .ofString key

theorem PlainKeys.cons {members : List (Text × Node)} (h : PlainKeys members) (key : String)
    (value : Node) : PlainKeys ((.ofString key, value) :: members) :=
  List.forall_mem_cons.mpr ⟨⟨key, rfl⟩, h⟩

/-- The keys of settled members are the names of the members. -/
theorem SettlesTo.map_key {members settled : List (Text × Node)}
    (h : List.Forall₂ (SettlesTo room) members settled) :
    settled.map Prod.fst = (Members.ofList members).names.map Text.ofString := by
  induction h with
  | nil => rfl
  | cons hm _ ih =>
    obtain ⟨key, hdecode, hkey, -⟩ := hm
    rw [Members.ofList_cons, Members.names, Text.name?_eq_some.mpr hdecode]
    simp [hkey, ih]

namespace Members

/-- A member with a new key finds a place among the others. -/
theorem insert_perm {members : List (Text × Node)} (hplain : PlainKeys members) {key : String}
    (hnew : .ofString key ∉ members.map Prod.fst) (value : Node) :
    ∃ out, (ofList members).insert key value = ofList out ∧
      out.Perm ((.ofString key, value) :: members) := by
  induction members with
  | nil => exact ⟨[_], rfl, .refl _⟩
  | cons m members ih =>
    obtain ⟨⟨key', hkey'⟩, hplain⟩ := List.forall_mem_cons.mp hplain
    simp only [List.map_cons, List.mem_cons, not_or] at hnew
    obtain ⟨out, hout, hperm⟩ := ih hplain hnew.2
    obtain ⟨_, v⟩ := m
    subst hkey'
    rw [ofList_cons, insert, Text.decode_ofString]
    have hne : key ≠ key' := fun h => hnew.1 (congrArg _ h)
    by_cases hlt : key < key'
    · exact ⟨_, if_pos hlt, .refl _⟩
    · refine ⟨(.ofString key', v) :: out, ?_, ?_⟩
      · rw [ofList_cons, ← hout]
        simp only [hlt, if_false, hne]
      · exact (hperm.cons _).trans (.swap _ _ _)

/-- Members whose keys are new settle into those already there. -/
theorem settle_into {members settled : List (Text × Node)}
    (h : List.Forall₂ (SettlesTo room) members settled) {into : List (Text × Node)}
    (hplain : PlainKeys into) (hnodup : ((settled ++ into).map Prod.fst).Nodup) :
    ∃ out, (ofList members).settle room (ofList into) = .ok (ofList out) ∧
      out.Perm (settled ++ into) := by
  induction h generalizing into with
  | nil => exact ⟨into, rfl, .refl _⟩
  | @cons m m' members settled hm _ ih =>
    obtain ⟨key, hdecode, hkey, hvalue⟩ := hm
    obtain ⟨_, value⟩ := m'
    subst hkey
    simp only [List.cons_append, List.map_cons, List.nodup_cons] at hnodup
    have hnew : .ofString key ∉ into.map Prod.fst := fun hmem =>
      hnodup.1 (by rw [List.map_append]; exact List.mem_append_right _ hmem)
    obtain ⟨next, hinsert, hnext⟩ := insert_perm hplain hnew value
    have hmiddle : (settled ++ next).Perm ((.ofString key, value) :: (settled ++ into)) :=
      (hnext.append_left settled).trans List.perm_middle
    have hplain' : PlainKeys next := fun x hx => by
      rcases List.mem_cons.mp (hnext.mem_iff.mp hx) with rfl | hx
      · exact ⟨key, rfl⟩
      · exact hplain x hx
    obtain ⟨out, hout, hperm⟩ := ih hplain'
      ((hmiddle.map Prod.fst).nodup_iff.mpr (List.nodup_cons.mpr hnodup))
    refine ⟨out, ?_, hperm.trans hmiddle⟩
    rw [ofList_cons, Members.settle, hdecode, hvalue]
    exact (congrArg _ hinsert).trans hout

/-- Without repeated keys, settled members are those of the object in some order. -/
theorem settle_perm {members settled : List (Text × Node)}
    (h : List.Forall₂ (SettlesTo room) members settled) (hnodup : (ofList members).names.Nodup) :
    ∃ out, (ofList members).settle room (.done none) = .ok (ofList out) ∧ out.Perm settled := by
  have hkeys : ((settled ++ []).map Prod.fst).Nodup := by
    rw [List.append_nil, SettlesTo.map_key h]
    exact hnodup.map fun _ _ => Text.ofString_injective
  obtain ⟨out, hout, hperm⟩ := settle_into h (fun _ hm => by cases hm) hkeys
  exact ⟨out, hout, hperm.trans (by rw [List.append_nil])⟩

/-- A member that is put among plainly written ones leaves them so. -/
theorem insert_plainKeys {members : List (Text × Node)} (h : PlainKeys members) (key : String)
    (value : Node) :
    ∃ out, (ofList members).insert key value = ofList out ∧ PlainKeys out := by
  induction members with
  | nil => exact ⟨[(.ofString key, value)], rfl, h.cons key value⟩
  | cons m members ih =>
    obtain ⟨⟨key', hkey'⟩, hplain⟩ := List.forall_mem_cons.mp h
    have hplain : PlainKeys members := hplain
    obtain ⟨out, hout, hplain'⟩ := ih hplain
    obtain ⟨_, v⟩ := m
    subst hkey'
    rw [ofList_cons, insert, Text.decode_ofString]
    by_cases hlt : key < key'
    · exact ⟨_, if_pos hlt, h.cons key value⟩
    · simp only [hlt, if_false]
      by_cases heq : key = key'
      · exact ⟨_, if_pos heq, hplain.cons key' value⟩
      · refine ⟨(.ofString key', v) :: out, ?_, hplain'.cons key' v⟩
        rw [if_neg heq, hout, ofList_cons]

/-- Settled members have their keys written plainly. -/
theorem plainKeys_of_settle {ms out : Members} {into : List (Text × Node)}
    (hinto : PlainKeys into) (h : ms.settle room (ofList into) = .ok out) :
    ∃ settled, out = ofList settled ∧ PlainKeys settled := by
  match ms with
  | .done none =>
    cases h
    exact ⟨into, rfl, hinto⟩
  | .done (some _) => cases h
  | .cons key value tail =>
    obtain ⟨key, -, h⟩ := bind_ok_iff.mp h
    obtain ⟨value, -, h⟩ := bind_ok_iff.mp h
    obtain ⟨next, hnext, hplain⟩ := insert_plainKeys hinto key value
    exact plainKeys_of_settle hplain (hnext ▸ h)

/-- Members that settle do so one by one. -/
theorem settlesTo_of_settle {members : List (Text × Node)} {into out : Members}
    (h : (ofList members).settle room into = .ok out) :
    ∀ m ∈ members, ∃ m', SettlesTo room m m' := by
  induction members generalizing into with
  | nil => intro m hm; cases hm
  | cons m members ih =>
    obtain ⟨key, hkey, h⟩ := bind_ok_iff.mp h
    obtain ⟨value, hvalue, h⟩ := bind_ok_iff.mp h
    exact List.forall_mem_cons.mpr ⟨⟨(.ofString key, value), key, hkey, rfl, hvalue⟩, ih h⟩

end Members

end MethodPack.Json
