import Mathlib.Data.List.Forall2
import Mathlib.Data.List.Pairwise
import Mathlib.Tactic.MkIffOfInductiveProp
import MethodPack.Metadata.Decode
import MethodPack.Proofs.Steps
import MethodPack.Proofs.Trees

/-!
# Entries

Reading a record field by field. A value writes a record as entries, names with values, which
an object lists and an array gives by position. The draft that collects them has a slot for
each field (`Slot`); each slot is filled from the values under its own name alone
(`Fills.members_ok_iff`), so the order of the entries does not matter, and a whole record is
read exactly when its slots can be filled and the rest passed over (`record_ok_iff`).
-/

namespace MethodPack.Metadata

open Json (Node Items Members Text)

variable {δ α : Type}

/-! ## Entries -/

/-- The fields a value writes as the record, with what it writes under them. -/
def Record.entries? (record : Record) : Node → Option (List (Text × Node))
  | .object ms => ms.toList?
  | .array xs => xs.toList?.bind fun nodes =>
    if nodes.length ≤ record.fields.length then
      some ((record.fields.map Text.ofString).zip nodes)
    else none
  | _ => none

/-- The values under a name. -/
def valuesOf (field : String) (entries : List (Text × Node)) : List Node :=
  entries.filterMap fun e => if e.1.name? = some field then some e.2 else none

@[simp] theorem valuesOf_nil (field : String) : valuesOf field [] = [] := rfl

theorem valuesOf_cons (field : String) (key : Text) (value : Node)
    (entries : List (Text × Node)) : valuesOf field ((key, value) :: entries) =
      if key.name? = some field then value :: valuesOf field entries
      else valuesOf field entries := by
  rw [valuesOf, List.filterMap_cons]
  split <;> simp_all [valuesOf]

/-- The values under a name are read one behind the other into what is held for it; only
nothing can be replaced. -/
def Fill (read : Node → Result α) : Option α → List Node → Option α → Prop
  | held, [], held' => held' = held
  | none, value :: values, held' => ∃ x, read value = .ok x ∧ Fill read (some x) values held'
  | some _, _ :: _, _ => False

/-- The entry has a name, and can be passed over if the name is not among the fields. -/
def Passable (fields : List String) (e : Text × Node) : Prop :=
  ∃ name, e.1.decode = .ok name ∧ (name ∉ fields → e.2.skip = .ok ())

/-- What a field comes to: its only value as read, or its default. -/
def Holds (entries : List (Text × Node)) (field : String) (read : Node → Result α)
    (default : Option α) (x : α) : Prop :=
  match valuesOf field entries with
  | [] => default = some x
  | [value] => read value = .ok x
  | _ => False

section Fill

variable {read : Node → Result α} {entries : List (Text × Node)} {field : String} {x : α}

theorem holds_required_iff : Holds entries field read none x ↔
    Fill read none (valuesOf field entries) (some x) := by
  unfold Holds
  rcases valuesOf field entries with _ | ⟨value, _ | ⟨value', rest⟩⟩ <;> simp [Fill]

/-- A field with a default is filled or left empty. -/
theorem holds_default_iff {default : α} : Holds entries field read (some default) x ↔
    ∃ held, Fill read none (valuesOf field entries) held ∧ held.getD default = x := by
  unfold Holds
  rcases valuesOf field entries with _ | ⟨value, _ | ⟨value', rest⟩⟩
  · simp [Fill]
  · constructor
    · exact fun h => ⟨some x, ⟨x, h, rfl⟩, rfl⟩
    · rintro ⟨_, ⟨y, hy, rfl⟩, rfl⟩
      exact hy
  · simp [Fill]

end Fill

/-- The order of the entries does not matter to the values under a name, if there is at most
one. -/
theorem holds_of_perm {entries entries' : List (Text × Node)} (h : entries'.Perm entries)
    {field : String} {read : Node → Result α} {default : Option α} {x : α}
    (hholds : Holds entries field read default x) : Holds entries' field read default x := by
  have hperm : (valuesOf field entries').Perm (valuesOf field entries) := h.filterMap _
  unfold Holds at hholds ⊢
  rcases hvalues : valuesOf field entries with _ | ⟨value, _ | ⟨value', rest⟩⟩ <;>
    rw [hvalues] at hperm hholds
  · rwa [List.perm_nil.mp hperm]
  · rwa [List.perm_singleton.mp hperm]
  · exact hholds.elim

/-! ## Slots -/

/-- Where a draft keeps a field, and how the field is read. -/
structure Slot (δ : Type) where
  field : String
  α : Type
  get : δ → Option α
  put : δ → Option α → δ
  read : Node → Result α

/-- Reads a value into the slot, which must be empty. -/
def Slot.fill (s : Slot δ) (d : δ) (value : Node) : Result δ := do
  return s.put d (← once (s.get d) s.field (s.read value))

theorem Slot.fill_ok_iff {s : Slot δ} {d d' : δ} {value : Node} : s.fill d value = .ok d' ↔
    s.get d = none ∧ ∃ x, s.read value = .ok x ∧ s.put d (some x) = d' := by
  unfold Slot.fill once
  cases s.get d <;> cases s.read value <;> simp [bind, Except.bind, pure, Except.pure, Except.map]

/-- Filling one of the slots does not touch the other. -/
@[mk_iff]
structure Slot.Apart (s t : Slot δ) : Prop where
  field : s.field ≠ t.field
  left : ∀ d x, s.get (t.put d x) = s.get d
  right : ∀ d x, t.get (s.put d x) = t.get d

/-- The setter of a draft is made of the slots: it fills the slot of a field, and passes over
what belongs to none. -/
structure Fills (slots : List (Slot δ)) (set : δ → String → Node → Result δ) : Prop where
  known : ∀ s ∈ slots, ∀ d value, set d s.field value = s.fill d value
  unknown : ∀ field, field ∉ slots.map Slot.field → ∀ d value, set d field value = ignore d value
  get_put : ∀ s ∈ slots, ∀ d x, s.get (s.put d x) = x
  apart : slots.Pairwise Slot.Apart
  ext : ∀ d d', (∀ s ∈ slots, s.get d' = s.get d) → d' = d

/-- A member whose key is a string is set; then the rest is read. -/
theorem members_cons {set : δ → String → Node → Result δ} {d : δ} {key : Text} {name : String}
    {value : Node} {rest : Members} (hname : key.decode = .ok name) :
    members set d (.cons key value rest) =
      set d name value >>= fun d => members set d rest := by
  rw [members, hname]
  rfl

namespace Fills

variable {slots : List (Slot δ)} {set : δ → String → Node → Result δ} {d d' : δ} {s t : Slot δ}

theorem eq_or_apart (h : Fills slots set) (hs : s ∈ slots) (ht : t ∈ slots) :
    s = t ∨ s.Apart t := by
  have : Std.Symm (Slot.Apart (δ := δ)) := ⟨fun _ _ hst => ⟨hst.field.symm, hst.right, hst.left⟩⟩
  by_cases heq : s = t
  · exact .inl heq
  · exact .inr (h.apart.forall hs ht heq)

/-- Every slot of `d'` is filled from that of `d` by the values among the entries. -/
def Filled (slots : List (Slot δ)) (d : δ) (entries : List (Text × Node)) (d' : δ) : Prop :=
  ∀ s ∈ slots, Fill s.read (s.get d) (valuesOf s.field entries) (s.get d')

section Step

variable {key : Text} {name : String} {value : Node} {entries : List (Text × Node)}

/-- A member of a field fills its slot and leaves the others for the entries behind it. -/
theorem filled_known (h : Fills slots set) (hs : s ∈ slots) (hkey : key.name? = some s.field) :
    (∃ d₁, set d s.field value = .ok d₁ ∧ Filled slots d₁ entries d') ↔
      Filled slots d ((key, value) :: entries) d' := by
  have hput (x : s.α) (hget : s.get d = none) (hread : s.read value = .ok x) :
      Filled slots (s.put d (some x)) entries d' ↔
        Filled slots d ((key, value) :: entries) d' := by
    refine forall₂_congr fun t ht => ?_
    rw [valuesOf_cons, hkey]
    rcases h.eq_or_apart hs ht with rfl | hapart
    · rw [if_pos rfl, h.get_put s hs, hget]
      simp [Fill, hread]
    · rw [if_neg (by simpa using hapart.field), hapart.right]
  simp only [h.known s hs, Slot.fill_ok_iff]
  constructor
  · rintro ⟨_, ⟨hget, x, hread, rfl⟩, hfilled⟩
    exact (hput x hget hread).mp hfilled
  · intro hfilled
    have hfirst := hfilled s hs
    rw [valuesOf_cons, if_pos hkey] at hfirst
    cases hget : s.get d with
    | some _ =>
      rw [hget] at hfirst
      exact hfirst.elim
    | none =>
      rw [hget] at hfirst
      obtain ⟨x, hread, _⟩ := hfirst
      exact ⟨_, ⟨rfl, x, hread, rfl⟩, (hput x hget hread).mpr hfilled⟩

/-- A member without a slot is passed over. -/
theorem filled_unknown (h : Fills slots set) (hname : name ∉ slots.map Slot.field)
    (hkey : key.name? = some name) :
    (∃ d₁, set d name value = .ok d₁ ∧ Filled slots d₁ entries d') ↔
      value.skip = .ok () ∧ Filled slots d ((key, value) :: entries) d' := by
  have hcons : Filled slots d ((key, value) :: entries) d' ↔ Filled slots d entries d' := by
    refine forall₂_congr fun s hs => ?_
    have : name ≠ s.field := fun heq => hname (heq ▸ List.mem_map_of_mem hs)
    rw [valuesOf_cons, hkey, if_neg (by simpa using this)]
  rw [h.unknown name hname, hcons]
  unfold ignore
  cases value.skip <;> simp [ofFault, Except.mapError, bind, Except.bind, pure, Except.pure]

theorem filled_step (h : Fills slots set) (hname : key.decode = .ok name) :
    (∃ d₁, set d name value = .ok d₁ ∧ Filled slots d₁ entries d') ↔
      Passable (slots.map Slot.field) (key, value) ∧
        Filled slots d ((key, value) :: entries) d' := by
  have hkey := Text.name?_eq_some.mpr hname
  have hpass : Passable (slots.map Slot.field) (key, value) ↔
      (name ∉ slots.map Slot.field → value.skip = .ok ()) := by
    simp [Passable, hname]
  rw [hpass]
  by_cases hknown : name ∈ slots.map Slot.field
  · obtain ⟨s, hs, rfl⟩ := List.mem_map.mp hknown
    rw [h.filled_known hs hkey]
    simp [hknown]
  · rw [h.filled_unknown hknown hkey]
    simp [hknown]

end Step

/-- A draft is read from members when each of them can be read or passed over and every slot
is as its values, in order, fill it. -/
theorem members_ok_iff (h : Fills slots set) {entries : List (Text × Node)} :
    members set d (.ofList entries) = .ok d' ↔
      (∀ e ∈ entries, Passable (slots.map Slot.field) e) ∧ Filled slots d entries d' := by
  induction entries generalizing d with
  | nil =>
    simp only [Members.ofList_nil, members, Filled, valuesOf_nil, Fill, Except.ok.injEq]
    exact ⟨fun hd => ⟨by simp, by simp [hd]⟩, fun hfill => (h.ext _ _ hfill.2).symm⟩
  | cons e entries ih =>
    obtain ⟨key, value⟩ := e
    rw [Members.ofList_cons, List.forall_mem_cons]
    cases hname : key.decode with
    | error f => simp [members, Passable, hname, ofFault, Except.mapError, bind, Except.bind]
    | ok name =>
      rw [members_cons hname]
      simp only [bind_ok_iff, ih, and_left_comm (b := ∀ e ∈ entries, _), exists_and_left]
      rw [h.filled_step hname, and_left_comm, and_assoc]

end Fills

/-! ## Reading a record -/

/-- Items are read like the members they list the values of. -/
theorem positions_ok_iff (source : Source) (length : Nat) (set : δ → String → Node → Result δ)
    (d d' : δ) (fields : List String) (xs : Items) :
    positions source length set d fields xs = .ok d' ↔
      ∃ nodes, xs.toList? = some nodes ∧ nodes.length ≤ fields.length ∧
        members set d (.ofList ((fields.map Text.ofString).zip nodes)) = .ok d' := by
  match fields, xs with
  | _, .done none => simp [positions, Items.toList?, members]
  | _, .done (some f) => simp [positions, Items.toList?]
  | [], .cons head tail => cases source <;> simp [positions, Items.toList?]
  | field :: fields, .cons head tail =>
    have ih {d₁ : δ} := positions_ok_iff source length set d₁ d' fields tail
    simp only [positions, bind_ok_iff, ih, Items.toList?,
      Option.map_eq_some_iff]
    constructor
    · rintro ⟨d₁, hset, nodes, hnodes, hlength, hmembers⟩
      refine ⟨_, ⟨nodes, hnodes, rfl⟩, Nat.succ_le_succ hlength, ?_⟩
      exact (members_cons (Text.decode_ofString field)).trans (bind_ok_iff.mpr ⟨d₁, hset, hmembers⟩)
    · rintro ⟨_, ⟨nodes, hnodes, rfl⟩, hlength, hmembers⟩
      obtain ⟨d₁, hset, hmembers⟩ :=
        bind_ok_iff.mp ((members_cons (Text.decode_ofString field)).symm.trans hmembers)
      exact ⟨d₁, hset, nodes, hnodes, Nat.le_of_succ_le_succ hlength, hmembers⟩

theorem enter_ok_iff {room inner : Nat} : enter room = .ok inner ↔ room = inner + 1 := by
  cases room <;> simp [enter, eq_comm]

/-- Members that are read have no fault in place of their end. -/
theorem exists_toList?_of_members {set : δ → String → Node → Result δ} {d d' : δ} {ms : Members}
    (h : members set d ms = .ok d') : ∃ entries, ms.toList? = some entries := by
  match ms with
  | .done none => exact ⟨[], rfl⟩
  | .done (some f) => cases h
  | .cons key value tail =>
    obtain ⟨name, -, h⟩ := bind_ok_iff.mp h
    obtain ⟨d₁, -, h⟩ := bind_ok_iff.mp h
    obtain ⟨entries, hentries⟩ := exists_toList?_of_members h
    exact ⟨(key, value) :: entries, by rw [Members.toList?, hentries, Option.map_some]⟩

theorem items_ok_iff (read : Node → Result α) (xs : Items) (values : List α) :
    items read xs = .ok values ↔ ∃ nodes, xs.toList? = some nodes ∧
      List.Forall₂ (fun node value => read node = .ok value) nodes values := by
  match xs with
  | .done none => simp [items, Items.toList?, eq_comm]
  | .done (some f) => simp [items, Items.toList?]
  | .cons head tail =>
    have ih {values : List α} := items_ok_iff read tail values
    simp only [items, bind_ok_iff, ih, Items.toList?,
      Option.map_eq_some_iff]
    constructor
    · rintro ⟨x, hx, rest, ⟨nodes, hnodes, hrest⟩, hvalues⟩
      cases hvalues
      exact ⟨head :: nodes, ⟨nodes, hnodes, rfl⟩, .cons hx hrest⟩
    · rintro ⟨_, ⟨nodes, hnodes, rfl⟩, _ | ⟨hx, hrest⟩⟩
      exact ⟨_, hx, _, ⟨nodes, hnodes, hrest⟩, rfl⟩

theorem sequence_array_ok_iff {room : Nat} {read : Nat → Node → Result α} {nodes : List Node}
    {values : List α} : sequence room read (.array (.ofList nodes)) = .ok values ↔
      ∃ inner, room = inner + 1 ∧
        List.Forall₂ (fun node value => read inner node = .ok value) nodes values := by
  simp only [sequence, bind_ok_iff, enter_ok_iff, items_ok_iff, Items.toList?_ofList,
    Option.some.injEq, exists_eq_left']

/-- What is read into a draft does not depend on the layout. -/
theorem readRecord_ok_iff {source : Source} {record : Record} {room : Nat}
    {set : Nat → δ → String → Node → Result δ} {d d' : δ} {node : Node} :
    (∃ layout, readRecord source record room set d node = .ok (layout, d')) ↔
      ∃ inner, room = inner + 1 ∧ ∃ entries, record.entries? node = some entries ∧
        members (set inner) d (.ofList entries) = .ok d' := by
  -- Both containers: there is room, a draft is read, and the layout goes with it.
  have hcontainer (l : Layout) (read : Nat → Result δ) :
      (∃ layout, (do let room ← enter room; return (l, ← read room)) = .ok (layout, d')) ↔
        ∃ inner, room = inner + 1 ∧ read inner = .ok d' := by
    simp only [bind_ok_iff, enter_ok_iff]
    constructor
    · rintro ⟨_, inner, hroom, d₁, hread, hpair⟩
      cases hpair
      exact ⟨inner, hroom, hread⟩
    · rintro ⟨inner, hroom, hread⟩
      exact ⟨l, inner, hroom, d', hread, rfl⟩
  cases node with
  | object ms =>
    refine (hcontainer .named fun room => members (set room) d ms).trans ?_
    refine exists_congr fun inner => and_congr_right fun _ => ?_
    constructor
    · intro h
      obtain ⟨entries, hentries⟩ := exists_toList?_of_members h
      exact ⟨entries, hentries, Members.eq_ofList hentries ▸ h⟩
    · rintro ⟨entries, hentries, h⟩
      exact Members.eq_ofList hentries ▸ h
  | array xs =>
    refine (hcontainer .positional fun room =>
      positions source xs.length (set room) d record.fields xs).trans ?_
    refine exists_congr fun inner => and_congr_right fun _ => ?_
    rw [positions_ok_iff, Record.entries?]
    constructor
    · rintro ⟨nodes, hnodes, hlength, h⟩
      exact ⟨_, by rw [hnodes, Option.bind_some, if_pos hlength], h⟩
    · rintro ⟨entries, hentries, h⟩
      obtain ⟨nodes, hnodes, hentries⟩ := Option.bind_eq_some_iff.mp hentries
      split at hentries
      · cases hentries
        exact ⟨nodes, hnodes, ‹_›, h⟩
      · cases hentries
  | _ => simp [readRecord, Record.entries?]

/-- A value can be read as a record: there is room for it, all its entries can be passed over
or belong to fields, and with the room inside it they are as `Q` says. -/
def Record.Reads (record : Record) (room : Nat) (node : Node)
    (Q : Nat → List (Text × Node) → Prop) : Prop :=
  ∃ inner, room = inner + 1 ∧ ∃ entries, record.entries? node = some entries ∧
    (∀ e ∈ entries, Passable record.fields e) ∧ Q inner entries

theorem require_ok_iff {record : Record} {layout : Layout} {field : String} {held : Option α}
    {x : α} : require record layout field held = .ok x ↔ held = some x := by
  cases held <;> cases layout <;> simp [require]

/-- A record made from a draft, whatever its layout, is read from the drafts that the slots
admit. -/
theorem record_ok_iff {source : Source} {record : Record} {room : Nat}
    {slots : Nat → List (Slot δ)} {set : Nat → δ → String → Node → Result δ} {d : δ} {node : Node}
    {finish : Layout × δ → Result α} {x : α} {P : δ → Prop}
    (hfills : ∀ inner, Fills (slots inner) (set inner))
    (hfields : ∀ inner, (slots inner).map Slot.field = record.fields)
    (hfinish : ∀ layout d, finish (layout, d) = .ok x ↔ P d) :
    (readRecord source record room set d node >>= finish) = .ok x ↔
      record.Reads room node fun inner entries =>
        ∃ d', Fills.Filled (slots inner) d entries d' ∧ P d' := by
  have hread : (readRecord source record room set d node >>= finish) = .ok x ↔
      ∃ d', (∃ layout, readRecord source record room set d node = .ok (layout, d')) ∧ P d' := by
    rw [bind_ok_iff]
    constructor
    · rintro ⟨⟨layout, d'⟩, hread, hx⟩
      exact ⟨d', ⟨layout, hread⟩, (hfinish layout d').mp hx⟩
    · rintro ⟨d', ⟨layout, hread⟩, hP⟩
      exact ⟨(layout, d'), hread, (hfinish layout d').mpr hP⟩
  rw [hread]
  simp only [readRecord_ok_iff, (hfills _).members_ok_iff, hfields, Record.Reads]
  constructor
  · rintro ⟨d', ⟨inner, hroom, entries, hentries, hpass, hfilled⟩, hP⟩
    exact ⟨inner, hroom, entries, hentries, hpass, d', hfilled, hP⟩
  · rintro ⟨inner, hroom, entries, hentries, hpass, d', hfilled, hP⟩
    exact ⟨d', ⟨inner, hroom, entries, hentries, hpass, hfilled⟩, hP⟩

theorem Record.reads_congr {record : Record} {room : Nat} {node : Node}
    {P Q : Nat → List (Text × Node) → Prop} (h : ∀ inner entries, P inner entries ↔ Q inner entries) :
    record.Reads room node P ↔ record.Reads room node Q := by
  simp only [Record.Reads, h]

end MethodPack.Metadata
