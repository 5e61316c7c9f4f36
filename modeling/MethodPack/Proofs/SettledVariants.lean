import MethodPack.Proofs.Presentation
import MethodPack.Proofs.Settling

/-!
# Settled variants

The value of an operand is settled before its kind decides how to read it. Variants of a value
settle alike: if one of them settles, both do, and to variants (`settle_variant`). Inside the
value of an operand nothing is inserted, and what is omitted settles to what may be omitted.
-/

namespace MethodPack.Metadata

open Json (Node Items Members Text SettlesTo PlainKeys)

variable {role : Role} {depth room : Nat} {node node' : Node}

/-! ## Roles inside the value of an operand -/

/-- The roles of the value of an operand and of what stands in it. -/
def Role.Inner (role : Role) : Prop := role ∈ [Role.value, .typeRef, .plain]

namespace Role.Inner

theorem field (h : role.Inner) (name : String) : (role.field name).Inner := by
  simp only [Role.Inner, List.mem_cons, List.not_mem_nil, or_false] at h ⊢
  rcases h with rfl | rfl | rfl <;> unfold Role.field <;> split <;> simp_all

theorem under (h : role.Inner) (key : Text) : (role.under key).Inner := by
  unfold Role.under
  split
  · exact h.field _
  · simp [Role.Inner]

theorem item (h : role.Inner) (i : Nat) : (role.item i).Inner := by
  have hrecord (record : Record) : ((record.fields[i]?.map role.field).getD .plain).Inner := by
    cases record.fields[i]? with
    | none => simp [Role.Inner]
    | some name => exact h.field name
  simp only [Role.Inner, List.mem_cons, List.not_mem_nil, or_false] at h
  rcases h with rfl | rfl | rfl
  · exact hrecord .memberRef
  · exact hrecord .typeRef
  · simp [Role.item, Role.record?, Role.Inner]

theorem not_extends (h : role.Inner) (key : Text) : ¬ role.Extends key := by
  simp only [Role.Inner, List.mem_cons, List.not_mem_nil, or_false] at h
  rcases h with rfl | rfl | rfl <;> simp [Role.Extends]

theorem default_cases {name : String} (hrole : role.Inner) (h : role.Default name node) :
    role = .typeRef ∧
      ((name = "namespace" ∧ ∃ t, node = .string t ∧ t.decode = .ok "") ∨
        (name = "declaring" ∧ node = .null)) := by
  simp only [Role.Inner, List.mem_cons, List.not_mem_nil, or_false] at hrole
  unfold Role.Default at h
  rcases hrole with rfl | rfl | rfl <;> split at h <;> simp_all

end Role.Inner

/-! ## Settling alike -/

/-- What the value settles to, if it does. -/
def settledNode (room : Nat) (node : Node) : Node := (node.settle room).toOption.getD .null

theorem settledNode_eq {v : Node} (h : node.settle room = .ok v) : settledNode room node = v := by
  rw [settledNode, h]
  rfl

theorem settle_settledNode (h : ∃ v, node.settle room = .ok v) :
    node.settle room = .ok (settledNode room node) := by
  obtain ⟨v, hv⟩ := h
  rw [settledNode_eq hv, hv]

/-- Both values settle, to variants. -/
structure SettleAlike (role : Role) (room : Nat) (node node' : Node) : Prop where
  left : node.settle room = .ok (settledNode room node)
  right : node'.settle room = .ok (settledNode room node')
  variant : Variant role room (settledNode room node) (settledNode room node')

/-- A scalar settles to a scalar that stands for the same. -/
theorem settleAlike_scalar (hdepth : node.depth = 0) {v : Node} (h : node.settle room = .ok v) :
    SettleAlike role room node node := by
  have hscalar : v.depth = 0 ∧ v.Distinct ∧ v.skip = .ok () := by
    cases node with
    | null | bool =>
      cases h
      exact ⟨rfl, trivial, rfl⟩
    | number n =>
      rw [Node.settle] at h
      split at h <;> cases h
      exact ⟨rfl, trivial, rfl⟩
    | string t =>
      obtain ⟨s, -, h⟩ := bind_ok_iff.mp h
      cases h
      exact ⟨rfl, trivial, rfl⟩
    | cutNumeral | broken => cases h
    | array | object => cases hdepth
  have hsettle := settle_settledNode ⟨v, h⟩
  refine ⟨hsettle, hsettle, .refl _ _, ?_, ?_, ?_, ?_⟩ <;> rw [settledNode_eq h]
  · exact hscalar.1 ▸ Nat.zero_le _
  · exact hscalar.2.1
  · exact hscalar.2.2
  · exact hscalar.2.2

/-! ## Arrays -/

/-- The items of an array that settles do so, too. -/
theorem settles_of_array {nodes : List Node} {v : Node}
    (h : (Node.array (.ofList nodes)).settle (room + 1) = .ok v) :
    ∀ n ∈ nodes, ∃ v, n.settle room = .ok v := by
  obtain ⟨items, hitems, -⟩ := bind_ok_iff.mp h
  obtain ⟨settled, -, hsettled⟩ := Items.settle_ok_iff.mp hitems
  clear h hitems
  induction hsettled with
  | nil => simp
  | cons hn _ ih => exact List.forall_mem_cons.mpr ⟨⟨_, hn⟩, ih⟩

theorem settle_array {nodes : List Node}
    (h : ∀ n ∈ nodes, n.settle room = .ok (settledNode room n)) :
    (Node.array (.ofList nodes)).settle (room + 1) =
      .ok (.array (.ofList (nodes.map (settledNode room)))) := by
  have hitems := Items.settle_ok_iff.mpr ⟨nodes.map (settledNode room), rfl, by
    rw [List.forall₂_map_right_iff, List.forall₂_same]
    exact h⟩
  rw [Node.settle, hitems]
  rfl

/-- Arrays whose items settle alike do so, too. -/
theorem settleAlike_array {pairs : List (Node × Node)}
    (h : ∀ i p, pairs[i]? = some p → SettleAlike (role.item i) room p.1 p.2) :
    SettleAlike role (room + 1) (.array (.ofList (pairs.map Prod.fst)))
      (.array (.ofList (pairs.map Prod.snd))) := by
  have hmem (p : Node × Node) (hp : p ∈ pairs) : ∃ role, SettleAlike role room p.1 p.2 := by
    obtain ⟨i, hi⟩ := List.mem_iff_getElem?.mp hp
    exact ⟨_, h i p hi⟩
  have hleft : (Node.array (.ofList (pairs.map Prod.fst))).settle (room + 1) = _ :=
    settle_array (by
      rw [List.forall_mem_map]
      exact fun p hp => (hmem p hp).choose_spec.left)
  have hright : (Node.array (.ofList (pairs.map Prod.snd))).settle (room + 1) = _ :=
    settle_array (by
      rw [List.forall_mem_map]
      exact fun p hp => (hmem p hp).choose_spec.right)
  have hsettled (i : Nat) (q : Node × Node)
      (hq : (pairs.map fun p => (settledNode room p.1, settledNode room p.2))[i]? = some q) :
      Variant (role.item i) room q.1 q.2 := by
    rw [List.getElem?_map, Option.map_eq_some_iff] at hq
    obtain ⟨p, hp, rfl⟩ := hq
    exact (h i p hp).variant
  have hvariant := variant_array hsettled
  refine ⟨settle_settledNode ⟨_, hleft⟩, settle_settledNode ⟨_, hright⟩, ?_⟩
  rw [settledNode_eq hleft, settledNode_eq hright]
  simpa only [List.map_map, Function.comp_def] using hvariant

/-! ## Objects -/

section Objects

variable {members members' omitted : List (Text × Node)} {kept : List Kept}

/-- A member as settled. -/
def settledMember (room : Nat) (m : Text × Node) : Text × Node :=
  (.ofString (m.1.name?.getD ""), settledNode room m.2)

/-- The key of a member is a string and the value settles. -/
def Settles (room : Nat) (m : Text × Node) : Prop :=
  (∃ name, m.1.decode = .ok name) ∧ ∃ v, m.2.settle room = .ok v

/-- The members of an object that settles do so, too. -/
theorem settles_of_object {v : Node}
    (h : (Node.object (.ofList members)).settle (room + 1) = .ok v) :
    ∀ m ∈ members, Settles room m := by
  obtain ⟨out, hout, -⟩ := bind_ok_iff.mp h
  intro m hm
  obtain ⟨m', name, hname, -, hvalue⟩ := Members.settlesTo_of_settle hout m hm
  exact ⟨⟨name, hname⟩, m'.2, hvalue⟩

theorem Settles.settlesTo {m : Text × Node} (h : Settles room m) :
    SettlesTo room m (settledMember room m) := by
  obtain ⟨⟨name, hname⟩, hvalue⟩ := h
  refine ⟨name, hname, ?_, settle_settledNode hvalue⟩
  rw [settledMember, Text.name?_eq_some.mpr hname, Option.getD_some]

/-- A settled member keeps its name. -/
theorem Settles.name?_settledMember {m : Text × Node} (h : Settles room m) :
    (settledMember room m).1.name? = m.1.name? := by
  obtain ⟨⟨name, hname⟩, -⟩ := h
  rw [settledMember, Text.name?_ofString, Text.name?_eq_some.mpr hname, Option.getD_some]

/-- Members with different names settle to their settled members, in some order. -/
theorem exists_settle_perm (hnodup : (members.filterMap fun e => e.1.name?).Nodup)
    (h : ∀ m ∈ members, Settles room m) :
    ∃ out, (Node.object (.ofList members)).settle (room + 1) = .ok (.object (.ofList out)) ∧
      out.Perm (members.map (settledMember room)) := by
  have hsettles : List.Forall₂ (SettlesTo room) members (members.map (settledMember room)) := by
    rw [List.forall₂_map_right_iff, List.forall₂_same]
    exact fun m hm => (h m hm).settlesTo
  obtain ⟨out, hout, hperm⟩ := Members.settle_perm hsettles (by rwa [Members.names_ofList])
  exact ⟨out, by rw [Node.settle, hout]; rfl, hperm⟩

/-- What may be omitted from the value of an operand settles to what may be omitted. -/
theorem settle_default (room : Nat) {name : String} (hrole : role.Inner) (h : role.Default name node) :
    ∃ v, node.settle room = .ok v ∧ role.Default name v ∧ v.depth = 0 ∧ v.Distinct ∧
      v.skip = .ok () := by
  obtain ⟨rfl, ⟨rfl, t, rfl, ht⟩ | ⟨rfl, rfl⟩⟩ := hrole.default_cases h
  · refine ⟨.string (.ofString ""), ?_, ⟨_, rfl, Text.decode_ofString ""⟩, rfl, trivial, rfl⟩
    rw [Node.settle, ht]
    rfl
  · exact ⟨.null, rfl, rfl, rfl, trivial, rfl⟩

/-- Settled members are arranged as the members were. -/
theorem arranged_settled (hrole : role.Inner) (h : Arranged role members members' kept omitted [])
    {out out' : List (Text × Node)} (hout : out.Perm (members.map (settledMember room)))
    (hout' : out'.Perm (members'.map (settledMember room))) :
    Arranged role out out' (kept.map fun k => ⟨.ofString (k.key.name?.getD ""),
      settledNode room k.left, settledNode room k.right⟩) (omitted.map (settledMember room)) [] where
  defaults := by
    rw [List.forall_mem_map]
    intro m hm
    obtain ⟨name, hname, hdefault⟩ := h.defaults m hm
    obtain ⟨v, hv, hdefault, -⟩ := settle_default room hrole hdefault
    refine ⟨name, ?_, by rwa [settledMember, settledNode_eq hv]⟩
    rw [settledMember, Text.name?_eq_some.mpr hname, Option.getD_some, Text.decode_ofString]
  unknown := by simp
  left := by
    have hperm := hout.trans (h.left.map (settledMember room))
    simpa [settledMember, Function.comp_def] using hperm
  right := by
    have hperm := hout'.trans (h.right.map (settledMember room))
    simpa [settledMember, Function.comp_def] using hperm

/-- Objects whose members settle alike do so, too. -/
theorem settleAlike_object (hrole : role.Inner)
    (harranged : Arranged role members members' kept omitted [])
    (hnodup : (members.filterMap fun e => e.1.name?).Nodup)
    (hkeys : ∀ k ∈ kept, ∃ name, k.key.decode = .ok name)
    (hkept : ∀ k ∈ kept, SettleAlike (role.under k.key) room k.left k.right) :
    SettleAlike role (room + 1) (.object (.ofList members)) (.object (.ofList members')) := by
  have hsettles : ∀ m ∈ members, Settles room m := by
    simp only [harranged.left.mem_iff, List.forall_mem_append, List.forall_mem_map]
    refine ⟨fun k hk => ⟨hkeys k hk, _, (hkept k hk).left⟩, fun m hm => ?_⟩
    obtain ⟨name, hname, hdefault⟩ := harranged.defaults m hm
    obtain ⟨v, hv, -⟩ := settle_default room hrole hdefault
    exact ⟨⟨name, hname⟩, v, hv⟩
  have hsettles' : ∀ m ∈ members', Settles room m := by
    simp only [harranged.right.mem_iff, List.forall_mem_append, List.forall_mem_map]
    exact ⟨fun k hk => ⟨hkeys k hk, _, (hkept k hk).right⟩, by simp⟩
  have hnodup' : (members'.filterMap fun e => e.1.name?).Nodup := by
    have hleft := (harranged.left.filterMap fun e => e.1.name?).nodup_iff.mp hnodup
    refine (harranged.right.filterMap fun e => e.1.name?).nodup_iff.mpr ?_
    simp only [List.filterMap_append, List.filterMap_map, Function.comp_def,
      List.append_nil] at hleft ⊢
    exact hleft.of_append_left
  obtain ⟨out, hleft, hout⟩ := exists_settle_perm hnodup hsettles
  obtain ⟨out', hright, hout'⟩ := exists_settle_perm hnodup' hsettles'
  refine ⟨settle_settledNode ⟨_, hleft⟩, settle_settledNode ⟨_, hright⟩, ?_⟩
  rw [settledNode_eq hleft, settledNode_eq hright]
  have hplain {es es' : List (Text × Node)} (h : es.Perm (es'.map (settledMember room))) :
      ∀ m ∈ es, m.1.skip = .ok () := by
    simp only [h.mem_iff, List.forall_mem_map]
    exact fun _ _ => rfl
  refine variant_object (arranged_settled hrole harranged hout hout') ?_
    ⟨hplain hout, hplain hout'⟩ ?_ ?_ (by simp)
  · refine (hout.filterMap fun e => e.1.name?).nodup_iff.mpr ?_
    have hnames := List.filterMap_congr fun m hm => (hsettles m hm).name?_settledMember
    rwa [List.filterMap_map, Function.comp_def, hnames]
  · rw [List.forall_mem_map]
    intro k hk
    obtain ⟨name, hname⟩ := hkeys k hk
    have hvariant := (hkept k hk).variant
    rw [Role.under, Text.name?_eq_some.mpr hname] at hvariant
    simpa [Role.under, Text.name?_eq_some.mpr hname] using hvariant
  · rw [List.forall_mem_map]
    intro m hm
    obtain ⟨name, hname, hdefault⟩ := harranged.defaults m hm
    obtain ⟨v, hv, -, hdepth, hdistinct, hskip⟩ := settle_default room hrole hdefault
    rw [settledMember, settledNode_eq hv]
    exact ⟨hdepth ▸ Nat.zero_le _, hdistinct, hskip⟩

end Objects

/-! ## Values -/

/-- Variants of a value inside that of an operand settle alike, if one of them settles. -/
theorem settle_variant (hrole : role.Inner) (h : Variant role depth node node')
    (hsettle : (∃ v, node.settle room = .ok v) ∨ ∃ v, node'.settle room = .ok v) :
    SettleAlike role room node node' := by
  have hview := h.view
  clear h
  induction room generalizing role depth node node' with
  | zero =>
    cases hview with
    | same hdepth =>
      obtain ⟨v, hv⟩ | ⟨v, hv⟩ := hsettle <;> exact settleAlike_scalar hdepth hv
    | array | object =>
      -- There is no room for a container.
      obtain ⟨v, hv⟩ | ⟨v, hv⟩ := hsettle <;> cases hv
  | succ room ih =>
    cases hview with
    | same hdepth =>
      obtain ⟨v, hv⟩ | ⟨v, hv⟩ := hsettle <;> exact settleAlike_scalar hdepth hv
    | array pairs hpairs =>
      refine settleAlike_array fun i p hp => ?_
      have hmem := List.mem_of_getElem? hp
      refine ih (hrole.item i) ?_ (hpairs i p hp).view
      exact hsettle.imp
        (fun ⟨_, hv⟩ => settles_of_array hv _ (List.mem_map_of_mem hmem))
        (fun ⟨_, hv⟩ => settles_of_array hv _ (List.mem_map_of_mem hmem))
    | object hmembers =>
      obtain ⟨kept, omitted, inserted, harranged, hkept⟩ := hmembers.arranged
      obtain rfl : inserted = [] := List.eq_nil_iff_forall_not_mem.mpr fun m hm =>
        hrole.not_extends _ (harranged.unknown m hm)
      have hsettles (k : Kept) (hk : k ∈ kept) :
          Settles room (k.key, k.left) ∨ Settles room (k.key, k.right) :=
        hsettle.imp
          (fun ⟨_, hv⟩ => settles_of_object hv _ (harranged.left.mem_iff.mpr
            (List.mem_append_left _ (List.mem_map_of_mem hk))))
          (fun ⟨_, hv⟩ => settles_of_object hv _ (harranged.right.mem_iff.mpr
            (List.mem_append_left _ (List.mem_map_of_mem hk))))
      refine settleAlike_object hrole harranged hmembers.nodup
        (fun k hk => (hsettles k hk).elim And.left And.left) fun k hk => ?_
      exact ih (hrole.under k.key) ((hsettles k hk).imp And.right And.right) (hkept k hk).view

end MethodPack.Metadata
