import Mathlib.Data.List.Perm.Basic
import MethodPack.Proofs.Records

/-!
# Presentation

How one metadata document may be presented differently (`Recast`): the members of any object
in another order, fields left out that hold their default, and, in the records that are read
straight from the text, fields added that the record does not know. What a value may leave out
or add depends on what it is read as, its role. A variant of a document that opens few
containers and repeats no key (`Variant`) takes its entries apart field by field
(`EntriesVariant.holds_iff`): each field has alike values in both, or its default in one.
-/

namespace MethodPack.Metadata

open Json (Node Items Members Text)

/-! ## Roles -/

/-- What a value of a metadata document is read as. -/
inductive Role where
  | types
  | type
  | methods
  | method
  | instructions
  | instruction
  | operand
  /-- The value of an operand. If it has fields, they are those of a member reference. -/
  | value
  | typeRef
  /-- A value without a record in it, or one that is passed over. -/
  | plain
deriving DecidableEq, Repr

namespace Role

def record? : Role → Option Record
  | type => some .typeDef
  | method => some .methodDef
  | instruction => some .instruction
  | operand => some .operand
  | value => some .memberRef
  | typeRef => some .typeRef
  | _ => none

/-- The role of what stands under a name. -/
def field : Role → String → Role
  | type, "methods" => methods
  | type, "nested" => types
  | method, "instructions" => instructions
  | instruction, "operand" => operand
  | operand, "value" => value
  | value, "declaring" => typeRef
  | typeRef, "declaring" => typeRef
  | _, _ => plain

/-- The role of what stands under a key. -/
def under (role : Role) (key : Text) : Role :=
  match key.name? with
  | some name => role.field name
  | none => plain

/-- The role of an item. A record is written by the positions of its fields, too. -/
def item (role : Role) (i : Nat) : Role :=
  match role, role.record? with
  | types, _ => type
  | methods, _ => method
  | instructions, _ => instruction
  | _, some record => (record.fields[i]?.map role.field).getD plain
  | _, none => plain

/-- The value is written as the default of the field. -/
def Default : Role → String → Node → Prop
  | type, "namespace", v | typeRef, "namespace", v => ∃ t, v = .string t ∧ t.decode = .ok ""
  | type, "methods", v | type, "nested", v | method, "instructions", v => v = .array (.ofList [])
  | method, "generic_params", v | method, "params", v =>
    v = .number { negative := false, whole := [0] }
  | method, "has_this", v => v = .bool false
  | method, "return_type", v => ∃ t, v = .string t ∧ t.decode = .ok voidType
  | instruction, "operand", v => ∃ key kind, v = .object (.ofList [(key, .string kind)]) ∧
      key.decode = .ok "kind" ∧ kind.decode = .ok "none"
  | typeRef, "declaring", v => v = .null
  | _, _, _ => False

/-- Records that are read straight from the text pass over fields they do not know. -/
def Extends (role : Role) (key : Text) : Prop :=
  role ∈ [type, method, instruction, operand] ∧
    ∃ name, key.decode = .ok name ∧ ∀ record, role.record? = some record → name ∉ record.fields

end Role

/-! ## Other presentations -/

/-- A member that stands in both of two presentations. -/
structure Kept where
  key : Text
  left : Node
  right : Node

/-- The members of two presentations of an object, in any order: those of the first are kept or
hold a default and are omitted, those of the second are kept or inserted. -/
structure Arranged (role : Role) (members members' : List (Text × Node)) (kept : List Kept)
    (omitted inserted : List (Text × Node)) : Prop where
  defaults : ∀ m ∈ omitted, ∃ name, m.1.decode = .ok name ∧ role.Default name m.2
  unknown : ∀ m ∈ inserted, role.Extends m.1
  left : members.Perm (kept.map (fun k => (k.key, k.left)) ++ omitted)
  right : members'.Perm (kept.map (fun k => (k.key, k.right)) ++ inserted)

/-- The second value is another presentation of the first, read in the role. Whatever is changed
is changed at once, in every container. -/
inductive Recast : Role → Node → Node → Prop
  | refl (role : Role) (node : Node) : Recast role node node
  | array {role : Role} (pairs : List (Node × Node))
      (h : ∀ i p, pairs[i]? = some p → Recast (role.item i) p.1 p.2) :
    Recast role (.array (.ofList (pairs.map Prod.fst))) (.array (.ofList (pairs.map Prod.snd)))
  | object {role : Role} {members members' : List (Text × Node)} {kept : List Kept}
      {omitted inserted : List (Text × Node)}
      (h : Arranged role members members' kept omitted inserted)
      (hkept : ∀ k ∈ kept, Recast (role.under k.key) k.left k.right) :
    Recast role (.object (.ofList members)) (.object (.ofList members'))

/-! ## Variants -/

/-- Another presentation of a value that opens no more than `depth` containers at once and has
no object that repeats a key. -/
structure Variant (role : Role) (depth : Nat) (node node' : Node) : Prop where
  recast : Recast role node node'
  depth : node.depth ≤ depth
  distinct : node.Distinct
  skip : node.skip = .ok ()
  skip' : node'.skip = .ok ()

/-- Entries of a value and of another presentation of it. -/
structure EntriesVariant (role : Role) (depth : Nat) (entries entries' : List (Text × Node)) :
    Prop where
  arranged : ∃ kept omitted inserted, Arranged role entries entries' kept omitted inserted ∧
    ∀ k ∈ kept, Variant (role.under k.key) depth k.left k.right
  nodup : (entries.filterMap fun e => e.1.name?).Nodup
  depth : ∀ e ∈ entries, e.2.depth ≤ depth
  skip : ∀ e ∈ entries, e.2.skip = .ok ()
  skip' : ∀ e ∈ entries', e.2.skip = .ok ()

/-- A value and a variant of it, from outside. -/
inductive View (role : Role) : Nat → Node → Node → Prop
  | same {depth : Nat} {node : Node} (h : node.depth = 0) : View role depth node node
  | array {depth : Nat} (pairs : List (Node × Node))
      (h : ∀ i p, pairs[i]? = some p → Variant (role.item i) depth p.1 p.2) :
    View role (depth + 1) (.array (.ofList (pairs.map Prod.fst)))
      (.array (.ofList (pairs.map Prod.snd)))
  | object {depth : Nat} {members members' : List (Text × Node)}
      (h : EntriesVariant role depth members members') :
    View role (depth + 1) (.object (.ofList members)) (.object (.ofList members'))

section View

variable {role : Role} {depth : Nat} {node node' : Node}

theorem view_array {pairs : List (Node × Node)}
    (h : Variant role depth (.array (.ofList (pairs.map Prod.fst)))
      (.array (.ofList (pairs.map Prod.snd))))
    (hpairs : ∀ i p, pairs[i]? = some p → Recast (role.item i) p.1 p.2) :
    View role depth (.array (.ofList (pairs.map Prod.fst)))
      (.array (.ofList (pairs.map Prod.snd))) := by
  obtain ⟨-, hdepth, hdistinct, hskip, hskip'⟩ := h
  rw [Node.depth] at hdepth
  rw [Node.Distinct, Items.distinct_ofList] at hdistinct
  rw [Node.skip, Items.skip_ofList] at hskip hskip'
  obtain ⟨d, rfl⟩ := Nat.exists_eq_add_one.mpr (Nat.lt_of_lt_of_le (Nat.succ_pos _) hdepth)
  have hdepth := Items.depth_ofList_le.mp (Nat.le_of_succ_le_succ hdepth)
  refine .array pairs fun i p hp => ?_
  have hmem := List.mem_of_getElem? hp
  have hleft := List.mem_map_of_mem (f := Prod.fst) hmem
  exact ⟨hpairs i p hp, hdepth _ hleft, hdistinct _ hleft, hskip _ hleft,
    hskip' _ (List.mem_map_of_mem hmem)⟩

theorem view_object {members members' : List (Text × Node)} {kept : List Kept}
    {omitted inserted : List (Text × Node)}
    (h : Variant role depth (.object (.ofList members)) (.object (.ofList members')))
    (harranged : Arranged role members members' kept omitted inserted)
    (hkept : ∀ k ∈ kept, Recast (role.under k.key) k.left k.right) :
    View role depth (.object (.ofList members)) (.object (.ofList members')) := by
  obtain ⟨-, hdepth, hdistinct, hskip, hskip'⟩ := h
  rw [Node.depth] at hdepth
  rw [Node.Distinct, Members.distinct_ofList, Members.names_ofList] at hdistinct
  rw [Node.skip, Members.skip_ofList] at hskip hskip'
  obtain ⟨d, rfl⟩ := Nat.exists_eq_add_one.mpr (Nat.lt_of_lt_of_le (Nat.succ_pos _) hdepth)
  have hdepth := Members.depth_ofList_le.mp (Nat.le_of_succ_le_succ hdepth)
  refine .object ⟨⟨kept, omitted, inserted, harranged, fun k hk => ?_⟩, hdistinct.1, hdepth,
    fun e he => (hskip e he).2, fun e he => (hskip' e he).2⟩
  have hleft : (k.key, k.left) ∈ members :=
    harranged.left.mem_iff.mpr (List.mem_append_left _ (List.mem_map_of_mem hk))
  have hright : (k.key, k.right) ∈ members' :=
    harranged.right.mem_iff.mpr (List.mem_append_left _ (List.mem_map_of_mem hk))
  exact ⟨hkept k hk, hdepth _ hleft, hdistinct.2 _ hleft, (hskip _ hleft).2, (hskip' _ hright).2⟩

/-- A variant is the same scalar, or a container with variants in it. -/
theorem Variant.view (h : Variant role depth node node') : View role depth node node' := by
  cases h.recast with
  | array pairs hpairs => exact view_array h hpairs
  | object harranged hkept => exact view_object h harranged hkept
  | refl =>
    -- A container is a variant of itself, item by item and member by member.
    cases node with
    | array items =>
      obtain ⟨nodes, rfl⟩ := Items.exists_ofList h.skip
      have hleft : (nodes.map fun n => (n, n)).map Prod.fst = nodes := by
        simp [Function.comp_def]
      have hright : (nodes.map fun n => (n, n)).map Prod.snd = nodes := by
        simp [Function.comp_def]
      have hrefl (i : Nat) (p : Node × Node) (hp : (nodes.map fun n => (n, n))[i]? = some p) :
          Recast (role.item i) p.1 p.2 := by
        obtain ⟨n, -, rfl⟩ := List.mem_map.mp (List.mem_of_getElem? hp)
        exact .refl _ _
      have hview := view_array (by rwa [hleft, hright]) hrefl
      rwa [hleft, hright] at hview
    | object ms =>
      obtain ⟨members, rfl⟩ := Members.exists_ofList h.skip
      have harranged : Arranged role members members
          (members.map fun m => ⟨m.1, m.2, m.2⟩) [] [] :=
        ⟨by simp, by simp, by simp [Function.comp_def], by simp [Function.comp_def]⟩
      refine view_object h harranged fun k hk => ?_
      obtain ⟨m, -, rfl⟩ := List.mem_map.mp hk
      exact .refl _ _
    | _ => exact .same rfl

end View

section Containers

variable {role : Role} {depth : Nat}

/-- Arrays of variants are variants. -/
theorem variant_array {pairs : List (Node × Node)}
    (h : ∀ i p, pairs[i]? = some p → Variant (role.item i) depth p.1 p.2) :
    Variant role (depth + 1) (.array (.ofList (pairs.map Prod.fst)))
      (.array (.ofList (pairs.map Prod.snd))) := by
  have hmem (p : Node × Node) (hp : p ∈ pairs) : ∃ role, Variant role depth p.1 p.2 := by
    obtain ⟨i, hi⟩ := List.mem_iff_getElem?.mp hp
    exact ⟨_, h i p hi⟩
  refine ⟨.array pairs fun i p hp => (h i p hp).recast, ?_, ?_, ?_, ?_⟩
  · rw [Node.depth, Nat.add_le_add_iff_right, Items.depth_ofList_le, List.forall_mem_map]
    exact fun p hp => (hmem p hp).choose_spec.depth
  · rw [Node.Distinct, Items.distinct_ofList, List.forall_mem_map]
    exact fun p hp => (hmem p hp).choose_spec.distinct
  · rw [Node.skip, Items.skip_ofList, List.forall_mem_map]
    exact fun p hp => (hmem p hp).choose_spec.skip
  · rw [Node.skip, Items.skip_ofList, List.forall_mem_map]
    exact fun p hp => (hmem p hp).choose_spec.skip'

/-- Objects with arranged members, variants among them, are variants. -/
theorem variant_object {members members' : List (Text × Node)} {kept : List Kept}
    {omitted inserted : List (Text × Node)}
    (harranged : Arranged role members members' kept omitted inserted)
    (hnodup : (members.filterMap fun e => e.1.name?).Nodup)
    (hkey : (∀ m ∈ members, m.1.skip = .ok ()) ∧ ∀ m ∈ members', m.1.skip = .ok ())
    (hkept : ∀ k ∈ kept, Variant (role.under k.key) depth k.left k.right)
    (homitted : ∀ m ∈ omitted, m.2.depth ≤ depth ∧ m.2.Distinct ∧ m.2.skip = .ok ())
    (hinserted : ∀ m ∈ inserted, m.2.skip = .ok ()) :
    Variant role (depth + 1) (.object (.ofList members)) (.object (.ofList members')) := by
  have hleft : ∀ m ∈ members, m.2.depth ≤ depth ∧ m.2.Distinct ∧ m.2.skip = .ok () := by
    simp only [harranged.left.mem_iff, List.forall_mem_append, List.forall_mem_map]
    exact ⟨fun k hk => ⟨(hkept k hk).depth, (hkept k hk).distinct, (hkept k hk).skip⟩, homitted⟩
  have hright : ∀ m ∈ members', m.2.skip = .ok () := by
    simp only [harranged.right.mem_iff, List.forall_mem_append, List.forall_mem_map]
    exact ⟨fun k hk => (hkept k hk).skip', hinserted⟩
  refine ⟨.object harranged fun k hk => (hkept k hk).recast, ?_, ⟨?_, ?_⟩, ?_, ?_⟩
  · rw [Node.depth, Nat.add_le_add_iff_right, Members.depth_ofList_le]
    exact fun m hm => (hleft m hm).1
  · rwa [Members.names_ofList]
  · exact Members.distinct_ofList.mpr fun m hm => (hleft m hm).2.1
  · exact Members.skip_ofList.mpr fun m hm => ⟨hkey.1 m hm, (hleft m hm).2.2⟩
  · exact Members.skip_ofList.mpr fun m hm => ⟨hkey.2 m hm, hright m hm⟩

end Containers

/-! ## Fields -/

/-- The values of a field in two presentations: none, one and a variant of it, or a default that
is left out. -/
inductive FieldVariant (role : Role) (depth : Nat) (field : String) :
    List Node → List Node → Prop
  | absent : FieldVariant role depth field [] []
  | kept {value value' : Node} (h : Variant (role.field field) depth value value') :
    FieldVariant role depth field [value] [value']
  | omitted {value : Node} (h : role.Default field value) (hdepth : value.depth ≤ depth) :
    FieldVariant role depth field [value] []

theorem valuesOf_append (field : String) (entries entries' : List (Text × Node)) :
    valuesOf field (entries ++ entries') = valuesOf field entries ++ valuesOf field entries' :=
  List.filterMap_append

theorem mem_valuesOf {field : String} {entries : List (Text × Node)} {value : Node} :
    value ∈ valuesOf field entries ↔ ∃ e ∈ entries, e.1.name? = some field ∧ e.2 = value := by
  simp only [valuesOf, List.mem_filterMap, Option.ite_none_right_eq_some, Option.some.injEq]

/-- A name that stands once has one value at most. -/
theorem length_valuesOf_le {entries : List (Text × Node)}
    (h : (entries.filterMap fun e => e.1.name?).Nodup) (field : String) :
    (valuesOf field entries).length ≤ 1 := by
  have hcount : (valuesOf field entries).length =
      (entries.filterMap fun e => e.1.name?).count field := by
    induction entries with
    | nil => rfl
    | cons e entries ih =>
      obtain ⟨key, value⟩ := e
      rw [valuesOf_cons, List.filterMap_cons]
      rw [List.filterMap_cons] at h
      cases hkey : key.name? with
      | none =>
        rw [hkey] at h
        simpa using ih h
      | some name =>
        rw [hkey] at h
        have ih := ih (List.nodup_cons.mp h).2
        by_cases hname : name = field
        · subst hname
          simp [ih]
        · simp [hname, ih]
  rw [hcount]
  exact List.nodup_iff_count.mp h field

theorem valuesOf_kept (field : String) (side : Kept → Node) (kept : List Kept) :
    valuesOf field (kept.map fun k => (k.key, side k)) =
      (kept.filter fun k => k.key.name? = some field).map side := by
  induction kept with
  | nil => rfl
  | cons k kept ih =>
    rw [List.map_cons, valuesOf_cons, ih]
    by_cases hkey : k.key.name? = some field <;> simp [hkey]

/-- What is inserted has no field of the record. -/
theorem Role.Extends.name?_ne {role : Role} {record : Record} (hrecord : role.record? = some record)
    {field : String} (hfield : field ∈ record.fields) {key : Text} (h : role.Extends key) :
    key.name? ≠ some field := by
  obtain ⟨-, name, hdecode, hnot⟩ := h
  intro hname
  rw [Text.name?_eq_some, hdecode] at hname
  cases hname
  exact hnot record hrecord hfield

namespace EntriesVariant

variable {role : Role} {depth : Nat} {entries entries' : List (Text × Node)} {record : Record}

/-- A field that is not inserted has the same values in both presentations, up to their own, or
its default in the first. -/
theorem field_variant (h : EntriesVariant role depth entries entries') {field : String}
    (hfield : ∀ key, role.Extends key → key.name? ≠ some field) :
    FieldVariant role depth field (valuesOf field entries) (valuesOf field entries') := by
  obtain ⟨kept, omitted, inserted, harranged, hkept⟩ := h.arranged
  have hleft : (valuesOf field entries).Perm _ := harranged.left.filterMap _
  have hright : (valuesOf field entries').Perm _ := harranged.right.filterMap _
  change (valuesOf field entries).Perm (valuesOf field (_ ++ _)) at hleft
  change (valuesOf field entries').Perm (valuesOf field (_ ++ _)) at hright
  have hinserted : valuesOf field inserted = [] :=
    List.eq_nil_iff_forall_not_mem.mpr fun value hvalue => by
      obtain ⟨m, hm, hname, -⟩ := mem_valuesOf.mp hvalue
      exact hfield m.1 (harranged.unknown m hm) hname
  rw [valuesOf_append, valuesOf_kept] at hleft hright
  rw [hinserted, List.append_nil] at hright
  have hlength := hleft.length_eq ▸ length_valuesOf_le h.nodup field
  -- The one value is kept, or it is omitted, or there is none.
  rcases hkeptOf : kept.filter (fun k => k.key.name? = some field) with _ | ⟨k, rest⟩ <;>
    rw [hkeptOf] at hleft hright hlength
  · rw [List.perm_nil.mp hright]
    rcases homitted : valuesOf field omitted with _ | ⟨value, rest⟩ <;>
      rw [homitted] at hleft hlength
    · rw [List.perm_nil.mp hleft]
      exact .absent
    · obtain rfl : rest = [] := by simpa using hlength
      rw [List.perm_singleton.mp hleft]
      obtain ⟨m, hm, hname, rfl⟩ := mem_valuesOf.mp (homitted ▸ List.mem_singleton_self value)
      obtain ⟨name, hdecode, hdefault⟩ := harranged.defaults m hm
      rw [Text.name?_eq_some, hdecode] at hname
      cases hname
      exact .omitted hdefault
        (h.depth m (harranged.left.mem_iff.mpr (List.mem_append_right _ hm)))
  · have hnil : rest = [] ∧ valuesOf field omitted = [] := by simpa using hlength
    rw [hnil.1, hnil.2, List.map_singleton] at hleft
    rw [hnil.1, List.map_singleton] at hright
    rw [List.perm_singleton.mp hleft, List.perm_singleton.mp hright]
    have hk : k ∈ kept.filter fun k => k.key.name? = some field := hkeptOf ▸ List.mem_cons_self
    simp only [List.mem_filter, decide_eq_true_eq] at hk
    have hvariant := hkept k hk.1
    rw [Role.under, hk.2] at hvariant
    exact .kept hvariant

/-- A field comes to the same in both presentations, if its variants are read alike and its
default stands for what is left out. -/
theorem holds_iff {α : Type} (h : EntriesVariant role depth entries entries')
    (hrecord : role.record? = some record) {field : String} (hfield : field ∈ record.fields)
    {read : Node → Result α} {default : Option α} {x : α}
    (hread : ∀ value value', Variant (role.field field) depth value value' →
      (read value = .ok x ↔ read value' = .ok x))
    (hdefault : ∀ value, role.Default field value → value.depth ≤ depth →
      (read value = .ok x ↔ default = some x)) :
    Holds entries field read default x ↔ Holds entries' field read default x := by
  have hvariant := h.field_variant fun _ hkey => hkey.name?_ne hrecord hfield
  unfold Holds
  generalize valuesOf field entries = values, valuesOf field entries' = values' at hvariant ⊢
  cases hvariant with
  | absent => rfl
  | kept hvariant => exact hread _ _ hvariant
  | omitted homitted hdepth => exact hdefault _ homitted hdepth

/-- Entries of both presentations can be passed over alike. -/
theorem passable_iff (h : EntriesVariant role depth entries entries') {fields : List String} :
    (∀ e ∈ entries, Passable fields e) ↔ ∀ e ∈ entries', Passable fields e := by
  -- Nothing hides a fault, so all that counts is that keys are strings.
  have hpassable {es : List (Text × Node)} (hskip : ∀ e ∈ es, e.2.skip = .ok ()) :
      (∀ e ∈ es, Passable fields e) ↔ ∀ e ∈ es, ∃ name, e.1.decode = .ok name :=
    forall₂_congr fun e he => exists_congr fun name => and_iff_left fun _ => hskip e he
  obtain ⟨kept, omitted, inserted, harranged, -⟩ := h.arranged
  have hperm {es es' : List (Text × Node)} (h : es.Perm es') :
      (∀ e ∈ es, ∃ name, e.1.decode = .ok name) ↔ ∀ e ∈ es', ∃ name, e.1.decode = .ok name := by
    simp only [h.mem_iff]
  have homitted : ∀ e ∈ omitted, ∃ name, e.1.decode = .ok name := fun e he => by
    obtain ⟨name, hname, -⟩ := harranged.defaults e he
    exact ⟨name, hname⟩
  have hinserted : ∀ e ∈ inserted, ∃ name, e.1.decode = .ok name := fun e he => by
    obtain ⟨-, name, hname, -⟩ := harranged.unknown e he
    exact ⟨name, hname⟩
  rw [hpassable h.skip, hpassable h.skip', hperm harranged.left, hperm harranged.right,
    List.forall_mem_append, List.forall_mem_append]
  simp only [List.forall_mem_map]
  exact ⟨fun h => ⟨h.1, hinserted⟩, fun h => ⟨h.1, homitted⟩⟩

end EntriesVariant

/-! ## Records -/

theorem nodup_fields {role : Role} {record : Record} (h : role.record? = some record) :
    record.fields.Nodup := by
  cases role <;> cases h <;> decide

/-- The item of a record has the role of its field. -/
theorem Role.item_eq {role : Role} {record : Record} (h : role.record? = some record) {i : Nat}
    {field : String} (hfield : record.fields[i]? = some field) :
    role.item i = role.field field := by
  cases role <;> cases h <;> simp [Role.item, Role.record?, hfield]

/-- The names of items by position are those of the fields, as far as there are items. -/
theorem names_zip_sublist (fields : List String) (nodes : List Node) :
    (((fields.map Text.ofString).zip nodes).filterMap fun e => e.1.name?).Sublist fields := by
  induction fields generalizing nodes with
  | nil => exact .slnil
  | cons field fields ih =>
    cases nodes with
    | nil => exact List.nil_sublist _
    | cons node nodes => simpa using ih nodes

/-- Items of a record, by position, are entries of two presentations. -/
theorem entriesVariant_zip {role : Role} {depth : Nat} {record : Record}
    (hrecord : role.record? = some record) (pairs : List (Node × Node))
    (h : ∀ i p, pairs[i]? = some p → Variant (role.item i) depth p.1 p.2) :
    EntriesVariant role depth ((record.fields.map Text.ofString).zip (pairs.map Prod.fst))
      ((record.fields.map Text.ofString).zip (pairs.map Prod.snd)) := by
  let kept : List Kept := ((record.fields.map Text.ofString).zip pairs).map
    fun z => ⟨z.1, z.2.1, z.2.2⟩
  have hkept : ∀ k ∈ kept, Variant (role.under k.key) depth k.left k.right := by
    intro k hk
    obtain ⟨z, hz, rfl⟩ := List.mem_map.mp hk
    obtain ⟨i, hi⟩ := List.mem_iff_getElem?.mp hz
    obtain ⟨hkey, hpair⟩ := List.getElem?_zip_eq_some.mp hi
    rw [List.getElem?_map, Option.map_eq_some_iff] at hkey
    obtain ⟨field, hfield, hkey⟩ := hkey
    have hvariant := h i z.2 hpair
    rw [Role.item_eq hrecord hfield] at hvariant
    simpa [Role.under, ← hkey] using hvariant
  have hleft : (record.fields.map Text.ofString).zip (pairs.map Prod.fst) =
      kept.map fun k => (k.key, k.left) := by
    simp [kept, List.zip_map_right, Function.comp_def, Prod.map]
  have hright : (record.fields.map Text.ofString).zip (pairs.map Prod.snd) =
      kept.map fun k => (k.key, k.right) := by
    simp [kept, List.zip_map_right, Function.comp_def, Prod.map]
  refine ⟨⟨kept, [], [], ⟨by simp, by simp, ?_, ?_⟩, hkept⟩, ?_, ?_, ?_, ?_⟩
  · rw [hleft, List.append_nil]
  · rw [hright, List.append_nil]
  · exact (nodup_fields hrecord).sublist (names_zip_sublist _ _)
  · rw [hleft, List.forall_mem_map]
    exact fun k hk => (hkept k hk).depth
  · rw [hleft, List.forall_mem_map]
    exact fun k hk => (hkept k hk).skip
  · rw [hright, List.forall_mem_map]
    exact fun k hk => (hkept k hk).skip'

/-- Two presentations of a value give a record alike entries, or both none. -/
theorem Variant.entries {role : Role} {depth : Nat} {node node' : Node} {record : Record}
    (h : Variant role depth node node') (hrecord : role.record? = some record) :
    (record.entries? node = none ∧ record.entries? node' = none) ∨
      ∃ d entries entries', depth = d + 1 ∧ record.entries? node = some entries ∧
        record.entries? node' = some entries' ∧ EntriesVariant role d entries entries' := by
  cases h.view with
  | same hdepth =>
    cases node <;> first | exact .inl ⟨rfl, rfl⟩ | cases hdepth
  | @object d members members' hmembers =>
    exact .inr ⟨d, members, members', rfl, Members.toList?_ofList _, Members.toList?_ofList _,
      hmembers⟩
  | @array d pairs hpairs =>
    have hentries := entriesVariant_zip hrecord pairs hpairs
    by_cases hlength : pairs.length ≤ record.fields.length
    · exact .inr ⟨d, _, _, rfl, by simp [Record.entries?, hlength],
        by simp [Record.entries?, hlength], hentries⟩
    · exact .inl ⟨by simp [Record.entries?, hlength], by simp [Record.entries?, hlength]⟩

/-- Two presentations of a value are read as records alike, if alike entries make for alike
records. -/
theorem Variant.reads_iff {role : Role} {depth room : Nat} {node node' : Node} {record : Record}
    {Q : Nat → List (Text × Node) → Prop} (h : Variant role depth node node')
    (hrecord : role.record? = some record)
    (hQ : ∀ inner d entries entries', room = inner + 1 → depth = d + 1 →
      EntriesVariant role d entries entries' → (Q inner entries ↔ Q inner entries')) :
    record.Reads room node Q ↔ record.Reads room node' Q := by
  unfold Record.Reads
  rcases h.entries hrecord with ⟨hnone, hnone'⟩ | ⟨d, es, es', hd, hentries, hentries', hes⟩
  · simp [hnone, hnone']
  · refine exists_congr fun inner => and_congr_right fun hroom => ?_
    simp only [hentries, hentries', Option.some.injEq, exists_eq_left']
    rw [hes.passable_iff, hQ inner d es es' hroom hd hes]

end MethodPack.Metadata
