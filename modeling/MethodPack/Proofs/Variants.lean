import MethodPack.Proofs.Canonical
import MethodPack.Proofs.SettledVariants
import MethodPack.Proofs.Spelling

/-!
# Variants

Presentation does not matter: a document and any other presentation of it, in any spelling, are
read as the same types, or both refused (`parseTypes_recast`). Each reader takes a value and its
variants alike (`typeRef_iff` up to `typeDef_iff`): a record is read from its fields, and a field
has variants in both presentations or, in one of them, is left out and read as its default.
-/

namespace MethodPack.Metadata

open Json (Node Items Members Text PlainKeys)

variable {α β : Type} {role : Role} {depth room : Nat} {node node' : Node} {source : Source}

/-! ## Scalars -/

/-- The reader takes no containers. -/
def ReadsScalar (read : Node → Result α) : Prop := ∀ node x, read node = .ok x → node.depth = 0

namespace ReadsScalar

theorem string : ReadsScalar string := fun node x h => by
  cases node <;> first | rfl | cases h

theorem bool : ReadsScalar bool := fun node x h => by
  cases node <;> first | rfl | cases h

theorem integer (range : IntRange) : ReadsScalar (integer range) := fun node x h => by
  cases node <;> first | rfl | cases h

theorem bind {read : Node → Result α} (h : ReadsScalar read) (f : α → Result β) :
    ReadsScalar fun node => read node >>= f := fun node _ hy => by
  obtain ⟨x, hx, -⟩ := bind_ok_iff.mp hy
  exact h node x hx

theorem unsigned32 : ReadsScalar unsigned32 := (integer _).bind _

theorem label : ReadsScalar label := unsigned32.bind _

theorem opcode : ReadsScalar opcode := string.bind _

/-- Such a reader takes a value and its variants alike: they are the same scalar. -/
theorem iff {read : Node → Result α} (hread : ReadsScalar read)
    (h : Variant role depth node node') {x : α} : read node = .ok x ↔ read node' = .ok x := by
  cases h.view with
  | same => rfl
  | array | object =>
    exact ⟨fun hx => absurd (hread _ _ hx) (Nat.succ_ne_zero _),
      fun hx => absurd (hread _ _ hx) (Nat.succ_ne_zero _)⟩

end ReadsScalar

/-! ## Sequences -/

/-- A sequence is read like its variants, if its items are. -/
theorem sequence_iff {read : Nat → Node → Result α} (h : Variant role depth node node')
    (hread : ∀ inner d, room = inner + 1 → depth = d + 1 → ∀ i v v' x,
      Variant (role.item i) d v v' → (read inner v = .ok x ↔ read inner v' = .ok x))
    {values : List α} :
    sequence room read node = .ok values ↔ sequence room read node' = .ok values := by
  cases h.view with
  | same => rfl
  | object => simp [sequence]
  | @array d pairs hpairs =>
    rw [sequence_array_ok_iff, sequence_array_ok_iff]
    refine exists_congr fun inner => and_congr_right fun hroom => ?_
    rw [List.forall₂_map_left_iff, List.forall₂_map_left_iff]
    have halike (p : Node × Node) (hp : p ∈ pairs) (x : α) :
        read inner p.1 = .ok x ↔ read inner p.2 = .ok x := by
      obtain ⟨i, hi⟩ := List.mem_iff_getElem?.mp hp
      exact hread inner d hroom rfl i p.1 p.2 x (hpairs i p hi)
    constructor
    · exact fun hall => (List.forall₂_and_left _ _ |>.mpr ⟨halike, hall⟩).imp
        fun p x hx => (hx.1 x).mp hx.2
    · exact fun hall => (List.forall₂_and_left _ _ |>.mpr ⟨halike, hall⟩).imp
        fun p x hx => (hx.1 x).mpr hx.2

/-- A sequence is read like its variants where its items, with the room in it, are. -/
theorem sequence_iff_of_items {read : Nat → Node → Result α} (h : Variant role room node node')
    (hread : ∀ inner, room = inner + 1 → ∀ i v v' x, Variant (role.item i) inner v v' →
      (read inner v = .ok x ↔ read inner v' = .ok x)) {values : List α} :
    sequence room read node = .ok values ↔ sequence room read node' = .ok values :=
  sequence_iff h fun inner _ hroom hdepth =>
    Nat.succ.inj (hdepth.symm.trans hroom) ▸ hread inner hroom

theorem sequence_nil {read : Nat → Node → Result α}
    (h : (Node.array (.ofList [])).depth ≤ room) :
    sequence room read (.array (.ofList [])) = .ok [] := by
  obtain ⟨inner, rfl⟩ := Nat.exists_eq_add_one.mpr h
  rfl

/-! ## Fields -/

namespace EntriesVariant

variable {entries entries' : List (Text × Node)} {record : Record} {field : String}
  {read : Node → Result α} {x : α}

/-- A field that has no default. -/
theorem required_iff (h : EntriesVariant role depth entries entries')
    (hrecord : role.record? = some record) (hfield : field ∈ record.fields)
    (hread : ∀ value value', Variant (role.field field) depth value value' →
      (read value = .ok x ↔ read value' = .ok x))
    (hnone : ∀ value, ¬ role.Default field value) :
    Holds entries field read none x ↔ Holds entries' field read none x :=
  h.holds_iff hrecord hfield hread fun value hvalue => absurd hvalue (hnone value)

/-- A field that is read as its default where it is left out. -/
theorem default_iff {default : α} (h : EntriesVariant role depth entries entries')
    (hrecord : role.record? = some record) (hfield : field ∈ record.fields)
    (hread : ∀ value value', Variant (role.field field) depth value value' →
      (read value = .ok x ↔ read value' = .ok x))
    (hdefault : ∀ value, role.Default field value → value.depth ≤ depth →
      read value = .ok default) :
    Holds entries field read (some default) x ↔ Holds entries' field read (some default) x :=
  h.holds_iff hrecord hfield hread fun value hvalue hdepth => by
    rw [hdefault value hvalue hdepth, Except.ok.injEq, Option.some.injEq]

end EntriesVariant

/-! ## References -/

/-- A type or null is read like its variants, if the type is. -/
theorem declaringOf_iff {read : Node → Result TypeRef} (h : Variant .typeRef depth node node')
    (hread : ∀ t, read node = .ok t ↔ read node' = .ok t) {t? : Option TypeRef} :
    declaringOf read node = .ok t? ↔ declaringOf read node' = .ok t? := by
  have hmap (r : Result TypeRef) : r.map some = .ok t? ↔ ∃ t, r = .ok t ∧ some t = t? := by
    cases r <;> simp [Except.map]
  cases h.view with
  | same => rfl
  | array | object => simp only [declaringOf, hmap, hread]

theorem typeRef_iff (h : Variant .typeRef depth node node') {t : TypeRef} :
    typeRef source room node = .ok t ↔ typeRef source room node' = .ok t := by
  induction room generalizing depth node node' t with
  | zero =>
    rw [typeRef_ok_iff, typeRef_ok_iff]
    exact h.reads_iff rfl fun _ _ _ _ hroom => by cases hroom
  | succ room ih =>
    rw [typeRef_ok_iff, typeRef_ok_iff]
    refine h.reads_iff rfl fun inner d es es' hroom _ hes => ?_
    cases hroom
    refine and_congr ?_ (and_congr ?_ ?_)
    · refine hes.default_iff rfl (by decide) (fun _ _ h => ReadsScalar.string.iff h) ?_
      rintro _ ⟨t, rfl, ht⟩ -
      exact string_of_decode ht
    · exact hes.required_iff rfl (by decide) (fun _ _ h => ReadsScalar.string.iff h) fun _ => id
    · refine hes.default_iff rfl (by decide)
        (fun _ _ h => declaringOf_iff h fun _ => ih h) ?_
      rintro _ rfl -
      rfl

theorem memberRef_iff (h : Variant .value depth node node') {m : MemberRef} :
    memberRef source room node = .ok m ↔ memberRef source room node' = .ok m := by
  rw [memberRef_ok_iff, memberRef_ok_iff]
  refine h.reads_iff rfl fun inner d es es' _ _ hes => and_congr ?_ ?_
  · exact hes.required_iff rfl (by decide) (fun _ _ h => typeRef_iff h) fun _ => id
  · exact hes.required_iff rfl (by decide) (fun _ _ h => ReadsScalar.string.iff h) fun _ => id

/-! ## Operands -/

/-- The member that is found is the first under its name. -/
theorem find?_ofList {members : List (Text × Node)} (hplain : PlainKeys members) (key : String) :
    (Members.ofList members).find? key = (valuesOf key members).head? := by
  induction members with
  | nil => rfl
  | cons m members ih =>
    obtain ⟨⟨key', hkey⟩, hrest⟩ := List.forall_mem_cons.mp hplain
    obtain ⟨_, value⟩ := m
    subst hkey
    rw [Members.ofList_cons, Members.find?, valuesOf_cons, Text.name?_ofString, ih hrest]
    by_cases heq : key' = key
    · simp [heq]
    · have hne : Text.ofString key' ≠ Text.ofString key := fun h =>
        heq (Text.ofString_injective h)
      simp [heq, hne]

/-- The keys of the value, if it is an object, are written plainly. -/
def KeysPlain (node : Node) : Prop :=
  ∀ ms, node = .object ms → ∃ members, ms = .ofList members ∧ PlainKeys members

theorem keysPlain_of_settle {v : Node} (h : node.settle room = .ok v) : KeysPlain v := by
  rintro ms rfl
  cases node with
  | object members =>
    cases room with
    | zero => cases h
    | succ room =>
      obtain ⟨out, hout, h⟩ := bind_ok_iff.mp h
      cases h
      exact Members.plainKeys_of_settle (show PlainKeys [] from nofun) hout
  | number n =>
    rw [Node.settle] at h
    split at h <;> cases h
  | string t =>
    obtain ⟨s, -, h⟩ := bind_ok_iff.mp h
    cases h
  | array items =>
    cases room with
    | zero => cases h
    | succ room =>
      obtain ⟨out, -, h⟩ := bind_ok_iff.mp h
      cases h
  | _ => cases h

theorem floatLiteral_iff (h : Variant .value depth node node') (hplain : KeysPlain node)
    (hplain' : KeysPlain node') {l : FloatLiteral} :
    floatLiteral node = .ok l ↔ floatLiteral node' = .ok l := by
  cases h.view with
  | same => rfl
  | array => simp [floatLiteral]
  | @object d members members' hmembers =>
    have hkeys {es : List (Text × Node)} (h : KeysPlain (.object (.ofList es))) : PlainKeys es := by
      obtain ⟨es', hes, hkeys⟩ := h _ rfl
      have := congrArg Members.toList? hes
      rw [Members.toList?_ofList, Members.toList?_ofList] at this
      exact Option.some.inj this ▸ hkeys
    have hbits : FieldVariant .value d "bits" (valuesOf "bits" members)
        (valuesOf "bits" members') :=
      hmembers.field_variant fun key hkey =>
        absurd hkey (Role.Inner.not_extends (by simp [Role.Inner]) key)
    simp only [floatLiteral, find?_ofList (hkeys hplain), find?_ofList (hkeys hplain')]
    generalize valuesOf "bits" members = values, valuesOf "bits" members' = values' at hbits ⊢
    cases hbits with
    | absent => rfl
    | omitted hdefault => exact hdefault.elim
    | kept hvalue =>
      cases hvalue.view with
      | same => rfl
      | array | object => rfl

/-- Settled variants make the same operand. -/
theorem operandOf_iff (h : Variant .value depth node node') (hplain : KeysPlain node)
    (hplain' : KeysPlain node') {kind : String} {o : Operand} :
    operandOf kind node = .ok o ↔ operandOf kind node' = .ok o := by
  have hfloat (l : FloatLiteral) := floatLiteral_iff h hplain hplain' (l := l)
  have hinteger (range : IntRange) (i : Int) := (ReadsScalar.integer range).iff h (x := i)
  have hunsigned (i : UInt32) := ReadsScalar.unsigned32.iff h (x := i)
  have hlabel (l : Label) := ReadsScalar.label.iff h (x := l)
  have hstring (s : String) := ReadsScalar.string.iff h (x := s)
  have hmember (m : MemberRef) : memberRef .settled (Json.maxDepth + 1) node = .ok m ↔
      memberRef .settled (Json.maxDepth + 1) node' = .ok m := memberRef_iff h
  have htargets (ls : List Label) :
      sequence (Json.maxDepth + 1) (fun _ => label) node = .ok ls ↔
        sequence (Json.maxDepth + 1) (fun _ => label) node' = .ok ls :=
    sequence_iff h fun _ _ _ _ _ _ _ _ hitem => ReadsScalar.label.iff hitem
  unfold operandOf
  split <;> simp only [bind_ok_iff, hfloat, hinteger, hunsigned, hlabel, hstring, hmember,
    htargets]

/-- The value of an operand makes the same operand in both presentations. -/
theorem value_iff {entries entries' : List (Text × Node)}
    (h : EntriesVariant .operand depth entries entries') {kind : String} {o : Operand} :
    (∃ v, Holds entries "value" (settled room) (some .null) v ∧ operandOf kind v = .ok o) ↔
      ∃ v, Holds entries' "value" (settled room) (some .null) v ∧ operandOf kind v = .ok o := by
  have hvalue : FieldVariant .operand depth "value" (valuesOf "value" entries)
      (valuesOf "value" entries') :=
    h.field_variant fun _ hkey => hkey.name?_ne rfl (by decide)
  unfold Holds
  generalize valuesOf "value" entries = values, valuesOf "value" entries' = values' at hvalue ⊢
  cases hvalue with
  | absent => rfl
  | omitted hdefault => exact hdefault.elim
  | @kept value value' hvariant =>
    have hrole : Role.Inner .value := by simp [Role.Inner]
    simp only [settled, ofFault_ok_iff]
    constructor
    · rintro ⟨v, hv, ho⟩
      have halike := settle_variant hrole hvariant (.inl ⟨v, hv⟩)
      rw [← settledNode_eq hv] at ho
      exact ⟨_, halike.right, (operandOf_iff halike.variant (keysPlain_of_settle halike.left)
        (keysPlain_of_settle halike.right)).mp ho⟩
    · rintro ⟨v, hv, ho⟩
      have halike := settle_variant hrole hvariant (.inr ⟨v, hv⟩)
      rw [← settledNode_eq hv] at ho
      exact ⟨_, halike.left, (operandOf_iff halike.variant (keysPlain_of_settle halike.left)
        (keysPlain_of_settle halike.right)).mpr ho⟩

theorem operand_iff (h : Variant .operand depth node node') {o : Operand} :
    operand source room node = .ok o ↔ operand source room node' = .ok o := by
  rw [operand_ok_iff, operand_ok_iff]
  refine h.reads_iff rfl fun inner d es es' _ _ hes => exists_congr fun kind => ?_
  have hkind : Holds es "kind" string none kind ↔ Holds es' "kind" string none kind :=
    hes.required_iff rfl (by decide) (fun _ _ h => ReadsScalar.string.iff h) fun _ => id
  simp only [exists_and_left, hkind]
  exact and_congr_right fun _ => value_iff hes

/-- An operand that only says it is none. -/
theorem operand_default (h : Role.Default .instruction "operand" node) (hdepth : node.depth ≤ room) :
    operand source room node = .ok .none := by
  obtain ⟨key, kind, rfl, hkey, hkind⟩ := h
  obtain ⟨inner, rfl⟩ := Nat.exists_eq_add_one.mpr hdepth
  have hname := Text.name?_eq_some.mpr hkey
  refine operand_ok_iff.mpr ⟨inner, rfl, [(key, .string kind)], Members.toList?_ofList _, ?_,
    "none", .null, ?_, ?_, rfl⟩
  · rw [List.forall_mem_singleton]
    exact ⟨"kind", hkey, fun hunknown => absurd (by decide) hunknown⟩
  · simp [Holds, valuesOf_cons, hname, string_of_decode hkind]
  · simp [Holds, valuesOf_cons, hname]

/-! ## Definitions -/

theorem instruction_iff (h : Variant .instruction room node node') {i : Instruction} :
    instruction source room node = .ok i ↔ instruction source room node' = .ok i := by
  rw [instruction_ok_iff, instruction_ok_iff]
  refine h.reads_iff rfl fun inner d es es' hroom hdepth hes => ?_
  obtain rfl : d = inner := Nat.succ.inj (hdepth.symm.trans hroom)
  refine and_congr ?_ (and_congr ?_ ?_)
  · exact hes.required_iff rfl (by decide) (fun _ _ h => ReadsScalar.label.iff h) fun _ => id
  · exact hes.required_iff rfl (by decide) (fun _ _ h => ReadsScalar.opcode.iff h) fun _ => id
  · exact hes.default_iff rfl (by decide) (fun _ _ h => operand_iff h) fun _ => operand_default

theorem methodDef_iff (h : Variant .method room node node') {m : MethodDef} :
    methodDef source room node = .ok m ↔ methodDef source room node' = .ok m := by
  rw [methodDef_ok_iff, methodDef_ok_iff]
  refine h.reads_iff rfl fun inner d es es' hroom hdepth hes => ?_
  obtain rfl : d = inner := Nat.succ.inj (hdepth.symm.trans hroom)
  refine and_congr ?_ (and_congr ?_ (and_congr ?_ (and_congr ?_ (and_congr ?_ ?_))))
  · exact hes.required_iff rfl (by decide) (fun _ _ h => ReadsScalar.string.iff h) fun _ => id
  · refine hes.default_iff rfl (by decide) (fun _ _ h => ReadsScalar.unsigned32.iff h) ?_
    rintro _ rfl -
    rfl
  · refine hes.default_iff rfl (by decide) (fun _ _ h => ReadsScalar.unsigned32.iff h) ?_
    rintro _ rfl -
    rfl
  · refine hes.default_iff rfl (by decide) (fun _ _ h => ReadsScalar.bool.iff h) ?_
    rintro _ rfl -
    rfl
  · refine hes.default_iff rfl (by decide) (fun _ _ h => ReadsScalar.string.iff h) ?_
    rintro _ ⟨t, rfl, ht⟩ -
    exact string_of_decode ht
  · refine hes.default_iff rfl (by decide) (fun _ _ h =>
      sequence_iff_of_items h fun _ _ _ _ _ _ hitem => instruction_iff hitem) ?_
    rintro _ rfl hdepth
    exact sequence_nil hdepth

theorem typeDef_iff (h : Variant .type room node node') {t : TypeDef} :
    typeDef source room node = .ok t ↔ typeDef source room node' = .ok t := by
  induction room using Nat.strong_induction_on generalizing node node' t with
  | _ room ih =>
    rw [typeDef_ok_iff, typeDef_ok_iff]
    refine h.reads_iff rfl fun inner d es es' hroom hdepth hes => ?_
    obtain rfl : d = inner := Nat.succ.inj (hdepth.symm.trans hroom)
    refine and_congr ?_ (and_congr ?_ (and_congr ?_ ?_))
    · refine hes.default_iff rfl (by decide) (fun _ _ h => ReadsScalar.string.iff h) ?_
      rintro _ ⟨t, rfl, ht⟩ -
      exact string_of_decode ht
    · exact hes.required_iff rfl (by decide) (fun _ _ h => ReadsScalar.string.iff h) fun _ => id
    · refine hes.default_iff rfl (by decide) (fun _ _ h =>
        sequence_iff_of_items h fun _ _ _ _ _ _ hitem => methodDef_iff hitem) ?_
      rintro _ rfl hdepth
      exact sequence_nil hdepth
    · -- A nested type has less room by its own type and by the list it is in.
      refine hes.default_iff rfl (by decide) (fun _ _ h =>
        sequence_iff_of_items h fun inner hinner _ _ _ _ hitem => ih inner (by omega) hitem) ?_
      rintro _ rfl hdepth
      exact sequence_nil hdepth

/-! ## Documents -/

/-- Presentation does not matter: a document that repeats no key and opens no more containers
than a text may is read as the same types as any other presentation of it, or both are refused,
wherever their texts have blanks. -/
theorem parseTypes_recast {text text' : String} (h : Recast .types node node')
    (hspelled : Json.Document.Spelled node text) (hspelled' : Json.Document.Spelled node' text')
    (hdistinct : node.Distinct) (hdepth : node.depth ≤ Json.maxDepth) (types : List TypeDef) :
    parseTypes text = .ok types ↔ parseTypes text' = .ok types := by
  have hvariant : Variant .types Json.maxDepth node node' :=
    ⟨h, hdepth, hdistinct, hspelled.skip, hspelled'.skip⟩
  rw [parseTypes, parseTypes, readText_of_spelled hspelled, readText_of_spelled hspelled']
  exact sequence_iff_of_items hvariant fun _ _ _ _ _ _ hitem => typeDef_iff hitem

/-! ### A sample -/

theorem under_text (w : Writing) (role : Role) (name : String) :
    role.under (w.text name) = role.field name := by
  rw [Role.under, w.name?_text]

/-- A record with some fields left out, some put in and the others presented differently. -/
theorem recast_recordNode (w : Writing) (kept : List (String × Node × Node))
    (omitted inserted : List (String × Node))
    (hkept : ∀ f ∈ kept, Recast (role.field f.1) f.2.1 f.2.2)
    (homitted : ∀ f ∈ omitted, role.Default f.1 f.2)
    (hinserted : ∀ f ∈ inserted, role.Extends (w.text f.1)) {fields : List (String × Node)}
    (hfields : fields.Perm (inserted ++ kept.map fun f => (f.1, f.2.2))) :
    Recast role (w.recordNode (omitted ++ kept.map fun f => (f.1, f.2.1)))
      (w.recordNode fields) := by
  have harranged : Arranged role (w.entries (omitted ++ kept.map fun f => (f.1, f.2.1)))
      (w.entries fields) (kept.map fun f => ⟨w.text f.1, f.2.1, f.2.2⟩) (w.entries omitted)
      (w.entries inserted) := by
    refine ⟨?_, ?_, ?_, ?_⟩
    · rw [Writing.entries, List.forall_mem_map]
      exact fun f hf => ⟨f.1, w.decode_text f.1, homitted f hf⟩
    · rw [Writing.entries, List.forall_mem_map]
      exact hinserted
    · simp only [Writing.entries, List.map_append, List.map_map, Function.comp_def]
      exact List.perm_append_comm
    · refine (hfields.map _).trans ?_
      simp only [Writing.entries, List.map_append, List.map_map, Function.comp_def]
      exact List.perm_append_comm
  refine .object harranged ?_
  rw [List.forall_mem_map]
  intro f hf
  rw [under_text]
  exact hkept f hf

theorem recast_single (h : Recast (role.item 0) node node') :
    Recast role (.array (.ofList [node])) (.array (.ofList [node'])) :=
  .array [(node, node')] fun i p hp => by
    cases i with
    | zero => cases hp; exact h
    | succ i => cases hp

theorem distinct_recordNode {w : Writing} {fields : List (String × Node)} :
    (w.recordNode fields).Distinct ↔
      (fields.map Prod.fst).Nodup ∧ ∀ f ∈ fields, f.2.Distinct := by
  rw [Writing.recordNode, Node.Distinct, Members.names_ofList, Members.distinct_ofList,
    Writing.entries, List.filterMap_map, List.forall_mem_map]
  simp only [Function.comp_def, w.name?_text, List.filterMap_eq_map']

section Sample

variable (e : Escaping)

def sampleInstruction (operand : List (String × Node)) : Node :=
  e.recordNode [("label", numberNode 0), ("opcode", e.stringNode "ldc.i4"),
    ("operand", e.recordNode operand)]

def sampleMethod (operand : List (String × Node)) : Node :=
  e.recordNode [("name", e.stringNode "m"),
    ("instructions", .array (.ofList [sampleInstruction e operand]))]

/-- A type with a method of one instruction; the fields of the type before its name and the
fields of the operand are given. -/
def sampleType (fields operand : List (String × Node)) : Node :=
  e.recordNode (fields ++ [("name", e.stringNode "A"),
    ("methods", .array (.ofList [sampleMethod e operand]))])

theorem prints_sampleType {fields operand : List (String × Node)}
    (hfields : ∀ f ∈ fields, f.2.Prints) (hoperand : ∀ f ∈ operand, f.2.Prints) :
    (sampleType e fields operand).Prints := by
  have hrecord := e.prints_record hoperand
  have hinstruction : (sampleInstruction e operand).Prints :=
    e.prints_record (by simp [Escaping.prints_number, e.prints_string, hrecord])
  have hinstructions := Json.Node.prints_array (List.forall_mem_singleton.mpr hinstruction)
  have hmethod : (sampleMethod e operand).Prints :=
    e.prints_record (by simpa [e.prints_string] using hinstructions)
  have hmethods := Json.Node.prints_array (List.forall_mem_singleton.mpr hmethod)
  refine e.prints_record (List.forall_mem_append.mpr ⟨hfields, ?_⟩)
  simpa [e.prints_string] using hmethods

def sample : Node := sampleType e [("namespace", e.stringNode "")]
  [("kind", e.stringNode "i32"), ("value", numberNode 7)]

/-- The namespace is left out, a note is put in, and the value of the operand is put first. -/
def sampleVariant : Node := sampleType e [("note", .null)]
  [("value", numberNode 7), ("kind", e.stringNode "i32")]

theorem recast_sample : Recast .type (sample e) (sampleVariant e) := by
  have hall {role : Role} {f g : String × Node × Node}
      (hf : Recast (role.field f.1) f.2.1 f.2.2) (hg : Recast (role.field g.1) g.2.1 g.2.2) :
      ∀ x ∈ [f, g], Recast (role.field x.1) x.2.1 x.2.2 :=
    List.forall_mem_cons.mpr ⟨hf, List.forall_mem_singleton.mpr hg⟩
  refine recast_recordNode _ [("name", _, _), ("methods", _, _)] [("namespace", _)] [("note", _)]
    (hall (.refl _ _) (recast_single ?_)) ?_ ?_ (.refl _)
  · refine recast_recordNode _ [("name", _, _), ("instructions", _, _)] [] []
      (hall (.refl _ _) (recast_single ?_)) nofun nofun (.refl _)
    refine recast_recordNode _ [("label", _, _), ("opcode", _, _), ("operand", _, _)] [] []
      (List.forall_mem_cons.mpr ⟨.refl _ _, hall (.refl _ _) ?_⟩) nofun nofun (.refl _)
    exact recast_recordNode _ [("kind", _, _), ("value", _, _)] [] []
      (hall (.refl _ _) (.refl _ _)) nofun nofun (.swap _ _ _)
  · exact List.forall_mem_singleton.mpr ⟨_, rfl, e.decode_text ""⟩
  · exact List.forall_mem_singleton.mpr ⟨by decide, "note", e.decode_text "note",
      by simp [Role.record?, Record.typeDef]⟩

theorem prints_sample : (sample e).Prints := prints_sampleType e
  (List.forall_mem_singleton.mpr (e.prints_string _))
  (by simp [Escaping.prints_number, e.prints_string])

theorem distinct_sample : (sample e).Distinct := by
  simp [sample, sampleType, sampleMethod, sampleInstruction, distinct_recordNode, Node.Distinct,
    Items.Distinct, Writing.stringNode, numberNode]

/-- The text of the variant, with blanks in it. -/
def sampleVariantText : String :=
  String.ofList ('[' :: ([' '] ++ ((sampleVariant e).print ++ ['\n']) ++ [']']))

theorem spelled_sampleVariant :
    Json.Document.Spelled (.array (.ofList [sampleVariant e])) (sampleVariantText e) := by
  have hnode : (sampleVariant e).Prints := prints_sampleType e
    (List.forall_mem_singleton.mpr .null) (by simp [Escaping.prints_number, e.prints_string])
  have hitems : Json.Items.Spelled (.ofList [sampleVariant e]) _ :=
    .last (show Json.Blank [' '] by simp [Json.Blank]) hnode
      (show Json.Blank ['\n'] by simp [Json.Blank])
  have hdocument := Json.Document.Spelled.framed Json.blank_nil (.array hitems) Json.blank_nil
  rwa [List.nil_append, List.append_nil] at hdocument

end Sample

theorem parseTypes_recast_sample :
    let node := Node.array (.ofList [sample .least])
    let node' := Node.array (.ofList [sampleVariant .least])
    let text := Json.Document.print node
    let text' := sampleVariantText .least
    Recast .types node node' ∧ Json.Document.Spelled node text ∧ Json.Document.Spelled node' text' ∧
      node.Distinct ∧ node.depth ≤ Json.maxDepth ∧
      ∃ types, parseTypes text = .ok types ∧ parseTypes text' = .ok types := by
  intro node node' text text'
  have hrecast : Recast .types node node' := recast_single (recast_sample .least)
  have hspelled : Json.Document.Spelled node text := Json.Document.spelled_print
    (Json.Node.prints_array (List.forall_mem_singleton.mpr (prints_sample .least)))
  have hspelled' : Json.Document.Spelled node' text' := spelled_sampleVariant .least
  have hdistinct : node.Distinct := ⟨distinct_sample .least, trivial⟩
  have hdepth : node.depth ≤ Json.maxDepth := by decide +kernel
  have haccepted : (parseTypes text).isOk = true := by decide +kernel
  cases htypes : parseTypes text with
  | error e =>
    rw [htypes] at haccepted
    cases haccepted
  | ok types =>
    have htypes' := (parseTypes_recast hrecast hspelled hspelled' hdistinct hdepth types).mp htypes
    exact ⟨hrecast, hspelled, hspelled', hdistinct, hdepth, types, rfl, htypes'⟩

end MethodPack.Metadata
