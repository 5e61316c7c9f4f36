import MethodPack.Proofs.Entries

/-!
# Records

When each record of a metadata document is read and as what, field by field: exactly when
every field has at most one value, which its reader takes, or else a default, and what stands
under other names can be passed over (`typeDef_ok_iff` and its companions). The order of the
fields does not occur in these statements, and an array is read like the object whose members
it lists.
-/

namespace MethodPack.Metadata

open Json (Node Items Members Text)

variable {δ α : Type}

/-! ## Strings -/

theorem ofFault_ok_iff {r : Except Json.Fault α} {x : α} : ofFault r = .ok x ↔ r = .ok x := by
  cases r <;> simp [ofFault, Except.mapError]

theorem string_of_decode {t : Text} {s : String} (h : t.decode = .ok s) :
    string (.string t) = .ok s := ofFault_ok_iff.mpr h

/-! ## References -/

/-- A type or nothing, which is written as null. -/
def declaringOf (readDeclaring : Node → Result TypeRef) : Node → Result (Option TypeRef)
  | .null => .ok none
  | value => (readDeclaring value).map some

def TypeRefDraft.slots (readDeclaring : Node → Result TypeRef) : List (Slot TypeRefDraft) :=
  [⟨"namespace", _, TypeRefDraft.ns, fun d x => { d with ns := x }, string⟩,
    ⟨"name", _, TypeRefDraft.name, fun d x => { d with name := x }, string⟩,
    ⟨"declaring", _, TypeRefDraft.declaring, fun d x => { d with declaring := x },
      declaringOf readDeclaring⟩]

theorem TypeRefDraft.fills (readDeclaring : Node → Result TypeRef) :
    Fills (slots readDeclaring) (TypeRefDraft.set readDeclaring) where
  known := by
    simp [slots, TypeRefDraft.set, Slot.fill]
    intro d value
    cases value <;> rfl
  unknown field hfield d value := by
    simp only [slots, List.map_cons, List.map_nil, List.mem_cons, List.not_mem_nil, or_false,
      not_or] at hfield
    unfold TypeRefDraft.set
    split <;> first | rfl | simp at hfield
  get_put := by simp [slots]
  apart := by simp [slots, Slot.apart_iff]
  ext d d' h := by
    cases d
    cases d'
    simp_all [slots]

theorem TypeRefDraft.finish_ok_iff (layout : Layout) (d : TypeRefDraft) (t : TypeRef) :
    d.finish layout = .ok t ↔ d.ns.getD "" = t.ns ∧ d.name = some t.name ∧
      d.declaring.getD none = t.declaring? := by
  unfold TypeRefDraft.finish
  rw [bind_ok_iff]
  simp only [require_ok_iff]
  constructor
  · rintro ⟨name, hname, h⟩
    rcases hd : d.declaring with _ | _ | declaring <;> rw [hd] at h <;> cases h <;>
      simp [hname, TypeRef.ns, TypeRef.name, TypeRef.declaring?]
  · rintro ⟨hns, hname, hdeclaring⟩
    refine ⟨t.name, hname, ?_⟩
    rcases hd : d.declaring with _ | _ | declaring <;> rw [hd] at hdeclaring <;> cases t <;>
      simp_all [TypeRef.ns, TypeRef.name, TypeRef.declaring?, pure, Except.pure]

/-- A type reference is read with the room inside it for the types around it. -/
theorem typeRef_eq (source : Source) (room : Nat) (node : Node) :
    typeRef source room node = readRecord source .typeRef room
      (fun inner => TypeRefDraft.set (typeRef source inner)) {} node >>= fun p =>
        p.2.finish p.1 := by
  cases room <;> cases node <;> rfl

theorem typeRef_ok_iff {source : Source} {room : Nat} {node : Node} {t : TypeRef} :
    typeRef source room node = .ok t ↔ Record.typeRef.Reads room node fun inner entries =>
      Holds entries "namespace" string (some "") t.ns ∧
      Holds entries "name" string none t.name ∧
      Holds entries "declaring" (declaringOf (typeRef source inner)) (some none) t.declaring? := by
  rw [typeRef_eq]
  refine (record_ok_iff (fun _ => TypeRefDraft.fills _) (fun _ => rfl)
    fun layout d => TypeRefDraft.finish_ok_iff layout d t).trans ?_
  refine Record.reads_congr fun inner entries => ?_
  simp only [Fills.Filled, TypeRefDraft.slots, List.forall_mem_cons, holds_required_iff,
    holds_default_iff]
  constructor
  · rintro ⟨d, ⟨hns, hname, hdeclaring, -⟩, ens, ename, edeclaring⟩
    exact ⟨⟨_, hns, ens⟩, ename ▸ hname, _, hdeclaring, edeclaring⟩
  · rintro ⟨⟨ns, hns, ens⟩, hname, declaring, hdeclaring, edeclaring⟩
    exact ⟨⟨ns, some t.name, declaring⟩, ⟨hns, hname, hdeclaring, by simp⟩, ens, rfl, edeclaring⟩

def MemberRefDraft.slots (source : Source) (inner : Nat) : List (Slot MemberRefDraft) :=
  [⟨"declaring", _, MemberRefDraft.declaring, fun d x => { d with declaring := x },
      typeRef source inner⟩,
    ⟨"name", _, MemberRefDraft.name, fun d x => { d with name := x }, string⟩]

theorem MemberRefDraft.fills (source : Source) (inner : Nat) :
    Fills (slots source inner) (MemberRefDraft.set source inner) where
  known := by simp [slots, MemberRefDraft.set, Slot.fill]
  unknown field hfield d value := by
    simp only [slots, List.map_cons, List.map_nil, List.mem_cons, List.not_mem_nil, or_false,
      not_or] at hfield
    unfold MemberRefDraft.set
    split <;> first | rfl | simp at hfield
  get_put := by simp [slots]
  apart := by simp [slots, Slot.apart_iff]
  ext d d' h := by
    cases d
    cases d'
    simp_all [slots]

theorem memberRef_ok_iff {source : Source} {room : Nat} {node : Node} {m : MemberRef} :
    memberRef source room node = .ok m ↔ Record.memberRef.Reads room node fun inner entries =>
      Holds entries "declaring" (typeRef source inner) none m.declaring ∧
      Holds entries "name" string none m.name := by
  have hfinish (layout : Layout) (d : MemberRefDraft) :
      (do
        let declaring ← require .memberRef layout "declaring" d.declaring
        return ⟨declaring, ← require .memberRef layout "name" d.name⟩ : Result MemberRef) = .ok m ↔
      d.declaring = some m.declaring ∧ d.name = some m.name := by
    simp only [bind_ok_iff, require_ok_iff, pure, Except.pure, Except.ok.injEq]
    constructor
    · rintro ⟨declaring, hdeclaring, name, hname, rfl⟩
      exact ⟨hdeclaring, hname⟩
    · rintro ⟨hdeclaring, hname⟩
      exact ⟨_, hdeclaring, _, hname, rfl⟩
  refine (record_ok_iff (MemberRefDraft.fills source) (fun _ => rfl) hfinish).trans ?_
  refine Record.reads_congr fun inner entries => ?_
  simp only [Fills.Filled, MemberRefDraft.slots, List.forall_mem_cons, holds_required_iff]
  constructor
  · rintro ⟨d, ⟨hdeclaring, hname, -⟩, edeclaring, ename⟩
    exact ⟨edeclaring ▸ hdeclaring, ename ▸ hname⟩
  · rintro ⟨hdeclaring, hname⟩
    exact ⟨⟨some m.declaring, some m.name⟩, ⟨hdeclaring, hname, by simp⟩, rfl, rfl⟩

/-! ## Instructions -/

/-- The value of an operand is read as a whole. -/
def settled (room : Nat) (value : Node) : Result Node := ofFault (value.settle room)

def OperandDraft.slots (inner : Nat) : List (Slot OperandDraft) :=
  [⟨"kind", _, OperandDraft.kind, fun d x => { d with kind := x }, string⟩,
    ⟨"value", _, OperandDraft.value, fun d x => { d with value := x }, settled inner⟩]

theorem OperandDraft.fills (inner : Nat) : Fills (slots inner) (OperandDraft.set inner) where
  known := by simp [slots, OperandDraft.set, Slot.fill, settled]
  unknown field hfield d value := by
    simp only [slots, List.map_cons, List.map_nil, List.mem_cons, List.not_mem_nil, or_false,
      not_or] at hfield
    unfold OperandDraft.set
    split <;> first | rfl | simp at hfield
  get_put := by simp [slots]
  apart := by simp [slots, Slot.apart_iff]
  ext d d' h := by
    cases d
    cases d'
    simp_all [slots]

theorem operand_ok_iff {source : Source} {room : Nat} {node : Node} {o : Operand} :
    operand source room node = .ok o ↔ Record.operand.Reads room node fun inner entries =>
      ∃ kind value, Holds entries "kind" string none kind ∧
        Holds entries "value" (settled inner) (some .null) value ∧ operandOf kind value = .ok o := by
  have hfinish (layout : Layout) (d : OperandDraft) :
      (do operandOf (← require .operand layout "kind" d.kind) (d.value.getD .null)) = .ok o ↔
        ∃ kind, d.kind = some kind ∧ operandOf kind (d.value.getD .null) = .ok o := by
    simp only [bind_ok_iff, require_ok_iff]
  refine (record_ok_iff OperandDraft.fills (fun _ => rfl) hfinish).trans ?_
  refine Record.reads_congr fun inner entries => ?_
  simp only [Fills.Filled, OperandDraft.slots, List.forall_mem_cons, holds_required_iff,
    holds_default_iff]
  constructor
  · rintro ⟨d, ⟨hkind, hvalue, -⟩, kind, ekind, ho⟩
    exact ⟨kind, _, ekind ▸ hkind, ⟨_, hvalue, rfl⟩, ho⟩
  · rintro ⟨kind, _, hkind, ⟨value, hvalue, rfl⟩, ho⟩
    exact ⟨⟨some kind, value⟩, ⟨hkind, hvalue, by simp⟩, kind, rfl, ho⟩

def InstructionDraft.slots (source : Source) (inner : Nat) : List (Slot InstructionDraft) :=
  [⟨"label", _, InstructionDraft.label, fun d x => { d with label := x }, Metadata.label⟩,
    ⟨"opcode", _, InstructionDraft.opcode, fun d x => { d with opcode := x }, Metadata.opcode⟩,
    ⟨"operand", _, InstructionDraft.operand, fun d x => { d with operand := x },
      Metadata.operand source inner⟩]

theorem InstructionDraft.fills (source : Source) (inner : Nat) :
    Fills (slots source inner) (InstructionDraft.set source inner) where
  known := by simp [slots, InstructionDraft.set, Slot.fill]
  unknown field hfield d value := by
    simp only [slots, List.map_cons, List.map_nil, List.mem_cons, List.not_mem_nil, or_false,
      not_or] at hfield
    unfold InstructionDraft.set
    split <;> first | rfl | simp at hfield
  get_put := by simp [slots]
  apart := by simp [slots, Slot.apart_iff]
  ext d d' h := by
    cases d
    cases d'
    simp_all [slots]

theorem instruction_ok_iff {source : Source} {room : Nat} {node : Node} {i : Instruction} :
    instruction source room node = .ok i ↔ Record.instruction.Reads room node fun inner entries =>
      Holds entries "label" label none i.label ∧
      Holds entries "opcode" opcode none i.opcode ∧
      Holds entries "operand" (operand source inner) (some .none) i.operand := by
  have hfinish (layout : Layout) (d : InstructionDraft) :
      (do
        let label ← require .instruction layout "label" d.label
        return ⟨label, ← require .instruction layout "opcode" d.opcode, d.operand.getD .none⟩ :
          Result Instruction) = .ok i ↔
        d.label = some i.label ∧ d.opcode = some i.opcode ∧ d.operand.getD .none = i.operand := by
    simp only [bind_ok_iff, require_ok_iff, pure, Except.pure, Except.ok.injEq]
    constructor
    · rintro ⟨label, hlabel, opcode, hopcode, rfl⟩
      exact ⟨hlabel, hopcode, rfl⟩
    · rintro ⟨hlabel, hopcode, hoperand⟩
      exact ⟨_, hlabel, _, hopcode, by rw [hoperand]⟩
  refine (record_ok_iff (InstructionDraft.fills source) (fun _ => rfl) hfinish).trans ?_
  refine Record.reads_congr fun inner entries => ?_
  simp only [Fills.Filled, InstructionDraft.slots, List.forall_mem_cons, holds_required_iff,
    holds_default_iff]
  constructor
  · rintro ⟨d, ⟨hlabel, hopcode, hoperand, -⟩, elabel, eopcode, eoperand⟩
    exact ⟨elabel ▸ hlabel, eopcode ▸ hopcode, _, hoperand, eoperand⟩
  · rintro ⟨hlabel, hopcode, operand, hoperand, eoperand⟩
    exact ⟨⟨some i.label, some i.opcode, operand⟩, ⟨hlabel, hopcode, hoperand, by simp⟩, rfl, rfl,
      eoperand⟩

/-! ## Definitions -/

def MethodDraft.slots (source : Source) (inner : Nat) : List (Slot MethodDraft) :=
  [⟨"name", _, MethodDraft.name, fun d x => { d with name := x }, string⟩,
    ⟨"generic_params", _, MethodDraft.genericParams, fun d x => { d with genericParams := x },
      unsigned32⟩,
    ⟨"params", _, MethodDraft.params, fun d x => { d with params := x }, unsigned32⟩,
    ⟨"has_this", _, MethodDraft.hasThis, fun d x => { d with hasThis := x }, bool⟩,
    ⟨"return_type", _, MethodDraft.returnType, fun d x => { d with returnType := x }, string⟩,
    ⟨"instructions", _, MethodDraft.instructions, fun d x => { d with instructions := x },
      sequence inner (instruction source)⟩]

theorem MethodDraft.fills (source : Source) (inner : Nat) :
    Fills (slots source inner) (MethodDraft.set source inner) where
  known := by simp [slots, MethodDraft.set, Slot.fill]
  unknown field hfield d value := by
    simp only [slots, List.map_cons, List.map_nil, List.mem_cons, List.not_mem_nil, or_false,
      not_or] at hfield
    unfold MethodDraft.set
    split <;> first | rfl | simp at hfield
  get_put := by simp [slots]
  apart := by simp [slots, Slot.apart_iff]
  ext d d' h := by
    cases d
    cases d'
    simp_all [slots]

theorem methodDef_ok_iff {source : Source} {room : Nat} {node : Node} {m : MethodDef} :
    methodDef source room node = .ok m ↔ Record.methodDef.Reads room node fun inner entries =>
      Holds entries "name" string none m.name ∧
      Holds entries "generic_params" unsigned32 (some 0) m.genericParams ∧
      Holds entries "params" unsigned32 (some 0) m.params ∧
      Holds entries "has_this" bool (some false) m.hasThis ∧
      Holds entries "return_type" string (some voidType) m.returnType ∧
      Holds entries "instructions" (sequence inner (instruction source)) (some [])
        m.instructions := by
  have hfinish (layout : Layout) (d : MethodDraft) :
      (do
        return {
          name := ← require .methodDef layout "name" d.name
          genericParams := d.genericParams.getD 0
          params := d.params.getD 0
          hasThis := d.hasThis.getD false
          returnType := d.returnType.getD voidType
          instructions := d.instructions.getD [] } : Result MethodDef) = .ok m ↔
        d.name = some m.name ∧ d.genericParams.getD 0 = m.genericParams ∧
          d.params.getD 0 = m.params ∧ d.hasThis.getD false = m.hasThis ∧
          d.returnType.getD voidType = m.returnType ∧ d.instructions.getD [] = m.instructions := by
    simp only [bind_ok_iff, require_ok_iff, pure, Except.pure, Except.ok.injEq]
    constructor
    · rintro ⟨name, hname, rfl⟩
      exact ⟨hname, rfl, rfl, rfl, rfl, rfl⟩
    · rintro ⟨hname, e₁, e₂, e₃, e₄, e₅⟩
      exact ⟨_, hname, by rw [e₁, e₂, e₃, e₄, e₅]⟩
  refine (record_ok_iff (MethodDraft.fills source) (fun _ => rfl) hfinish).trans ?_
  refine Record.reads_congr fun inner entries => ?_
  simp only [Fills.Filled, MethodDraft.slots, List.forall_mem_cons, holds_required_iff,
    holds_default_iff]
  constructor
  · rintro ⟨d, ⟨h₀, h₁, h₂, h₃, h₄, h₅, -⟩, e₀, e₁, e₂, e₃, e₄, e₅⟩
    exact ⟨e₀ ▸ h₀, ⟨_, h₁, e₁⟩, ⟨_, h₂, e₂⟩, ⟨_, h₃, e₃⟩, ⟨_, h₄, e₄⟩, _, h₅, e₅⟩
  · rintro ⟨h₀, ⟨x₁, h₁, e₁⟩, ⟨x₂, h₂, e₂⟩, ⟨x₃, h₃, e₃⟩, ⟨x₄, h₄, e₄⟩, x₅, h₅, e₅⟩
    exact ⟨⟨some m.name, x₁, x₂, x₃, x₄, x₅⟩, ⟨h₀, h₁, h₂, h₃, h₄, h₅, by simp⟩,
      rfl, e₁, e₂, e₃, e₄, e₅⟩

def TypeDraft.slots (source : Source) (readNested : Nat → Node → Result (List TypeDef))
    (inner : Nat) : List (Slot TypeDraft) :=
  [⟨"namespace", _, TypeDraft.ns, fun d x => { d with ns := x }, string⟩,
    ⟨"name", _, TypeDraft.name, fun d x => { d with name := x }, string⟩,
    ⟨"methods", _, TypeDraft.methods, fun d x => { d with methods := x },
      sequence inner (methodDef source)⟩,
    ⟨"nested", _, TypeDraft.nested, fun d x => { d with nested := x }, readNested inner⟩]

theorem TypeDraft.fills (source : Source) (readNested : Nat → Node → Result (List TypeDef))
    (inner : Nat) :
    Fills (slots source readNested inner) (TypeDraft.set source readNested inner) where
  known := by simp [slots, TypeDraft.set, Slot.fill]
  unknown field hfield d value := by
    simp only [slots, List.map_cons, List.map_nil, List.mem_cons, List.not_mem_nil, or_false,
      not_or] at hfield
    unfold TypeDraft.set
    split <;> first | rfl | simp at hfield
  get_put := by simp [slots]
  apart := by simp [slots, Slot.apart_iff]
  ext d d' h := by
    cases d
    cases d'
    simp_all [slots]

theorem readRecord_congr {source : Source} {record : Record} {inner : Nat}
    {set set' : Nat → δ → String → Node → Result δ} (h : set inner = set' inner) (d : δ)
    (node : Node) : readRecord source record (inner + 1) set d node =
      readRecord source record (inner + 1) set' d node := by
  cases node <;> simp only [readRecord, enter, bind, Except.bind, h]

/-- A type is read with the room inside it for the list of its nested types. -/
theorem typeDef_eq (source : Source) (room : Nat) (node : Node) : typeDef source room node =
    typeDefWith source (fun inside => sequence inside (typeDef source)) room node := by
  -- Where there is no room for a type in the list, and where there is, the list is read alike.
  have hset {readNested : Nat → Node → Result (List TypeDef)} {inner : Nat}
      (h : ∀ node, readNested inner node = sequence inner (typeDef source) node) :
      TypeDraft.set source readNested inner =
        TypeDraft.set source (fun inside => sequence inside (typeDef source)) inner := by
    funext d field value
    simp only [TypeDraft.set, h]
  match room with
  | 0 => cases node <;> rfl
  | 1 =>
    rw [typeDef, typeDefWith, typeDefWith, readRecord_congr (hset ?_)]
    intro node
    cases node <;> rfl
  | room + 2 =>
    rw [typeDef, typeDefWith, typeDefWith, readRecord_congr (hset ?_)]
    intro node
    cases node <;> rfl

theorem typeDef_ok_iff {source : Source} {room : Nat} {node : Node} {t : TypeDef} :
    typeDef source room node = .ok t ↔ Record.typeDef.Reads room node fun inner entries =>
      Holds entries "namespace" string (some "") t.ns ∧
      Holds entries "name" string none t.name ∧
      Holds entries "methods" (sequence inner (methodDef source)) (some []) t.methods ∧
      Holds entries "nested" (sequence inner (typeDef source)) (some []) t.nested := by
  have hfinish (layout : Layout) (d : TypeDraft) : d.finish layout = .ok t ↔
      d.ns.getD "" = t.ns ∧ d.name = some t.name ∧ d.methods.getD [] = t.methods ∧
        d.nested.getD [] = t.nested := by
    simp only [TypeDraft.finish, bind_ok_iff, require_ok_iff, pure, Except.pure, Except.ok.injEq]
    constructor
    · rintro ⟨name, hname, rfl⟩
      exact ⟨rfl, hname, rfl, rfl⟩
    · rintro ⟨e₀, hname, e₂, e₃⟩
      refine ⟨t.name, hname, ?_⟩
      cases t
      rw [e₀, e₂, e₃]
  rw [typeDef_eq]
  refine (record_ok_iff (TypeDraft.fills source _) (fun _ => rfl) hfinish).trans ?_
  refine Record.reads_congr fun inner entries => ?_
  simp only [Fills.Filled, TypeDraft.slots, List.forall_mem_cons, holds_required_iff,
    holds_default_iff]
  constructor
  · rintro ⟨d, ⟨h₀, h₁, h₂, h₃, -⟩, e₀, e₁, e₂, e₃⟩
    exact ⟨⟨_, h₀, e₀⟩, e₁ ▸ h₁, ⟨_, h₂, e₂⟩, _, h₃, e₃⟩
  · rintro ⟨⟨x₀, h₀, e₀⟩, h₁, ⟨x₂, h₂, e₂⟩, x₃, h₃, e₃⟩
    exact ⟨⟨x₀, some t.name, x₂, x₃⟩, ⟨h₀, h₁, h₂, h₃, by simp⟩, e₀, rfl, e₂, e₃⟩

end MethodPack.Metadata
