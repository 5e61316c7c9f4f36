import MethodPack.Proofs.Canonical
import MethodPack.Proofs.Mnemonics
import MethodPack.Proofs.Records
import MethodPack.Proofs.Settling

/-!
# Recovery

Nothing is lost on the way through a document: reading the canonical text of a list of types
gives the list back, unless the text opens too many containers at once
(`parseTypes_canonicalText`). Each record is recovered from its canonical node; the value of an
operand is settled first, which puts its members into another order.
-/

namespace MethodPack.Metadata

open Json (Node Items Members Text Numeral)

/-! ## Reading canonical trees -/

theorem integer_numberNode {range : IntRange} {i : Int} (hlow : range.low ≤ i)
    (hhigh : i ≤ range.high) (hfits : -0x8000000000000000 ≤ i ∧ i ≤ 0xffffffffffffffff) :
    integer range (numberNode i) = .ok i := by
  simp only [integer, numberNode, Numeral.value?_ofInt hfits.1 hfits.2, hlow, hhigh, and_self,
    if_true]

theorem unsigned32_numberNode (x : UInt32) : unsigned32 (numberNode x.toNat) = .ok x := by
  have hlt : x.toNat < 4294967296 := x.toNat_lt
  rw [unsigned32, integer_numberNode (by simp [IntRange.unsigned32])
    (by simp only [IntRange.unsigned32]; omega) (by omega)]
  simp [bind, Except.bind, pure, Except.pure]

theorem label_numberNode (l : Label) : label (numberNode l.offset.toNat) = .ok l := by
  rw [label, unsigned32_numberNode]
  rfl

theorem bool_node (b : Bool) : bool (.bool b) = .ok b := rfl

/-- Items that stand for values, one by one, are read as them. -/
theorem sequence_list {α : Type} {read : Nat → Node → Result α} {node : α → Node} {room : Nat}
    {xs : List α} (hdepth : (Node.array (.ofList (xs.map node))).depth ≤ room)
    (hread : ∀ x ∈ xs, ∀ inner < room, (node x).depth ≤ inner → read inner (node x) = .ok x) :
    sequence room read (.array (.ofList (xs.map node))) = .ok xs := by
  obtain ⟨inner, rfl⟩ : ∃ inner, room = inner + 1 := Nat.exists_eq_add_one.mpr (by
    rw [Node.depth] at hdepth; omega)
  have hitems : ∀ n ∈ xs.map node, n.depth ≤ inner :=
    Items.depth_ofList_le.mp (Nat.le_of_succ_le_succ hdepth)
  refine sequence_array_ok_iff.mpr ⟨inner, rfl, ?_⟩
  rw [List.forall₂_map_left_iff, List.forall₂_same]
  exact fun x hx => hread x hx inner (Nat.lt_succ_self inner) (hitems _ (List.mem_map_of_mem hx))

namespace Writing

variable {w : Writing}

theorem string_stringNode (s : String) : string (w.stringNode s) = .ok s :=
  string_of_decode (w.decode_text s)

theorem opcode_stringNode (c : Opcode) : opcode (w.stringNode c.mnemonic) = .ok c := by
  rw [opcode, string_stringNode]
  simp [bind, Except.bind, Opcode.ofMnemonic?_mnemonic, pure, Except.pure]

theorem valuesOf_entries (field : String) (fields : List (String × Node)) :
    valuesOf field (w.entries fields) =
      fields.filterMap fun f => if f.1 = field then some f.2 else none := by
  simp [valuesOf, entries, List.filterMap_map]

/-- A record is read from the entries it is written with, if these are among its fields. -/
theorem reads_recordNode {record : Record} {inner : Nat} {fields : List (String × Node)}
    {Q : Nat → List (Text × Node) → Prop} (hfields : ∀ f ∈ fields, f.1 ∈ record.fields)
    (hQ : Q inner (w.entries fields)) : record.Reads (inner + 1) (w.recordNode fields) Q := by
  refine ⟨inner, rfl, w.entries fields, Members.toList?_ofList _, fun e he => ?_, hQ⟩
  obtain ⟨f, hf, rfl⟩ := List.mem_map.mp he
  exact ⟨f.1, w.decode_text f.1, fun hnot => absurd (hfields f hf) hnot⟩

theorem depth_recordNode {fields : List (String × Node)} {room : Nat} :
    (w.recordNode fields).depth ≤ room ↔
      ∃ inner, room = inner + 1 ∧ ∀ f ∈ fields, f.2.depth ≤ inner := by
  have hdepth : (w.recordNode fields).depth = (Members.ofList (w.entries fields)).depth + 1 := by
    rw [recordNode, Node.depth]
  rw [hdepth]
  cases room with
  | zero => simp
  | succ inner =>
    rw [Nat.add_le_add_iff_right, Members.depth_ofList_le, entries, List.forall_mem_map]
    simp

/-! ### Settled records -/

theorem settle_stringNode (s : String) (room : Nat) :
    (w.stringNode s).settle room = .ok (plain.stringNode s) := by
  rw [stringNode, Node.settle, w.decode_text]
  rfl

theorem settle_numberNode {i : Int} (hlow : -0x8000000000000000 ≤ i)
    (hhigh : i ≤ 0xffffffffffffffff) (room : Nat) :
    (numberNode i).settle room = .ok (numberNode i) := by
  rw [numberNode, Node.settle, Numeral.value?_ofInt hlow hhigh]
  rfl

/-- A settled record has its settled fields, in some order. -/
theorem settle_recordNode (inner : Nat) (fields fields' : List (String × Node))
    (h : List.Forall₂ (fun f f' => f'.1 = f.1 ∧ f.2.settle inner = .ok f'.2) fields fields')
    (hnodup : (fields.map Prod.fst).Nodup) :
    ∃ out, (w.recordNode fields).settle (inner + 1) = .ok (.object (.ofList out)) ∧
      out.Perm (plain.entries fields') := by
  have hsettles : List.Forall₂ (Json.SettlesTo inner) (w.entries fields)
      (plain.entries fields') := by
    rw [entries, entries, List.forall₂_map_left_iff, List.forall₂_map_right_iff]
    exact h.imp fun f f' hf => ⟨f.1, w.decode_text f.1, by rw [hf.1]; rfl, hf.2⟩
  have hnames : (Members.ofList (w.entries fields)).names = fields.map Prod.fst := by
    rw [Members.names_ofList, entries, List.filterMap_map]
    simp
  obtain ⟨out, hout, hperm⟩ := Members.settle_perm hsettles (hnames ▸ hnodup)
  refine ⟨out, ?_, hperm⟩
  rw [recordNode, Node.settle, hout]
  rfl

/-- Settled entries are read like the fields they come from. -/
theorem reads_settled {record : Record} {inner : Nat} {fields : List (String × Node)}
    {out : List (Text × Node)} {Q : Nat → List (Text × Node) → Prop}
    (hperm : out.Perm (plain.entries fields)) (hfields : ∀ f ∈ fields, f.1 ∈ record.fields)
    (hQ : Q inner out) : record.Reads (inner + 1) (.object (.ofList out)) Q := by
  refine ⟨inner, rfl, out, Members.toList?_ofList _, fun e he => ?_, hQ⟩
  obtain ⟨f, hf, rfl⟩ := List.mem_map.mp (hperm.mem_iff.mp he)
  exact ⟨f.1, plain.decode_text f.1, fun hnot => absurd (hfields f hf) hnot⟩

theorem settle_typeRef_fields (ns name : String) {declaring declaring' : Node} {inner : Nat}
    (h : declaring.settle inner = .ok declaring') :
    ∃ ms, (w.recordNode [("namespace", w.stringNode ns), ("name", w.stringNode name),
        ("declaring", declaring)]).settle (inner + 1) = .ok (.object ms) ∧
      ∀ (t : TypeRef) source inner', t.ns = ns → t.name = name →
        declaringOf (typeRef source inner') declaring' = .ok t.declaring? →
        typeRef source (inner' + 1) (.object ms) = .ok t := by
  obtain ⟨out, hout, hperm⟩ := settle_recordNode (w := w) inner
    [("namespace", w.stringNode ns), ("name", w.stringNode name), ("declaring", declaring)]
    [("namespace", plain.stringNode ns), ("name", plain.stringNode name), ("declaring", declaring')]
    (by simp [settle_stringNode, h]) (by simp)
  refine ⟨_, hout, ?_⟩
  rintro t source inner' rfl rfl hdeclaring
  refine typeRef_ok_iff.mpr (reads_settled hperm (by simp [Record.typeRef]) ⟨?_, ?_, ?_⟩) <;>
    refine holds_of_perm hperm ?_ <;>
    simp [Holds, valuesOf_entries, string_stringNode, hdeclaring]

/-- A type reference that settles is read as itself, with as much room as it takes. -/
theorem settle_typeRefNode (t : TypeRef) {room : Nat} (hdepth : (w.typeRefNode t).depth ≤ room) :
    ∃ ms, (w.typeRefNode t).settle room = .ok (.object ms) ∧
      ∀ source room', room ≤ room' → typeRef source room' (.object ms) = .ok t := by
  induction t generalizing room with
  | outermost ns name =>
    obtain ⟨inner, rfl, -⟩ := depth_recordNode.mp hdepth
    have hnull : Node.null.settle inner = .ok .null := rfl
    obtain ⟨ms, hms, hread⟩ := settle_typeRef_fields (w := w) ns name hnull
    refine ⟨ms, hms, fun source room' hroom => ?_⟩
    obtain ⟨inner', rfl⟩ := Nat.exists_eq_add_of_lt hroom
    exact hread _ source _ rfl rfl rfl
  | nested ns name declaring ih =>
    obtain ⟨inner, rfl, hfields⟩ := depth_recordNode.mp hdepth
    obtain ⟨ds, hds, hdeclaring⟩ := ih (hfields ("declaring", _) (by simp))
    obtain ⟨ms, hms, hread⟩ := settle_typeRef_fields (w := w) ns name hds
    refine ⟨ms, hms, fun source room' hroom => ?_⟩
    obtain ⟨inner', rfl, hinner⟩ : ∃ inner', room' = inner' + 1 ∧ inner ≤ inner' :=
      ⟨room' - 1, by omega, by omega⟩
    refine hread _ source _ rfl rfl ?_
    rw [declaringOf, hdeclaring source inner' hinner]
    · rfl
    · simp

theorem settle_memberRefNode (m : MemberRef) {room : Nat}
    (hdepth : (w.memberRefNode m).depth ≤ room) :
    ∃ v, (w.memberRefNode m).settle room = .ok v ∧
      ∀ source room', room ≤ room' → memberRef source room' v = .ok m := by
  obtain ⟨inner, rfl, hfields⟩ := depth_recordNode.mp hdepth
  obtain ⟨ms, hms, hread⟩ := settle_typeRefNode (w := w) m.declaring (hfields ("declaring", _) (by simp))
  obtain ⟨out, hout, hperm⟩ := settle_recordNode (w := w) inner
    [("declaring", w.typeRefNode m.declaring), ("name", w.stringNode m.name)]
    [("declaring", .object ms), ("name", plain.stringNode m.name)]
    (by simp [settle_stringNode, hms]) (by simp)
  refine ⟨_, hout, fun source room' hroom => ?_⟩
  obtain ⟨inner', rfl, hinner⟩ : ∃ inner', room' = inner' + 1 ∧ inner ≤ inner' :=
    ⟨room' - 1, by omega, by omega⟩
  refine memberRef_ok_iff.mpr (reads_settled hperm (by simp [Record.memberRef]) ⟨?_, ?_⟩) <;>
    refine holds_of_perm hperm ?_ <;>
    simp [Holds, valuesOf_entries, string_stringNode, hread source inner' hinner]

/-- A literal by its bits settles to one that is read as these bits. -/
theorem settle_bitsNode {bits room : Nat} (hbits : bits ≤ 0xffffffffffffffff)
    (hdepth : (w.bitsNode bits).depth ≤ room) :
    ∃ v, (w.bitsNode bits).settle room = .ok v ∧ floatLiteral v = .ok (.bits bits.toUInt64) := by
  obtain ⟨inner, rfl, -⟩ := depth_recordNode.mp hdepth
  have hfits : (bits : Int) ≤ 0xffffffffffffffff := by omega
  obtain ⟨out, hout, hperm⟩ := settle_recordNode (w := w) inner [("bits", numberNode bits)]
    [("bits", numberNode bits)] (by simp [settle_numberNode (i := bits) (by omega) hfits]) (by simp)
  refine ⟨_, hout, ?_⟩
  obtain rfl := List.perm_singleton.mp hperm
  simp only [floatLiteral, plain, Members.ofList_cons, Members.find?, if_true, numberNode,
    Numeral.integer?_ofInt (i := bits) (by omega) hfits]

/-- A number within a range of 64 bits settles to itself and is read as itself. -/
theorem settle_integer (range : IntRange) {i : Int} (hi : range.low ≤ i ∧ i ≤ range.high)
    (hrange : -0x8000000000000000 ≤ range.low ∧ range.high ≤ 0xffffffffffffffff) (room : Nat) :
    (numberNode i).settle room = .ok (numberNode i) ∧ integer range (numberNode i) = .ok i :=
  ⟨settle_numberNode (by omega) (by omega) room,
    integer_numberNode hi.1 hi.2 ⟨by omega, by omega⟩⟩

theorem settle_labels (ls : List Label) {room : Nat}
    (hdepth : (Node.array (.ofList (ls.map fun l => numberNode l.offset.toNat))).depth ≤ room) :
    (Node.array (.ofList (ls.map fun l => numberNode l.offset.toNat))).settle room =
      .ok (.array (.ofList (ls.map fun l => numberNode l.offset.toNat))) := by
  obtain ⟨inner, rfl⟩ : ∃ inner, room = inner + 1 := Nat.exists_eq_add_one.mpr (by
    rw [Node.depth] at hdepth; omega)
  have hitems := Items.settle_ok_iff.mpr
    ⟨ls.map fun l => numberNode l.offset.toNat, rfl, List.forall₂_same.mpr fun n hn => by
      obtain ⟨l, -, rfl⟩ := List.mem_map.mp hn
      have := l.offset.toNat_lt
      exact settle_numberNode (by omega) (by omega) inner⟩
  rw [Node.settle, hitems]
  rfl

/-- The value of an operand settles to one that is read as the operand. -/
theorem settle_value {o : Operand} {node : Node} (h : w.valueNode? o = some node) {room : Nat}
    (hdepth : node.depth ≤ room) (hroom : room ≤ Json.maxDepth + 1) :
    ∃ v, node.settle room = .ok v ∧ operandOf (kindName o) v = .ok o := by
  cases o <;> cases h
  case f32 x =>
    have hlt := x.bits.toNat_lt
    obtain ⟨v, hv, hread⟩ := settle_bitsNode (by omega) hdepth
    refine ⟨v, hv, ?_⟩
    simp [operandOf, kindName, Operand.shapeName, hread, FloatLiteral.toBinary32, hlt, bind,
      Except.bind, pure, Except.pure]
  case f64 x =>
    have hlt := x.bits.toNat_lt
    obtain ⟨v, hv, hread⟩ := settle_bitsNode (by omega) hdepth
    refine ⟨v, hv, ?_⟩
    simp [operandOf, kindName, Operand.shapeName, hread, FloatLiteral.toBinary64, bind,
      Except.bind, pure, Except.pure]
  case i8 x =>
    have hx : IntRange.signed8.low ≤ x.toInt ∧ x.toInt ≤ IntRange.signed8.high := by
      simp only [IntRange.signed8]
      exact ⟨x.le_toInt, Int.lt_add_one_iff.mp x.toInt_lt⟩
    obtain ⟨hsettle, hread⟩ := settle_integer .signed8 hx (by decide) room
    refine ⟨_, hsettle, ?_⟩
    simp [operandOf, kindName, Operand.shapeName, hread, bind, Except.bind, pure, Except.pure]
  case u8 x =>
    have hx : IntRange.unsigned8.low ≤ (x.toNat : Int) ∧ (x.toNat : Int) ≤ IntRange.unsigned8.high := by
      simp only [IntRange.unsigned8]
      exact ⟨Int.natCast_nonneg _, by have := x.toNat_lt; omega⟩
    obtain ⟨hsettle, hread⟩ := settle_integer .unsigned8 hx (by decide) room
    refine ⟨_, hsettle, ?_⟩
    simp [operandOf, kindName, Operand.shapeName, hread, bind, Except.bind, pure, Except.pure]
  case i32 x =>
    have hx : IntRange.signed32.low ≤ x.toInt ∧ x.toInt ≤ IntRange.signed32.high := by
      simp only [IntRange.signed32]
      exact ⟨x.le_toInt, Int.lt_add_one_iff.mp x.toInt_lt⟩
    obtain ⟨hsettle, hread⟩ := settle_integer .signed32 hx (by decide) room
    refine ⟨_, hsettle, ?_⟩
    simp [operandOf, kindName, Operand.shapeName, hread, bind, Except.bind, pure, Except.pure]
  case u32 x =>
    have hlt := x.toNat_lt
    refine ⟨_, settle_numberNode (by omega) (by omega) room, ?_⟩
    simp [operandOf, kindName, Operand.shapeName, unsigned32_numberNode, bind, Except.bind, pure,
      Except.pure]
  case i64 x =>
    have hx : IntRange.signed64.low ≤ x.toInt ∧ x.toInt ≤ IntRange.signed64.high := by
      simp only [IntRange.signed64]
      exact ⟨x.le_toInt, Int.lt_add_one_iff.mp x.toInt_lt⟩
    obtain ⟨hsettle, hread⟩ := settle_integer .signed64 hx (by decide) room
    refine ⟨_, hsettle, ?_⟩
    simp [operandOf, kindName, Operand.shapeName, hread, bind, Except.bind, pure, Except.pure]
  case u64 x =>
    have hx : IntRange.unsigned64.low ≤ (x.toNat : Int) ∧ (x.toNat : Int) ≤ IntRange.unsigned64.high := by
      simp only [IntRange.unsigned64]
      exact ⟨Int.natCast_nonneg _, by have := x.toNat_lt; omega⟩
    obtain ⟨hsettle, hread⟩ := settle_integer .unsigned64 hx (by decide) room
    refine ⟨_, hsettle, ?_⟩
    simp [operandOf, kindName, Operand.shapeName, hread, bind, Except.bind, pure, Except.pure]
  case string s =>
    refine ⟨_, settle_stringNode s room, ?_⟩
    simp [operandOf, kindName, Operand.shapeName, string_stringNode, bind, Except.bind, pure,
      Except.pure]
  case target l =>
    have hlt := l.offset.toNat_lt
    refine ⟨_, settle_numberNode (by omega) (by omega) room, ?_⟩
    simp [operandOf, kindName, Operand.shapeName, label_numberNode, bind, Except.bind, pure,
      Except.pure]
  case targets ls =>
    have hread : sequence (Json.maxDepth + 1) (fun _ => label) _ = .ok ls :=
      sequence_list (hdepth.trans hroom) fun l _ _ _ _ => label_numberNode l
    refine ⟨_, settle_labels ls hdepth, ?_⟩
    simp [operandOf, kindName, Operand.shapeName, hread, bind, Except.bind, pure, Except.pure]
  case member m =>
    obtain ⟨v, hv, hread⟩ := settle_memberRefNode m hdepth
    refine ⟨v, hv, ?_⟩
    simp [operandOf, kindName, Operand.shapeName, hread .settled _ hroom, bind, Except.bind, pure,
      Except.pure]
  case slot x =>
    have hx : IntRange.unsigned16.low ≤ (x.toNat : Int) ∧ (x.toNat : Int) ≤ IntRange.unsigned16.high := by
      simp only [IntRange.unsigned16]
      exact ⟨Int.natCast_nonneg _, by have := x.toNat_lt; omega⟩
    obtain ⟨hsettle, hread⟩ := settle_integer .unsigned16 hx (by decide) room
    refine ⟨_, hsettle, ?_⟩
    simp [operandOf, kindName, Operand.shapeName, hread, bind, Except.bind, pure, Except.pure]
  case unsupported s =>
    refine ⟨_, settle_stringNode s room, ?_⟩
    simp [operandOf, kindName, string_stringNode, bind, Except.bind, pure, Except.pure]

/-! ### Records of the text -/

theorem operand_operandNode {source : Source} (o : Operand) {room : Nat}
    (hdepth : (w.operandNode o).depth ≤ room) (hroom : room ≤ Json.maxDepth) :
    operand source room (w.operandNode o) = .ok o := by
  obtain ⟨inner, rfl, hfields⟩ := depth_recordNode.mp hdepth
  refine operand_ok_iff.mpr (reads_recordNode ?_ ?_)
  · cases w.valueNode? o <;> simp [Record.operand]
  · cases hvalue : w.valueNode? o with
    | none =>
      obtain rfl : o = .none := by cases o <;> first | rfl | cases hvalue
      refine ⟨"none", .null, ?_, ?_, by simp [operandOf, pure, Except.pure]⟩
      · simp [Holds, valuesOf_entries, string_stringNode, kindName, Operand.shapeName]
      · simp [Holds, valuesOf_entries]
    | some node =>
      obtain ⟨v, hv, hread⟩ := settle_value hvalue
        (hfields ("value", node) (by simp [hvalue])) (by omega : inner ≤ Json.maxDepth + 1)
      refine ⟨kindName o, v, ?_, ?_, hread⟩
      · simp [Holds, valuesOf_entries, string_stringNode]
      · simp [Holds, valuesOf_entries, settled, hv, ofFault, Except.mapError]

theorem instruction_instructionNode {source : Source} (i : Instruction) {room : Nat}
    (hdepth : (w.instructionNode i).depth ≤ room) (hroom : room ≤ Json.maxDepth) :
    instruction source room (w.instructionNode i) = .ok i := by
  obtain ⟨inner, rfl, hfields⟩ := depth_recordNode.mp hdepth
  have hoperand : operand source inner (w.operandNode i.operand) = .ok i.operand :=
    operand_operandNode i.operand (hfields ("operand", w.operandNode i.operand) (by simp))
      (by omega)
  refine instruction_ok_iff.mpr (reads_recordNode (by simp [Record.instruction]) ⟨?_, ?_, ?_⟩) <;>
    simp [Holds, valuesOf_entries, label_numberNode, opcode_stringNode, hoperand]

theorem methodDef_methodDefNode {source : Source} (m : MethodDef) {room : Nat}
    (hdepth : (w.methodDefNode m).depth ≤ room) (hroom : room ≤ Json.maxDepth) :
    methodDef source room (w.methodDefNode m) = .ok m := by
  obtain ⟨inner, rfl, hfields⟩ := depth_recordNode.mp hdepth
  have hdepth : (Node.array (.ofList (m.instructions.map w.instructionNode))).depth ≤ inner :=
    hfields ("instructions", _) (by simp)
  have hinstructions : sequence inner (instruction source) _ = .ok m.instructions :=
    sequence_list hdepth fun i _ _ hlt hi => instruction_instructionNode i hi (by omega)
  refine methodDef_ok_iff.mpr (reads_recordNode ?_ ⟨?_, ?_, ?_, ?_, ?_, ?_⟩)
  · simp [Record.methodDef]
  all_goals simp [Holds, valuesOf_entries, string_stringNode, unsigned32_numberNode, bool_node,
    hinstructions]

theorem typeDefNodes_eq_map (ts : List TypeDef) : w.typeDefNodes ts = ts.map w.typeDefNode := by
  induction ts with
  | nil => rw [typeDefNodes, List.map_nil]
  | cons t ts ih => rw [typeDefNodes, ih, List.map_cons]

mutual

theorem typeDef_typeDefNode {source : Source} (t : TypeDef) {room : Nat}
    (hdepth : (w.typeDefNode t).depth ≤ room) (hroom : room ≤ Json.maxDepth) :
    typeDef source room (w.typeDefNode t) = .ok t := by
  obtain ⟨ns, name, methods, nested⟩ := t
  have hnested : ∀ t ∈ nested, ∀ {room : Nat}, (w.typeDefNode t).depth ≤ room →
      room ≤ Json.maxDepth → typeDef source room (w.typeDefNode t) = .ok t :=
    typeDef_typeDefNodes nested
  rw [typeDefNode, typeDefNodes_eq_map] at hdepth ⊢
  obtain ⟨inner, rfl, hfields⟩ := depth_recordNode.mp hdepth
  have hmethodsDepth : (Node.array (.ofList (methods.map w.methodDefNode))).depth ≤ inner :=
    hfields ("methods", _) (by simp)
  have hnestedDepth : (Node.array (.ofList (nested.map w.typeDefNode))).depth ≤ inner :=
    hfields ("nested", _) (by simp)
  have hmethods : sequence inner (methodDef source) _ = .ok methods :=
    sequence_list hmethodsDepth fun m _ _ hlt hm => methodDef_methodDefNode m hm (by omega)
  have hnested : sequence inner (typeDef source) _ = .ok nested :=
    sequence_list hnestedDepth fun t ht _ hlt hdepth => hnested t ht hdepth (by omega)
  refine typeDef_ok_iff.mpr (reads_recordNode ?_ ⟨?_, ?_, ?_, ?_⟩)
  · simp [Record.typeDef]
  all_goals simp [Holds, valuesOf_entries, string_stringNode, hmethods, hnested]

theorem typeDef_typeDefNodes {source : Source} (ts : List TypeDef) :
    ∀ t ∈ ts, ∀ {room : Nat}, (w.typeDefNode t).depth ≤ room → room ≤ Json.maxDepth →
      typeDef source room (w.typeDefNode t) = .ok t := by
  intro t ht room hdepth hroom
  cases ts with
  | nil => cases ht
  | cons t' ts =>
    rcases List.mem_cons.mp ht with heq | ht
    · exact heq ▸ typeDef_typeDefNode t' (heq ▸ hdepth) hroom
    · exact typeDef_typeDefNodes ts t ht hdepth hroom

end

end Writing

/-! ## Canonical texts -/

/-- Reading the canonical text of a list of types gives the list back, unless it opens more
containers at once than a text may. -/
theorem parseTypes_canonicalText (e : Escaping) (types : List TypeDef)
    (hdepth : (e.document types).depth ≤ Json.maxDepth) :
    parseTypes (e.canonicalText types) = .ok types := by
  rw [parseTypes, readText_of_spelled (e.spelled_canonicalText types)]
  rw [Writing.document, Writing.typeDefNodes_eq_map] at hdepth ⊢
  exact sequence_list hdepth fun t _ _ hlt ht =>
    Writing.typeDef_typeDefNode t ht (Nat.le_of_lt hlt)

/-- A type that needs escapes, with a method whose operands take records and literals. -/
def sampleTypes : List TypeDef :=
  [{ ns := "a\n"
     name := "\""
     methods := [{ name := "m", params := 4294967295, hasThis := true, instructions :=
       [⟨⟨0⟩, .call, .member ⟨.nested "" "In" (.outermost "N" "Out"), "f"⟩⟩,
        ⟨⟨1⟩, .ldcR8, .f64 ⟨0x7ff8000000000001⟩⟩, ⟨⟨2⟩, .ldcI8, .i64 (-9223372036854775808)⟩,
        ⟨⟨3⟩, .switch, .targets [⟨0⟩, ⟨2⟩]⟩, ⟨⟨4⟩, .calli, .unsupported "site"⟩] }]
     nested := [{ ns := "", name := "é" }] }]

theorem parseTypes_canonicalText_sample :
    (Escaping.least.document sampleTypes).depth ≤ Json.maxDepth ∧
      parseTypes (Escaping.least.canonicalText sampleTypes) = .ok sampleTypes := by
  have hdepth : (Escaping.least.document sampleTypes).depth ≤ Json.maxDepth := by
    decide +kernel
  exact ⟨hdepth, parseTypes_canonicalText Escaping.least sampleTypes hdepth⟩

example : Escaping.least.canonicalText [⟨"a\n", "\"", [], []⟩] =
    "[\x7b\"namespace\":\"a\\u000a\",\"name\":\"\\\"\",\"methods\":[],\"nested\":[]\x7d]" := by
  decide +kernel

end MethodPack.Metadata
