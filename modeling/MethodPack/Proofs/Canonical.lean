import MethodPack.Metadata.Decode
import MethodPack.Proofs.Printing

/-!
# Canonical documents

The canonical tree of a list of types: every field written out as a member of an object, in
the order of its declaration, floating-point literals by their bits, and strings in any way
that stands for them (`Writing`). Where strings are escaped as a text demands (`Escaping`), the
tree has a text, which the grammar of JSON derives (`Escaping.spelled_canonicalText`).
-/

namespace MethodPack.Metadata

open Json (Node Text TextUnit Numeral)

/-! ## Canonical trees -/

/-- A way to write strings; what is written stands for the string. -/
structure Writing where
  text : String → Text
  decode_text : ∀ s, (text s).decode = .ok s

/-- The canonical node of an integer. -/
def numberNode (i : Int) : Node := .number (.ofInt i)

/-- The name of an operand's kind. -/
def kindName : Operand → String
  | .unsupported _ => "opaque"
  | o => o.shapeName

namespace Writing

/-- Every character stands for itself. -/
def plain : Writing := ⟨Text.ofString, Text.decode_ofString⟩

variable (w : Writing)

@[simp] theorem name?_text (s : String) : (w.text s).name? = some s :=
  Text.name?_eq_some.mpr (w.decode_text s)

def stringNode (s : String) : Node := .string (w.text s)

def entries (fields : List (String × Node)) : List (Text × Node) :=
  fields.map fun f => (w.text f.1, f.2)

def recordNode (fields : List (String × Node)) : Node := .object (.ofList (w.entries fields))

def typeRefNode : TypeRef → Node
  | .outermost ns name => w.recordNode
      [("namespace", w.stringNode ns), ("name", w.stringNode name), ("declaring", .null)]
  | .nested ns name declaring => w.recordNode
      [("namespace", w.stringNode ns), ("name", w.stringNode name),
        ("declaring", typeRefNode declaring)]

def memberRefNode (m : MemberRef) : Node := w.recordNode
  [("declaring", w.typeRefNode m.declaring), ("name", w.stringNode m.name)]

/-- A floating-point literal by its bits. -/
def bitsNode (bits : Nat) : Node := w.recordNode [("bits", numberNode bits)]

def valueNode? : Operand → Option Node
  | .none => none
  | .f32 x => some (w.bitsNode x.bits.toNat)
  | .f64 x => some (w.bitsNode x.bits.toNat)
  | .i8 x => some (numberNode x.toInt)
  | .u8 x => some (numberNode x.toNat)
  | .i32 x => some (numberNode x.toInt)
  | .u32 x => some (numberNode x.toNat)
  | .i64 x => some (numberNode x.toInt)
  | .u64 x => some (numberNode x.toNat)
  | .string s => some (w.stringNode s)
  | .target l => some (numberNode l.offset.toNat)
  | .targets ls => some (.array (.ofList (ls.map fun l => numberNode l.offset.toNat)))
  | .member m => some (w.memberRefNode m)
  | .slot i => some (numberNode i.toNat)
  | .unsupported s => some (w.stringNode s)

def operandNode (o : Operand) : Node := w.recordNode
  (("kind", w.stringNode (kindName o)) :: (w.valueNode? o).toList.map fun v => ("value", v))

def instructionNode (i : Instruction) : Node := w.recordNode
  [("label", numberNode i.label.offset.toNat), ("opcode", w.stringNode i.opcode.mnemonic),
    ("operand", w.operandNode i.operand)]

def methodDefNode (m : MethodDef) : Node := w.recordNode
  [("name", w.stringNode m.name), ("generic_params", numberNode m.genericParams.toNat),
    ("params", numberNode m.params.toNat), ("has_this", .bool m.hasThis),
    ("return_type", w.stringNode m.returnType),
    ("instructions", .array (.ofList (m.instructions.map w.instructionNode)))]

mutual

def typeDefNode : TypeDef → Node
  | ⟨ns, name, methods, nested⟩ => w.recordNode
    [("namespace", w.stringNode ns), ("name", w.stringNode name),
      ("methods", .array (.ofList (methods.map w.methodDefNode))),
      ("nested", .array (.ofList (typeDefNodes nested)))]

def typeDefNodes : List TypeDef → List Node
  | [] => []
  | t :: ts => typeDefNode t :: typeDefNodes ts

end

/-- The document that lists the types. -/
def document (types : List TypeDef) : Node := .array (.ofList (w.typeDefNodes types))

end Writing

/-- A way to write strings that a text can show. -/
structure Escaping extends Writing where
  fault_text : ∀ s, (text s).fault = none
  printable_text : ∀ s, ∀ unit ∈ (text s).units, unit.Printable

/-- The canonical text of the types. -/
def Escaping.canonicalText (e : Escaping) (types : List TypeDef) : String :=
  Json.Document.print (e.document types)

namespace Escaping

/-- The unit a character is written with where only what must be escaped is: a control
character by its number, any other as itself. -/
def leastUnit (c : Char) : TextUnit :=
  if c.toNat < 0x20 then .escape (.ofNat c.toNat) else .char c

theorem decodeUnits_leastUnit (cs : List Char) :
    Text.decodeUnits none (cs.map leastUnit) = .ok cs := by
  induction cs with
  | nil => rfl
  | cons c cs ih =>
    rw [List.map_cons, leastUnit]
    split
    · rename_i hcontrol
      have hvalue : (UInt16.ofNat c.toNat).toNat = c.toNat := Nat.mod_eq_of_lt (by omega)
      have htrailing : Text.isTrailing (.ofNat c.toNat) = false := by
        simp [Text.isTrailing, UInt16.le_iff_toNat_le, hvalue]
        omega
      have hleading : Text.isLeading (.ofNat c.toNat) = false := by
        simp [Text.isLeading, UInt16.le_iff_toNat_le, hvalue]
        omega
      unfold Text.decodeUnits
      simp [htrailing, hleading, hvalue, ih, Except.map]
    · simp [Text.decodeUnits, ih, Except.map]

def leastText (s : String) : Text := ⟨s.toList.map leastUnit, none⟩

theorem decode_leastText (s : String) : (leastText s).decode = .ok s := by
  simp [leastText, Text.decode, decodeUnits_leastUnit, Except.map]

theorem printable_leastText (s : String) : ∀ unit ∈ (leastText s).units, unit.Printable := by
  intro unit hunit
  obtain ⟨c, -, rfl⟩ := List.mem_map.mp hunit
  rw [leastUnit]
  split
  · trivial
  · exact .inl (by omega)

/-- Only what must be escaped is. -/
def least : Escaping := ⟨⟨leastText, decode_leastText⟩, fun _ => rfl, printable_leastText⟩

end Escaping

/-! ## Printing canonical trees -/

namespace Escaping

variable (e : Escaping)

theorem spelled_text (s : String) : (e.text s).Spelled (e.text s).print :=
  Text.spelled_print (e.fault_text s) (e.printable_text s)

theorem prints_null : Node.Prints .null := .null

theorem prints_string (s : String) : (e.stringNode s).Prints := .string (e.spelled_text s)

theorem prints_number (i : Int) : (numberNode i).Prints :=
  .number (Numeral.spelled_print (Numeral.printable_ofInt i))

theorem prints_record {fields : List (String × Node)} (h : ∀ f ∈ fields, f.2.Prints) :
    (e.recordNode fields).Prints := by
  refine Node.prints_object fun m hm => ?_
  obtain ⟨f, hf, rfl⟩ := List.mem_map.mp hm
  exact ⟨e.spelled_text f.1, h f hf⟩

theorem prints_list {α : Type} {node : α → Node} (h : ∀ x, (node x).Prints) (xs : List α) :
    (Node.array (.ofList (xs.map node))).Prints := by
  refine Node.prints_array fun n hn => ?_
  obtain ⟨x, _, rfl⟩ := List.mem_map.mp hn
  exact h x

theorem prints_typeRef (t : TypeRef) : (e.typeRefNode t).Prints := by
  induction t with
  | outermost ns name =>
    refine e.prints_record ?_
    simp [e.prints_string, prints_null]
  | nested ns name declaring ih =>
    refine e.prints_record ?_
    simp [e.prints_string, ih]

theorem prints_bits (bits : Nat) : (e.bitsNode bits).Prints :=
  e.prints_record (by simp [prints_number])

theorem prints_value {o : Operand} {node : Node} (h : e.valueNode? o = some node) :
    node.Prints := by
  cases o <;> cases h
  all_goals first
    | exact prints_number _
    | exact e.prints_string _
    | exact e.prints_bits _
    | exact prints_list (fun l => prints_number _) _
    | exact e.prints_record (by simp [e.prints_typeRef, e.prints_string])

theorem prints_operand (o : Operand) : (e.operandNode o).Prints := by
  refine e.prints_record ?_
  rw [List.forall_mem_cons]
  refine ⟨e.prints_string _, fun f hf => ?_⟩
  obtain ⟨node, hnode, rfl⟩ := List.mem_map.mp hf
  exact e.prints_value (Option.mem_toList.mp hnode)

theorem prints_instruction (i : Instruction) : (e.instructionNode i).Prints :=
  e.prints_record (by simp [prints_number, e.prints_string, e.prints_operand])

theorem prints_methodDef (m : MethodDef) : (e.methodDefNode m).Prints := by
  have hbool : (Node.bool m.hasThis).Prints := by
    cases m.hasThis
    · exact .false
    · exact .true
  exact e.prints_record (by
    simp [prints_number, e.prints_string, hbool, prints_list e.prints_instruction])

mutual

theorem prints_typeDef (t : TypeDef) : (e.typeDefNode t).Prints := by
  obtain ⟨ns, name, methods, nested⟩ := t
  have hnested := Node.prints_array (prints_typeDefs nested)
  rw [Writing.typeDefNode]
  exact e.prints_record (by simp [e.prints_string, prints_list e.prints_methodDef, hnested])

theorem prints_typeDefs (ts : List TypeDef) : ∀ node ∈ e.typeDefNodes ts, node.Prints := by
  cases ts with
  | nil => simp [Writing.typeDefNodes]
  | cons t ts =>
    rw [Writing.typeDefNodes, List.forall_mem_cons]
    exact ⟨prints_typeDef t, prints_typeDefs ts⟩

end

theorem spelled_canonicalText (types : List TypeDef) :
    Json.Document.Spelled (e.document types) (e.canonicalText types) :=
  Json.Document.spelled_print (Node.prints_array (e.prints_typeDefs types))

end Escaping

end MethodPack.Metadata
