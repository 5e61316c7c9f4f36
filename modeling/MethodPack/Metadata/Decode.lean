import MethodPack.Json.Settled
import MethodPack.Metadata.Problem
import MethodPack.Model.Definition

/-! Reading a metadata document into type definitions. A record is an object or an
array of its fields in order; the first problem in document order is reported. The
value of an operand is read as a whole first, since its kind may follow it. -/
namespace MethodPack.Metadata

open Json (Node Items Members Fault)
open Number (Binary32 Binary64)

abbrev Result := Except Problem

/-- Where a value is read from. -/
inductive Source where
  /-- From the text, where a surplus item of a record is a fault of the text. -/
  | text
  /-- From a value that has been read as a whole. -/
  | settled
deriving DecidableEq, Repr

/-- A fault of the text as a problem of the document. -/
def ofFault (r : Except Fault α) : Result α := r.mapError .fault

/-! ## Simple values -/

/-- The problem with a value where something else is wanted. -/
def mismatch (wanted : Wanted) : Node → Problem
  | .null => .wrongType .null wanted
  | .bool b => .wrongType (.bool b) wanted
  | .number n =>
    match n.value? with
    | none => .fault .malformed
    | some (.integer i) => .wrongType (.integer i) wanted
    | some (.float x) => .wrongType (.float x) wanted
  | .cutNumeral => .fault .endOfText
  | .string text =>
    match text.decode with
    | .error f => .fault f
    | .ok s => .wrongType (.string s) wanted
  | .array _ => .wrongType .sequence wanted
  | .object _ => .wrongType .map wanted
  | .broken f => .fault f

def string : Node → Result String
  | .string text => ofFault text.decode
  | node => .error (mismatch .string node)

def bool : Node → Result Bool
  | .bool b => .ok b
  | node => .error (mismatch .bool node)

def integer (range : IntRange) : Node → Result Int
  | .number n =>
    match n.value? with
    | some (.integer i) =>
      if range.low ≤ i ∧ i ≤ range.high then .ok i else .error (.outOfRange i range)
    | _ => .error (mismatch (.integer range) (.number n))
  | node => .error (mismatch (.integer range) node)

def unsigned32 (node : Node) : Result UInt32 := do return (← integer .unsigned32 node).toNat.toUInt32

def label (node : Node) : Result Label := do return ⟨← unsigned32 node⟩

def opcode (node : Node) : Result Opcode := do
  let s ← string node
  match Opcode.ofMnemonic? s with
  | some c => return c
  | none => .error (.unknownMnemonic s)

/-! ## Containers -/

/-- How many containers may open inside a container that opens now. -/
def enter : (room : Nat) → Result Nat
  | 0 => .error (.fault .malformed)
  | room + 1 => .ok room

/-- Reads every item. -/
def items (read : Node → Result α) : Items → Result (List α)
  | .done none => .ok []
  | .done (some f) => .error (.fault f)
  | .cons head tail => do
    let x ← read head
    return x :: (← items read tail)

/-- Reads a sequence; `read` is told how much room there is in it. -/
def sequence (room : Nat) (read : Nat → Node → Result α) : Node → Result (List α)
  | .array xs => do
    let room ← enter room
    items (read room) xs
  | node => .error (mismatch .sequence node)

/-- How a record is written. -/
inductive Layout where
  | named
  | positional
deriving DecidableEq, Repr

/-- Reads members in document order into a draft of the record. -/
def members (set : δ → String → Node → Result δ) (draft : δ) : Members → Result δ
  | .done none => .ok draft
  | .done (some f) => .error (.fault f)
  | .cons key value tail => do
    let key ← ofFault key.decode
    members set (← set draft key value) tail

/-- Reads items into the fields they stand for. -/
def positions (source : Source) (length : Nat) (set : δ → String → Node → Result δ) (draft : δ) :
    List String → Items → Result δ
  | _, .done none => .ok draft
  | _, .done (some f) => .error (.fault f)
  | [], .cons .. =>
    match source with
    | .text => .error (.fault .malformed)
    | .settled => .error (.tooLong length)
  | field :: fields, .cons head tail => do
    positions source length set (← set draft field head) fields tail

/-- Reads a record into a draft, field by field; `set` is told how much room there is
in the record. -/
def readRecord (source : Source) (record : Record) (room : Nat)
    (set : Nat → δ → String → Node → Result δ) (draft : δ) : Node → Result (Layout × δ)
  | .object ms => do
    let room ← enter room
    return (.named, ← members (set room) draft ms)
  | .array xs => do
    let room ← enter room
    return (.positional, ← positions source xs.length (set room) draft record.fields xs)
  | node => .error (mismatch (.record record) node)

/-- Fills a field that must not be filled yet. -/
def once (held : Option α) (field : String) (value : Result α) : Result (Option α) :=
  if held.isSome then .error (.duplicateField field) else value.map some

/-- Passes over the value of an unknown field. -/
def ignore (draft : δ) (value : Node) : Result δ := do
  ofFault value.skip
  return draft

/-- The value of a field that has no default. -/
def require (record : Record) (layout : Layout) (field : String) : Option α → Result α
  | some x => .ok x
  | none =>
    match layout with
    | .named => .error (.missingField field)
    | .positional => .error (.tooShort (record.fields.idxOf field) record)

/-! ## References -/

/-- The fields of a type reference read so far. -/
structure TypeRefDraft where
  ns : Option String := none
  name : Option String := none
  declaring : Option (Option TypeRef) := none

def TypeRefDraft.set (readDeclaring : Node → Result TypeRef) (d : TypeRefDraft) (field : String)
    (value : Node) : Result TypeRefDraft := do
  match field with
  | "namespace" => return { d with ns := ← once d.ns field (string value) }
  | "name" => return { d with name := ← once d.name field (string value) }
  | "declaring" =>
    let read := match value with
      | .null => .ok none
      | value => (readDeclaring value).map some
    return { d with declaring := ← once d.declaring field read }
  | _ => ignore d value

def TypeRefDraft.finish (layout : Layout) (d : TypeRefDraft) : Result TypeRef := do
  let name ← require .typeRef layout "name" d.name
  let ns := d.ns.getD ""
  match d.declaring with
  | some (some declaring) => return .nested ns name declaring
  | _ => return .outermost ns name

def typeRef (source : Source) : (room : Nat) → Node → Result TypeRef
  | 0, node => do
    let (layout, d) ← readRecord source .typeRef 0
      (fun _ => TypeRefDraft.set fun _ => .error (.fault .malformed)) {} node
    d.finish layout
  | room + 1, node => do
    let (layout, d) ← readRecord source .typeRef (room + 1)
      (fun _ => TypeRefDraft.set (typeRef source room)) {} node
    d.finish layout

/-- The fields of a member reference read so far. -/
structure MemberRefDraft where
  declaring : Option TypeRef := none
  name : Option String := none

def MemberRefDraft.set (source : Source) (room : Nat) (d : MemberRefDraft) (field : String)
    (value : Node) : Result MemberRefDraft := do
  match field with
  | "declaring" => return { d with declaring := ← once d.declaring field (typeRef source room value) }
  | "name" => return { d with name := ← once d.name field (string value) }
  | _ => ignore d value

def memberRef (source : Source) (room : Nat) (node : Node) : Result MemberRef := do
  let (layout, d) ← readRecord source .memberRef room (MemberRefDraft.set source) {} node
  let declaring ← require .memberRef layout "declaring" d.declaring
  return ⟨declaring, ← require .memberRef layout "name" d.name⟩

/-! ## Operands -/

/-- A floating-point literal: a number, the name of a special value, or the bits. -/
inductive FloatLiteral where
  | number (value : Binary64)
  | named (name : String)
  | bits (bits : UInt64)

/-- Reads a floating-point literal from a settled value. Integers are rounded. -/
def floatLiteral : Node → Result FloatLiteral
  | .number n =>
    match n.value? with
    | some (.integer i) => .ok (.number (.ofInt i))
    | some (.float x) => .ok (.number x)
    | none => .error (.fault .malformed)
  | .string text => do return .named (← ofFault text.decode)
  | .object ms =>
    match ms.find? "bits" with
    | some (.number n) =>
      match n.integer? with
      | some (.ofNat bits) => .ok (.bits bits.toUInt64)
      | _ => .error .noFloatForm
    | _ => .error .noFloatForm
  | _ => .error .noFloatForm

def namedFloat (name : String) : Result Binary64 :=
  match name with
  | "NaN" => .ok .nan
  | "Infinity" => .ok .infinity
  | "-Infinity" => .ok Binary64.infinity.negate
  | _ => .error (.unknownFloat name)

def FloatLiteral.toBinary64 : FloatLiteral → Result Binary64
  | number x => .ok x
  | named name => namedFloat name
  | bits b => .ok ⟨b⟩

def FloatLiteral.toBinary32 : FloatLiteral → Result Binary32
  | number x => .ok x.narrow
  | named name => (namedFloat name).map Binary64.narrow
  | bits b => if b.toNat < 0x100000000 then .ok ⟨b.toUInt32⟩ else .error (.floatBitsOutOfRange b)

/-- The operand of a kind and a settled value. An unknown kind makes an operand
without encoding, whatever its value. -/
def operandOf (kind : String) (value : Node) : Result Operand := do
  match kind with
  | "none" => return .none
  | "f32" => return .f32 (← (← floatLiteral value).toBinary32)
  | "f64" => return .f64 (← (← floatLiteral value).toBinary64)
  | "i8" => return .i8 (.ofInt (← integer .signed8 value))
  | "u8" => return .u8 (← integer .unsigned8 value).toNat.toUInt8
  | "i32" => return .i32 (.ofInt (← integer .signed32 value))
  | "u32" => return .u32 (← unsigned32 value)
  | "i64" => return .i64 (.ofInt (← integer .signed64 value))
  | "u64" => return .u64 (← integer .unsigned64 value).toNat.toUInt64
  | "string" => return .string (← string value)
  | "target" => return .target (← label value)
  | "targets" => return .targets (← sequence (Json.maxDepth + 1) (fun _ => label) value)
  | "member" => return .member (← memberRef .settled (Json.maxDepth + 1) value)
  | "variable" => return .slot (← integer .unsigned16 value).toNat.toUInt16
  | "opaque" => return .unsupported (← string value)
  | _ => return .unsupported kind

/-- The fields of an operand read so far; its value is settled. -/
structure OperandDraft where
  kind : Option String := none
  value : Option Node := none

def OperandDraft.set (room : Nat) (d : OperandDraft) (field : String) (value : Node) :
    Result OperandDraft := do
  match field with
  | "kind" => return { d with kind := ← once d.kind field (string value) }
  | "value" => return { d with value := ← once d.value field (ofFault (value.settle room)) }
  | _ => ignore d value

def operand (source : Source) (room : Nat) (node : Node) : Result Operand := do
  let (layout, d) ← readRecord source .operand room OperandDraft.set {} node
  operandOf (← require .operand layout "kind" d.kind) (d.value.getD .null)

/-! ## Definitions -/

/-- The fields of an instruction read so far. -/
structure InstructionDraft where
  label : Option Label := none
  opcode : Option Opcode := none
  operand : Option Operand := none

def InstructionDraft.set (source : Source) (room : Nat) (d : InstructionDraft) (field : String)
    (value : Node) : Result InstructionDraft := do
  match field with
  | "label" => return { d with label := ← once d.label field (Metadata.label value) }
  | "opcode" => return { d with opcode := ← once d.opcode field (Metadata.opcode value) }
  | "operand" =>
    return { d with operand := ← once d.operand field (Metadata.operand source room value) }
  | _ => ignore d value

def instruction (source : Source) (room : Nat) (node : Node) : Result Instruction := do
  let (layout, d) ← readRecord source .instruction room (InstructionDraft.set source) {} node
  let label ← require .instruction layout "label" d.label
  return ⟨label, ← require .instruction layout "opcode" d.opcode, d.operand.getD .none⟩

/-- The fields of a method read so far. -/
structure MethodDraft where
  name : Option String := none
  genericParams : Option UInt32 := none
  params : Option UInt32 := none
  hasThis : Option Bool := none
  returnType : Option String := none
  instructions : Option (List Instruction) := none

def MethodDraft.set (source : Source) (room : Nat) (d : MethodDraft) (field : String)
    (value : Node) : Result MethodDraft := do
  match field with
  | "name" => return { d with name := ← once d.name field (string value) }
  | "generic_params" =>
    return { d with genericParams := ← once d.genericParams field (unsigned32 value) }
  | "params" => return { d with params := ← once d.params field (unsigned32 value) }
  | "has_this" => return { d with hasThis := ← once d.hasThis field (bool value) }
  | "return_type" => return { d with returnType := ← once d.returnType field (string value) }
  | "instructions" =>
    let read := sequence room (instruction source) value
    return { d with instructions := ← once d.instructions field read }
  | _ => ignore d value

def methodDef (source : Source) (room : Nat) (node : Node) : Result MethodDef := do
  let (layout, d) ← readRecord source .methodDef room (MethodDraft.set source) {} node
  return {
    name := ← require .methodDef layout "name" d.name
    genericParams := d.genericParams.getD 0
    params := d.params.getD 0
    hasThis := d.hasThis.getD false
    returnType := d.returnType.getD voidType
    instructions := d.instructions.getD [] }

/-- The fields of a type read so far. -/
structure TypeDraft where
  ns : Option String := none
  name : Option String := none
  methods : Option (List MethodDef) := none
  nested : Option (List TypeDef) := none

def TypeDraft.set (source : Source) (readNested : Nat → Node → Result (List TypeDef)) (room : Nat)
    (d : TypeDraft) (field : String) (value : Node) : Result TypeDraft := do
  match field with
  | "namespace" => return { d with ns := ← once d.ns field (string value) }
  | "name" => return { d with name := ← once d.name field (string value) }
  | "methods" =>
    let read := sequence room (methodDef source) value
    return { d with methods := ← once d.methods field read }
  | "nested" => return { d with nested := ← once d.nested field (readNested room value) }
  | _ => ignore d value

def TypeDraft.finish (layout : Layout) (d : TypeDraft) : Result TypeDef := do
  return {
    ns := d.ns.getD ""
    name := ← require .typeDef layout "name" d.name
    methods := d.methods.getD []
    nested := d.nested.getD [] }

/-- Reads a type with a given way to read the list of its nested types. -/
def typeDefWith (source : Source) (readNested : Nat → Node → Result (List TypeDef)) (room : Nat)
    (node : Node) : Result TypeDef := do
  let (layout, d) ← readRecord source .typeDef room (TypeDraft.set source readNested) {} node
  d.finish layout

/-- Reads the list of nested types where there is no room for a type in it. -/
def noNested (room : Nat) (node : Node) : Result (List TypeDef) :=
  sequence room (fun _ _ => .error (.fault .malformed)) node

/-- Reads a type. A nested type has two containers less room: the type and the list
it is in. -/
def typeDef (source : Source) : (room : Nat) → Node → Result TypeDef
  | 0 => typeDefWith source noNested 0
  | 1 => typeDefWith source noNested 1
  | room + 2 =>
    typeDefWith source (fun inside => sequence inside fun _ => typeDef source room) (room + 2)

/-! ## Documents -/

/-- Reads the whole text with a reader for its value. -/
def readText (read : Nat → Node → Result α) (text : String) : Result α := do
  let document := Json.Document.scan text
  let x ← read Json.maxDepth document.root
  if document.trailing then .error (.fault .malformed) else return x

/-- The top-level types of a metadata document. -/
def parseTypes (text : String) : Result (List TypeDef) :=
  readText (fun room => sequence room (typeDef .text)) text

/-- A type reference on its own. -/
def parseTypeRef (text : String) : Result TypeRef := readText (typeRef .text) text

end MethodPack.Metadata
