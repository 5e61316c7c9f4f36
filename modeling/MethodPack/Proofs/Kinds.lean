import MethodPack.Proofs.Operands

/-!
# Kinds

The shape of an operand picks its encoding, and the opcode is not asked. So an export refuses
the operands without a kind and no others: a string on a branch is written, and so is a call
site without its signature. What is read back is consistent with what was exported exactly when
the shape of every operand is of the kind that its opcode announces (`kinds_packTo`).
-/

namespace MethodPack

open Export (place trace switches exported packTo sample Summary bodyLabels)
open Packed (Module RawInstruction OperandValue maxLength)

/-! ## The kind of a value -/

/-- The kind of the opcodes that read such a value. -/
def Packed.OperandValue.kind : OperandValue → OperandKind
  | .none => .none
  | .integer _ => .integer
  | .float _ => .float
  | .string _ => .string
  | .target _ => .target
  | .targets _ => .targets
  | .member _ => .member
  | .slot _ => .slot
  | .signature _ => .signature

/-- A field is read as a value of its opcode's kind. -/
theorem Packed.RawInstruction.kind_operand (raw : RawInstruction) :
    raw.operand.kind = raw.opcode.kind := by
  rw [operand]
  cases raw.opcode.kind <;> rfl

/-- A value denotes operands of its own kind only. -/
theorem Denotes.kind?_eq {m : Module} {body : List Instruction} {o : Operand} {v : OperandValue}
    (h : Denotes m body o v) : o.kind? = some v.kind :=
  match o, v, h with
  | .none, .none, _ => rfl
  | .i8 _, .integer _, _ | .u8 _, .integer _, _ | .i32 _, .integer _, _ | .u32 _, .integer _, _
  | .i64 _, .integer _, _ | .u64 _, .integer _, _ => rfl
  | .f32 _, .float _, _ | .f64 _, .float _, _ => rfl
  | .string _, .string _, _ => rfl
  | .target _, .target _, _ => rfl
  | .targets _, .targets _, _ => rfl
  | .member _, .member _, _ => rfl
  | .slot _, .slot _, _ => rfl

/-- Every operand that has an encoding has a kind. -/
theorem Operand.Encodable.kind?_ne_none {place : String → Nat} {labels : List Label} {o : Operand}
    (h : o.Encodable place labels) : o.kind? ≠ Option.none := by
  cases o with
  | unsupported shape => exact h.elim
  | _ => exact Option.some_ne_none _

/-- No operand is of the kind of a call site. -/
theorem Operand.kind?_ne_signature (o : Operand) : o.kind? ≠ some .signature := by
  cases o <;> simp [kind?]

/-! ## What is written and read of an instruction -/

/-- What is written of an instruction. Its operand has a kind, and its field is the encoding of
the operand alone, so that each opcode of that kind would read the operand back. -/
structure WrittenByShape (place : String → Nat) (m : Module) (body : List Instruction)
    (i : Instruction) (raw : RawInstruction) : Prop where
  opcode : raw.opcode = i.opcode
  kind : i.operand.kind? ≠ none
  field : ∃ blobs, raw.raw = i.operand.field place (bodyLabels body) blobs
  denotes : ∀ c : Opcode, i.operand.kind? = some c.kind →
    Denotes m body i.operand (RawInstruction.operand ⟨c, raw.raw⟩)

/-- What is read of an instruction is consistent with the instruction: its opcode is not one of
a call site, and the value that its opcode reads denotes its operand. -/
structure Consistent (m : Module) (body : List Instruction) (i : Instruction)
    (raw : RawInstruction) : Prop where
  supported : i.opcode.kind ≠ .signature
  denotes : Denotes m body i.operand raw.operand

/-- What is read of an instruction is consistent with it when its operand is of the kind that
its opcode announces, and only then. -/
theorem WrittenByShape.consistent_iff {place : String → Nat} {m : Module}
    {body : List Instruction} {i : Instruction} {raw : RawInstruction}
    (h : WrittenByShape place m body i raw) :
    Consistent m body i raw ↔ i.operand.kind? = some i.opcode.kind := by
  constructor
  · rintro ⟨_, hdenotes⟩
    rw [hdenotes.kind?_eq, RawInstruction.kind_operand, h.opcode]
  · intro hkind
    refine ⟨fun hsignature => ?_, ?_⟩
    · rw [hsignature] at hkind
      exact i.operand.kind?_ne_signature hkind
    · rw [← h.opcode] at hkind
      exact h.denotes raw.opcode hkind

/-- Pairs that are related under a condition on their first part are all related when the
condition always holds. -/
theorem forall₂_iff_forall {α β : Type} {R : α → β → Prop} {p : α → Prop} {xs : List α}
    {ys : List β} (h : List.Forall₂ (fun x y => R x y ↔ p x) xs ys) :
    List.Forall₂ R xs ys ↔ ∀ x ∈ xs, p x := by
  induction h with
  | nil => simp
  | cons hfirst _ ih => rw [List.forall₂_cons, hfirst, ih, List.forall_mem_cons]

namespace Export

variable {sink : Sink} {ds : List DeclaredMethod} {d : DeclaredMethod} {s : Session}

theorem Finished.length_le (h : Finished sink ds s) (hd : d ∈ ds) :
    d.method.instructions.length ≤ maxLength := by
  obtain ⟨n, hrecord⟩ := record_mem_layout (place (trace ds)) 0 hd
  have hfits := h.closed.fits _ (List.mem_append_left _ hrecord)
  rwa [DeclaredMethod.record, Packed.Section.Fits, length_layoutBody] at hfits

/-- Every instruction of a finished export is written by the shape of its operand. -/
theorem Finished.writtenByShape {m : Module} (h : Finished sink ds s)
    (hm : m.Holds (trace ds) (switches ds)) (hd : d ∈ ds) {k : Nat}
    (hblobs : d.blobs <+: (switches ds).drop k) :
    List.Forall₂ (WrittenByShape (place (trace ds)) m d.method.instructions) d.method.instructions
      (d.read (place (trace ds)) k).instructions := by
  refine forall₂_layoutBody hblobs fun i hi n hown => ?_
  have hencodable := (h.encodable d hd).operands i hi
  have hstrings : ∀ s ∈ i.operand.strings, s ∈ trace ds := fun s hs =>
    strings_subset_trace hd s (d.strings_of_operand hi s hs)
  refine ⟨rfl, hencodable.kind?_ne_none, ⟨n, rfl⟩, fun c hkind => ?_⟩
  exact Operand.Encodable.denotes (i := { i with opcode := c }) hencodable hkind hm hstrings
    (h.length_le hd) hown

/-- **Kinds.** An export that succeeds has refused every operand without a kind, and has written
the others by their shapes. What is read back is consistent with what was exported exactly when
the shape of every operand is of the kind that its opcode announces; no call site is. -/
theorem kinds_packTo {limit : Option Nat} {flushFails : Bool} {types : List TypeDef} {ns : String}
    {summary : Summary} (h : packTo { limit, flushFails } types ns = (.ok summary, sink)) :
    ∃ m, Module.ofBytes sink.bytes.toList = .ok m ∧
      List.Forall₂ (fun d r => List.Forall₂
          (WrittenByShape (place (trace (exported types ns))) m d.method.instructions)
        d.method.instructions r.instructions) (exported types ns) m.methods ∧
      (List.Forall₂ (fun d r => List.Forall₂ (Consistent m d.method.instructions)
          d.method.instructions r.instructions) (exported types ns) m.methods ↔
        ∀ d ∈ exported types ns, ∀ i ∈ d.method.instructions,
          i.operand.kind? = some i.opcode.kind) := by
  obtain ⟨s, hrun, rfl⟩ := packTo_eq_iff.mp h
  obtain ⟨hfinished, _⟩ := pack_ok hrun
  obtain ⟨m, hread, hholds, _, _, hmethods⟩ := hfinished.ofBytes rfl
  have hwritten : List.Forall₂ (fun d r => List.Forall₂
      (WrittenByShape (place (trace (exported types ns))) m d.method.instructions)
      d.method.instructions r.instructions) (exported types ns) m.methods := by
    rw [hmethods]
    exact forall₂_layout (switches (exported types ns)) (by simp) fun _ hd _ hblobs =>
      hfinished.writtenByShape hholds hd hblobs
  exact ⟨m, hread, hwritten, forall₂_iff_forall <| hwritten.imp fun _ _ hbody =>
    forall₂_iff_forall <| hbody.imp fun _ _ hinstruction => hinstruction.consistent_iff⟩

theorem kinds_packTo_sample :
    ∃ summary sink m, packTo {} sample "App" = (.ok summary, sink) ∧
      Module.ofBytes sink.bytes.toList = .ok m ∧
      List.Forall₂ (fun d r => List.Forall₂ (Consistent m d.method.instructions)
        d.method.instructions r.instructions) (exported sample "App") m.methods := by
  obtain ⟨summary, s, hrun⟩ := pack_succeeds sample "App" (by decide) (by decide)
  have hpack : packTo {} sample "App" = (.ok summary, s.sink) := packTo_eq_iff.mpr ⟨s, hrun, rfl⟩
  obtain ⟨m, hread, _, hconsistent⟩ := kinds_packTo hpack
  exact ⟨summary, s.sink, m, hpack, hread, hconsistent.mpr (by decide)⟩

/-- A string on a branch, and a call site without its signature. -/
def misread : List TypeDef :=
  [{ ns := "D", name := "T", methods := [{
    name := "M", instructions := [⟨⟨0⟩, .br, .string "x"⟩, .bare 5 .calli] }] }]

/-- The shape of an operand need not be of its opcode's kind: the place of a string on a
branch is read back as a position, here one beyond the body, and no operand at all as the
word of a signature. -/
theorem kinds_packTo_misread :
    ∃ summary sink m, packTo {} misread "D" = (.ok summary, sink) ∧
      Module.ofBytes sink.bytes.toList = .ok m ∧
      m.methods.map (fun r => r.instructions.map RawInstruction.operand) =
        [[.target 4, .signature 0]] ∧
      (∀ body, ¬ Denotes m body (.string "x") (.target 4)) ∧
      ∀ body, ¬ Denotes m body .none (.signature 0) := by
  obtain ⟨summary, s, hrun⟩ := pack_succeeds misread "D" (by decide) (by decide)
  obtain ⟨hfinished, _⟩ := pack_ok hrun
  obtain ⟨m, hread, _, _, _, hmethods⟩ := hfinished.ofBytes rfl
  refine ⟨summary, s.sink, m, packTo_eq_iff.mpr ⟨s, hrun, rfl⟩, hread, ?_, ?_, ?_⟩
  · rw [hmethods]
    decide
  · exact fun _ h => h
  · exact fun _ h => h

end Export
end MethodPack
