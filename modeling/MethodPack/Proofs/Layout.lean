import MethodPack.Proofs.Labels
import MethodPack.Proofs.Tables
import MethodPack.Proofs.Walk

/-!
# Layout

The words of an exported method, written down from the places of the strings in the
whole trace, the ranks of the labels and the number of blobs before, without any
table being filled. Main statement: an encoder that succeeds gives exactly these
words and leaves exactly these strings and blobs behind (`methodRecord_ok`).
-/

namespace MethodPack

open Export (bodyLabels place)
open Packed (MemberKey MethodSignature RawInstruction Section maxLength)

/-! ## The layout -/

/-- The strings that the reference to a member interns, in order. -/
def QualifiedType.strings (q : QualifiedType) (member : String) : List String :=
  [q.ns, q.path, member]

/-- The reference word of a member. -/
def QualifiedType.key (q : QualifiedType) (member : String) (place : String → Nat) : MemberKey :=
  .ofPlaces (place q.ns) (place q.path) (place member)

namespace Operand

/-- The strings that the operand interns, in order. -/
def strings : Operand → List String
  | .string s => [s]
  | .member m => m.declaring.qualify.strings m.name
  | _ => []

/-- The blob that the operand pushes, if it lists targets. -/
def blobs (labels : List Label) : Operand → List (List UInt8)
  | .targets ls => [Export.Encoder.switchBlob (ls.map fun l => (labels.idxOf l).toUInt32)]
  | _ => []

/-- The operand field, when `blobs` blobs have been pushed before. -/
def field (place : String → Nat) (labels : List Label) (blobs : Nat) : Operand → UInt64
  | .none => 0
  | .f32 x => x.widen.bits
  | .f64 x => x.bits
  | .i8 v => v.toInt64.toUInt64
  | .u8 v => v.toUInt64
  | .i32 v => v.toInt64.toUInt64
  | .u32 v => v.toUInt64
  | .i64 v => v.toUInt64
  | .u64 v => v
  | .string s => (place s).toUInt64
  | .target l => (labels.idxOf l).toUInt64
  | .targets _ => (blobs + 1).toUInt64
  | .member m => (m.declaring.qualify.key m.name place).word
  | .slot index => index.toUInt64
  | .unsupported _ => 0

end Operand

/-- The instructions of a body in a stream, when `blobs` blobs have been pushed before. -/
def layoutBody (place : String → Nat) (labels : List Label) (blobs : Nat) :
    List Instruction → List RawInstruction
  | [] => []
  | i :: rest => ⟨i.opcode, i.operand.field place labels blobs⟩ ::
      layoutBody place labels (blobs + (i.operand.blobs labels).length) rest

namespace DeclaredMethod

/-- The labels of the method, in order. -/
def labels (d : DeclaredMethod) : List Label := bodyLabels d.method.instructions

/-- The strings that the method interns, in order. -/
def strings (d : DeclaredMethod) : List String :=
  d.type.strings d.method.name ++ d.method.instructions.flatMap fun i => i.operand.strings

/-- The blobs that the method pushes, in order. -/
def blobs (d : DeclaredMethod) : List (List UInt8) :=
  d.method.instructions.flatMap fun i => i.operand.blobs d.labels

/-- The reference word of the method. -/
def key (d : DeclaredMethod) (place : String → Nat) : MemberKey := d.type.key d.method.name place

/-- The signature of the method, if its arguments fit. -/
def signature (d : DeclaredMethod) : MethodSignature :=
  ⟨d.method.argCount.toUInt32, d.method.returnsValue⟩

/-- The record of the method, when `blobs` blobs have been pushed before. -/
def record (place : String → Nat) (blobs : Nat) (d : DeclaredMethod) : Section :=
  .method (d.key place) d.signature.pack (layoutBody place d.labels blobs d.method.instructions)

end DeclaredMethod

namespace Export

/-- The strings that some methods intern, in order and with repetitions. -/
def trace (ds : List DeclaredMethod) : List String := ds.flatMap DeclaredMethod.strings

/-- The blobs that some methods push, in order. -/
def switches (ds : List DeclaredMethod) : List (List UInt8) := ds.flatMap DeclaredMethod.blobs

/-- The records of some methods, when `blobs` blobs have been pushed before. -/
def layout (place : String → Nat) (blobs : Nat) : List DeclaredMethod → List Section
  | [] => []
  | d :: rest => d.record place blobs :: layout place (blobs + d.blobs.length) rest

end Export

/-! ## What can be encoded -/

/-- The places of the namespace and of the type fit their parts of a reference word. -/
def QualifiedType.Fits (place : String → Nat) (q : QualifiedType) : Prop :=
  place q.ns < 2 ^ 16 ∧ place q.path < 2 ^ 16

theorem QualifiedType.overflow?_eq_none {place : String → Nat} {q : QualifiedType} :
    MemberKey.overflow? (place q.ns) (place q.path) = none ↔ q.Fits place :=
  MemberKey.overflow?_eq_none

/-- The operand has an encoding within a method with the given labels. -/
def Operand.Encodable (place : String → Nat) (labels : List Label) : Operand → Prop
  | .target l => l ∈ labels
  | .targets ls => ∀ l ∈ ls, l ∈ labels
  | .member m => m.declaring.qualify.Fits place
  | .unsupported _ => False
  | _ => True

/-- The method has an encoding. -/
structure DeclaredMethod.Encodable (place : String → Nat) (d : DeclaredMethod) : Prop where
  arguments : d.method.argCount ≤ MethodSignature.maxArgs
  labels : d.labels.Nodup
  reference : d.type.Fits place
  operands : ∀ i ∈ d.method.instructions, i.operand.Encodable place d.labels

section Decidable

variable (place : String → Nat)

instance (q : QualifiedType) : Decidable (q.Fits place) :=
  inferInstanceAs (Decidable (_ ∧ _))

instance (labels : List Label) (o : Operand) : Decidable (o.Encodable place labels) :=
  match o with
  | .target l => inferInstanceAs (Decidable (l ∈ labels))
  | .targets ls => inferInstanceAs (Decidable (∀ l ∈ ls, l ∈ labels))
  | .member m => inferInstanceAs (Decidable (m.declaring.qualify.Fits place))
  | .unsupported _ => inferInstanceAs (Decidable False)
  | .none | .f32 _ | .f64 _ | .i8 _ | .u8 _ | .i32 _ | .u32 _ | .i64 _ | .u64 _ | .string _
  | .slot _ => inferInstanceAs (Decidable True)

instance (d : DeclaredMethod) : Decidable (d.Encodable place) :=
  decidable_of_iff (d.method.argCount ≤ MethodSignature.maxArgs ∧ d.labels.Nodup ∧
      d.type.Fits place ∧ ∀ i ∈ d.method.instructions, i.operand.Encodable place d.labels)
    ⟨fun ⟨arguments, labels, reference, operands⟩ => ⟨arguments, labels, reference, operands⟩,
      fun h => ⟨h.arguments, h.labels, h.reference, h.operands⟩⟩

end Decidable

namespace Export.Encoder

variable {t t' : Tables} {trace all : List String} {blobs : List (List UInt8)}

/-! ## Encoding succeeds -/

section Ok

theorem reference_ok {q : QualifiedType} {member : String} {key : MemberKey}
    (h : t.Holds trace blobs) (hall : trace ++ q.strings member <+: all)
    (hrun : outcome (reference q member) t = (.ok key, t')) :
    t'.Holds (trace ++ q.strings member) blobs ∧ q.Fits (place all) ∧
      key = q.key member (place all) := by
  have hlist : trace ++ q.strings member = trace ++ [q.ns] ++ [q.path] ++ [member] := by
    simp [QualifiedType.strings]
  rw [hlist] at hall ⊢
  have hall₂ := (List.prefix_append _ [member]).trans hall
  have hall₁ := (List.prefix_append _ [q.path]).trans hall₂
  -- all three strings are interned before the word is packed
  rw [reference, bind_eq_ok] at hrun
  obtain ⟨ns, t₁, hns, hrun⟩ := hrun
  obtain ⟨path, t₂, hpath, hrun⟩ := bind_eq_ok.mp hrun
  obtain ⟨name, t₃, hname, hrun⟩ := bind_eq_ok.mp hrun
  obtain ⟨h₁, hplace₁⟩ := intern_ok h hall₁ hns
  obtain ⟨h₂, hplace₂⟩ := intern_ok h₁ hall₂ hpath
  obtain ⟨h₃, hplace₃⟩ := intern_ok h₂ hall hname
  rw [MemberKey.pack_eq, hplace₁, hplace₂, hplace₃] at hrun
  cases hoverflow : MemberKey.overflow? (place all q.ns) (place all q.path) with
  | some o => simp [hoverflow] at hrun
  | none =>
    simp only [hoverflow, outcome_pure, Prod.mk.injEq, Except.ok.injEq] at hrun
    obtain ⟨rfl, rfl⟩ := hrun
    exact ⟨h₃, QualifiedType.overflow?_eq_none.mp hoverflow, rfl⟩

variable {method : String} {positions : Positions} {labels : List Label}

theorem resolve_ok {l : Label} {p : UInt32} (hp : positions.Numbers labels)
    (hrun : outcome (resolve method positions l) t = (.ok p, t')) :
    t' = t ∧ l ∈ labels ∧ p = (labels.idxOf l).toUInt32 := by
  rw [resolve, hp] at hrun
  by_cases hl : l ∈ labels
  · simp only [hl, if_true, outcome_pure, Prod.mk.injEq, Except.ok.injEq] at hrun
    exact ⟨hrun.2.symm, hl, hrun.1.symm⟩
  · simp [hl] at hrun

theorem resolveAll_ok {ls : List Label} {ps : List UInt32} (hp : positions.Numbers labels)
    (hrun : outcome (ls.mapM (resolve method positions)) t = (.ok ps, t')) :
    t' = t ∧ (∀ l ∈ ls, l ∈ labels) ∧ ps = ls.map fun l => (labels.idxOf l).toUInt32 := by
  induction ls generalizing t ps with
  | nil =>
    simp only [List.mapM_nil, outcome_pure, Prod.mk.injEq, Except.ok.injEq] at hrun
    exact ⟨hrun.2.symm, by simp, hrun.1.symm⟩
  | cons l rest ih =>
    rw [List.mapM_cons, bind_eq_ok] at hrun
    obtain ⟨p, t₁, hfirst, hrun⟩ := hrun
    obtain ⟨ps, t₂, hrest, hrun⟩ := bind_eq_ok.mp hrun
    simp only [outcome_pure, Prod.mk.injEq, Except.ok.injEq] at hrun
    obtain ⟨rfl, rfl⟩ := hrun
    obtain ⟨rfl, hl, rfl⟩ := resolve_ok hp hfirst
    obtain ⟨rfl, hls, rfl⟩ := ih hrest
    exact ⟨rfl, by simpa using ⟨hl, hls⟩, rfl⟩

/-- A word of four bytes as an operand field. -/
theorem field_of_toNat {w : UInt32} {n : Nat} (h : w.toNat = n) : w.toUInt64 = n.toUInt64 := by
  subst h
  exact UInt64.toNat_inj.mp (by simp)

/-- An operand that was encoded extends the trace and the blobs by its own, has an
encoding, and its field is the one of the layout. -/
theorem operand_ok {i : Instruction} {raw : UInt64} (h : t.Holds trace blobs)
    (hp : positions.Numbers labels) (hlen : labels.length ≤ maxLength)
    (hall : trace ++ i.operand.strings <+: all)
    (hrun : outcome (operand method positions i) t = (.ok raw, t')) :
    t'.Holds (trace ++ i.operand.strings) (blobs ++ i.operand.blobs labels) ∧
      i.operand.Encodable (place all) labels ∧
      raw = i.operand.field (place all) labels blobs.length := by
  obtain ⟨label, opcode, operand⟩ := i
  cases operand with
  | string s =>
    obtain ⟨id, t₁, hid, hrun⟩ := bind_eq_ok.mp hrun
    cases hrun
    obtain ⟨h₁, hplace⟩ := intern_ok h hall hid
    exact ⟨by simpa [Operand.strings, Operand.blobs] using h₁, trivial, field_of_toNat hplace⟩
  | target l =>
    obtain ⟨p, t₁, hresolve, hrun⟩ := bind_eq_ok.mp hrun
    cases hrun
    obtain ⟨rfl, hl, rfl⟩ := resolve_ok hp hresolve
    have hrank : (labels.idxOf l).toUInt32.toNat = labels.idxOf l := by
      have := List.idxOf_lt_length_of_mem hl
      rw [maxLength] at hlen
      exact UInt32.toNat_ofNat_of_lt' (by show _ < 2 ^ 32; omega)
    exact ⟨by simpa [Operand.strings, Operand.blobs] using h, hl, field_of_toNat hrank⟩
  | targets ls =>
    obtain ⟨ps, t₁, hresolve, hrun⟩ := bind_eq_ok.mp hrun
    obtain ⟨id, t₂, hpush, hrun⟩ := bind_eq_ok.mp hrun
    cases hrun
    obtain ⟨rfl, hls, rfl⟩ := resolveAll_ok hp hresolve
    obtain ⟨h₁, hplace⟩ := push_ok h hpush
    exact ⟨by simpa [Operand.strings, Operand.blobs] using h₁, hls, field_of_toNat hplace⟩
  | member m =>
    obtain ⟨key, t₁, hkey, hrun⟩ := bind_eq_ok.mp hrun
    cases hrun
    obtain ⟨h₁, hfits, rfl⟩ := reference_ok h hall hkey
    exact ⟨by simpa [Operand.strings, Operand.blobs] using h₁, hfits, rfl⟩
  | unsupported shape => cases hrun
  | _ =>
    cases hrun
    exact ⟨by simpa [Operand.strings, Operand.blobs] using h, trivial, rfl⟩

/-- A body that was encoded is the body of the layout. -/
theorem body_ok {body : List Instruction} {raws : List RawInstruction} (h : t.Holds trace blobs)
    (hp : positions.Numbers labels) (hlen : labels.length ≤ maxLength)
    (hall : trace ++ body.flatMap (fun i => i.operand.strings) <+: all)
    (hrun : outcome (body.mapM (instruction method positions)) t = (.ok raws, t')) :
    t'.Holds (trace ++ body.flatMap fun i => i.operand.strings)
        (blobs ++ body.flatMap fun i => i.operand.blobs labels) ∧
      (∀ i ∈ body, i.operand.Encodable (place all) labels) ∧
      raws = layoutBody (place all) labels blobs.length body := by
  -- the trace and the blobs grow by those of each instruction
  induction body generalizing t trace blobs raws with
  | nil =>
    simp only [List.mapM_nil, outcome_pure, Prod.mk.injEq, Except.ok.injEq] at hrun
    obtain ⟨rfl, rfl⟩ := hrun
    exact ⟨by simpa using h, by simp, rfl⟩
  | cons i rest ih =>
    rw [List.mapM_cons, bind_eq_ok] at hrun
    obtain ⟨instr, t₁, hfirst, hrun⟩ := hrun
    obtain ⟨raws, t₂, hrest, hrun⟩ := bind_eq_ok.mp hrun
    obtain ⟨raw, t₃, hraw, hfirst⟩ := bind_eq_ok.mp hfirst
    cases hrun
    cases hfirst
    rw [List.flatMap_cons, ← List.append_assoc] at hall ⊢
    rw [List.flatMap_cons, ← List.append_assoc]
    obtain ⟨h₁, hi, rfl⟩ := operand_ok h hp hlen ((List.prefix_append _ _).trans hall) hraw
    obtain ⟨h₂, hbody, rfl⟩ := ih h₁ hall hrest
    exact ⟨h₂, by simpa using ⟨hi, hbody⟩, by rw [layoutBody, List.length_append]⟩

end Ok

/-! ## Method records -/

/-- The record of a method, before anything is written. -/
def methodRecord (d : DeclaredMethod) : Encoder Section := do
  if MethodSignature.maxArgs < d.method.argCount then
    throw (.tooManyArguments d.fullName d.method.argCount)
  let positions ← Positions.build d.fullName d.method.instructions
  let key ← reference d.type d.method.name
  let body ← d.method.instructions.mapM (instruction d.fullName positions)
  return .method key d.signature.pack body

/-- A record that was encoded is the record of the layout. -/
theorem methodRecord_ok {d : DeclaredMethod} {r : Section} (h : t.Holds trace blobs)
    (hall : trace ++ d.strings <+: all) (hrun : outcome (methodRecord d) t = (.ok r, t')) :
    t'.Holds (trace ++ d.strings) (blobs ++ d.blobs) ∧ d.Encodable (place all) ∧
      d.method.instructions.length ≤ maxLength ∧ r = d.record (place all) blobs.length := by
  rw [methodRecord] at hrun
  split at hrun
  · cases hrun
  · rename_i harguments
    obtain ⟨positions, t₁, hbuild, hrun⟩ := bind_eq_ok.mp hrun
    obtain ⟨key, t₂, hkey, hrun⟩ := bind_eq_ok.mp hrun
    obtain ⟨body, t₃, hbody, hrun⟩ := bind_eq_ok.mp hrun
    cases hrun
    obtain ⟨hbuilt, rfl⟩ := Prod.mk.inj hbuild
    obtain ⟨hlen, hnodup, hnumbers⟩ := Positions.build_ok hbuilt
    rw [DeclaredMethod.strings, ← List.append_assoc] at hall ⊢
    obtain ⟨h₁, hfits, rfl⟩ := reference_ok h ((List.prefix_append _ _).trans hall) hkey
    obtain ⟨h₂, hoperands, rfl⟩ := body_ok h₁ hnumbers (by simpa [bodyLabels] using hlen) hall hbody
    exact ⟨h₂, ⟨by omega, hnodup, hfits, hoperands⟩, hlen, rfl⟩

end Export.Encoder

namespace Export.Session

open Encoder (methodRecord)

/-- Counts a method that was written. -/
def countMethod (d : DeclaredMethod) : SessionM Unit := count fun c => { c with
  methods := c.methods + 1
  instructions := c.instructions + d.method.instructions.length }

theorem onTables_bind {α β : Type} (e : Encoder α) (f : α → Encoder β) :
    (onTables (e >>= f) : SessionM β) = onTables e >>= fun x => onTables (f x) := by
  funext s
  show outcome (onTables (e >>= f)) s = outcome (onTables e >>= fun x => onTables (f x)) s
  rw [outcome_bind, outcome_onTables, outcome_onTables, outcome_bind]
  rcases outcome e s.tables with ⟨_ | _, _⟩ <;> rfl

/-- Encoding a method is making its record, writing it in one piece and counting it. -/
theorem encodeMethod_eq (d : DeclaredMethod) : encodeMethod d.type d.method =
    onTables (methodRecord d) >>= fun r => write (r.bytes .little) >>= fun _ => countMethod d := by
  rw [encodeMethod, methodRecord]
  by_cases harguments : d.method.argCount ≤ MethodSignature.maxArgs
  · have hnot : ¬ MethodSignature.maxArgs < d.method.argCount := by omega
    simp only [signature, harguments, if_true, hnot, if_false, onTables_bind, bind_assoc, pure_bind]
    rfl
  · have hmany : MethodSignature.maxArgs < d.method.argCount := by omega
    simp only [signature, harguments, if_false, hmany, if_true]
    rfl

end Export.Session
end MethodPack
