import MethodPack.Proofs.RoundTrip

/-!
# Operands

An operand field carries no mark of its kind: it is written by the shape of the operand
and read by the opcode. When the two agree, what is read denotes what was written
(`Denotes`), and every place and position in it leads somewhere.
-/

namespace MethodPack

open Export (place trace switches exported packTo sample Summary bodyLabels)
open Export.Encoder (switchBlob)
open Packed (Module RawInstruction OperandValue TableId BlobId ByteOrder maxLength)

/-! ## What an operand denotes -/

/-- The kind of the opcodes that read an operand of this shape back. -/
def Operand.kind? : Operand → Option OperandKind
  | .none => some .none
  | .i8 _ | .u8 _ | .i32 _ | .u32 _ | .i64 _ | .u64 _ => some .integer
  | .f32 _ | .f64 _ => some .float
  | .string _ => some .string
  | .target _ => some .target
  | .targets _ => some .targets
  | .member _ => some .member
  | .slot _ => some .slot
  | .unsupported _ => Option.none

/-- The position lies within the body, and its instruction carries the label. -/
def Carries (body : List Instruction) (l : Label) (p : Nat) : Prop :=
  ∃ h : p < body.length, body[p].label = l

/-- The value that was read from a module denotes an operand of the body. Integers are
extended by their sign or by zeros, and `u64` is taken modulo 2^64. -/
def Denotes (m : Module) (body : List Instruction) : Operand → OperandValue → Prop
  | .none, .none => True
  | .i8 x, .integer v => v.toInt = x.toInt
  | .u8 x, .integer v => v.toInt = x.toNat
  | .i32 x, .integer v => v.toInt = x.toInt
  | .u32 x, .integer v => v.toInt = x.toNat
  | .i64 x, .integer v => v.toInt = x.toInt
  | .u64 x, .integer v => v.toInt = Int.bmod x.toNat (2 ^ 64)
  | .f32 x, .float y => y.bits = x.widen.bits
  | .f64 x, .float y => y.bits = x.bits
  | .string s, .string id => ∃ i, id = some i ∧ m.string? i = some s
  | .target l, .target p => Carries body l p.toNat
  | .targets ls, .targets id => ∃ i ps, id = some i ∧ m.switchTargets? i = some ps ∧
      List.Forall₂ (fun l (p : Int32) => ∃ n : Nat, p.toInt = n ∧ Carries body l n) ls ps
  | .member r, .member key => m.memberName? key = some (r.declaring.qualify.memberName r.name)
  | .slot x, .slot index => index.toNat = x.toNat
  | _, _ => False

/-! ## Positions and places -/

section Positions

variable {body : List Instruction} {l : Label}

/-- The rank of a label is the position of an instruction that carries it. -/
theorem carries_idxOf (hl : l ∈ bodyLabels body) : Carries body l ((bodyLabels body).idxOf l) := by
  have hrank : (bodyLabels body).idxOf l < (bodyLabels body).length :=
    List.idxOf_lt_length_of_mem hl
  exact ⟨by simpa [bodyLabels] using hrank,
    (List.getElem_map Instruction.label).symm.trans (List.getElem_idxOf hrank)⟩

theorem idxOf_le_maxLength (hl : l ∈ bodyLabels body) (hlen : body.length ≤ maxLength) :
    (bodyLabels body).idxOf l ≤ maxLength :=
  Nat.le_trans (Nat.le_of_lt (carries_idxOf hl).1) hlen

end Positions

/-- A number in the range of places is read as the place with that number. -/
theorem Packed.RawInstruction.tableId?_eq {table : Packed.Table} {opcode : Opcode}
    {id : TableId table} {n : Nat} (hid : id.index.toNat = n) :
    tableId? ⟨opcode, n.toUInt64⟩ = some id := by
  have hn : n < 2 ^ 32 := hid ▸ id.index.toNat_lt
  have hraw : n.toUInt64.toNat = n := UInt64.toNat_ofNat_of_lt' (by show n < 2 ^ 64; omega)
  have hindex : n.toUInt64.toUInt32 = id.index := by
    apply UInt32.toNat_inj.mp
    rw [UInt64.toNat_toUInt32, hraw, hid]
    omega
  rw [tableId?, if_pos (by rwa [hraw]), hindex, TableId.ofIndex?_index]

/-! ## Switch blobs -/

theorem length_flatMap_encodeInt32 (order : ByteOrder) (words : List Int32) :
    (words.flatMap order.encodeInt32).length = 4 * words.length := by
  induction words with
  | nil => rfl
  | cons word rest ih =>
    rw [List.flatMap_cons, List.length_append, ByteOrder.length_encodeInt32, ih, List.length_cons]
    omega

theorem blobWords_append (order : ByteOrder) {bytes : List UInt8} (hlen : bytes.length = 4)
    (rest : List UInt8) : Module.blobWords order (bytes ++ rest) =
      order.decodeInt32 bytes :: Module.blobWords order rest := by
  obtain ⟨a, b, c, d, rfl⟩ : ∃ a b c d, bytes = [a, b, c, d] := by
    match bytes, hlen with
    | [a, b, c, d], _ => exact ⟨a, b, c, d, rfl⟩
  rfl

/-- The words of a blob are those it was made from. -/
theorem blobWords_flatMap (order : ByteOrder) (words : List Int32) :
    Module.blobWords order (words.flatMap order.encodeInt32) = words := by
  induction words with
  | nil => rfl
  | cons word rest ih =>
    rw [List.flatMap_cons, blobWords_append order (ByteOrder.length_encodeInt32 _ _),
      ByteOrder.decodeInt32_encodeInt32, ih]

theorem switchBlob_eq (ps : List UInt32) :
    switchBlob ps = (ps.map UInt32.toInt32).flatMap ByteOrder.little.encodeInt32 := by
  rw [List.flatMap_map]
  rfl

theorem length_switchBlob (ps : List UInt32) : (switchBlob ps).length = 4 * ps.length := by
  rw [switchBlob_eq, length_flatMap_encodeInt32, List.length_map]

/-- The words of a switch blob are the positions it was made from. -/
theorem blobWords_switchBlob (ps : List UInt32) :
    Module.blobWords .little (switchBlob ps) = ps.map UInt32.toInt32 := by
  rw [switchBlob_eq, blobWords_flatMap]

namespace Packed.Module.Holds

variable {m : Module} {all : List String} {blobs : List (List UInt8)} {n : Nat}

/-- A blob of the export has a place that leads to it. -/
theorem exists_blobId {blob : List UInt8} (h : m.Holds all blobs)
    (hblob : [blob] <+: blobs.drop n) :
    ∃ id : BlobId, id.index.toNat = n + 1 ∧ m.blob? id = some blob := by
  have hget : blobs[n]? = some blob := by
    have := List.prefix_iff_getElem?.mp hblob 0 (by simp)
    rwa [List.getElem?_drop] at this
  have hn : n < blobs.length := (List.getElem?_eq_some_iff.mp hget).1
  have hcount := h.blobCount
  rw [maxLength] at hcount
  refine ⟨.atPosition n (by omega), TableId.toNat_index_atPosition _, ?_⟩
  rw [blob?, TableId.position_atPosition, ← Array.getElem?_toList, h.blobs, hget]

theorem switchTargets?_switchBlob {ps : List UInt32} (h : m.Holds all blobs)
    (hblob : [switchBlob ps] <+: blobs.drop n) :
    ∃ id : BlobId, id.index.toNat = n + 1 ∧ m.switchTargets? id = some (ps.map UInt32.toInt32) := by
  obtain ⟨id, hid, hget⟩ := h.exists_blobId hblob
  have hlen : (switchBlob ps).length % Packed.switchTargetSize = 0 := by
    rw [length_switchBlob, Packed.switchTargetSize]
    omega
  refine ⟨id, hid, ?_⟩
  simp [switchTargets?, hget, hlen, h.order, blobWords_switchBlob]

end Packed.Module.Holds

/-! ## Reading an operand -/

section Field

variable {m : Module} {all : List String} {blobs : List (List UInt8)} {body : List Instruction}
  {n : Nat}

/-- A word as the signed number with the same bits. -/
theorem toInt_toInt64 (w : UInt64) : w.toInt64.toInt = Int.bmod w.toNat (2 ^ 64) := by
  rw [← Int64.toInt_toBitVec, UInt64.toBitVec_toInt64, BitVec.toInt_eq_toNat_bmod,
    UInt64.toNat_toBitVec]

theorem toInt_toInt64_of_lt {w : UInt64} (h : w.toNat < 2 ^ 63) : w.toInt64.toInt = w.toNat := by
  rw [toInt_toInt64]
  exact Int.bmod_eq_of_le (by omega) (by omega)

/-- An operand whose shape suits its opcode is read as what it was. -/
theorem Operand.Encodable.denotes {i : Instruction}
    (hi : i.operand.Encodable (place all) (bodyLabels body))
    (hkind : i.operand.kind? = some i.opcode.kind) (h : m.Holds all blobs)
    (hstrings : ∀ s ∈ i.operand.strings, s ∈ all) (hlen : body.length ≤ maxLength)
    (hblobs : i.operand.blobs (bodyLabels body) <+: blobs.drop n) :
    Denotes m body i.operand
      (RawInstruction.operand ⟨i.opcode, i.operand.field (place all) (bodyLabels body) n⟩) := by
  obtain ⟨label, opcode, operand⟩ := i
  rw [RawInstruction.operand]
  cases operand with
  | none => simp [← Option.some.inj hkind, Denotes]
  | f32 x => simp [← Option.some.inj hkind, Denotes, Operand.field]
  | f64 x => simp [← Option.some.inj hkind, Denotes, Operand.field]
  | i8 x => simp [← Option.some.inj hkind, Denotes, Operand.field]
  | i32 x => simp [← Option.some.inj hkind, Denotes, Operand.field]
  | i64 x => simp [← Option.some.inj hkind, Denotes, Operand.field]
  | u8 x =>
    have := x.toNat_lt
    have hvalue := toInt_toInt64_of_lt (w := x.toUInt64) (by simp; omega)
    simpa [← Option.some.inj hkind, Denotes, Operand.field] using hvalue
  | u32 x =>
    have := x.toNat_lt
    have hvalue := toInt_toInt64_of_lt (w := x.toUInt64) (by simp; omega)
    simpa [← Option.some.inj hkind, Denotes, Operand.field] using hvalue
  | u64 x =>
    simp only [← Option.some.inj hkind, Denotes, Operand.field]
    exact toInt_toInt64 x
  | string s =>
    obtain ⟨id, hid, hstring⟩ := h.exists_id (hstrings s (by simp [Operand.strings]))
    simp only [← Option.some.inj hkind, Denotes, Operand.field]
    exact ⟨id, RawInstruction.tableId?_eq hid, hstring⟩
  | target l =>
    have hl : l ∈ bodyLabels body := hi
    have hrank := idxOf_le_maxLength hl hlen
    rw [maxLength] at hrank
    have hfield : ((bodyLabels body).idxOf l).toUInt64.toNat = (bodyLabels body).idxOf l :=
      UInt64.toNat_ofNat_of_lt' (by show _ < 2 ^ 64; omega)
    simp only [← Option.some.inj hkind, Denotes, Operand.field, hfield]
    exact carries_idxOf hl
  | targets ls =>
    obtain ⟨id, hid, htargets⟩ := h.switchTargets?_switchBlob hblobs
    simp only [← Option.some.inj hkind, Denotes, Operand.field]
    refine ⟨id, _, RawInstruction.tableId?_eq hid, htargets, ?_⟩
    rw [List.map_map, List.forall₂_map_right_iff, List.forall₂_same]
    intro l hl
    have hmem : l ∈ bodyLabels body := hi l hl
    have hrank := idxOf_le_maxLength hmem hlen
    exact ⟨_, Packed.toInt_ofNat_count hrank, carries_idxOf hmem⟩
  | member r =>
    simp only [← Option.some.inj hkind, Denotes, Operand.field]
    exact h.memberName?_key hi hstrings
  | slot x => simp [← Option.some.inj hkind, Denotes, Operand.field]
  | unsupported shape => cases hkind

end Field

/-- Reading gives one instruction for each of a body, with its own blobs behind those
before. -/
theorem forall₂_layoutBody {R : Instruction → RawInstruction → Prop} {place : String → Nat}
    {labels : List Label} {blobs : List (List UInt8)} {body : List Instruction} {n : Nat}
    (hblobs : (body.flatMap fun i => i.operand.blobs labels) <+: blobs.drop n)
    (hread : ∀ i ∈ body, ∀ k, i.operand.blobs labels <+: blobs.drop k →
      R i ⟨i.opcode, i.operand.field place labels k⟩) :
    List.Forall₂ R body (layoutBody place labels n body) := by
  induction body generalizing n with
  | nil => exact .nil
  | cons i rest ih =>
    rw [List.flatMap_cons] at hblobs
    exact .cons (hread i (by simp) n ((List.prefix_append _ _).trans hblobs))
      (ih (prefix_drop_append hblobs) fun i' hi' => hread i' (by simp [hi']))

namespace Export

/-- **Operands round trip.** The instruction at the same place of the module that is read
back has the same opcode, and its operand denotes the one that was exported, whenever the
shape of that one is of the opcode's kind. -/
theorem operands_packTo {types : List TypeDef} {ns : String} {summary : Summary} {sink : Sink}
    (h : packTo {} types ns = (.ok summary, sink)) :
    ∃ m, Module.ofBytes sink.bytes.toList = .ok m ∧
      List.Forall₂ (fun d r => List.Forall₂ (fun i raw => raw.opcode = i.opcode ∧
          (i.operand.kind? = some i.opcode.kind →
            Denotes m d.method.instructions i.operand raw.operand))
        d.method.instructions r.instructions) (exported types ns) m.methods := by
  obtain ⟨s, hrun, rfl⟩ := packTo_eq_iff.mp h
  obtain ⟨hfinished, _⟩ := pack_ok hrun
  obtain ⟨m, hread, hholds, _, _, hmethods⟩ := hfinished.ofBytes rfl
  refine ⟨m, hread, ?_⟩
  rw [hmethods]
  refine forall₂_layout (switches (exported types ns)) (by simp) ?_
  intro d hd k hblobs
  refine forall₂_layoutBody hblobs ?_
  intro i hi k hblobs
  refine ⟨rfl, ?_⟩
  intro hkind
  have hencodable := hfinished.encodable d hd
  have hlen : d.method.instructions.length ≤ maxLength := by
    obtain ⟨n, hrecord⟩ := record_mem_layout (place (trace (exported types ns))) 0 hd
    have hfits := hfinished.closed.fits _ (List.mem_append_left _ hrecord)
    rwa [DeclaredMethod.record, Packed.Section.Fits, length_layoutBody] at hfits
  have hstrings : ∀ s ∈ i.operand.strings, s ∈ trace (exported types ns) := by
    intro s hs
    have hown : s ∈ d.strings := List.mem_append_right _ (List.mem_flatMap.mpr ⟨i, hi, hs⟩)
    exact strings_subset_trace hd s hown
  exact (hencodable.operands i hi).denotes hkind hholds hstrings hlen hblobs

theorem operands_packTo_sample :
    ∃ summary sink m, packTo {} sample "App" = (.ok summary, sink) ∧
      Module.ofBytes sink.bytes.toList = .ok m ∧
      ∃ r ∈ m.methods, ∃ raw ∈ r.instructions, ∃ id, raw.operand = .string (some id) ∧
        m.string? id = some "hi" := by
  obtain ⟨summary, s, hrun⟩ := pack_succeeds sample "App" (by decide) (by decide)
  have hpack : packTo {} sample "App" = (.ok summary, s.sink) := packTo_eq_iff.mpr ⟨s, hrun, rfl⟩
  obtain ⟨m, hread, hmethods⟩ := operands_packTo hpack
  refine ⟨summary, s.sink, m, hpack, hread, ?_⟩
  obtain ⟨r, _, hbody, _, hrecords⟩ := List.forall₂_cons_left_iff.mp hmethods
  obtain ⟨raw, _, ⟨_, hdenotes⟩, _, hinstructions⟩ := List.forall₂_cons_left_iff.mp hbody
  refine ⟨r, by simp [hrecords], raw, by simp [hinstructions], ?_⟩
  have hliteral := hdenotes rfl
  match hvalue : raw.operand, hliteral with
  | .string _, ⟨id, rfl, hid⟩ => exact ⟨id, rfl, hid⟩

end Export
end MethodPack
