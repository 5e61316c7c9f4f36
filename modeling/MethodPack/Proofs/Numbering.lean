import MethodPack.Proofs.Operands

/-!
# Numbering

The numbers of an export in closed form. The string table is the trace without its
repetitions, and the blob table has one entry for each operand that lists targets, in the
order of the walk. Main statement: every place written for a string is its rank in the
trace, and the operands that list targets are numbered one after the other
(`packTo_numbering`).
-/

namespace MethodPack

open Export (place trace switches layout exported packTo sample)
open Export.Encoder (switchBlob)
open Packed (MemberKey MethodRecord RawInstruction Section ByteOrder lowBytes maxLength streamBytes)

/-! ## Jump tables -/

/-- The labels of an operand that lists targets. -/
def Operand.targets? : Operand → Option (List Label)
  | .targets ls => some ls
  | _ => Option.none

/-- The positions of some targets among the labels of a method, four bytes each, the lowest
byte first. -/
def jumpTable (labels targets : List Label) : List UInt8 :=
  targets.flatMap fun l => lowBytes 4 (labels.idxOf l)

/-- The jump tables of some methods, one for each operand that lists targets. -/
def jumpTables (ds : List DeclaredMethod) : List (List UInt8) :=
  ds.flatMap fun d => d.method.instructions.filterMap fun i =>
    i.operand.targets?.map (jumpTable d.labels)

theorem switchBlob_eq_jumpTable (labels targets : List Label) :
    switchBlob (targets.map fun l => (labels.idxOf l).toUInt32) = jumpTable labels targets := by
  have hword (n : Nat) : ByteOrder.little.encodeInt32 n.toUInt32.toInt32 = lowBytes 4 n :=
    Packed.lowBytes_mod 4 n
  rw [switchBlob, List.flatMap_map, jumpTable]
  simp only [hword]

theorem Operand.blobs_eq_jumpTable (labels : List Label) (o : Operand) :
    o.blobs labels = (o.targets?.map (jumpTable labels)).toList := by
  cases o with
  | targets ls => rw [blobs, switchBlob_eq_jumpTable, targets?, Option.map_some, Option.toList_some]
  | _ => rfl

/-- The blobs that are pushed are the jump tables. -/
theorem switches_eq_jumpTables (ds : List DeclaredMethod) : switches ds = jumpTables ds := by
  refine congrArg (fun f => ds.flatMap f) (funext fun d => ?_)
  rw [DeclaredMethod.blobs, List.filterMap_eq_flatMap_toList]
  simp only [Operand.blobs_eq_jumpTable]

/-! ## Numbers of blobs -/

/-- The operand field of an instruction, if it belongs to a list of targets. -/
def Instruction.jumpField? (i : Instruction) (raw : RawInstruction) : Option Nat :=
  i.operand.targets?.map fun _ => raw.raw.toNat

/-- The operand fields that belong to lists of targets, in a method and its record. -/
def DeclaredMethod.jumpFields (d : DeclaredMethod) (r : MethodRecord) : List Nat :=
  (d.method.instructions.zip r.instructions).filterMap fun p => p.1.jumpField? p.2

/-- The operand fields that belong to lists of targets, in some methods and their records. -/
def jumpFields (ds : List DeclaredMethod) (rs : List MethodRecord) : List Nat :=
  (ds.zip rs).flatMap fun p => p.1.jumpFields p.2

section JumpFields

variable {place : String → Nat} {n : Nat}

/-- A list of targets is written as the number of its blob. -/
theorem Operand.field_of_targets? {labels ls : List Label} {o : Operand}
    (h : o.targets? = some ls) : o.field place labels n = (n + 1).toUInt64 := by
  cases o with
  | targets => rfl
  | _ => cases h

/-- The lists of targets of a body are numbered from the blobs before it on. -/
theorem jumpFields_layoutBody {labels : List Label} {body : List Instruction}
    (hn : n + (body.flatMap fun i => i.operand.blobs labels).length ≤ maxLength) :
    ((body.zip (layoutBody place labels n body)).filterMap fun p => p.1.jumpField? p.2) =
      List.range' (n + 1) (body.flatMap fun i => i.operand.blobs labels).length := by
  induction body generalizing n with
  | nil => rfl
  | cons i rest ih =>
    rw [layoutBody, List.zip_cons_cons]
    rw [List.flatMap_cons, List.length_append, Operand.blobs_eq_jumpTable] at hn ⊢
    cases htargets : i.operand.targets? with
    | none =>
      have hskip : i.jumpField? ⟨i.opcode, i.operand.field place labels n⟩ = none := by
        rw [Instruction.jumpField?, htargets, Option.map_none]
      rw [htargets, Option.map_none, Option.toList_none, List.length_nil, Nat.zero_add] at hn
      simp only [List.filterMap_cons, hskip, Option.map_none, Option.toList_none, List.length_nil,
        Nat.zero_add]
      exact ih hn
    | some ls =>
      rw [htargets, Option.map_some, Option.toList_some, List.length_singleton] at hn
      have hfield : i.jumpField? ⟨i.opcode, i.operand.field place labels n⟩ = some (n + 1) := by
        rw [maxLength] at hn
        rw [Instruction.jumpField?, htargets, Option.map_some, Operand.field_of_targets? htargets]
        exact congrArg some (UInt64.toNat_ofNat_of_lt' (by show _ < 2 ^ 64; omega))
      simp only [List.filterMap_cons, hfield, Option.map_some, Option.toList_some,
        List.length_singleton, Nat.add_comm 1, List.range'_succ]
      exact congrArg _ (ih (by omega))

theorem DeclaredMethod.jumpFields_read {d : DeclaredMethod} (hn : n + d.blobs.length ≤ maxLength) :
    d.jumpFields (d.read place n) = List.range' (n + 1) d.blobs.length :=
  jumpFields_layoutBody hn

theorem jumpFields_layout {ds : List DeclaredMethod} (hn : n + (switches ds).length ≤ maxLength) :
    jumpFields ds ((layout place n ds).filterMap Section.record?) =
      List.range' (n + 1) (switches ds).length := by
  induction ds generalizing n with
  | nil => rfl
  | cons d rest ih =>
    have hsplit : switches (d :: rest) = d.blobs ++ switches rest := rfl
    rw [hsplit, List.length_append] at hn ⊢
    have hfirst : d.jumpFields (d.read place n) = List.range' (n + 1) d.blobs.length :=
      DeclaredMethod.jumpFields_read (by omega)
    have hrest := ih (n := n + d.blobs.length) (by omega)
    have hcons : jumpFields (d :: rest) ((layout place n (d :: rest)).filterMap Section.record?) =
        d.jumpFields (d.read place n) ++
          jumpFields rest ((layout place (n + d.blobs.length) rest).filterMap Section.record?) :=
      rfl
    rw [hcons, hfirst, hrest, ← List.range'_append_1, Nat.add_right_comm]

end JumpFields

/-! ## Numbers of strings -/

/-- The parts of a reference word are the places of the names of the type and of its member. -/
structure QualifiedType.Numbered (place : String → Nat) (q : QualifiedType) (member : String)
    (key : MemberKey) : Prop where
  ns : ∃ id, key.ns? = some id ∧ id.index.toNat = place q.ns
  type : ∃ id, key.type? = some id ∧ id.index.toNat = place q.path
  name : ∃ id, key.name? = some id ∧ id.index.toNat = place member

/-- The places in an operand field are those of the strings that the operand names. -/
def Operand.Numbered (place : String → Nat) (raw : UInt64) : Operand → Prop
  | .string s => raw.toNat = place s
  | .member m => m.declaring.qualify.Numbered place m.name ⟨raw⟩
  | _ => True

/-- The places in a record are those of the strings that the method names. -/
structure DeclaredMethod.Numbered (place : String → Nat) (d : DeclaredMethod) (r : MethodRecord) :
    Prop where
  key : d.type.Numbered place d.method.name r.key
  operands : List.Forall₂ (fun i raw => i.operand.Numbered place raw.raw)
    d.method.instructions r.instructions

section Numbered

variable {all : List String} (hcount : all.eraseDups.length ≤ maxLength)
include hcount

theorem QualifiedType.Fits.numbered {q : QualifiedType} {member : String}
    (hfits : q.Fits (place all)) (hq : ∀ s ∈ q.strings member, s ∈ all) :
    q.Numbered (place all) member (q.key member (place all)) := by
  simp only [QualifiedType.strings, List.mem_cons, List.not_mem_nil, or_false, forall_eq_or_imp,
    forall_eq] at hq
  obtain ⟨hns, hpath, hmember⟩ := hq
  obtain ⟨hnsFits, hpathFits⟩ := hfits
  obtain ⟨nsId, hnsId⟩ := Export.exists_stringId hns hcount
  obtain ⟨pathId, hpathId⟩ := Export.exists_stringId hpath hcount
  obtain ⟨nameId, hnameId⟩ := Export.exists_stringId hmember hcount
  have hname : place all member < 2 ^ 32 := hnameId ▸ nameId.index.toNat_lt
  exact ⟨⟨nsId, MemberKey.ns?_ofPlaces hnsFits hpathFits hname hnsId, hnsId⟩,
    ⟨pathId, MemberKey.type?_ofPlaces hnsFits hpathFits hname hpathId, hpathId⟩,
    ⟨nameId, MemberKey.name?_ofPlaces hnsFits hpathFits hname hnameId, hnameId⟩⟩

theorem Operand.Encodable.numbered {o : Operand} {labels : List Label} {n : Nat}
    (ho : o.Encodable (place all) labels) (hstrings : ∀ s ∈ o.strings, s ∈ all) :
    o.Numbered (place all) (o.field (place all) labels n) := by
  cases o with
  | string s =>
    obtain ⟨id, hid⟩ := Export.exists_stringId (hstrings s (by simp [Operand.strings])) hcount
    have hplace : place all s < 2 ^ 32 := hid ▸ id.index.toNat_lt
    exact UInt64.toNat_ofNat_of_lt' (by show _ < 2 ^ 64; omega)
  | member m => exact QualifiedType.Fits.numbered hcount ho hstrings
  | _ => trivial

theorem DeclaredMethod.Encodable.numbered {d : DeclaredMethod} (hd : d.Encodable (place all))
    (hstrings : ∀ s ∈ d.strings, s ∈ all) {blobs : List (List UInt8)} {n : Nat}
    (hblobs : d.blobs <+: blobs.drop n) : d.Numbered (place all) (d.read (place all) n) where
  key := hd.reference.numbered hcount fun s hs => hstrings s (List.mem_append_left _ hs)
  operands := by
    refine forall₂_layoutBody hblobs fun i hi k _ => ?_
    exact (hd.operands i hi).numbered hcount fun s hs =>
      hstrings s (d.strings_of_operand hi s hs)

end Numbered

/-! ## A finished export in closed form -/

namespace Export

/-- **The numbers of an export.** The sink holds the marker, one record for each method of the
walk, the trace without its repetitions and the jump tables. Every place of a string in a
record is its rank in the trace, counted from one, and the operands that list targets are
numbered from one on in the order of the walk. -/
theorem packTo_numbering {types : List TypeDef} {ns : String} {summary : Summary}
    {sink sink' : Sink} (h : packTo sink types ns = (.ok summary, sink')) :
    ∃ rs : List MethodRecord,
      sink' = sink.append (streamBytes .little (rs.map MethodRecord.toSection ++
        [.strings (trace (exported types ns)).eraseDups,
          .blobs (jumpTables (exported types ns))])) ∧
      List.Forall₂ (DeclaredMethod.Numbered (place (trace (exported types ns))))
        (exported types ns) rs ∧
      jumpFields (exported types ns) rs =
        List.range' 1 (jumpTables (exported types ns)).length := by
  obtain ⟨s, hrun, rfl⟩ := packTo_eq_iff.mp h
  obtain ⟨hfinished, _⟩ := pack_ok hrun
  have hstrings : Section.Fits (.strings (trace (exported types ns)).eraseDups) :=
    hfinished.closed.fits _ (by simp)
  have hblobs : Section.Fits (.blobs (switches (exported types ns))) :=
    hfinished.closed.fits _ (by simp)
  refine ⟨(layout (place (trace (exported types ns))) 0 (exported types ns)).filterMap
    Section.record?, ?_, ?_, ?_⟩
  · rw [map_toSection_layout hfinished.encodable, ← switches_eq_jumpTables]
    exact hfinished.sink
  · refine forall₂_layout (switches (exported types ns)) (by simp) fun d hd n hown => ?_
    exact (hfinished.encodable d hd).numbered hstrings.1 (strings_subset_trace hd) hown
  · rw [← switches_eq_jumpTables]
    exact jumpFields_layout (by simpa using hblobs.1)

theorem packTo_numbering_sample :
    ∃ summary sink rs, packTo {} sample "App" = (.ok summary, sink) ∧
      sink.bytes.toList = streamBytes .little (rs.map MethodRecord.toSection ++
        [.strings ["App", "Outer", "run", "hi", "Outer/Inner", "go"],
          .blobs [[3, 0, 0, 0, 0, 0, 0, 0]]]) ∧
      jumpFields (exported sample "App") rs = [1] := by
  obtain ⟨summary, s, hrun⟩ := pack_succeeds sample "App" (by decide) (by decide)
  have hpack : packTo {} sample "App" = (.ok summary, s.sink) := packTo_eq_iff.mpr ⟨s, hrun, rfl⟩
  obtain ⟨rs, hsink, _, hjumps⟩ := packTo_numbering hpack
  have hstrings : (trace (exported sample "App")).eraseDups =
    ["App", "Outer", "run", "hi", "Outer/Inner", "go"] := by decide
  have hblobs : jumpTables (exported sample "App") = [[3, 0, 0, 0, 0, 0, 0, 0]] := by decide
  rw [hstrings, hblobs] at hsink
  rw [hblobs] at hjumps
  exact ⟨summary, s.sink, rs, hpack, by rw [hsink, Sink.toList_append rfl], hjumps⟩

end Export
end MethodPack
