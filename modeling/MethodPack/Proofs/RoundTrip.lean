import Mathlib.Data.List.Forall2
import MethodPack.Packed.Lookup
import MethodPack.Proofs.Faults

/-!
# Round trip

What an export writes reads back as what was exported. The tables of the module that is
read are those the session ended with (`Module.Holds`), so every place that was handed out
on the way still leads to its string; each method of the walk has one record, in
order, which names it (`Describes`).
-/

namespace MethodPack

open Export (place trace switches layout exported selected pack packTo sample)
open Packed (Module MethodRecord MethodSignature RawInstruction Section StringId TableId maxLength)

/-! ## The tables of a module -/

/-- The tables of the module are those of an export with the given trace and blobs. -/
structure Packed.Module.Holds (m : Module) (all : List String) (blobs : List (List UInt8)) :
    Prop where
  order : m.order = .little
  stringCount : all.eraseDups.length ≤ maxLength
  blobCount : blobs.length ≤ maxLength
  strings : m.strings.toList = all.eraseDups
  blobs : m.blobs.toList = blobs

namespace Packed.Module.Holds

variable {m : Module} {all : List String} {blobs : List (List UInt8)}

theorem string?_eq {s : String} {id : StringId} (h : m.Holds all blobs) (hs : s ∈ all)
    (hid : id.index.toNat = place all s) : m.string? id = some s := by
  have hposition : id.position = all.eraseDups.idxOf s := by
    rw [TableId.position, hid, place, Nat.add_sub_cancel]
  rw [string?, ← Array.getElem?_toList, h.strings, hposition]
  exact Export.getElem?_place hs

/-- A string of the trace has a place that leads to it. -/
theorem exists_id {s : String} (h : m.Holds all blobs) (hs : s ∈ all) :
    ∃ id : StringId, id.index.toNat = place all s ∧ m.string? id = some s := by
  obtain ⟨id, hid⟩ := Export.exists_stringId hs h.stringCount
  exact ⟨id, hid, h.string?_eq hs hid⟩

variable {q : QualifiedType} {member : String}

/-- The three parts of a reference word lead to the strings it was made from. -/
theorem key_parts (h : m.Holds all blobs) (hfits : q.Fits (place all))
    (hq : ∀ s ∈ q.strings member, s ∈ all) :
    (q.key member (place all)).ns?.bind m.string? = some q.ns ∧
      (q.key member (place all)).type?.bind m.string? = some q.path ∧
      (q.key member (place all)).name?.bind m.string? = some member := by
  simp only [QualifiedType.strings, List.mem_cons, List.not_mem_nil, or_false, forall_eq_or_imp,
    forall_eq] at hq
  obtain ⟨hns, hpath, hmember⟩ := hq
  obtain ⟨hnsFits, hpathFits⟩ := hfits
  have hname : place all member < 2 ^ 32 := by
    have := Export.place_le hmember
    have hcount := h.stringCount
    rw [maxLength] at hcount
    omega
  obtain ⟨nsId, hnsId, hnsString⟩ := h.exists_id hns
  obtain ⟨pathId, hpathId, hpathString⟩ := h.exists_id hpath
  obtain ⟨nameId, hnameId, hnameString⟩ := h.exists_id hmember
  rw [QualifiedType.key, Packed.MemberKey.ns?_ofPlaces hnsFits hpathFits hname hnsId,
    Packed.MemberKey.type?_ofPlaces hnsFits hpathFits hname hpathId,
    Packed.MemberKey.name?_ofPlaces hnsFits hpathFits hname hnameId]
  exact ⟨hnsString, hpathString, hnameString⟩

theorem memberName?_key (h : m.Holds all blobs) (hfits : q.Fits (place all))
    (hq : ∀ s ∈ q.strings member, s ∈ all) :
    m.memberName? (q.key member (place all)) = some (q.memberName member) := by
  obtain ⟨hns, hpath, hname⟩ := h.key_parts hfits hq
  obtain ⟨nsId, hnsId, hnsString⟩ := Option.bind_eq_some_iff.mp hns
  obtain ⟨pathId, hpathId, hpathString⟩ := Option.bind_eq_some_iff.mp hpath
  obtain ⟨nameId, hnameId, hnameString⟩ := Option.bind_eq_some_iff.mp hname
  simp [memberName?, hnsId, hnsString, hpathId, hpathString, hnameId, hnameString,
    QualifiedType.memberName]

end Packed.Module.Holds

/-! ## The records of a module -/

/-- The method as it is read, when `blobs` blobs have been pushed before. -/
def DeclaredMethod.read (place : String → Nat) (blobs : Nat) (d : DeclaredMethod) : MethodRecord :=
  ⟨d.key place, .unpack d.signature.pack, layoutBody place d.labels blobs d.method.instructions⟩

namespace Packed.MethodRecord

/-- The section that a record is read from. -/
def toSection (r : MethodRecord) : Section := .method r.key r.signature.pack r.instructions

/-- The argument count and the length of the body are within the limits of a section. -/
structure Fits (r : MethodRecord) : Prop where
  arguments : r.signature.argCount.toNat ≤ MethodSignature.maxArgs
  body : r.instructions.length ≤ maxLength

theorem record?_toSection {r : MethodRecord} (h : r.Fits) : r.toSection.record? = some r := by
  rw [toSection, Section.record?, MethodSignature.unpack_pack h.arguments]

/-- Records that fit are read back from their sections. -/
theorem filterMap_toSection {rs : List MethodRecord} (h : ∀ r ∈ rs, r.Fits) :
    (rs.map toSection).filterMap Section.record? = rs := by
  induction rs with
  | nil => rfl
  | cons r rest ih =>
    rw [List.map_cons, List.filterMap_cons_some (record?_toSection (h r (by simp))),
      ih fun r' hr' => h r' (by simp [hr'])]

end Packed.MethodRecord

namespace DeclaredMethod

variable {place : String → Nat} {d : DeclaredMethod}

/-- What an operand interns is interned by its method. -/
theorem strings_of_operand (d : DeclaredMethod) {i : Instruction}
    (hi : i ∈ d.method.instructions) : ∀ s ∈ i.operand.strings, s ∈ d.strings :=
  fun _ hs => List.mem_append_right _ (List.mem_flatMap.mpr ⟨i, hi, hs⟩)

theorem Encodable.toNat_argCount (hd : d.Encodable place) :
    d.signature.argCount.toNat = d.method.argCount := by
  have := hd.arguments
  rw [MethodSignature.maxArgs] at this
  exact UInt32.toNat_ofNat_of_lt' (by show _ < 2 ^ 32; omega)

theorem Encodable.unpack_pack_signature (hd : d.Encodable place) :
    MethodSignature.unpack d.signature.pack = d.signature :=
  MethodSignature.unpack_pack (by rw [hd.toNat_argCount]; exact hd.arguments)

/-- What is read of a method stands for the section that was written. -/
theorem Encodable.toSection_read (hd : d.Encodable place) (n : Nat) :
    (d.read place n).toSection = d.record place n := by
  rw [Packed.MethodRecord.toSection, read, hd.unpack_pack_signature, record]

theorem Encodable.fits_read (hd : d.Encodable place)
    (hlen : d.method.instructions.length ≤ maxLength) (n : Nat) : (d.read place n).Fits where
  arguments := by
    rw [read, hd.unpack_pack_signature, hd.toNat_argCount]
    exact hd.arguments
  body := by
    rw [read, Export.length_layoutBody]
    exact hlen

end DeclaredMethod

/-- What stands at a position, behind a part of it. -/
theorem prefix_drop_append {α : Type} {xs ys all : List α} {n : Nat}
    (h : xs ++ ys <+: all.drop n) : ys <+: all.drop (n + xs.length) := by
  obtain ⟨after, hafter⟩ := h
  rw [← List.drop_drop, ← hafter, List.append_assoc, List.drop_left]
  exact List.prefix_append _ _

/-- Reading gives one record for each method, with its own blobs behind those before. -/
theorem Export.forall₂_layout (blobs : List (List UInt8)) {ds : List DeclaredMethod} {n : Nat}
    {R : DeclaredMethod → MethodRecord → Prop} {place : String → Nat}
    (hblobs : switches ds <+: blobs.drop n)
    (hread : ∀ d ∈ ds, ∀ k, d.blobs <+: blobs.drop k → R d (d.read place k)) :
    List.Forall₂ R ds ((layout place n ds).filterMap Section.record?) := by
  induction ds generalizing n with
  | nil => exact .nil
  | cons d rest ih =>
    have hsplit : d.blobs ++ switches rest <+: blobs.drop n := hblobs
    exact .cons (hread d (by simp) n ((List.prefix_append _ _).trans hsplit))
      (ih (prefix_drop_append hsplit) fun d' hd' => hread d' (by simp [hd']))

/-- Reading the records of a layout loses nothing. -/
theorem Export.map_toSection_layout {place : String → Nat} {ds : List DeclaredMethod} {blobs : Nat}
    (h : ∀ d ∈ ds, d.Encodable place) :
    ((layout place blobs ds).filterMap Section.record?).map MethodRecord.toSection =
      layout place blobs ds := by
  induction ds generalizing blobs with
  | nil => rfl
  | cons d rest ih =>
    have hread : (d.record place blobs).record? = some (d.read place blobs) := rfl
    rw [layout, List.filterMap_cons_some hread, List.map_cons, ih fun d' hd' => h d' (by simp [hd']),
      (h d (by simp)).toSection_read]

/-- The record names the method with its declaring type, and has its signature and its
opcodes. -/
structure Describes (m : Module) (d : DeclaredMethod) (r : MethodRecord) : Prop where
  ns : r.key.ns?.bind m.string? = some d.type.ns
  type : r.key.type?.bind m.string? = some d.type.path
  name : r.key.name?.bind m.string? = some d.method.name
  arguments : r.signature.argCount.toNat =
    d.method.genericParams.toNat + d.method.params.toNat + if d.method.hasThis then 1 else 0
  returns : r.signature.returnsValue = true ↔ d.method.returnType ≠ "System.Void"
  opcodes : r.instructions.map RawInstruction.opcode = d.method.instructions.map Instruction.opcode

theorem opcodes_layoutBody {place : String → Nat} {labels : List Label} {blobs : Nat}
    {body : List Instruction} :
    (layoutBody place labels blobs body).map RawInstruction.opcode =
      body.map Instruction.opcode := by
  induction body generalizing blobs with
  | nil => rfl
  | cons i rest ih => rw [layoutBody, List.map_cons, List.map_cons, ih]

theorem DeclaredMethod.Encodable.describes {m : Module} {all : List String}
    {blobs : List (List UInt8)} {d : DeclaredMethod} (hd : d.Encodable (place all))
    (h : m.Holds all blobs) (hstrings : ∀ s ∈ d.strings, s ∈ all) (n : Nat) :
    Describes m d (d.read (place all) n) := by
  obtain ⟨hns, htype, hname⟩ := h.key_parts hd.reference
    fun s hs => hstrings s (List.mem_append_left _ hs)
  have hsignature := hd.unpack_pack_signature
  exact {
    ns := hns
    type := htype
    name := hname
    arguments := by
      rw [read, hsignature, hd.toNat_argCount, MethodDef.argCount]
      cases d.method.hasThis <;> rfl
    returns := by
      rw [read, hsignature]
      simp [signature, MethodDef.returnsValue, voidType]
    opcodes := opcodes_layoutBody }

/-! ## Reading a finished export -/

namespace Export

variable {sink : Sink} {types : List TypeDef} {ns : String} {s : Session}

/-- What a finished export wrote is accepted. The module has the tables of the session and
one record for each method of the walk. -/
theorem Finished.ofBytes {ds : List DeclaredMethod} (h : Finished sink ds s)
    (hsink : sink.bytes = #[]) :
    ∃ m, Module.ofBytes s.sink.bytes.toList = .ok m ∧ m.Holds (trace ds) (switches ds) ∧
      m.strings = s.tables.strings.entries ∧ m.blobs = s.tables.blobs.entries ∧
      m.methods = (layout (place (trace ds)) 0 ds).filterMap Section.record? := by
  rw [h.sink, Sink.toList_append hsink, h.closed.ofBytes]
  have hstrings : s.tables.strings.entries.toList = (trace ds).eraseDups := h.tables.strings
  have hstringFits : Section.Fits (.strings (trace ds).eraseDups) := h.closed.fits _ (by simp)
  have hblobFits : Section.Fits (.blobs (switches ds)) := h.closed.fits _ (by simp)
  refine ⟨_, rfl, ⟨rfl, hstringFits.1, hblobFits.1, rfl, rfl⟩, ?_, ?_, rfl⟩
  · rw [← hstrings]
  · rw [← h.tables.blobs]

theorem strings_subset_trace {d : DeclaredMethod} {ds : List DeclaredMethod} (hd : d ∈ ds) :
    ∀ s ∈ d.strings, s ∈ trace ds :=
  fun _ hs => List.mem_flatMap.mpr ⟨d, hd, hs⟩

theorem sum_lengths {R : DeclaredMethod → MethodRecord → Prop} {ds : List DeclaredMethod}
    {rs : List MethodRecord} (h : List.Forall₂ R ds rs)
    (hlen : ∀ d r, R d r → r.instructions.length = d.method.instructions.length) :
    (rs.map fun r => r.instructions.length).sum = instructionCount ds := by
  rw [instructionCount]
  induction h with
  | nil => rfl
  | cons hfirst _ ih =>
    rw [List.map_cons, List.sum_cons, ih, hlen _ _ hfirst, List.map_cons, List.sum_cons]

/-- **Round trip.** The stream of an export that succeeds reads back in little-endian order,
with a record for each method of the walk, the tables of the session, and the counts
that the summary reports. -/
theorem ofBytes_pack {summary : Summary}
    (h : (pack types ns).run {} = (.ok summary, s)) :
    packTo {} types ns = (.ok summary, s.sink) ∧
    ∃ m, Module.ofBytes s.sink.bytes.toList = .ok m ∧ m.order = .little ∧
      List.Forall₂ (Describes m) (exported types ns) m.methods ∧
      m.strings = s.tables.strings.entries ∧ m.blobs = s.tables.blobs.entries ∧
      summary.types = TypeDef.countAll (selected types ns) ∧
      summary.methods = m.methods.length ∧
      summary.instructions = (m.methods.map fun r => r.instructions.length).sum ∧
      summary.strings = m.strings.size ∧ summary.blobs = m.blobs.size := by
  obtain ⟨hfinished, rfl⟩ := pack_ok h
  obtain ⟨m, hread, hholds, hstrings, hblobs, hmethods⟩ := hfinished.ofBytes rfl
  have hrecords : List.Forall₂ (Describes m) (exported types ns) m.methods := by
    rw [hmethods]
    refine forall₂_layout (switches (exported types ns)) (by simp) ?_
    intro d hd k _
    exact (hfinished.encodable d hd).describes hholds (strings_subset_trace hd) k
  have hinstructions : (m.methods.map fun r => r.instructions.length).sum =
      instructionCount (exported types ns) := by
    refine sum_lengths hrecords ?_
    intro d r hr
    simpa using congrArg List.length hr.opcodes
  refine ⟨?_, m, hread, hholds.order, hrecords, hstrings, hblobs, rfl, ?_, ?_, ?_, ?_⟩
  · exact packTo_eq_iff.mpr ⟨s, h, rfl⟩
  · exact hrecords.length_eq
  · exact hinstructions.symm
  · rw [← Array.length_toList, hholds.strings]
  · rw [← Array.length_toList, hholds.blobs]

theorem ofBytes_pack_sample :
    ∃ summary s m, (pack sample "App" : SessionM Summary).run {} = (.ok summary, s) ∧
      Module.ofBytes s.sink.bytes.toList = .ok m ∧ m.methods.length = 2 ∧ summary.types = 2 := by
  obtain ⟨summary, s, hrun⟩ := pack_succeeds sample "App" (by decide) (by decide)
  obtain ⟨_, m, hread, _, hrecords, _, _, htypes, _⟩ := ofBytes_pack hrun
  exact ⟨summary, s, m, hrun, hread, hrecords.length_eq.symm, htypes⟩

end Export
end MethodPack
