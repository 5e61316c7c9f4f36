import MethodPack.Proofs.Growth
import MethodPack.Proofs.Operands

/-!
# References

A reference word stands for three strings: the namespace of the outermost type, the path of
names from that type inward, and the name of the member. It is the key of a record, or the
operand field of an instruction that refers to a member. Main statement: the words of an
export are equal exactly when they stand for the same strings, so an operand leads to the
records of the methods it names and to no others (`references_packTo`).
-/

namespace MethodPack

open Export (place trace switches exported packTo sample Summary)
open Packed (Module MemberKey MethodRecord RawInstruction OperandValue maxLength)

/-! ## What a word stands for -/

/-- The strings that name a method: namespace, path of names and own name. -/
def DeclaredMethod.names (d : DeclaredMethod) : String × String × String :=
  (d.type.ns, d.type.path, d.method.name)

/-- The strings that an operand names a member by. -/
def MemberRef.names (r : MemberRef) : String × String × String :=
  (r.declaring.qualify.ns, r.declaring.qualify.path, r.name)

/-- Instruction `j` of method `k` is `i`, and at its place in the records stands `raw`. -/
structure ReadAt (ds : List DeclaredMethod) (rs : List MethodRecord) (k j : Nat) (i : Instruction)
    (raw : RawInstruction) : Prop where
  source : (ds[k]?.bind fun d => d.method.instructions[j]?) = some i
  read : (rs[k]?.bind fun r => r.instructions[j]?) = some raw

/-- A reference word in the records, and the names of what it refers to. -/
inductive ReferenceWord (ds : List DeclaredMethod) (rs : List MethodRecord) :
    MemberKey → String × String × String → Prop where
  /-- The key of a record. -/
  | record {k : Nat} {d : DeclaredMethod} {r : MethodRecord} (hd : ds[k]? = some d)
      (hr : rs[k]? = some r) : ReferenceWord ds rs r.key d.names
  /-- The operand field of an instruction that refers to a member. -/
  | operand {k j : Nat} {i : Instruction} {raw : RawInstruction} {ref : MemberRef}
      (hread : ReadAt ds rs k j i raw) (href : i.operand = .member ref) :
      ReferenceWord ds rs ⟨raw.raw⟩ ref.names

/-- The word is made of the places of the names, and its parts lead to them in the module. -/
structure Packed.Module.Means (m : Module) (place : String → Nat) (key : MemberKey)
    (names : String × String × String) : Prop where
  word : key = .ofPlaces (place names.1) (place names.2.1) (place names.2.2)
  parts : m.Names key ⟨names.1, names.2.1⟩ names.2.2

namespace Packed.Module

variable {m : Module} {place : String → Nat} {key key' : MemberKey}
  {names names' : String × String × String}

/-- A word leads to the names of one member only. -/
theorem Names.unique {q q' : QualifiedType} {member member' : String}
    (h : m.Names key q member) (h' : m.Names key q' member') : q = q' ∧ member = member' := by
  obtain ⟨ns, path⟩ := q
  obtain ⟨ns', path'⟩ := q'
  have hns : some ns = some ns' := h.ns.symm.trans h'.ns
  have hpath : some path = some path' := h.type.symm.trans h'.type
  have hname : some member = some member' := h.name.symm.trans h'.name
  cases hns
  cases hpath
  cases hname
  exact ⟨rfl, rfl⟩

/-- Words are equal exactly when they mean the same names. -/
theorem Means.eq_iff (h : m.Means place key names) (h' : m.Means place key' names') :
    key = key' ↔ names = names' := by
  constructor
  · intro hkey
    have hparts := h'.parts
    rw [← hkey] at hparts
    obtain ⟨htype, hname⟩ := h.parts.unique hparts
    obtain ⟨hns, hpath⟩ := QualifiedType.mk.inj htype
    exact Prod.ext hns (Prod.ext hpath hname)
  · intro hnames
    rw [h.word, h'.word, hnames]

/-- The reference word of a member whose strings are in the tables means its names. -/
theorem Holds.means {all : List String} {blobs : List (List UInt8)} {q : QualifiedType}
    {member : String} (h : m.Holds all blobs) (hfits : q.Fits (Export.place all))
    (hq : ∀ s ∈ q.strings member, s ∈ all) :
    m.Means (Export.place all) (q.key member (Export.place all)) (q.ns, q.path, member) := by
  obtain ⟨hns, htype, hname⟩ := h.key_parts hfits hq
  exact ⟨rfl, hns, htype, hname⟩

end Packed.Module

/-! ## The words of an export -/

/-- Related lists have related entries at each position. -/
theorem forall₂_getElem? {α β : Type} {R : α → β → Prop} {xs : List α} {ys : List β}
    (h : List.Forall₂ R xs ys) {n : Nat} {x : α} {y : β} (hx : xs[n]? = some x)
    (hy : ys[n]? = some y) : R x y := by
  obtain ⟨hn, rfl⟩ := List.getElem?_eq_some_iff.mp hx
  obtain ⟨hn', rfl⟩ := List.getElem?_eq_some_iff.mp hy
  exact h.get hn hn'

/-- The key of the record means the names of the method, and the operand fields that refer to
members mean the names of those. -/
structure DeclaredMethod.Referenced (m : Module) (place : String → Nat) (d : DeclaredMethod)
    (r : MethodRecord) : Prop where
  key : m.Means place r.key d.names
  operands : List.Forall₂ (fun i raw => raw.opcode = i.opcode ∧
    ∀ ref, i.operand = .member ref → m.Means place ⟨raw.raw⟩ ref.names)
    d.method.instructions r.instructions

section Words

variable {m : Module} {ds : List DeclaredMethod} {rs : List MethodRecord} {k j : Nat}
  {i : Instruction} {raw : RawInstruction}

/-- What relates the instructions of all methods relates those at one place. -/
theorem ReadAt.related {R : Instruction → RawInstruction → Prop} (hread : ReadAt ds rs k j i raw)
    (h : List.Forall₂ (fun d r => List.Forall₂ R d.method.instructions r.instructions) ds rs) :
    R i raw := by
  obtain ⟨d, hd, hi⟩ := Option.bind_eq_some_iff.mp hread.source
  obtain ⟨r, hr, hraw⟩ := Option.bind_eq_some_iff.mp hread.read
  exact forall₂_getElem? (forall₂_getElem? h hd hr) hi hraw

variable {place : String → Nat} {key : MemberKey} {names : String × String × String}

theorem ReadAt.referenced (h : List.Forall₂ (DeclaredMethod.Referenced m place) ds rs)
    (hread : ReadAt ds rs k j i raw) : raw.opcode = i.opcode ∧
      ∀ ref, i.operand = .member ref → m.Means place ⟨raw.raw⟩ ref.names :=
  hread.related (h.imp fun _ _ hr => hr.operands)

theorem ReferenceWord.means (h : List.Forall₂ (DeclaredMethod.Referenced m place) ds rs)
    (hword : ReferenceWord ds rs key names) : m.Means place key names := by
  cases hword with
  | record hd hr => exact (forall₂_getElem? h hd hr).key
  | operand hread href => exact (hread.referenced h).2 _ href

/-- The records with the key of a word are those of the methods that the word names. -/
theorem ReferenceWord.key_iff (h : List.Forall₂ (DeclaredMethod.Referenced m place) ds rs)
    (hword : ReferenceWord ds rs key names) (n : Nat) :
    (∃ r, rs[n]? = some r ∧ r.key = key) ↔ ∃ d, ds[n]? = some d ∧ d.names = names := by
  have hmeans := hword.means h
  constructor
  · rintro ⟨r, hr, hkey⟩
    have hn : n < ds.length := by
      rw [h.length_eq]
      exact (List.getElem?_eq_some_iff.mp hr).1
    have hd := List.getElem?_eq_getElem hn
    exact ⟨ds[n], hd, ((ReferenceWord.record hd hr).means h).eq_iff hmeans |>.mp hkey⟩
  · rintro ⟨d, hd, hnames⟩
    have hn : n < rs.length := by
      rw [← h.length_eq]
      exact (List.getElem?_eq_some_iff.mp hd).1
    have hr := List.getElem?_eq_getElem hn
    exact ⟨rs[n], hr, ((ReferenceWord.record hd hr).means h).eq_iff hmeans |>.mpr hnames⟩

end Words

namespace Export

variable {sink : Sink} {ds : List DeclaredMethod} {d : DeclaredMethod} {s : Session}

/-- The words in the record of a method mean what the method names. -/
theorem Finished.referenced {m : Module} (h : Finished sink ds s)
    (hm : m.Holds (trace ds) (switches ds)) (hd : d ∈ ds) {n : Nat}
    (hblobs : d.blobs <+: (switches ds).drop n) :
    DeclaredMethod.Referenced m (place (trace ds)) d (d.read (place (trace ds)) n) := by
  have hencodable := h.encodable d hd
  have hstrings := strings_subset_trace hd
  constructor
  · exact hm.means hencodable.reference fun s hs => hstrings s (List.mem_append_left _ hs)
  · apply forall₂_layoutBody hblobs
    intro i hi k _
    refine ⟨rfl, ?_⟩
    intro ref href
    have hoperand := hencodable.operands i hi
    have hown := d.strings_of_operand hi
    rw [href] at hoperand hown ⊢
    exact hm.means hoperand fun s hs => hstrings s (hown s hs)

/-- A module that was read from a finished export has the records of its methods, whose words
mean what the methods name. -/
theorem referenced_packTo {limit : Option Nat} {flushFails : Bool} {types : List TypeDef}
    {ns : String} {summary : Summary}
    (h : packTo { limit, flushFails } types ns = (.ok summary, sink)) :
    ∃ m, Module.ofBytes sink.bytes.toList = .ok m ∧
      m.Holds (trace (exported types ns)) (switches (exported types ns)) ∧
      List.Forall₂ (Describes m) (exported types ns) m.methods ∧
      List.Forall₂ (DeclaredMethod.Referenced m (place (trace (exported types ns))))
        (exported types ns) m.methods := by
  obtain ⟨s, hrun, rfl⟩ := packTo_eq_iff.mp h
  obtain ⟨hfinished, _⟩ := pack_ok hrun
  obtain ⟨m, hread, hholds, _, _, hmethods⟩ := hfinished.ofBytes rfl
  refine ⟨m, hread, hholds, ?_, ?_⟩
  · rw [hmethods]
    apply forall₂_layout (switches (exported types ns)) (by simp)
    intro d hd k _
    exact (hfinished.encodable d hd).describes hholds (strings_subset_trace hd) k
  · rw [hmethods]
    apply forall₂_layout (switches (exported types ns)) (by simp)
    intro d hd k hblobs
    exact hfinished.referenced hholds hd hblobs

/-- **References and definitions meet.** In a module that is read back from an export, two
reference words are equal exactly when they stand for the same names. So an operand that
refers to a member, on an opcode for members, leads to the records of the exported methods
with its names, and to no others. -/
theorem references_packTo {limit : Option Nat} {flushFails : Bool} {types : List TypeDef}
    {ns : String} {summary : Summary}
    (h : packTo { limit, flushFails } types ns = (.ok summary, sink)) :
    ∃ m, Module.ofBytes sink.bytes.toList = .ok m ∧
      List.Forall₂ (Describes m) (exported types ns) m.methods ∧
      (∀ key names key' names', ReferenceWord (exported types ns) m.methods key names →
        ReferenceWord (exported types ns) m.methods key' names' →
          (key = key' ↔ names = names')) ∧
      ∀ k j i raw ref, ReadAt (exported types ns) m.methods k j i raw →
        i.operand = .member ref → i.opcode.kind = .member →
          ∃ key, raw.operand = .member key ∧
            ∀ n : Nat, (∃ r : MethodRecord, m.methods[n]? = some r ∧ r.key = key) ↔
              ∃ d : DeclaredMethod, (exported types ns)[n]? = some d ∧ d.names = ref.names := by
  obtain ⟨m, hread, _, hdescribes, hwords⟩ := referenced_packTo h
  refine ⟨m, hread, hdescribes, ?_, ?_⟩
  · intro key names key' names' hword hword'
    exact (hword.means hwords).eq_iff (hword'.means hwords)
  · intro k j i raw ref hat href hkind
    have hopcode : raw.opcode = i.opcode := (hat.referenced hwords).1
    refine ⟨⟨raw.raw⟩, ?_, (ReferenceWord.operand hat href).key_iff hwords⟩
    rw [RawInstruction.operand, hopcode, hkind]

theorem references_packTo_sample :
    ∃ summary sink m caller callee call, packTo {} sample "App" = (.ok summary, sink) ∧
      Module.ofBytes sink.bytes.toList = .ok m ∧ m.methods = [caller, callee] ∧
      caller.instructions[1]? = some call ∧ call.operand = .member callee.key ∧
      caller.key ≠ callee.key := by
  obtain ⟨summary, s, hrun⟩ := pack_succeeds sample "App" (by decide) (by decide)
  have hpack : packTo {} sample "App" = (.ok summary, s.sink) := packTo_eq_iff.mpr ⟨s, hrun, rfl⟩
  obtain ⟨m, hread, hdescribes, hwords, hcalls⟩ := references_packTo hpack
  obtain ⟨caller, _, hcaller, hrest, hmethods⟩ := List.forall₂_cons_left_iff.mp hdescribes
  obtain ⟨callee, _, _, hlast, rfl⟩ := List.forall₂_cons_left_iff.mp hrest
  rw [List.forall₂_nil_left_iff.mp hlast] at hmethods
  have hopcodes := hcaller.opcodes
  have hlength : 1 < caller.instructions.length := by
    rw [← List.length_map (f := RawInstruction.opcode), hopcodes]
    decide
  have hcall := List.getElem?_eq_getElem hlength
  have hat : ReadAt (exported sample "App") m.methods 0 1 _ caller.instructions[1] :=
    ⟨rfl, by simp [hmethods]⟩
  obtain ⟨key, hkey, hrecords⟩ := hcalls 0 1 _ _ _ hat rfl rfl
  obtain ⟨r, hr, rfl⟩ := (hrecords 1).mpr ⟨_, rfl, rfl⟩
  rw [hmethods] at hr
  cases hr
  refine ⟨summary, s.sink, m, caller, callee, _, hpack, hread, hmethods, hcall, hkey, ?_⟩
  have hword : ReferenceWord (exported sample "App") m.methods caller.key _ :=
    .record (k := 0) rfl (by simp [hmethods])
  have hword' : ReferenceWord (exported sample "App") m.methods callee.key _ :=
    .record (k := 1) rfl (by simp [hmethods])
  rw [Ne, hwords _ _ _ _ hword hword']
  decide

end Export
end MethodPack
