import MethodPack.Listing.Dump
import MethodPack.Proofs.Grammar
import MethodPack.Proofs.Operands

/-!
# Byte orders

A stream can be written in either byte order: the version marker, every count and number, and
the words of the switch blobs, which the reader keeps as they are and takes apart only on demand.
Main statement: what is written in one order throughout is accepted, and whoever asks the module
is told the same in both (`AbstractStream.ofBytes_in_either_order`).
-/

namespace MethodPack.Packed

open Listing (listMembers)

/-! ## Streams apart from their byte order -/

/-- A section with its numbers as they are. A blob is a list of signed words. -/
inductive AbstractSection where
  | method (key : MemberKey) (signature : Int32) (body : List RawInstruction)
  | strings (entries : List String)
  | switches (entries : List (List Int32))

namespace AbstractSection

/-- The section in one order. -/
def written (order : ByteOrder) : AbstractSection → Section
  | method key signature body => .method key signature body
  | strings entries => .strings entries
  | switches entries => .blobs (entries.map (·.flatMap order.encodeInt32))

/-- The tag a section stands behind. -/
def tag : AbstractSection → SectionTag
  | method .. => .method
  | strings _ => .string
  | switches _ => .blob

/-- Every count and length of the section is within the limit. -/
def Fits : AbstractSection → Prop
  | method _ _ body => body.length ≤ maxLength
  | strings entries =>
    entries.length ≤ maxLength ∧ ∀ s ∈ entries, (Text.toUtf8 s).length ≤ maxLength
  | switches entries =>
    entries.length ≤ maxLength ∧ ∀ words ∈ entries, 4 * words.length ≤ maxLength

def record? : AbstractSection → Option MethodRecord
  | method key signature body => some ⟨key, .unpack signature, body⟩
  | _ => none

def strings? : AbstractSection → Option (List String)
  | strings entries => some entries
  | _ => none

def switches? : AbstractSection → Option (List (List Int32))
  | switches entries => some entries
  | _ => none

variable (order : ByteOrder) (s : AbstractSection)

@[simp] theorem tag_written : (s.written order).tag = s.tag := by cases s <;> rfl

@[simp] theorem record?_written : (s.written order).record? = s.record? := by cases s <;> rfl

@[simp] theorem strings?_written : (s.written order).strings? = s.strings? := by cases s <;> rfl

@[simp] theorem blobs?_written : (s.written order).blobs? =
    s.switches?.map (·.map (·.flatMap order.encodeInt32)) := by
  cases s <;> rfl

theorem isSome_strings? (s : AbstractSection) (h : s.tag = .string) : s.strings?.isSome := by
  cases s with
  | strings => rfl
  | method => cases h
  | switches => cases h

theorem isSome_switches? (s : AbstractSection) (h : s.tag = .blob) : s.switches?.isSome := by
  cases s with
  | switches => rfl
  | method => cases h
  | strings => cases h

/-- Where one table has a tag, its entries are found. -/
theorem exists_findSome? {α : Type} {t : SectionTag} {f : AbstractSection → Option α}
    {ss : List AbstractSection} (hf : ∀ s : AbstractSection, s.tag = t → (f s).isSome)
    (hone : (ss.map tag).count t = 1) : ∃ entries, ss.findSome? f = some entries := by
  have hmem := List.count_pos_iff.mp (Nat.lt_of_lt_of_eq Nat.one_pos hone.symm)
  obtain ⟨s, hs, htag⟩ := List.mem_map.mp hmem
  rw [← Option.isSome_iff_exists, List.findSome?_isSome_iff]
  exact ⟨s, hs, hf s htag⟩

variable {s}

theorem Fits.written (h : s.Fits) : (s.written order).Fits := by
  cases s with
  | method => exact h
  | strings => exact h
  | switches entries =>
    refine ⟨by rw [List.length_map]; exact h.1, List.forall_mem_map.mpr fun words hwords => ?_⟩
    rw [length_flatMap_encodeInt32]
    exact h.2 words hwords

end AbstractSection

/-- What a stream says, whatever its byte order: sections that can be written, one string table
and one blob table among them. -/
structure AbstractStream where
  sections : List AbstractSection
  fits : ∀ s ∈ sections, s.Fits
  oneStringTable : (sections.map AbstractSection.tag).count .string = 1
  oneBlobTable : (sections.map AbstractSection.tag).count .blob = 1

namespace AbstractStream

variable (st : AbstractStream) (order : ByteOrder)

/-- The stream in one order throughout. -/
def bytes : List UInt8 := streamBytes order (st.sections.map (AbstractSection.written order))

def methods : List MethodRecord := st.sections.filterMap AbstractSection.record?

def strings : List String := (st.sections.findSome? AbstractSection.strings?).getD []

/-- The words of each blob. -/
def switches : List (List Int32) := (st.sections.findSome? AbstractSection.switches?).getD []

/-! ## Either order is read -/

theorem isStream :
    IsStream order (st.sections.map (AbstractSection.written order)) (st.bytes order) where
  bytes := rfl
  fits := List.forall_mem_map.mpr fun s hs => (st.fits s hs).written order
  oneStringTable := by
    rw [List.map_map, ← st.oneStringTable]
    exact congrArg _ (List.map_congr_left fun s _ => s.tag_written order)
  oneBlobTable := by
    rw [List.map_map, ← st.oneBlobTable]
    exact congrArg _ (List.map_congr_left fun s _ => s.tag_written order)

theorem findSome?_strings : st.sections.findSome? AbstractSection.strings? = some st.strings := by
  obtain ⟨entries, h⟩ :=
    AbstractSection.exists_findSome? AbstractSection.isSome_strings? st.oneStringTable
  rw [strings, h]
  rfl

theorem findSome?_switches :
    st.sections.findSome? AbstractSection.switches? = some st.switches := by
  obtain ⟨entries, h⟩ :=
    AbstractSection.exists_findSome? AbstractSection.isSome_switches? st.oneBlobTable
  rw [switches, h]
  rfl

/-- The module of a stream in one order: only the order and the bytes of the blobs tell which
order it is. -/
def module : Module where
  order := order
  methods := st.methods
  strings := st.strings.toArray
  blobs := (st.switches.map (·.flatMap order.encodeInt32)).toArray

theorem ofBytes_bytes : Module.ofBytes (st.bytes order) = .ok (st.module order) := by
  have hstream := st.isStream order
  rw [bytes, Module.ofBytes_streamBytes hstream.fits hstream.once, Module.ofSections]
  have hstrings : (st.sections.map (AbstractSection.written order)).findSome? Section.strings? =
      some st.strings := by
    rw [List.findSome?_map, ← st.findSome?_strings]
    exact congrArg (List.findSome? · _) (funext fun s => s.strings?_written order)
  have hblobs : (st.sections.map (AbstractSection.written order)).findSome? Section.blobs? =
      some (st.switches.map (·.flatMap order.encodeInt32)) := by
    rw [List.findSome?_map, ← Option.map_some, ← st.findSome?_switches, List.map_findSome?]
    exact congrArg (List.findSome? · _) (funext fun s => s.blobs?_written order)
  have hmethods : (st.sections.map (AbstractSection.written order)).filterMap Section.record? =
      st.methods := by
    rw [List.filterMap_map, methods]
    exact congrArg (List.filterMap · _) (funext fun s => s.record?_written order)
  rw [hstrings, hblobs, hmethods]
  rfl

/-- Every blob gives the words it was written from. -/
theorem switchTargets?_module (id : BlobId) :
    (st.module order).switchTargets? id = st.switches[id.position]? := by
  rw [Module.switchTargets?, Module.blob?]
  simp only [module, List.getElem?_toArray, List.getElem?_map]
  cases st.switches[id.position]? with
  | none => rfl
  | some words =>
    have hfits : (words.flatMap order.encodeInt32).length % switchTargetSize = 0 := by
      rw [length_flatMap_encodeInt32, switchTargetSize]
      omega
    simp only [Option.map_some, bind, Option.bind, hfits, if_true, blobWords_flatMap]

end AbstractStream

/-! ## Who asks the modules -/

/-- The modules give the same answers, but that they may differ in their byte orders and in the
bytes of their blobs. -/
structure Module.Agree (m m' : Module) : Prop where
  methods : m.methods = m'.methods
  operands : m.methods.map (fun r => r.instructions.map RawInstruction.operand) =
    m'.methods.map (fun r => r.instructions.map RawInstruction.operand)
  strings : m.strings = m'.strings
  findString? : ∀ s, m.findString? s = m'.findString? s
  memberName? : ∀ key, m.memberName? key = m'.memberName? key
  memberKey? : ∀ ns type name, m.memberKey? ns type name = m'.memberKey? ns type name
  findMethod? : ∀ fullName, m.findMethod? fullName = m'.findMethod? fullName
  listMembers : listMembers m = listMembers m'
  switchTargets? : ∀ id, m.switchTargets? id = m'.switchTargets? id

namespace AbstractStream

variable (st : AbstractStream)

theorem agree (order order' : ByteOrder) : (st.module order).Agree (st.module order') where
  methods := rfl
  operands := rfl
  strings := rfl
  findString? _ := rfl
  memberName? _ := rfl
  memberKey? _ _ _ := rfl
  findMethod? _ := rfl
  listMembers := rfl
  switchTargets? id := by rw [switchTargets?_module, switchTargets?_module]

/-- **The byte order is invisible.** A stream that is written in little-endian order throughout
and the same in big-endian order are both accepted. The modules hold the methods and the strings
of the stream, give the same answers, and a switch blob gives exactly its words. -/
theorem ofBytes_in_either_order :
    ∃ m m', Module.ofBytes (st.bytes .little) = .ok m ∧ Module.ofBytes (st.bytes .big) = .ok m' ∧
      m.order = .little ∧ m'.order = .big ∧
      m.methods = st.methods ∧ m.strings.toList = st.strings ∧ m.Agree m' ∧
      ∀ id, m.switchTargets? id = st.switches[id.position]? ∧
        m'.switchTargets? id = st.switches[id.position]? :=
  ⟨st.module .little, st.module .big, st.ofBytes_bytes .little, st.ofBytes_bytes .big, rfl, rfl,
    rfl, rfl, st.agree .little .big,
    fun id => ⟨st.switchTargets?_module .little id, st.switchTargets?_module .big id⟩⟩

/-- A stream with a switch to the positions 2 and -1: its bytes differ in the two orders, and
its blob gives the same words. -/
theorem ofBytes_in_either_order_sample :
    let little : List UInt8 := [1, 0, 2, 1, 0, 0, 0, 8, 0, 0, 0, 2, 0, 0, 0, 255, 255, 255, 255,
      1, 0, 0, 0, 0, 0, 1, 0, 0, 0, 1, 0, 1, 0, 3, 0, 0, 0, 1, 0, 0, 0, 68, 1, 0, 0, 0, 0, 0, 0, 0]
    let big : List UInt8 := [0, 1, 2, 0, 0, 0, 1, 0, 0, 0, 8, 0, 0, 0, 2, 255, 255, 255, 255,
      1, 0, 0, 0, 0, 0, 0, 1, 0, 1, 0, 0, 0, 1, 0, 0, 0, 3, 0, 0, 0, 1, 68, 0, 0, 0, 0, 0, 0, 0, 1]
    ∃ m m', Module.ofBytes little = .ok m ∧ Module.ofBytes big = .ok m' ∧
      m.methods = m'.methods ∧
      m.switchTargets? (.atPosition 0 (by decide)) = some [2, -1] ∧
      m'.switchTargets? (.atPosition 0 (by decide)) = some [2, -1] := by
  intro little big
  let st : AbstractStream :=
    ⟨[.switches [[2, -1]], .strings [], .method ⟨0x0001000100000001⟩ 3 [⟨.switch, 1⟩]],
      by simp [AbstractSection.Fits, maxLength], by decide, by decide⟩
  have hlittle : st.bytes .little = little := by decide
  have hbig : st.bytes .big = big := by decide
  obtain ⟨m, m', hm, hm', -, -, -, -, hagree, htargets⟩ := st.ofBytes_in_either_order
  rw [hlittle] at hm
  rw [hbig] at hm'
  exact ⟨m, m', hm, hm', hagree.methods, (htargets _).1, (htargets _).2⟩

end AbstractStream
end MethodPack.Packed
