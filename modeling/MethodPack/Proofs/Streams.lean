import MethodPack.Packed.Module
import MethodPack.Proofs.Reading

/-!
# Streams

A stream is read back section by section. Main statements: a stream whose counts and
lengths are within the limits, and that repeats no table, gives the module that its
sections make up (`Module.ofBytes_streamBytes`); a cut stream runs out of bytes, or
ends between two sections and gives what the sections before the cut make up
(`Module.ofBytes_cut`). A stream that closes with both tables is not accepted when
it is cut anywhere (`Closed.ofBytes_cut`).
-/

namespace MethodPack.Packed

namespace Section

/-- The tag a section stands behind. -/
def tag : Section → SectionTag
  | method .. => .method
  | strings _ => .string
  | blobs _ => .blob

/-- The bytes of a section behind its tag. -/
def content (order : ByteOrder) : Section → List UInt8
  | method key signature body =>
    order.encode64 key.word ++ (order.encodeInt32 signature ++
      (countBytes order body.length ++ body.flatMap (RawInstruction.bytes order)))
  | strings entries =>
    countBytes order entries.length ++ entries.flatMap fun s => entryBytes order (Text.toUtf8 s)
  | blobs entries => countBytes order entries.length ++ entries.flatMap (entryBytes order)

/-- Every count and length of the section is within the limit. -/
def Fits : Section → Prop
  | method _ _ body => body.length ≤ maxLength
  | strings entries =>
    entries.length ≤ maxLength ∧ ∀ s ∈ entries, (Text.toUtf8 s).length ≤ maxLength
  | blobs entries => entries.length ≤ maxLength ∧ ∀ b ∈ entries, b.length ≤ maxLength

theorem bytes_eq (order : ByteOrder) (s : Section) :
    s.bytes order = s.tag.byte :: s.content order := by
  cases s <;> simp [bytes, tag, content, tableBytes, tableHeader, List.flatMap_map]

/-- A section reads back behind its tag. -/
theorem reads_content (order : ByteOrder) {s : Section} (h : s.Fits) :
    Reader.Reads (Reader.sectionOf order s.tag) (s.content order) s := by
  cases s with
  | method key signature body =>
    have hread (i : RawInstruction) (_ : i ∈ body) (_ : Nat) := Reader.Reads.instruction order i
    have hbody := Reader.Reads.repeating body hread 0 []
    exact (Reader.Reads.word64 order key.word).bind ((Reader.Reads.int32 order signature).bind
      ((Reader.Reads.count order .instructions h).bind (hbody.last (.pure _))))
  | strings entries =>
    have hentries := Reader.Reads.repeating entries
      (fun s hs k => Reader.Reads.string order (h.2 s hs) k) 1 []
    exact (Reader.Reads.count order .strings h.1).bind (hentries.last (.pure _))
  | blobs entries =>
    have hread (b : List UInt8) (hb : b ∈ entries) (_ : Nat) := Reader.Reads.blob order (h.2 b hb)
    have hentries := Reader.Reads.repeating entries hread 0 []
    exact (Reader.Reads.count order .blobs h.1).bind (hentries.last (.pure _))

end Section

namespace Reader

/-- The table tags seen behind a section. -/
def seenBehind (seen : List SectionTag) (t : SectionTag) : List SectionTag :=
  if t = .method then seen else t :: seen

/-- No section is a table that is among `seen` or stands before it. -/
def Once (seen : List SectionTag) : List Section → Prop
  | [] => True
  | s :: ss => s.tag ∉ seen ∧ Once (seenBehind seen s.tag) ss

/-- One round of reading sections: a tag, and the section behind it unless it is a table of
which there is one already. -/
def round (order : ByteOrder) (seen : List SectionTag) : Reader (SectionTag × Section) := do
  let tag ← tag
  if tag ∈ seen then throw (.duplicateSection tag) else return (tag, ← sectionOf order tag)

variable {order : ByteOrder} {seen : List SectionTag} {before : List Section} {offset fuel : Nat}
  {bytes : List UInt8} {s : Section}

theorem Steady.round (order : ByteOrder) (seen : List SectionTag) :
    Steady (Reader.round order seen) := by
  refine Steady.tag.bind fun t => ?_
  split
  · exact .throw _ (by simp)
  · exact (Steady.sectionOf order t).bind fun _ => .pure _

theorem Reads.round (hfits : s.Fits) (hseen : s.tag ∉ seen) :
    Reads (Reader.round order seen) (s.bytes order) (s.tag, s) := by
  rw [Section.bytes_eq, ← List.singleton_append]
  refine (Reads.tag s.tag).bind ?_
  simp only [hseen, if_false]
  exact (Section.reads_content order hfits).last (.pure _)

theorem sections_nil : sections order fuel seen before ⟨offset, []⟩ =
    .ok (before.reverse, ⟨offset, []⟩) := by
  cases fuel <;> rfl

/-- Where bytes are left, sections are read round by round. -/
theorem sections_round (h : bytes ≠ []) :
    sections order (fuel + 1) seen before ⟨offset, bytes⟩ =
      (round order seen >>= fun p => sections order fuel (seenBehind seen p.1) (p.2 :: before))
        ⟨offset, bytes⟩ := by
  have hget : ∀ c, (get : Reader Cursor) c = .ok (c, c) := fun _ => rfl
  have hleft : bytes.isEmpty = false := by simpa using h
  rw [sections, bind_apply, hget, round, bind_assoc]
  simp only [hleft, Bool.false_eq_true, if_false]
  rw [bind_apply, bind_apply]
  cases tag ⟨offset, bytes⟩ with
  | error e => rfl
  | ok p =>
    by_cases hseen : p.1 ∈ seen
    · simp only [hseen, if_true]
      rfl
    · simp only [hseen, if_false, bind_assoc, pure_bind]
      rfl

/-- A section in front is read, and reading goes on behind it. -/
theorem sections_cons (hfits : s.Fits) (hseen : s.tag ∉ seen) (bytes : List UInt8) :
    sections order (fuel + 1) seen before ⟨offset, s.bytes order ++ bytes⟩ =
      sections order fuel (seenBehind seen s.tag) (s :: before)
        ⟨offset + (s.bytes order).length, bytes⟩ := by
  rw [sections_round (by simp [Section.bytes_eq]), bind_apply, Reads.round hfits hseen]

/-- A section that is cut behind its first byte at the earliest runs out of bytes. -/
theorem sections_cut (hfits : s.Fits) (hseen : s.tag ∉ seen) {part : List UInt8}
    (hne : part ≠ []) (hpart : part <+: s.bytes order) (hproper : part ≠ s.bytes order) :
    ∃ place needed, sections order (fuel + 1) seen before ⟨offset, part⟩ =
      .error (.endOfStream place needed) := by
  obtain ⟨place, needed, herror⟩ :=
    (Steady.round order seen).cut (Reads.round hfits hseen) hpart hproper offset
  exact ⟨place, needed, by rw [sections_round hne, bind_apply, herror]⟩

/-- Reading takes all sections, when each fits and no table is repeated. -/
theorem sections_flatMap (before : List Section) (offset : Nat) {ss : List Section}
    (hfits : ∀ s ∈ ss, s.Fits) (honce : Once seen ss)
    (hfuel : (ss.flatMap (Section.bytes order)).length ≤ fuel) :
    ∃ c, sections order fuel seen before ⟨offset, ss.flatMap (Section.bytes order)⟩ =
      .ok (before.reverse ++ ss, c) := by
  induction ss generalizing seen before offset fuel with
  | nil => exact ⟨_, by rw [List.flatMap_nil, sections_nil, List.append_nil]⟩
  | cons s ss ih =>
    have hs : 0 < (s.bytes order).length := by simp [Section.bytes_eq]
    rw [List.flatMap_cons, List.length_append] at hfuel
    obtain ⟨fuel, rfl⟩ : ∃ k, fuel = k + 1 := ⟨fuel - 1, by omega⟩
    have hrest : (ss.flatMap (Section.bytes order)).length ≤ fuel := by omega
    obtain ⟨c, hc⟩ := ih (s :: before) (offset + (s.bytes order).length)
      (fun x hx => hfits x (by simp [hx])) honce.2 hrest
    refine ⟨c, ?_⟩
    rw [List.flatMap_cons, sections_cons (hfits s (by simp)) honce.1, hc]
    simp

/-- Reading a cut list of sections runs out of bytes, or stops between two sections. -/
theorem sections_flatMap_cut (before : List Section) (offset : Nat) {ss : List Section}
    (hfits : ∀ s ∈ ss, s.Fits) (honce : Once seen ss)
    {part : List UInt8} (hpart : part <+: ss.flatMap (Section.bytes order))
    (hproper : part ≠ ss.flatMap (Section.bytes order)) (hfuel : part.length ≤ fuel) :
    (∃ place needed, sections order fuel seen before ⟨offset, part⟩ =
      .error (.endOfStream place needed)) ∨
    ∃ kept c, kept <+: ss ∧ kept ≠ ss ∧ sections order fuel seen before ⟨offset, part⟩ =
      .ok (before.reverse ++ kept, c) := by
  induction ss generalizing seen before offset fuel part with
  | nil => exact absurd (List.prefix_nil.mp hpart) hproper
  | cons s ss ih =>
    have hs : 0 < (s.bytes order).length := by simp [Section.bytes_eq]
    rw [List.flatMap_cons] at hpart hproper
    have hfits' : ∀ x ∈ ss, x.Fits := fun x hx => hfits x (by simp [hx])
    rcases Nat.lt_or_ge part.length (s.bytes order).length with hshort | hlong
    · have hcut : part <+: s.bytes order :=
        List.prefix_of_prefix_length_le hpart (List.prefix_append _ _) (by omega)
      by_cases hempty : part = []
      -- the cut lies right before this section
      · exact .inr ⟨[], _, List.nil_prefix, by simp, by rw [hempty, sections_nil, List.append_nil]⟩
      -- the cut lies within this section
      · have hpos : 0 < part.length := List.length_pos_iff.mpr hempty
        obtain ⟨fuel, rfl⟩ : ∃ k, fuel = k + 1 := ⟨fuel - 1, by omega⟩
        exact .inl (sections_cut (hfits s (by simp)) honce.1 hempty hcut
          (fun h => by rw [h] at hshort; omega))
    -- the cut lies behind this section
    · obtain ⟨rest, rfl⟩ := List.prefix_of_prefix_length_le (List.prefix_append _ _) hpart hlong
      rw [List.length_append] at hfuel
      obtain ⟨fuel, rfl⟩ : ∃ k, fuel = k + 1 := ⟨fuel - 1, by omega⟩
      rw [List.prefix_append_right_inj] at hpart
      have hproper' : rest ≠ ss.flatMap (Section.bytes order) := fun h => hproper (by rw [h])
      have hfuel' : rest.length ≤ fuel := by omega
      rw [sections_cons (hfits s (by simp)) honce.1]
      refine (ih (s :: before) (offset + (s.bytes order).length) hfits' honce.2 hpart hproper'
        hfuel').imp_right ?_
      rintro ⟨kept, c, hkept, hne, hread⟩
      exact ⟨s :: kept, c, List.cons_prefix_cons.mpr ⟨rfl, hkept⟩, by simpa using hne,
        by simpa using hread⟩

end Reader

namespace Module

variable {order : ByteOrder} {ss : List Section}

/-- Reading finds the marker, then sections to the end, and makes the module of them. -/
theorem ofBytes_eq (bytes : List UInt8) :
    ofBytes bytes = match Reader.marker ⟨0, bytes⟩ with
      | .error e => .error e
      | .ok (order, c) => match Reader.sections order c.rest.length [] [] c with
        | .error e => .error e
        | .ok (ss, _) => ofSections order ss := by
  rw [ofBytes]
  cases Reader.marker ⟨0, bytes⟩ with
  | error e => rfl
  | ok p =>
    simp only [bind, Except.bind]
    cases Reader.sections p.1 p.2.rest.length [] [] p.2 with
    | error e => rfl
    | ok q => rfl

/-- A stream gives the module that its sections make up. -/
theorem ofBytes_streamBytes (hfits : ∀ s ∈ ss, s.Fits) (honce : Reader.Once [] ss) :
    ofBytes (streamBytes order ss) = ofSections order ss := by
  obtain ⟨c, hc⟩ := Reader.sections_flatMap [] (0 + 2) hfits honce
    (Nat.le_refl (ss.flatMap (Section.bytes order)).length)
  have hmarker := Reader.Reads.marker order 0 (ss.flatMap (Section.bytes order))
  rw [ByteOrder.length_encode16] at hmarker
  simp only [streamBytes, ofBytes_eq, hmarker, hc]
  rfl

/-- A cut stream runs out of bytes, or ends between two sections. -/
theorem ofBytes_cut (hfits : ∀ s ∈ ss, s.Fits) (honce : Reader.Once [] ss) {part : List UInt8}
    (hpart : part <+: streamBytes order ss) (hproper : part ≠ streamBytes order ss) :
    (∃ place needed, ofBytes part = .error (.endOfStream place needed)) ∨
    ∃ kept, kept <+: ss ∧ kept ≠ ss ∧ ofBytes part = ofSections order kept := by
  rw [streamBytes] at hpart hproper
  rcases Nat.lt_or_ge part.length (order.encode16 version).length with hshort | hlong
  -- the cut lies within the marker
  · have hcut : part <+: order.encode16 version :=
      List.prefix_of_prefix_length_le hpart (List.prefix_append _ _) (by omega)
    obtain ⟨place, needed, herror⟩ := Reader.Steady.marker.cut (Reader.Reads.marker order) hcut
      (fun h => by rw [h] at hshort; omega) 0
    exact .inl ⟨place, needed, by rw [ofBytes_eq, herror]⟩
  · obtain ⟨rest, rfl⟩ := List.prefix_of_prefix_length_le (List.prefix_append _ _) hpart hlong
    rw [List.prefix_append_right_inj] at hpart
    have hproper' : rest ≠ ss.flatMap (Section.bytes order) := fun h => hproper (by rw [h])
    have hmarker := Reader.Reads.marker order 0 rest
    rw [ByteOrder.length_encode16] at hmarker
    rcases Reader.sections_flatMap_cut [] (0 + 2) hfits honce hpart hproper'
      (Nat.le_refl rest.length) with ⟨place, needed, herror⟩ | ⟨kept, c, hkept, hne, hread⟩
    · exact .inl ⟨place, needed, by simp only [ofBytes_eq, hmarker, herror]⟩
    · refine .inr ⟨kept, hkept, hne, ?_⟩
      simp only [ofBytes_eq, hmarker, hread]
      rfl

end Module

/-! ## Streams that close with both tables -/

/-- The sections of a finished stream: method records, then the two tables. -/
structure Closed (ss : List Section) (strings : List String) (blobs : List (List UInt8)) :
    Prop where
  methods : ∀ s ∈ ss, s.tag = .method
  fits : ∀ s ∈ ss ++ [.strings strings, .blobs blobs], s.Fits

namespace Closed

variable {order : ByteOrder} {ss : List Section} {strings : List String}
  {blobs : List (List UInt8)}

theorem once (h : ∀ s ∈ ss, s.tag = .method) :
    Reader.Once [] (ss ++ [.strings strings, .blobs blobs]) := by
  induction ss with
  | nil => simp [Reader.Once, Reader.seenBehind, Section.tag]
  | cons s ss ih =>
    have hs : s.tag = .method := h s (by simp)
    refine ⟨by simp, ?_⟩
    rw [hs, Reader.seenBehind, if_pos rfl]
    exact ih fun x hx => h x (by simp [hx])

theorem of_records (hrecords : ∀ s ∈ ss, s.tag = .method ∧ s.Fits)
    (hstrings : Section.Fits (.strings strings)) (hblobs : Section.Fits (.blobs blobs)) :
    Closed ss strings blobs := by
  refine ⟨fun s hs => (hrecords s hs).1, fun s hs => ?_⟩
  rcases List.mem_append.mp hs with hs | hs
  · exact (hrecords s hs).2
  · simp only [List.mem_cons, List.not_mem_nil, or_false] at hs
    rcases hs with rfl | rfl
    · exact hstrings
    · exact hblobs

/-- A method record is no table. -/
theorem no_table {s : Section} (h : s.tag = .method) : s.strings? = none ∧ s.blobs? = none := by
  cases s with
  | method => exact ⟨rfl, rfl⟩
  | strings => cases h
  | blobs => cases h

theorem ofBytes (h : Closed ss strings blobs) :
    Module.ofBytes (streamBytes order (ss ++ [.strings strings, .blobs blobs])) =
      .ok ⟨order, ss.filterMap Section.record?, strings.toArray, blobs.toArray⟩ := by
  have hstrings : ss.findSome? Section.strings? = none :=
    List.findSome?_eq_none_iff.mpr fun s hs => (no_table (h.methods s hs)).1
  have hblobs : ss.findSome? Section.blobs? = none :=
    List.findSome?_eq_none_iff.mpr fun s hs => (no_table (h.methods s hs)).2
  have hrecords : [Section.strings strings, .blobs blobs].filterMap Section.record? = [] := rfl
  rw [Module.ofBytes_streamBytes h.fits (once h.methods), Module.ofSections, List.findSome?_append,
    List.findSome?_append, hstrings, hblobs, List.filterMap_append, hrecords, List.append_nil]
  rfl

/-- **A cut stream is not accepted**, wherever the cut lies. -/
theorem ofBytes_cut (h : Closed ss strings blobs) {part : List UInt8}
    (hpart : part <+: streamBytes order (ss ++ [.strings strings, .blobs blobs]))
    (hproper : part ≠ streamBytes order (ss ++ [.strings strings, .blobs blobs])) :
    ∃ e, Module.ofBytes part = .error e ∧
      ((∃ place needed, e = .endOfStream place needed) ∨ ∃ t, e = .missingSection t) := by
  rcases Module.ofBytes_cut h.fits (once h.methods) hpart hproper with
    ⟨place, needed, herror⟩ | ⟨kept, hkept, hne, hread⟩
  · exact ⟨_, herror, .inl ⟨place, needed, rfl⟩⟩
  -- the sections before the cut lack the last one, the blob table
  · have hlast : ss ++ [.strings strings, .blobs blobs] =
        (ss ++ [.strings strings]) ++ [.blobs blobs] := by simp
    rw [hlast] at hkept hne
    have hbefore : kept <+: ss ++ [.strings strings] :=
      (List.prefix_concat_iff.mp hkept).resolve_left hne
    have hblobs : kept.findSome? Section.blobs? = none := by
      refine List.findSome?_eq_none_iff.mpr fun s hs => ?_
      rcases List.mem_append.mp (hbefore.subset hs) with hmethod | hlast
      · exact (no_table (h.methods s hmethod)).2
      · rw [List.mem_singleton.mp hlast]
        rfl
    rw [hread, Module.ofSections, hblobs]
    cases kept.findSome? Section.strings? with
    | none => exact ⟨_, rfl, .inr ⟨.string, rfl⟩⟩
    | some _ => exact ⟨_, rfl, .inr ⟨.blob, rfl⟩⟩

end Closed
end MethodPack.Packed
