import MethodPack.Proofs.Streams

/-!
# Grammar

The reader accepts the streams of the format and nothing else. A reader is `Sound` when
the bytes it took are those that are written for what it made of them; soundness goes
through the sequencing of readers as reading back does. Main statement: a stream is
accepted when it is the marker and a sequence of sections, one string table and one blob
table among them, and there is one such sequence at most (`ofBytes_eq_ok_iff_isStream`).
-/

namespace MethodPack.Packed

namespace Reader

variable {α β : Type}

/-- A sequence that succeeds is two readers that succeed. -/
theorem exists_of_bind_ok {r : Reader α} {f : α → Reader β} {c c' : Cursor} {y : β}
    (h : (r >>= f) c = .ok (y, c')) : ∃ x c₁, r c = .ok (x, c₁) ∧ f x c₁ = .ok (y, c') := by
  rw [bind_apply] at h
  cases hr : r c with
  | error _ =>
    rw [hr] at h
    cases h
  | ok p =>
    rw [hr] at h
    exact ⟨p.1, p.2, rfl, h⟩

theorem offset_bind_apply (f : Nat → Reader β) (c : Cursor) :
    (offset >>= f) c = f c.offset c := rfl

/-! ## Sound readers -/

/-- What the reader makes of some bytes satisfies `P`, and `bytes` gives the bytes that it
took for it. -/
def Sound (r : Reader α) (P : α → Prop) (bytes : α → List UInt8) : Prop :=
  ∀ ⦃c x c'⦄, r c = .ok (x, c') → P x ∧ c.rest = bytes x ++ c'.rest

namespace Sound

theorem take (n : Nat) : Sound (Reader.take n) (fun bytes => bytes.length = n) id := by
  intro c bytes c' h
  simp only [Reader.take] at h
  split at h
  · rename_i hlen
    cases h
    exact ⟨hlen, (List.take_append_drop n c.rest).symm⟩
  · cases h

theorem byte : Sound Reader.byte (fun _ => True) (fun b => [b]) := by
  intro c b c' h
  obtain ⟨bytes, c₁, htake, hlast⟩ := exists_of_bind_ok h
  obtain ⟨hlen, hrest⟩ := take 1 htake
  cases hlast
  obtain ⟨b, rfl⟩ := List.length_eq_one_iff.mp hlen
  exact ⟨trivial, hrest⟩

variable (order : ByteOrder)

theorem word64 : Sound (Reader.word64 order) (fun _ => True) order.encode64 := by
  intro c n c' h
  obtain ⟨bytes, c₁, htake, hlast⟩ := exists_of_bind_ok h
  obtain ⟨hlen, hrest⟩ := take 8 htake
  cases hlast
  exact ⟨trivial, by rwa [ByteOrder.encode64_decode64 order hlen]⟩

theorem int32 : Sound (Reader.int32 order) (fun _ => True) order.encodeInt32 := by
  intro c n c' h
  obtain ⟨bytes, c₁, htake, hlast⟩ := exists_of_bind_ok h
  obtain ⟨hlen, hrest⟩ := take 4 htake
  cases hlast
  exact ⟨trivial, by rwa [ByteOrder.encodeInt32_decodeInt32 order hlen]⟩

theorem count (what : Counted) :
    Sound (Reader.count order what) (fun n => n ≤ maxLength) (countBytes order) := by
  intro c n c' h
  rw [Reader.count, offset_bind_apply] at h
  obtain ⟨value, c₁, hvalue, hlast⟩ := exists_of_bind_ok h
  obtain ⟨_, hrest⟩ := int32 order hvalue
  split at hlast
  · cases hlast
  · rename_i hnonneg
    cases hlast
    obtain ⟨hle, hword⟩ := ofNat_toInt_of_nonneg hnonneg
    exact ⟨hle, by rwa [countBytes, hword]⟩

/-- Reading `n` things one after the other takes the bytes of each. -/
theorem repeating_ok {read : Nat → Reader α} {P : α → Prop} {bytes : α → List UInt8}
    (h : ∀ k, Sound (read k) P bytes) {n first : Nat} {before ys : List α} {c c' : Cursor}
    (hrun : Reader.repeating read n first before c = .ok (ys, c')) :
    ∃ xs, ys = before.reverse ++ xs ∧ xs.length = n ∧ (∀ x ∈ xs, P x) ∧
      c.rest = xs.flatMap bytes ++ c'.rest := by
  induction n generalizing first before c with
  | zero =>
    cases hrun
    exact ⟨[], by simp⟩
  | succ n ih =>
    obtain ⟨x, c₁, hfirst, hnext⟩ := exists_of_bind_ok hrun
    obtain ⟨hx, hrest⟩ := h first hfirst
    obtain ⟨xs, rfl, hlen, hxs, hrest₁⟩ := ih hnext
    refine ⟨x :: xs, by simp, by simp [hlen], List.forall_mem_cons.mpr ⟨hx, hxs⟩, ?_⟩
    rw [hrest, hrest₁, List.flatMap_cons, List.append_assoc]

theorem repeating {read : Nat → Reader α} {P : α → Prop} {bytes : α → List UInt8}
    (h : ∀ k, Sound (read k) P bytes) (n first : Nat) :
    Sound (Reader.repeating read n first []) (fun xs => xs.length = n ∧ ∀ x ∈ xs, P x)
      (fun xs => xs.flatMap bytes) := by
  intro c ys c' hrun
  obtain ⟨xs, rfl, hlen, hxs, hrest⟩ := repeating_ok h hrun
  exact ⟨⟨hlen, hxs⟩, hrest⟩

theorem instruction :
    Sound (Reader.instruction order) (fun _ => True) (RawInstruction.bytes order) := by
  intro c i c' h
  rw [Reader.instruction, offset_bind_apply] at h
  obtain ⟨b, c₁, hbyte, hnext⟩ := exists_of_bind_ok h
  obtain ⟨_, hrest⟩ := byte hbyte
  cases hopcode : Opcode.ofByte? b with
  | none =>
    simp only [hopcode] at hnext
    cases hnext
  | some opcode =>
    simp only [hopcode] at hnext
    obtain ⟨raw, c₂, hraw, hlast⟩ := exists_of_bind_ok hnext
    cases hlast
    obtain ⟨_, hrest₁⟩ := word64 order hraw
    refine ⟨trivial, ?_⟩
    rw [hrest, hrest₁, RawInstruction.bytes, byte_of_ofByte? hopcode]
    rfl

theorem string (number : Nat) : Sound (Reader.string order number)
    (fun s => (Text.toUtf8 s).length ≤ maxLength)
    (fun s => entryBytes order (Text.toUtf8 s)) := by
  intro c s c' h
  obtain ⟨length, c₁, hcount, hnext⟩ := exists_of_bind_ok h
  obtain ⟨bytes, c₂, htake, hlast⟩ := exists_of_bind_ok hnext
  obtain ⟨hle, hrest⟩ := count order _ hcount
  obtain ⟨hlen, hrest₁⟩ := take length htake
  cases hs : Text.ofUtf8? bytes with
  | none =>
    simp only [hs] at hlast
    cases hlast
  | some s' =>
    simp only [hs] at hlast
    cases hlast
    obtain rfl := Text.toUtf8_of_ofUtf8? hs
    subst hlen
    refine ⟨hle, ?_⟩
    rw [hrest, hrest₁]
    exact (List.append_assoc _ _ _).symm

theorem blob : Sound (Reader.count order .blobLength >>= Reader.take)
    (fun b => b.length ≤ maxLength) (entryBytes order) := by
  intro c b c' h
  obtain ⟨length, c₁, hcount, htake⟩ := exists_of_bind_ok h
  obtain ⟨hle, hrest⟩ := count order _ hcount
  obtain ⟨hlen, hrest₁⟩ := take length htake
  subst hlen
  refine ⟨hle, ?_⟩
  rw [hrest, hrest₁]
  exact (List.append_assoc _ _ _).symm

theorem tag : Sound Reader.tag (fun _ => True) (fun t => [t.byte]) := by
  intro c t c' h
  rw [Reader.tag, offset_bind_apply] at h
  obtain ⟨b, c₁, hbyte, hlast⟩ := exists_of_bind_ok h
  obtain ⟨_, hrest⟩ := byte hbyte
  cases ht : SectionTag.ofByte? b with
  | none =>
    simp only [ht] at hlast
    cases hlast
  | some t' =>
    simp only [ht] at hlast
    cases hlast
    obtain rfl := SectionTag.byte_of_ofByte? ht
    exact ⟨trivial, hrest⟩

theorem marker :
    Sound Reader.marker (fun _ => True) (fun order => order.encode16 version) := by
  intro c order c' h
  obtain ⟨bytes, c₁, htake, hlast⟩ := exists_of_bind_ok h
  obtain ⟨hlen, hrest⟩ := take 2 htake
  cases horder : ByteOrder.detect? bytes with
  | none =>
    simp only [horder] at hlast
    cases hlast
  | some order' =>
    simp only [horder] at hlast
    cases hlast
    obtain rfl := ByteOrder.marker_of_detect? hlen horder
    exact ⟨trivial, hrest⟩

/-- What is read behind a tag is a section with this tag and within the limits. -/
theorem sectionOf (t : SectionTag) : Sound (Reader.sectionOf order t)
    (fun s => s.tag = t ∧ s.Fits) (Section.content order) := by
  intro c s c' h
  cases t with
  | method =>
    obtain ⟨key, c₁, hkey, h⟩ := exists_of_bind_ok h
    obtain ⟨signature, c₂, hsignature, h⟩ := exists_of_bind_ok h
    obtain ⟨n, c₃, hcount, h⟩ := exists_of_bind_ok h
    obtain ⟨body, c₄, hbody, hlast⟩ := exists_of_bind_ok h
    cases hlast
    obtain ⟨_, hrest⟩ := word64 order hkey
    obtain ⟨_, hrest₁⟩ := int32 order hsignature
    obtain ⟨hle, hrest₂⟩ := count order _ hcount
    obtain ⟨⟨rfl, _⟩, hrest₃⟩ := repeating (fun _ => instruction order) _ _ hbody
    refine ⟨⟨rfl, hle⟩, ?_⟩
    rw [hrest, hrest₁, hrest₂, hrest₃]
    simp only [Section.content, List.append_assoc]
  | string =>
    obtain ⟨n, c₁, hcount, h⟩ := exists_of_bind_ok h
    obtain ⟨entries, c₂, hentries, hlast⟩ := exists_of_bind_ok h
    cases hlast
    obtain ⟨hle, hrest⟩ := count order _ hcount
    obtain ⟨⟨rfl, hlens⟩, hrest₁⟩ := repeating (string order) _ _ hentries
    refine ⟨⟨rfl, hle, hlens⟩, ?_⟩
    rw [hrest, hrest₁]
    simp only [Section.content, List.append_assoc]
  | blob =>
    obtain ⟨n, c₁, hcount, h⟩ := exists_of_bind_ok h
    obtain ⟨entries, c₂, hentries, hlast⟩ := exists_of_bind_ok h
    cases hlast
    obtain ⟨hle, hrest⟩ := count order _ hcount
    obtain ⟨⟨rfl, hlens⟩, hrest₁⟩ := repeating (fun _ => blob order) _ _ hentries
    refine ⟨⟨rfl, hle, hlens⟩, ?_⟩
    rw [hrest, hrest₁]
    simp only [Section.content, List.append_assoc]

/-- What a round reads is a section that fits, and no table that was seen. -/
theorem round (seen : List SectionTag) : Sound (Reader.round order seen)
    (fun p => p.2.tag = p.1 ∧ p.1 ∉ seen ∧ p.2.Fits) (fun p => p.2.bytes order) := by
  intro c p c' h
  obtain ⟨t, c₁, htag, h⟩ := exists_of_bind_ok h
  obtain ⟨_, hrest⟩ := tag htag
  by_cases hseen : t ∈ seen
  · simp only [hseen, if_true] at h
    cases h
  · simp only [hseen, if_false] at h
    obtain ⟨s, c₂, hsection, hlast⟩ := exists_of_bind_ok h
    obtain ⟨⟨rfl, hfits⟩, hrest₁⟩ := sectionOf order _ hsection
    cases hlast
    refine ⟨⟨rfl, hseen, hfits⟩, ?_⟩
    show c.rest = s.bytes order ++ c'.rest
    rw [hrest, hrest₁, Section.bytes_eq]
    rfl

end Sound

/-- A round takes a byte at least, the tag. -/
theorem round_shorter {order : ByteOrder} {seen : List SectionTag} {p : SectionTag × Section}
    {c c' : Cursor} (h : round order seen c = .ok (p, c')) : c'.rest.length < c.rest.length := by
  have hrest : c.rest = p.2.bytes order ++ c'.rest := (Sound.round order seen h).2
  rw [hrest, Section.bytes_eq, List.length_append, List.length_cons]
  omega

/-- Sections that were read to the end fit, repeat no table, and take all the bytes. -/
theorem sections_ok {order : ByteOrder} {fuel : Nat} {seen : List SectionTag}
    {before ys : List Section} {c c' : Cursor}
    (h : sections order fuel seen before c = .ok (ys, c')) (hfuel : c.rest.length ≤ fuel) :
    ∃ ss, ys = before.reverse ++ ss ∧ (∀ s ∈ ss, s.Fits) ∧ Once seen ss ∧
      c.rest = ss.flatMap (Section.bytes order) := by
  induction fuel generalizing seen before c with
  | zero =>
    have hend : c.rest = [] := List.length_eq_zero_iff.mp (Nat.le_zero.mp hfuel)
    cases h
    exact ⟨[], by simp [Once, hend]⟩
  | succ fuel ih =>
    obtain ⟨offset, bytes⟩ := c
    by_cases hend : bytes = []
    · subst hend
      rw [sections_nil] at h
      cases h
      exact ⟨[], by simp [Once]⟩
    · rw [sections_round hend] at h
      obtain ⟨⟨t, s⟩, c₁, hround, h⟩ := exists_of_bind_ok h
      obtain ⟨⟨htag, hseen, hfits⟩, hbytes⟩ := Sound.round order seen hround
      simp only at htag hseen hfits hbytes h
      subst htag
      have hfuel₁ : c₁.rest.length ≤ fuel :=
        Nat.le_of_lt_succ (Nat.lt_of_lt_of_le (round_shorter hround) hfuel)
      obtain ⟨ss, rfl, hfitss, honce, hrest⟩ := ih h hfuel₁
      refine ⟨s :: ss, by simp, List.forall_mem_cons.mpr ⟨hfits, hfitss⟩, ⟨hseen, honce⟩, ?_⟩
      rw [hbytes, hrest, List.flatMap_cons]

/-- A repeated table is a table that occurs twice, or once behind those that were seen. -/
theorem once_iff {seen : List SectionTag} (hseen : .method ∉ seen) {ss : List Section} :
    Once seen ss ↔ ∀ t, t ≠ .method →
      (ss.map Section.tag).count t ≤ if t ∈ seen then 0 else 1 := by
  induction ss generalizing seen with
  | nil => simp [Once]
  | cons s ss ih =>
    by_cases hs : s.tag = .method
    · have hcount (t : SectionTag) (ht : t ≠ .method) :
          ((s :: ss).map Section.tag).count t = (ss.map Section.tag).count t := by
        rw [List.map_cons, hs, List.count_cons_of_ne ht.symm]
      rw [Once, seenBehind, if_pos hs, ih hseen, hs]
      constructor
      · intro h t ht
        rw [hcount t ht]
        exact h.2 t ht
      · intro h
        refine ⟨hseen, fun t ht => ?_⟩
        rw [← hcount t ht]
        exact h t ht
    · have hseen' : SectionTag.method ∉ s.tag :: seen := by simp [hseen, Ne.symm hs]
      rw [Once, seenBehind, if_neg hs, ih hseen']
      constructor
      · rintro ⟨hnew, h⟩ t ht
        have hrest := h t ht
        by_cases hts : s.tag = t
        · subst hts
          simp only [List.mem_cons, true_or, if_true, List.map_cons, List.count_cons_self,
            hnew, if_false] at hrest ⊢
          omega
        · simpa [List.map_cons, List.count_cons_of_ne hts, Ne.symm hts] using hrest
      · intro h
        have hown := h s.tag hs
        rw [List.map_cons, List.count_cons_self] at hown
        have hnew : s.tag ∉ seen := by
          intro hmem
          rw [if_pos hmem] at hown
          omega
        rw [if_neg hnew] at hown
        refine ⟨hnew, fun t ht => ?_⟩
        by_cases hts : s.tag = t
        · subst hts
          simp only [List.mem_cons, true_or, if_true]
          omega
        · simpa [List.map_cons, List.count_cons_of_ne hts, Ne.symm hts] using h t ht

end Reader

/-! ## The sections of a module -/

theorem Section.strings?_eq_some_iff (s : Section) (entries : List String) :
    s.strings? = some entries ↔ s = .strings entries := by
  cases s <;> simp [strings?]

theorem Section.blobs?_eq_some_iff (s : Section) (entries : List (List UInt8)) :
    s.blobs? = some entries ↔ s = .blobs entries := by
  cases s <;> simp [blobs?]

/-- Of the sections of one form there is one at most, so the first that is found is any that
occurs. -/
theorem findSome?_eq_some_iff_mem {α : Type} {t : SectionTag} {f : Section → Option α}
    {mk : α → Section} (hf : ∀ s x, f s = some x ↔ s = mk x) (htag : ∀ x, (mk x).tag = t)
    {ss : List Section} (hone : (ss.map Section.tag).count t ≤ 1) {x : α} :
    ss.findSome? f = some x ↔ mk x ∈ ss := by
  induction ss with
  | nil => simp
  | cons s ss ih =>
    rw [List.map_cons, List.count_cons] at hone
    cases hs : f s with
    | none =>
      have hne : mk x ≠ s := fun h => by
        rw [(hf s x).mpr h.symm] at hs
        cases hs
      rw [List.findSome?_cons, hs, List.mem_cons]
      simp only [hne, false_or]
      exact ih (by omega)
    | some y =>
      obtain rfl := (hf s y).mp hs
      have hrest : mk x ∉ ss := fun h => by
        have hmem : t ∈ ss.map Section.tag := htag x ▸ List.mem_map_of_mem h
        have := List.count_pos_iff.mpr hmem
        rw [htag y, beq_self_eq_true, if_pos rfl] at hone
        omega
      have hinj : mk x = mk y ↔ y = x := by
        rw [← hf, (hf _ x).mpr rfl, Option.some.injEq, eq_comm]
      rw [List.findSome?_cons, hs, List.mem_cons, hinj]
      simp [hrest]

namespace Module

/-- The module holds what the sections hold: the method records in their order, each with
its signature word taken apart, and the entries of both tables. -/
structure ConsistsOf (m : Module) (order : ByteOrder) (ss : List Section) : Prop where
  order : m.order = order
  methods : m.methods = ss.filterMap Section.record?
  strings : .strings m.strings.toList ∈ ss
  blobs : .blobs m.blobs.toList ∈ ss

variable {order : ByteOrder} {ss : List Section} {m : Module}

/-- Sections without a repeated table make up the module that consists of them. -/
theorem ofSections_eq_ok_iff (hstrings : (ss.map Section.tag).count .string ≤ 1)
    (hblobs : (ss.map Section.tag).count .blob ≤ 1) :
    ofSections order ss = .ok m ↔ m.ConsistsOf order ss := by
  have hstring (entries : List String) :
      ss.findSome? Section.strings? = some entries ↔ .strings entries ∈ ss :=
    findSome?_eq_some_iff_mem (t := .string) Section.strings?_eq_some_iff (fun _ => rfl) hstrings
  have hblob (entries : List (List UInt8)) :
      ss.findSome? Section.blobs? = some entries ↔ .blobs entries ∈ ss :=
    findSome?_eq_some_iff_mem (t := .blob) Section.blobs?_eq_some_iff (fun _ => rfl) hblobs
  rw [ofSections]
  constructor
  · intro h
    split at h
    · cases h
    · cases h
    · rename_i strings blobs hs hb
      cases h
      exact ⟨rfl, rfl, (hstring strings).mp hs, (hblob blobs).mp hb⟩
  · intro h
    rw [(hstring _).mpr h.strings, (hblob _).mpr h.blobs]
    simp only [Array.toArray_toList, ← h.methods, ← h.order]

end Module

/-! ## Streams -/

/-- The bytes are a stream of the sections: the marker and then each section in full, its
counts and lengths being words that are not negative. One section is a string table and one
is a blob table, at any places. -/
structure IsStream (order : ByteOrder) (ss : List Section) (bytes : List UInt8) : Prop where
  bytes : bytes = streamBytes order ss
  fits : ∀ s ∈ ss, s.Fits
  oneStringTable : (ss.map Section.tag).count .string = 1
  oneBlobTable : (ss.map Section.tag).count .blob = 1

namespace IsStream

variable {order order' : ByteOrder} {ss ss' : List Section} {bytes : List UInt8}

theorem once (h : IsStream order ss bytes) : Reader.Once [] ss := by
  rw [Reader.once_iff List.not_mem_nil]
  intro t ht
  rw [if_neg List.not_mem_nil]
  cases t with
  | method => exact absurd rfl ht
  | string => exact Nat.le_of_eq h.oneStringTable
  | blob => exact Nat.le_of_eq h.oneBlobTable

/-- Reading finds the order and the sections of a stream. -/
theorem reads (h : IsStream order ss bytes) : ∃ c c', Reader.marker ⟨0, bytes⟩ = .ok (order, c) ∧
    Reader.sections order c.rest.length [] [] c = .ok (ss, c') := by
  rw [h.bytes, streamBytes]
  obtain ⟨c', hc'⟩ := Reader.sections_flatMap [] (0 + (order.encode16 version).length) h.fits h.once
    (Nat.le_refl (ss.flatMap (Section.bytes order)).length)
  exact ⟨_, c', Reader.Reads.marker order 0 _, hc'⟩

/-- The bytes of a stream determine its order and its sections. -/
theorem unique (h : IsStream order ss bytes) (h' : IsStream order' ss' bytes) :
    order = order' ∧ ss = ss' := by
  obtain ⟨c, c₁, hmarker, hsections⟩ := h.reads
  obtain ⟨c', c₁', hmarker', hsections'⟩ := h'.reads
  rw [hmarker] at hmarker'
  cases hmarker'
  rw [hsections] at hsections'
  cases hsections'
  exact ⟨rfl, rfl⟩

end IsStream

namespace Module

variable {bytes : List UInt8} {m : Module}

/-- A module that was read consists of the sections of a stream. -/
theorem isStream_of_ofBytes (h : ofBytes bytes = .ok m) :
    ∃ order ss, IsStream order ss bytes ∧ m.ConsistsOf order ss := by
  rw [ofBytes_eq] at h
  cases hmarker : Reader.marker ⟨0, bytes⟩ with
  | error e =>
    simp only [hmarker] at h
    cases h
  | ok p =>
    obtain ⟨order, c⟩ := p
    cases hsections : Reader.sections order c.rest.length [] [] c with
    | error e =>
      simp only [hmarker, hsections] at h
      cases h
    | ok q =>
      obtain ⟨ss, c'⟩ := q
      simp only [hmarker, hsections] at h
      obtain ⟨_, hbytes⟩ := Reader.Sound.marker hmarker
      obtain ⟨ss, rfl, hfits, honce, hrest⟩ := Reader.sections_ok hsections (Nat.le_refl _)
      rw [hrest] at hbytes
      rw [Reader.once_iff List.not_mem_nil] at honce
      have hstrings := honce .string (by decide)
      have hblobs := honce .blob (by decide)
      have hm : m.ConsistsOf order ss := (ofSections_eq_ok_iff hstrings hblobs).mp h
      have hstring := List.count_pos_iff.mpr (List.mem_map_of_mem (f := Section.tag) hm.strings)
      have hblob := List.count_pos_iff.mpr (List.mem_map_of_mem (f := Section.tag) hm.blobs)
      exact ⟨order, ss, ⟨hbytes, hfits, Nat.le_antisymm hstrings hstring,
        Nat.le_antisymm hblobs hblob⟩, hm⟩

/-- **The reader accepts exactly the streams of the format**: the marker and a sequence of
sections, with one string table and one blob table among them. The order and the sections are
unique, and the module consists of them. The opcode bytes are those below 219. -/
theorem ofBytes_eq_ok_iff_isStream (bytes : List UInt8) :
    (∀ m, ofBytes bytes = .ok m ↔
      ∃ order ss, IsStream order ss bytes ∧ m.ConsistsOf order ss) ∧
    (∀ order ss order' ss', IsStream order ss bytes → IsStream order' ss' bytes →
      order = order' ∧ ss = ss') ∧
    ∀ b : UInt8, (∃ c : Opcode, c.byte = b) ↔ b.toNat < 219 := by
  refine ⟨fun m => ⟨isStream_of_ofBytes, ?_⟩, fun _ _ _ _ h h' => h.unique h', exists_byte_iff⟩
  rintro ⟨order, ss, hstream, hm⟩
  rw [hstream.bytes, ofBytes_streamBytes hstream.fits hstream.once]
  exact (ofSections_eq_ok_iff (Nat.le_of_eq hstream.oneStringTable)
    (Nat.le_of_eq hstream.oneBlobTable)).mpr hm

/-- A stream in big-endian order, with its blob table in front and its string table at the
end of it. -/
theorem ofBytes_eq_ok_iff_isStream_sample :
    let bytes : List UInt8 := [0, 1, 2, 0, 0, 0, 0, 0, 0, 1, 0, 1, 0, 0, 0, 1, 0, 0, 0, 3,
      0, 0, 0, 1, 41, 0, 0, 0, 0, 0, 0, 0, 0, 1, 0, 0, 0, 1, 0, 0, 0, 1, 78]
    (∃ m, ofBytes bytes = .ok m ∧ m.strings = #["N"] ∧
      m.methods = [⟨⟨0x0001000100000001⟩, ⟨1, true⟩, [⟨.ret, 0⟩]⟩]) ∧
    ∀ order ss, IsStream order ss bytes → order = .big ∧ ss.length = 3 := by
  intro bytes
  have hstream : IsStream .big [.blobs [], .method ⟨0x0001000100000001⟩ 3 [⟨.ret, 0⟩],
      .strings ["N"]] bytes :=
    ⟨by decide, by simp [Section.Fits, maxLength]; decide, by decide, by decide⟩
  refine ⟨⟨⟨.big, _, #["N"], #[]⟩, ?_, rfl, rfl⟩, fun order ss h => ?_⟩
  · exact ((ofBytes_eq_ok_iff_isStream bytes).1 _).mpr
      ⟨_, _, hstream, ⟨rfl, by decide, by decide, by decide⟩⟩
  · obtain ⟨rfl, rfl⟩ := (ofBytes_eq_ok_iff_isStream bytes).2.1 _ _ _ _ h hstream
    exact ⟨rfl, rfl⟩

end Module
end MethodPack.Packed
