import MethodPack.Packed.Cursor
import MethodPack.Proofs.Words

/-!
# Reading

Two properties that every reader of the format has, each carried through the
sequencing of readers:

* `Steady`: what a reader says about some bytes is settled by those it took. More
  bytes behind them change nothing, unless it failed for want of bytes.
* `Reads`: what a reader makes of the bytes that were written for it, whatever
  follows them.

A steady reader cannot make do with less than what was written, so a cut runs out
of bytes (`Steady.cut`).
-/

namespace MethodPack.Packed

namespace Reader

variable {α β : Type}

theorem bind_apply (r : Reader α) (f : α → Reader β) (c : Cursor) :
    (r >>= f) c = match r c with
      | .ok (x, c') => f x c'
      | .error e => .error e := by
  show (r c).bind (fun p => f p.1 p.2) = _
  cases r c <;> rfl

@[simp] theorem pure_apply (x : α) (c : Cursor) : (pure x : Reader α) c = .ok (x, c) := rfl

@[simp] theorem throw_apply (e : StreamError) (c : Cursor) :
    (throw e : Reader α) c = .error e := rfl

/-! ## Steady readers -/

/-- The want of bytes that a reader reports when `available` bytes follow `offset`. -/
def WantsBytes (offset available : Nat) (e : StreamError) : Prop :=
  ∃ place needed, e = .endOfStream place needed ∧ offset ≤ place ∧
    place ≤ offset + available ∧ offset + available < place + needed

/-- What the reader says is settled by the bytes it took, want of bytes apart. -/
structure Steady (r : Reader α) : Prop where
  ok : ∀ {offset bytes x c}, r ⟨offset, bytes⟩ = .ok (x, c) →
    ∃ used, bytes = used ++ c.rest ∧ c.offset = offset + used.length ∧
      ∀ more, r ⟨offset, bytes ++ more⟩ = .ok (x, ⟨c.offset, c.rest ++ more⟩)
  error : ∀ {offset bytes e}, r ⟨offset, bytes⟩ = .error e →
    WantsBytes offset bytes.length e ∨
      (∀ place needed, e ≠ .endOfStream place needed) ∧
        ∀ more, r ⟨offset, bytes ++ more⟩ = .error e

namespace Steady

theorem pure (x : α) : Steady (Pure.pure x : Reader α) where
  ok h := by
    cases h
    exact ⟨[], by simp⟩
  error h := by cases h

theorem throw (e : StreamError) (he : ∀ place needed, e ≠ .endOfStream place needed) :
    Steady (throw e : Reader α) where
  ok h := by cases h
  error h := by
    cases h
    exact .inr ⟨he, fun _ => rfl⟩

theorem bind {r : Reader α} {f : α → Reader β} (hr : Steady r) (hf : ∀ x, Steady (f x)) :
    Steady (r >>= f) where
  ok {offset bytes y c} h := by
    rw [bind_apply] at h
    cases hfirst : r ⟨offset, bytes⟩ with
    | error e => simp [hfirst] at h
    | ok p =>
      obtain ⟨x, c₁⟩ := p
      simp only [hfirst] at h
      obtain ⟨used₁, hbytes, hoffset, hmore₁⟩ := hr.ok hfirst
      obtain ⟨used₂, hrest, hoffset₂, hmore₂⟩ := (hf x).ok h
      refine ⟨used₁ ++ used₂, by rw [hbytes, hrest, List.append_assoc], ?_, fun more => ?_⟩
      · rw [hoffset₂, hoffset, List.length_append, Nat.add_assoc]
      · rw [bind_apply, hmore₁]
        exact hmore₂ more
  error {offset bytes e} h := by
    rw [bind_apply] at h
    cases hfirst : r ⟨offset, bytes⟩ with
    | error e₁ =>
      simp only [hfirst] at h
      cases h
      refine (hr.error hfirst).imp_right fun ⟨hother, hmore⟩ => ⟨hother, fun more => ?_⟩
      rw [bind_apply, hmore]
    | ok p =>
      obtain ⟨x, c₁⟩ := p
      simp only [hfirst] at h
      obtain ⟨used₁, hbytes, hoffset, hmore₁⟩ := hr.ok hfirst
      -- the second reader starts where the first stopped, and the stream ends where it did
      have hlength : offset + bytes.length = c₁.offset + c₁.rest.length := by
        rw [hbytes, hoffset, List.length_append, Nat.add_assoc]
      rcases (hf x).error h with ⟨place, needed, he, hlow, hhigh, hwant⟩ | ⟨hother, hmore⟩
      · exact .inl ⟨place, needed, he, by omega, by omega, by omega⟩
      · refine .inr ⟨hother, fun more => ?_⟩
        rw [bind_apply, hmore₁]
        exact hmore more

theorem offset : Steady Reader.offset where
  ok h := by
    cases h
    exact ⟨[], rfl, rfl, fun _ => rfl⟩
  error h := by cases h

theorem take (n : Nat) : Steady (Reader.take n) where
  ok {offset bytes x c} h := by
    simp only [Reader.take] at h
    split at h
    · rename_i hlen
      cases h
      have hn : n ≤ bytes.length := by
        rw [List.length_take] at hlen
        omega
      refine ⟨bytes.take n, (List.take_append_drop n bytes).symm, by simp [hlen], fun more => ?_⟩
      simp only [Reader.take, List.take_append_of_le_length hn, List.drop_append_of_le_length hn,
        hlen, if_true]
    · cases h
  error {offset bytes e} h := by
    simp only [Reader.take] at h
    split at h
    · cases h
    · rename_i hlen
      cases h
      rw [List.length_take] at hlen
      exact .inl ⟨offset, n, rfl, by omega, by omega, by omega⟩

theorem byte : Steady Reader.byte := (take 1).bind fun _ => .pure _

theorem word64 (order : ByteOrder) : Steady (Reader.word64 order) :=
  (take 8).bind fun _ => .pure _

theorem int32 (order : ByteOrder) : Steady (Reader.int32 order) := (take 4).bind fun _ => .pure _

theorem count (order : ByteOrder) (what : Counted) : Steady (Reader.count order what) := by
  refine Steady.offset.bind fun place => (int32 order).bind fun value => ?_
  split
  · exact .throw _ (by simp)
  · exact .pure _

theorem repeating {read : Nat → Reader α} (h : ∀ k, Steady (read k)) (n first : Nat)
    (before : List α) : Steady (Reader.repeating read n first before) := by
  induction n generalizing first before with
  | zero => exact .pure _
  | succ n ih => exact (h first).bind fun x => ih (first + 1) (x :: before)

theorem instruction (order : ByteOrder) : Steady (Reader.instruction order) := by
  refine Steady.offset.bind fun place => byte.bind fun b => ?_
  split
  · exact .throw _ (by simp)
  · exact (word64 order).bind fun _ => .pure _

theorem string (order : ByteOrder) (number : Nat) : Steady (Reader.string order number) := by
  refine (count order _).bind fun length => (take length).bind fun bytes => ?_
  split
  · exact .throw _ (by simp)
  · exact .pure _

theorem tag : Steady Reader.tag := by
  refine Steady.offset.bind fun place => byte.bind fun b => ?_
  split
  · exact .throw _ (by simp)
  · exact .pure _

theorem marker : Steady Reader.marker := by
  refine (take 2).bind fun bytes => ?_
  split
  · exact .throw _ (by simp)
  · exact .pure _

theorem sectionOf (order : ByteOrder) (t : SectionTag) : Steady (Reader.sectionOf order t) := by
  cases t with
  | method =>
    exact (word64 order).bind fun key => (int32 order).bind fun signature =>
      (count order _).bind fun n => (repeating (fun _ => instruction order) n 0 []).bind fun _ =>
        .pure _
  | string =>
    exact (count order _).bind fun n => (repeating (string order) n 1 []).bind fun _ => .pure _
  | blob =>
    exact (count order _).bind fun n =>
      (repeating (fun _ => (count order _).bind take) n 0 []).bind fun _ => .pure _

end Steady

/-! ## What is read back -/

/-- The reader makes `x` of `bytes`, whatever follows them. -/
def Reads (r : Reader α) (bytes : List UInt8) (x : α) : Prop :=
  ∀ offset more, r ⟨offset, bytes ++ more⟩ = .ok (x, ⟨offset + bytes.length, more⟩)

namespace Reads

theorem pure (x : α) : Reads (Pure.pure x : Reader α) [] x := fun _ _ => rfl

theorem bind {r : Reader α} {f : α → Reader β} {bytes bytes' : List UInt8} {x : α} {y : β}
    (hr : Reads r bytes x) (hf : Reads (f x) bytes' y) : Reads (r >>= f) (bytes ++ bytes') y := by
  intro offset more
  rw [bind_apply, List.append_assoc, hr]
  show f x ⟨offset + bytes.length, bytes' ++ more⟩ = _
  rw [hf, List.length_append, Nat.add_assoc]

/-- The last step of a reader takes nothing: it judges what was read. -/
theorem last {r : Reader α} {f : α → Reader β} {bytes : List UInt8} {x : α} {y : β}
    (hr : Reads r bytes x) (hf : Reads (f x) [] y) : Reads (r >>= f) bytes y := by
  have h := hr.bind hf
  rwa [List.append_nil] at h

/-- Asking for the offset takes nothing. -/
theorem offset_bind {f : Nat → Reader β} {bytes : List UInt8} {y : β}
    (h : ∀ place, Reads (f place) bytes y) : Reads (Reader.offset >>= f) bytes y :=
  fun place more => h place place more

theorem take {bytes : List UInt8} {n : Nat} (hn : bytes.length = n) :
    Reads (Reader.take n) bytes bytes := by
  intro offset more
  subst hn
  simp [Reader.take]

theorem byte (b : UInt8) : Reads Reader.byte [b] b :=
  (take List.length_singleton).last (pure b)

variable (order : ByteOrder)

theorem word64 (n : UInt64) : Reads (Reader.word64 order) (order.encode64 n) n := by
  refine (take (order.length_encode64 n)).last ?_
  rw [ByteOrder.decode64_encode64]
  exact pure n

theorem int32 (n : Int32) : Reads (Reader.int32 order) (order.encodeInt32 n) n := by
  refine (take (order.length_encodeInt32 n)).last ?_
  rw [ByteOrder.decodeInt32_encodeInt32]
  exact pure n

theorem count (what : Counted) {n : Nat} (hn : n ≤ maxLength) :
    Reads (Reader.count order what) (countBytes order n) n := by
  refine offset_bind fun place => (int32 order (Int32.ofNat n)).last ?_
  have hvalue : (Int32.ofNat n).toInt = n := toInt_ofNat_count hn
  have hnonneg : ¬ Int32.ofNat n < 0 := by
    rw [Int32.lt_iff_toInt_lt, hvalue]
    simp
  rw [if_neg hnonneg, hvalue]
  exact pure n

theorem repeating {read : Nat → Reader α} {bytes : α → List UInt8} (xs : List α)
    (h : ∀ x ∈ xs, ∀ k, Reads (read k) (bytes x) x) (first : Nat) (before : List α) :
    Reads (Reader.repeating read xs.length first before) (xs.flatMap bytes)
      (before.reverse ++ xs) := by
  induction xs generalizing first before with
  | nil =>
    rw [List.append_nil]
    exact pure before.reverse
  | cons x xs ih =>
    have hrest := ih (fun y hy => h y (by simp [hy])) (first + 1) (x :: before)
    rw [List.reverse_cons, List.append_assoc, List.singleton_append] at hrest
    exact (h x (by simp) first).bind hrest

theorem instruction (i : RawInstruction) :
    Reads (Reader.instruction order) (i.bytes order) i := by
  refine offset_bind fun place => (byte i.opcode.byte).bind ?_
  rw [ofByte?_byte]
  exact (word64 order i.raw).last (pure i)

theorem tag (t : SectionTag) : Reads Reader.tag [t.byte] t := by
  refine offset_bind fun place => (byte t.byte).last ?_
  rw [SectionTag.ofByte?_byte]
  exact pure t

theorem string {s : String} (hs : (Text.toUtf8 s).length ≤ maxLength) (number : Nat) :
    Reads (Reader.string order number) (entryBytes order (Text.toUtf8 s)) s := by
  refine (count order .stringLength hs).bind ((take rfl).last ?_)
  rw [Text.ofUtf8?_toUtf8]
  exact pure s

theorem blob {b : List UInt8} (hb : b.length ≤ maxLength) :
    Reads (Reader.count order .blobLength >>= Reader.take) (entryBytes order b) b :=
  (count order .blobLength hb).bind (take rfl)

theorem marker : Reads Reader.marker (order.encode16 version) order := by
  refine (take (order.length_encode16 version)).last ?_
  rw [ByteOrder.detect?_marker]
  exact pure order

end Reads

/-- **A cut runs out of bytes**: a steady reader fails on every proper prefix of the
bytes that were written for it. -/
theorem Steady.cut {r : Reader α} {bytes part : List UInt8} {x : α} (hr : Steady r)
    (h : Reads r bytes x) (hpart : part <+: bytes) (hproper : part ≠ bytes) (offset : Nat) :
    ∃ place needed, r ⟨offset, part⟩ = .error (.endOfStream place needed) := by
  obtain ⟨more, rfl⟩ := hpart
  have hwhole : r ⟨offset, part ++ more⟩ = .ok (x, ⟨offset + (part ++ more).length, []⟩) := by
    simpa using h offset []
  cases hcut : r ⟨offset, part⟩ with
  | ok p =>
    -- a reader that is content with the part leaves the rest of the whole unread
    obtain ⟨y, c⟩ := p
    obtain ⟨_, _, _, hmore⟩ := hr.ok hcut
    have hend := (hmore more).symm.trans hwhole
    simp only [Except.ok.injEq, Prod.mk.injEq, Cursor.mk.injEq, List.append_eq_nil_iff] at hend
    exact absurd (by simp [hend.2.2.2]) hproper
  | error e =>
    rcases hr.error hcut with ⟨place, needed, rfl, _⟩ | ⟨_, hmore⟩
    · exact ⟨place, needed, rfl⟩
    -- any other error would be an error of the whole, too
    · rw [hmore more] at hwhole
      cases hwhole

end Reader
end MethodPack.Packed
