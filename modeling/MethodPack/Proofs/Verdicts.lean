import MethodPack.Proofs.Grammar

/-!
# Verdicts

The reader settles its verdict on a stream by the bytes that it has read so far. When more bytes
follow, an error that is no want of bytes and no missing table stays as it is, and a module that
was read keeps its tables and gains methods at most. Main statement: `ofBytes_append`.
-/

namespace MethodPack.Packed

/-- The error is one that no bytes behind it can mend. -/
def StreamError.Final : StreamError → Prop
  | unknownVersion _ | unknownTag .. | unknownOpcode .. | negativeLength .. | invalidUtf8 _
  | duplicateSection _ => True
  | endOfStream .. | missingSection _ | storage _ => False

namespace Reader

/-! ## Reading on -/

variable {order : ByteOrder} {seen : List SectionTag} {before ys : List Section}
  {offset fuel : Nat} {bytes : List UInt8} {c : Cursor} {e : StreamError}

/-- The next round is the same when more bytes follow, but that there is fuel for them. -/
theorem sections_round_append (h : bytes ≠ []) (more : List UInt8) :
    sections order (fuel + 1 + more.length) seen before ⟨offset, bytes ++ more⟩ =
      (round order seen >>= fun p =>
        sections order (fuel + more.length) (seenBehind seen p.1) (p.2 :: before))
        ⟨offset, bytes ++ more⟩ := by
  rw [show fuel + 1 + more.length = fuel + more.length + 1 by omega]
  exact sections_round (by simp [h])

/-- An error stays when more bytes follow, unless it is the want of bytes where they end. -/
theorem sections_error (h : sections order fuel seen before ⟨offset, bytes⟩ = .error e) :
    WantsBytes offset bytes.length e ∨ (∀ place needed, e ≠ .endOfStream place needed) ∧
      ∀ more, sections order (fuel + more.length) seen before ⟨offset, bytes ++ more⟩ =
        .error e := by
  induction fuel generalizing seen before offset bytes with
  | zero => cases h
  | succ fuel ih =>
    by_cases hbytes : bytes = []
    · rw [hbytes, sections_nil] at h
      cases h
    rw [sections_round hbytes, bind_apply] at h
    cases hfirst : round order seen ⟨offset, bytes⟩ with
    | error e' =>
      rw [hfirst] at h
      cases h
      refine ((Steady.round order seen).error hfirst).imp_right fun ⟨hother, hmore⟩ => ⟨hother, ?_⟩
      intro more
      rw [sections_round_append hbytes, bind_apply, hmore]
    | ok p =>
      obtain ⟨p, c₁⟩ := p
      rw [hfirst] at h
      obtain ⟨used, hused, hoffset, hmore₁⟩ := (Steady.round order seen).ok hfirst
      -- the bytes that are left end where all of them do
      have hlength : offset + bytes.length = c₁.offset + c₁.rest.length := by
        rw [hused, hoffset, List.length_append, Nat.add_assoc]
      rcases ih h with ⟨place, needed, he, hlow, hhigh, hwant⟩ | ⟨hother, hmore⟩
      · exact .inl ⟨place, needed, he, by omega, by omega, by omega⟩
      · refine .inr ⟨hother, fun more => ?_⟩
        rw [sections_round_append hbytes, bind_apply, hmore₁]
        exact hmore more

/-- Where the bytes end between two sections, reading goes on with those that follow. -/
theorem sections_append (h : sections order fuel seen before ⟨offset, bytes⟩ = .ok (ys, c))
    (hfuel : bytes.length ≤ fuel) (more : List UInt8) :
    ∃ fuel' seen', sections order (fuel + more.length) seen before ⟨offset, bytes ++ more⟩ =
      sections order (fuel' + more.length) seen' ys.reverse ⟨offset + bytes.length, more⟩ := by
  induction fuel generalizing seen before offset bytes with
  | zero =>
    obtain rfl := List.length_eq_zero_iff.mp (Nat.le_zero.mp hfuel)
    cases h
    exact ⟨0, seen, by simp⟩
  | succ fuel ih =>
    by_cases hbytes : bytes = []
    · subst hbytes
      rw [sections_nil] at h
      cases h
      exact ⟨fuel + 1, seen, by simp⟩
    rw [sections_round hbytes, bind_apply] at h
    cases hfirst : round order seen ⟨offset, bytes⟩ with
    | error e =>
      rw [hfirst] at h
      cases h
    | ok p =>
      obtain ⟨p, c₁⟩ := p
      rw [hfirst] at h
      obtain ⟨used, hused, hoffset, hmore₁⟩ := (Steady.round order seen).ok hfirst
      have hshorter : c₁.rest.length < bytes.length := round_shorter hfirst
      have hlength : offset + bytes.length = c₁.offset + c₁.rest.length := by
        rw [hused, hoffset, List.length_append, Nat.add_assoc]
      obtain ⟨fuel', seen', hrest⟩ := ih h (by omega)
      refine ⟨fuel', seen', ?_⟩
      rw [sections_round_append hbytes, bind_apply, hmore₁, hlength]
      exact hrest

end Reader

namespace Module

open Reader (WantsBytes)

variable {order : ByteOrder} {ss : List Section} {bytes : List UInt8} {m : Module}
  {e : StreamError}

/-- More sections behind those of a module add methods to it, and nothing else. -/
theorem ofSections_append (h : ofSections order ss = .ok m) (more : List Section) :
    ofSections order (ss ++ more) =
      .ok { m with methods := m.methods ++ more.filterMap Section.record? } := by
  rw [ofSections] at h
  split at h
  · cases h
  · cases h
  · rename_i strings blobs hstrings hblobs
    cases h
    rw [ofSections, List.findSome?_append, List.findSome?_append, hstrings, hblobs,
      List.filterMap_append]
    rfl

theorem ofSections_error (h : ofSections order ss = .error e) : ∃ tag, e = .missingSection tag := by
  rw [ofSections] at h
  split at h
  · cases h
    exact ⟨_, rfl⟩
  · cases h
    exact ⟨_, rfl⟩
  · cases h

/-- How reading a stream fails: for want of bytes where they end, for want of a table, or with
an error that stays when more bytes follow. -/
theorem ofBytes_error (h : ofBytes bytes = .error e) :
    WantsBytes 0 bytes.length e ∨ (∃ tag, e = .missingSection tag) ∨
      (∀ place needed, e ≠ .endOfStream place needed) ∧
        ∀ more, ofBytes (bytes ++ more) = .error e := by
  rw [ofBytes_eq] at h
  cases hmarker : Reader.marker ⟨0, bytes⟩ with
  | error e' =>
    rw [hmarker] at h
    cases h
    refine (Reader.Steady.marker.error hmarker).imp_right fun ⟨hother, hmore⟩ => .inr ⟨hother, ?_⟩
    intro more
    rw [ofBytes_eq, hmore]
  | ok p =>
    obtain ⟨order, c⟩ := p
    obtain ⟨used, hused, hoffset, hmore⟩ := Reader.Steady.marker.ok hmarker
    have hlength : 0 + bytes.length = c.offset + c.rest.length := by
      rw [hused, hoffset, List.length_append, Nat.add_assoc]
    simp only [hmarker] at h
    cases hsections : Reader.sections order c.rest.length [] [] c with
    | ok q =>
      simp only [hsections] at h
      exact .inr (.inl (ofSections_error h))
    | error e' =>
      simp only [hsections] at h
      cases h
      rcases Reader.sections_error hsections with
        ⟨place, needed, he, hlow, hhigh, hwant⟩ | ⟨hother, hstays⟩
      · exact .inl ⟨place, needed, he, by omega, by omega, by omega⟩
      · refine .inr (.inr ⟨hother, fun more => ?_⟩)
        rw [ofBytes_eq, hmore]
        simp only [List.length_append, hstays more]

/-- A module that was read gains methods at most when more bytes follow. -/
theorem ofBytes_ok {m' : Module} {more : List UInt8} (h : ofBytes bytes = .ok m)
    (h' : ofBytes (bytes ++ more) = .ok m') :
    ∃ methods, m' = { m with methods := m.methods ++ methods } := by
  rw [ofBytes_eq] at h h'
  cases hmarker : Reader.marker ⟨0, bytes⟩ with
  | error e =>
    simp only [hmarker] at h
    cases h
  | ok p =>
    obtain ⟨order, c⟩ := p
    obtain ⟨_, _, _, hmore⟩ := Reader.Steady.marker.ok hmarker
    simp only [hmarker] at h
    simp only [hmore, List.length_append] at h'
    cases hsections : Reader.sections order c.rest.length [] [] c with
    | error e =>
      simp only [hsections] at h
      cases h
    | ok q =>
      obtain ⟨ss, c₁⟩ := q
      simp only [hsections] at h
      obtain ⟨fuel, seen, hon⟩ := Reader.sections_append hsections (Nat.le_refl _) more
      rw [hon] at h'
      cases hrest : Reader.sections order (fuel + more.length) seen ss.reverse
          ⟨c.offset + c.rest.length, more⟩ with
      | error e =>
        simp only [hrest] at h'
        cases h'
      | ok q' =>
        obtain ⟨ss', c₂⟩ := q'
        simp only [hrest] at h'
        obtain ⟨ss₂, rfl, _⟩ := Reader.sections_ok hrest (by simp)
        rw [List.reverse_reverse, ofSections_append h] at h'
        cases h'
        exact ⟨_, rfl⟩

/-- **The verdict on a stream is settled by the bytes read so far.** An unknown version, tag or
opcode, a negative length, text that is not UTF-8 and a repeated table are the same error when
more bytes follow. A want of bytes is one behind the last of them. When a module was read and
more bytes follow and are read as well, the order and both tables are the same, and methods come
behind those of the module. -/
theorem ofBytes_append (bytes more : List UInt8) :
    (∀ e, ofBytes bytes = .error e → e.Final → ofBytes (bytes ++ more) = .error e) ∧
    (∀ offset needed, ofBytes bytes = .error (.endOfStream offset needed) →
      offset ≤ bytes.length ∧ bytes.length < offset + needed) ∧
    ∀ m m', ofBytes bytes = .ok m → ofBytes (bytes ++ more) = .ok m' →
      m'.order = m.order ∧ m'.strings = m.strings ∧ m'.blobs = m.blobs ∧
        m.methods <+: m'.methods := by
  refine ⟨fun e h hfinal => ?_, fun offset needed h => ?_, fun m m' h h' => ?_⟩
  · rcases ofBytes_error h with ⟨place, needed, rfl, _⟩ | ⟨tag, rfl⟩ | ⟨_, hmore⟩
    · exact hfinal.elim
    · exact hfinal.elim
    · exact hmore more
  · rcases ofBytes_error h with ⟨place, needed', he, _, hhigh, hwant⟩ | ⟨tag, he⟩ | ⟨hother, _⟩
    · cases he
      omega
    · cases he
    · exact absurd rfl (hother offset needed)
  · obtain ⟨methods, rfl⟩ := ofBytes_ok h h'
    exact ⟨rfl, rfl, rfl, List.prefix_append _ _⟩

/-- An unknown tag behind the marker stays one, half a marker wants a byte, and a method may
follow the tables. -/
theorem ofBytes_append_sample :
    let tables : List UInt8 := [1, 0, 1, 0, 0, 0, 0, 2, 0, 0, 0, 0]
    let method : List UInt8 := [0, 1, 0, 0, 0, 1, 0, 1, 0, 0, 0, 0, 0, 0, 0, 0, 0]
    ofBytes ([1, 0, 9] ++ method) = .error (.unknownTag 9 2) ∧
    (ofBytes [1] = .error (.endOfStream 0 2) ∧ 0 ≤ [1].length ∧ [1].length < 0 + 2) ∧
    ∃ m m', ofBytes tables = .ok m ∧ ofBytes (tables ++ method) = .ok m' ∧
      m'.methods.length = 1 ∧ m'.order = m.order ∧ m'.strings = m.strings ∧
        m'.blobs = m.blobs ∧ m.methods <+: m'.methods := by
  intro tables method
  have hone : ofBytes (tables ++ method) =
      .ok ⟨.little, [⟨⟨0x0001000100000001⟩, ⟨0, false⟩, []⟩], #[], #[]⟩ := by decide
  exact ⟨(ofBytes_append [1, 0, 9] method).1 _ (by decide) trivial,
    ⟨by decide, (ofBytes_append [1] method).2.1 0 2 (by decide)⟩,
    _, _, (by decide : ofBytes tables = .ok ⟨.little, [], #[], #[]⟩), hone, rfl,
    (ofBytes_append tables method).2.2 _ _ (by decide) hone⟩

end Module
end MethodPack.Packed
