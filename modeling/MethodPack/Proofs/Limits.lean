import MethodPack.Proofs.Lockstep
import MethodPack.Proofs.Packing

/-!
# Limits

A sink that runs full cuts a stream short and does nothing else to it. An export writes its
stream chunk by chunk and stops at the first chunk that does not fit; no step looks at the
sink to decide what to write. Main statement: with a limit an export leaves the first bytes
of what it leaves without one, and when they are not all of them, the sink being full is its
error, whatever would have stopped it later on (`packTo_limit`).
-/

namespace MethodPack

/-! ## Sinks with a limit -/

namespace Sink

variable {sink : Sink} {limit : Nat} {chunk : List UInt8}

/-- The sink with a limit and as many of its first bytes as there is room for. -/
def cut (limit : Nat) (sink : Sink) : Sink :=
  { sink with bytes := sink.bytes.take limit, limit := some limit }

theorem cut_of_fits (h : sink.bytes.size ≤ limit) :
    sink.cut limit = { sink with limit := some limit } := by
  have hall : sink.bytes.take limit = sink.bytes :=
    Array.ext' (by simp [List.take_of_length_le, h])
  rw [cut, hall]

/-- What is behind the limit already makes no difference. -/
theorem cut_append_of_full (h : limit < sink.bytes.size) :
    (sink.append chunk).cut limit = sink.cut limit := by
  have hbytes : (sink.bytes ++ chunk).take limit = sink.bytes.take limit :=
    Array.ext' (by simp [List.take_append_of_le_length, Nat.le_of_lt h])
  rw [cut, cut, append, hbytes]

/-- A limited sink takes of a chunk what an unlimited one has up to the limit. -/
theorem append_fitting_cut (h : sink.bytes.size ≤ limit) :
    (sink.cut limit).append ((sink.cut limit).fitting chunk) = (sink.append chunk).cut limit := by
  have hbytes : sink.bytes ++ chunk.take (limit - sink.bytes.size) =
      (sink.bytes ++ chunk).take limit :=
    Array.ext' (by simp [List.take_append, List.take_of_length_le, h])
  rw [cut_of_fits h]
  simp only [fitting, append, cut, hbytes]

/-- A write succeeds when the limit is not passed. -/
theorem write_cut (h : sink.bytes.size ≤ limit) : (sink.cut limit).write chunk =
    (if (sink.append chunk).bytes.size ≤ limit then .ok () else .error .sinkFull,
      (sink.append chunk).cut limit) := by
  have hfits : ((sink.cut limit).fitting chunk).length = chunk.length ↔
      (sink.append chunk).bytes.size ≤ limit := by
    rw [cut_of_fits h, size_append]
    simp only [fitting, List.length_take]
    omega
  rw [write_eq, append_fitting_cut h]
  simp only [hfits]

end Sink

namespace Export

/-! ## Steps under a limit -/

/-- The session with the limit put on its sink. -/
def Session.cut (limit : Nat) (s : Session) : Session := { s with sink := s.sink.cut limit }

/-- What the first step writes does not depend on what the sink holds. When all that has been
written fits, the second step does under the limit what the first one does without it; else it
stops with the sink full, which holds what there is room for. -/
structure CutsAt {α : Type} (limit : Nat) (m m' : SessionM α) : Prop where
  appends : ∀ s : Session, s.sink.limit = none →
    ∃ chunk, (outcome m s).2.sink = s.sink.append chunk
  fits : ∀ s : Session, s.sink.limit = none → (outcome m s).2.sink.bytes.size ≤ limit →
    outcome m' (s.cut limit) = ((outcome m s).1, (outcome m s).2.cut limit)
  stops : ∀ s : Session, s.sink.limit = none → s.sink.bytes.size ≤ limit →
    limit < (outcome m s).2.sink.bytes.size →
      (outcome m' (s.cut limit)).1 = .error (.storage .sinkFull) ∧
        (outcome m' (s.cut limit)).2.sink = (outcome m s).2.sink.cut limit

namespace CutsAt

variable {α β : Type} {limit : Nat} {m m' : SessionM α}

/-- A step that leaves the bytes of the sink alone, and does not look at them. -/
theorem of_same_sink (hsink : ∀ s, (outcome m s).2.sink = s.sink)
    (hsame : ∀ s, outcome m' (s.cut limit) = ((outcome m s).1, (outcome m s).2.cut limit)) :
    CutsAt limit m m' where
  appends s _ := ⟨[], by rw [hsink, Sink.append_nil]⟩
  fits s _ _ := hsame s
  stops s _ hfits hfull := by
    rw [hsink] at hfull
    omega

theorem write (chunk : List UInt8) :
    CutsAt limit (Session.write chunk) (Session.write chunk) where
  appends s hfree := ⟨chunk, by rw [Session.write_of_unlimited chunk hfree]⟩
  fits s hfree hfits := by
    rw [Session.write_of_unlimited chunk hfree] at hfits ⊢
    have hbefore : s.sink.bytes.size ≤ limit := by
      rw [Sink.size_append] at hfits
      omega
    rw [Session.outcome_write, Session.cut, Sink.write_cut hbefore, if_pos hfits]
    rfl
  stops s hfree hbefore hfull := by
    rw [Session.write_of_unlimited chunk hfree] at hfull ⊢
    rw [Session.outcome_write, Session.cut, Sink.write_cut hbefore, if_neg (Nat.not_le.mpr hfull)]
    exact ⟨rfl, rfl⟩

theorem bind {k k' : α → SessionM β} (hm : CutsAt limit m m')
    (hk : ∀ x, CutsAt limit (k x) (k' x)) : CutsAt limit (m >>= k) (m' >>= k') where
  appends s hfree := by
    obtain ⟨chunk, hchunk⟩ := hm.appends s hfree
    rw [outcome_bind]
    rcases hrun : outcome m s with ⟨e | x, t⟩
    · exact ⟨chunk, by rw [← hchunk, hrun]⟩
    · rw [hrun] at hchunk
      obtain ⟨more, hmore⟩ := (hk x).appends t (by rw [hchunk, Sink.limit_append, hfree])
      exact ⟨chunk ++ more, by rw [hmore, hchunk, Sink.append_append]⟩
  fits s hfree hfits := by
    obtain ⟨chunk, hchunk⟩ := hm.appends s hfree
    rw [outcome_bind] at hfits ⊢
    rw [outcome_bind]
    rcases hrun : outcome m s with ⟨e | x, t⟩
    · rw [hrun] at hfits
      rw [hm.fits s hfree (by rwa [hrun]), hrun]
    · rw [hrun] at hfits hchunk
      have hfree' : t.sink.limit = none := by rw [hchunk, Sink.limit_append, hfree]
      obtain ⟨more, hmore⟩ := (hk x).appends t hfree'
      have hbefore : t.sink.bytes.size ≤ limit := by
        simp only [hmore, Sink.size_append] at hfits
        omega
      rw [hm.fits s hfree (by rwa [hrun]), hrun]
      exact (hk x).fits t hfree' hfits
  stops s hfree hbefore hfull := by
    obtain ⟨chunk, hchunk⟩ := hm.appends s hfree
    rw [outcome_bind] at hfull ⊢
    rw [outcome_bind]
    by_cases hfirst : (outcome m s).2.sink.bytes.size ≤ limit
    -- the limit is passed in the second step
    · have hsame := hm.fits s hfree hfirst
      rcases hrun : outcome m s with ⟨e | x, t⟩
      · rw [hrun] at hfull hfirst
        exact absurd hfirst (Nat.not_le.mpr hfull)
      · rw [hrun] at hfull hfirst hchunk hsame
        rw [hsame]
        exact (hk x).stops t (by rw [hchunk, Sink.limit_append, hfree]) hfirst hfull
    -- the limit is passed in the first step already
    · obtain ⟨herror, hsink⟩ := hm.stops s hfree hbefore (Nat.not_le.mp hfirst)
      rcases hcut : outcome m' (s.cut limit) with ⟨r, u⟩
      rw [hcut] at herror hsink
      cases herror
      refine ⟨rfl, ?_⟩
      rcases hrun : outcome m s with ⟨e | x, t⟩
      · rwa [hrun] at hsink
      · rw [hrun] at hsink hchunk hfirst
        obtain ⟨more, hmore⟩ := (hk x).appends t (by rw [hchunk, Sink.limit_append, hfree])
        rw [hmore, Sink.cut_append_of_full (Nat.not_le.mp hfirst)]
        exact hsink

/-- A limit only cuts what the steps of an export write. -/
theorem lockstep (limit : Nat) : Lockstep fun {_} m m' => CutsAt limit m m' where
  pure _ := of_same_sink (fun _ => rfl) fun _ => rfl
  throw _ := of_same_sink (fun _ => rfl) fun _ => rfl
  bind := bind
  onTables _ := of_same_sink (fun _ => rfl) fun _ => rfl
  onCounts _ := of_same_sink (fun _ => rfl) fun _ => rfl
  write := write
  flush := of_same_sink (fun _ => rfl) fun _ => rfl

end CutsAt

section Cut

variable {types : List TypeDef} {ns : String} {limit : Nat}

theorem packTo_eq_outcome_cut : packTo { limit := some limit } types ns =
    ((outcome (pack types ns) (Session.cut limit { sink := {} })).1,
      (outcome (pack types ns) (Session.cut limit { sink := {} })).2.sink) := by
  rw [Session.cut, Sink.cut_of_fits (Nat.zero_le _)]
  rfl

/-- A limit that leaves room for the whole stream changes nothing. -/
theorem packTo_of_fits (h : (packTo {} types ns).2.bytes.size ≤ limit) :
    packTo { limit := some limit } types ns =
      ((packTo {} types ns).1, (packTo {} types ns).2.cut limit) := by
  have hpack := (CutsAt.lockstep limit).pack types ns
  rw [packTo_eq_outcome_cut, hpack.fits { sink := {} } rfl h]
  rfl

/-- A stream that is longer than the limit is cut there. -/
theorem packTo_of_full (h : limit < (packTo {} types ns).2.bytes.size) :
    packTo { limit := some limit } types ns =
      (.error (.storage .sinkFull), (packTo {} types ns).2.cut limit) := by
  have hpack := (CutsAt.lockstep limit).pack types ns
  obtain ⟨herror, hsink⟩ := hpack.stops { sink := {} } rfl (Nat.zero_le _) h
  rw [packTo_eq_outcome_cut, herror, hsink]
  rfl

end Cut

/-- **A failing sink only cuts the stream.** With a limit, the sink holds the first bytes of
those that an export writes without one. When that is all of them, the result is the same;
else it is the sink being full. -/
theorem packTo_limit (types : List TypeDef) (ns : String) (limit : Nat) :
    packTo { limit := some limit } types ns =
      (if (packTo {} types ns).2.bytes.size ≤ limit then (packTo {} types ns).1
        else .error (.storage .sinkFull),
        (packTo {} types ns).2.cut limit) := by
  split
  · rename_i hfits
    exact packTo_of_fits hfits
  · rename_i hfull
    exact packTo_of_full (Nat.not_le.mp hfull)

end Export
end MethodPack
