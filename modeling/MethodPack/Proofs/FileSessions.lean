import MethodPack.Export.Publish
import MethodPack.Proofs.Buffers
import MethodPack.Proofs.Lockstep
import MethodPack.Proofs.Packing

/-!
# Sessions on files

An export to a file goes step by step with the export to memory. As long as the file takes what
it is given, both have the same tables and counts, and the file and its buffer hold what the
sink in memory holds (`Mirrors`). It stops where the export to memory does, or earlier by a
planned fault (`Follows`). Main statement: the file is filled with the stream that the export
leaves in memory, or there is a reason why not (`fill_spec`).
-/

namespace MethodPack.Export

variable {α β : Type} {plan : FaultPlan} {d d' : Disk} {temp : Place}

/-- What comes of a step of an export to a file: its result, the session and the disk. -/
def outcomeOn (m : SessionT DiskFile (StateM Disk) α) (t : SessionOn DiskFile × Disk) :
    Except ExportError α × SessionOn DiskFile × Disk :=
  runOn (m.run.run t.1) t.2

theorem outcomeOn_bind (m : SessionT DiskFile (StateM Disk) α)
    (k : α → SessionT DiskFile (StateM Disk) β) (t : SessionOn DiskFile × Disk) :
    outcomeOn (m >>= k) t = andThen (outcomeOn m t) fun x t' => outcomeOn (k x) t' := by
  simp only [outcomeOn, runOn, ExceptT.run_bind, StateT.run_bind]
  rcases (m.run.run t.1).run t.2 with ⟨⟨_ | _, _⟩, _⟩ <;> rfl

theorem ends_onSink {f : DiskFile → StateM Disk (Except StorageFault Unit × DiskFile)}
    {t : SessionOn DiskFile × Disk} {P : Unit → DiskFile × Disk → Prop}
    {Q : StorageFault → DiskFile × Disk → Prop} {P' : Unit → SessionOn DiskFile × Disk → Prop}
    {Q' : ExportError → SessionOn DiskFile × Disk → Prop}
    (h : Ends P Q (runOn (f t.1.sink) t.2))
    (hP : ∀ x file d', P x (file, d') → P' x ({ t.1 with sink := file }, d'))
    (hQ : ∀ fault file d', Q fault (file, d') →
      Q' (.storage fault) ({ t.1 with sink := file }, d')) :
    Ends P' Q' (outcomeOn (Session.onSink f) t) := by
  show Ends P' Q' ((runOn (f t.1.sink) t.2).1.mapError .storage,
    { t.1 with sink := (runOn (f t.1.sink) t.2).2.1 }, (runOn (f t.1.sink) t.2).2.2)
  revert h
  rcases runOn (f t.1.sink) t.2 with ⟨fault | x, file, d'⟩
  · exact hQ fault file d'
  · exact hP x file d'

/-! ## Sessions that go together -/

/-- The session on the file is where the session in memory is. -/
structure Mirrors (plan : FaultPlan) (d : Disk) (temp : Place) (s : Session)
    (t : SessionOn DiskFile × Disk) : Prop where
  tables : t.1.tables = s.tables
  counts : t.1.counts = s.counts
  unlimited : s.sink.limit = none
  flushes : s.sink.flush = .ok ()
  filling : Filling plan d temp s.sink.bytes.toList (t.1.sink, t.2)

/-- Why an export to a file stops with an error, where `r` comes of the export to memory. -/
inductive Hindered (plan : FaultPlan) (r : Except ExportError α × Session) : ExportError → Prop
  | itself {e : ExportError} (h : r.1 = .error e) : Hindered plan r e
  | write {fault : StorageFault} (h : plan.Refuses r.2.sink.bytes.size fault) :
    Hindered plan r (.storage fault)
  | flush {fault : StorageFault} (h : plan.flush = some fault) : Hindered plan r (.storage fault)

/-- What hinders a step hinders a sequence that starts with it. -/
theorem Hindered.bind {m : SessionM α} {k : α → SessionM β} {s : Session} {e : ExportError}
    (h : Hindered plan (outcome m s) e)
    (hk : ∀ x (t : Session), t.sink.bytes.size ≤ (outcome (k x) t).2.sink.bytes.size) :
    Hindered plan (outcome (m >>= k) s) e := by
  rw [outcome_bind]
  revert h
  rcases outcome m s with ⟨e' | x, t⟩
  · intro h
    cases h with
    | itself h =>
      cases h
      exact .itself rfl
    | write h => exact .write h
    | flush h => exact .flush h
  · intro h
    cases h with
    | itself h => cases h
    | write h => exact .write (h.mono (hk x t))
    | flush h => exact .flush h

/-- The second step does to a file what the first one does to memory, until something hinders
it. -/
structure Follows (plan : FaultPlan) (d : Disk) (temp : Place) (m : SessionM α)
    (m' : SessionT DiskFile (StateM Disk) α) : Prop where
  grows : ∀ s : Session, s.sink.bytes.size ≤ (outcome m s).2.sink.bytes.size
  ends : ∀ {s t}, Mirrors plan d temp s t →
    Ends (fun x t' => (outcome m s).1 = .ok x ∧ Mirrors plan d temp (outcome m s).2 t')
      (fun e t' => (∃ given, Filling plan d temp given (t'.1.sink, t'.2)) ∧
        Hindered plan (outcome m s) e)
      (outcomeOn m' t)

namespace Follows

variable {m : SessionM α} {m' : SessionT DiskFile (StateM Disk) α}

/-- Steps that leave the sink alone, and do not look at it. -/
theorem of_same_sink (f : Tables → Counts → Except ExportError α × Tables × Counts)
    (hm : ∀ s, outcome m s = ((f s.tables s.counts).1,
      ⟨(f s.tables s.counts).2.1, (f s.tables s.counts).2.2, s.sink⟩))
    (hm' : ∀ t, outcomeOn m' t = ((f t.1.tables t.1.counts).1,
      ⟨(f t.1.tables t.1.counts).2.1, (f t.1.tables t.1.counts).2.2, t.1.sink⟩, t.2)) :
    Follows plan d temp m m' where
  grows s := by rw [hm]
  ends := by
    intro s t h
    rw [hm, hm', h.tables, h.counts]
    rcases f s.tables s.counts with ⟨e | x, tables, counts⟩
    · exact ⟨⟨_, h.filling⟩, .itself rfl⟩
    · exact ⟨rfl, rfl, rfl, h.unlimited, h.flushes, h.filling⟩

theorem write (chunk : List UInt8) :
    Follows plan d temp (Session.write chunk) (Session.write chunk) where
  grows s := by
    rw [Session.outcome_write, Sink.write_eq, Sink.size_append]
    exact Nat.le_add_right _ _
  ends := by
    intro s t h
    rw [Session.write_of_unlimited chunk h.unlimited]
    have hbytes : (s.sink.append chunk).bytes.toList = s.sink.bytes.toList ++ chunk := by
      simp [Sink.append]
    have hwrite := h.filling.write chunk
    rw [← hbytes, Array.length_toList] at hwrite
    refine ends_onSink hwrite ?_ ?_
    · exact fun _ file d' hfilling => ⟨rfl, h.tables, h.counts, h.unlimited, h.flushes, hfilling⟩
    · exact fun fault file d' hstuck => ⟨hstuck.filling, .write hstuck.refused⟩

theorem flush : Follows plan d temp Session.flush Session.flush where
  grows s := Nat.le_refl _
  ends := by
    intro s t h
    rw [Session.outcome_flush, h.flushes]
    refine ends_onSink h.filling.flush ?_ ?_
    · exact fun _ file d' ⟨hfilling, _⟩ =>
        ⟨rfl, h.tables, h.counts, h.unlimited, h.flushes, hfilling⟩
    · rintro fault file d' ⟨hfilling, hrefused | hflush⟩
      · rw [Array.length_toList] at hrefused
        exact ⟨hfilling, .write hrefused⟩
      · exact ⟨hfilling, .flush hflush⟩

theorem bind {k : α → SessionM β} {k' : α → SessionT DiskFile (StateM Disk) β}
    (hm : Follows plan d temp m m') (hk : ∀ x, Follows plan d temp (k x) (k' x)) :
    Follows plan d temp (m >>= k) (m' >>= k') where
  grows s := by
    have hfirst := hm.grows s
    rw [outcome_bind]
    revert hfirst
    rcases outcome m s with ⟨e | x, s₁⟩
    · exact id
    · exact fun hfirst => hfirst.trans ((hk x).grows s₁)
  ends := by
    intro s t h
    have hfirst := hm.ends h
    rw [outcomeOn_bind]
    revert hfirst
    rcases outcomeOn m' t with ⟨e | x, t₁⟩
    · exact fun ⟨hfilling, hhindered⟩ => ⟨hfilling, hhindered.bind fun x => (hk x).grows⟩
    · rintro ⟨hresult, hmirrors⟩
      rw [outcome_bind_ok (Prod.ext hresult rfl)]
      exact (hk x).ends hmirrors

theorem lockstep : Lockstep fun {_} m m' => Follows plan d temp m m' where
  pure x := of_same_sink (fun tables counts => (.ok x, tables, counts)) (fun _ => rfl) fun _ => rfl
  throw e := of_same_sink (fun tables counts => (.error e, tables, counts)) (fun _ => rfl)
    fun _ => rfl
  bind := bind
  onTables e := of_same_sink
    (fun tables counts => ((outcome e tables).1, (outcome e tables).2, counts)) (fun _ => rfl)
    fun _ => rfl
  onCounts f := of_same_sink (fun tables counts => (.ok (f counts).1, tables, (f counts).2))
    (fun _ => rfl) fun _ => rfl
  write := write
  flush := flush

end Follows

/-! ## The last flush -/

/-- The step only succeeds when flushing a temporary file does not fail. -/
def Flushes (plan : FaultPlan) (d : Disk) (temp : Place)
    (m' : SessionT DiskFile (StateM Disk) α) : Prop :=
  ∀ {s t}, Mirrors plan d temp s t →
    Ends (fun _ _ => plan.flush = none) (fun _ _ => True) (outcomeOn m' t)

namespace Flushes

variable {m : SessionM α} {m' : SessionT DiskFile (StateM Disk) α}
  {k' : α → SessionT DiskFile (StateM Disk) β}

theorem flush : Flushes plan d temp Session.flush :=
  fun h => ends_onSink h.filling.flush (fun _ _ _ hflush => hflush.2) fun _ _ _ _ => trivial

theorem before (h : Flushes plan d temp m') : Flushes plan d temp (m' >>= k') := by
  intro s t hmirrors
  rw [outcomeOn_bind]
  exact (h hmirrors).andThen fun _ _ hflush => .of_forall (fun _ _ => hflush) fun _ _ => trivial

theorem behind (hm : Follows plan d temp m m') (h : ∀ x, Flushes plan d temp (k' x)) :
    Flushes plan d temp (m' >>= k') := by
  intro s t hmirrors
  rw [outcomeOn_bind]
  exact ((hm.ends hmirrors).imp_error fun _ _ _ => trivial).andThen
    fun x _ hfollows => h x hfollows.2

theorem pack (types : List TypeDef) (ns : String) : Flushes plan d temp (pack types ns) :=
  have hsteps : Lockstep fun {_} m m' => Follows plan d temp m m' := Follows.lockstep
  behind (hsteps.write _) fun _ => behind (hsteps.forM (hsteps.collect none) _) fun _ =>
    behind (hsteps.onTables _) fun _ => behind (hsteps.writeTable _ _) fun _ =>
      behind (hsteps.writeTable _ _) fun _ => flush.before

end Flushes

/-! ## Filling the temporary file -/

variable {capacity : Nat} {types : List TypeDef} {ns : String}

/-- A step of an export to the disk. -/
abbrev DiskM := ExceptT ExportError (StateM Disk)

end MethodPack.Export
