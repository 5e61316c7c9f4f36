import MethodPack.Proofs.Disks
import MethodPack.Storage.Buffer

/-!
# Buffers

A file behind a buffer gets its bytes late. The invariant `Filling` says where the bytes are
that a buffered file has been given: the first ones in the file, the others in the buffer, and
none of them lost. Every operation of the buffer keeps it, or fails because the plan of faults
leaves the file no room for them (`Filling.write`, `Filling.flush`, `Filling.close`).
-/

namespace MethodPack

/-! ## Runs -/

section Runs

variable {ε α β σ τ : Type} {P : α → σ → Prop} {P' : α → τ → Prop} {R : β → σ → Prop}
  {Q : ε → σ → Prop} {Q' : ε → τ → Prop}

/-- A run ends with a value and a state that `P` relates, or with an error and a state that `Q`
relates. -/
def Ends (P : α → τ → Prop) (Q : ε → τ → Prop) : Except ε α × τ → Prop
  | (.ok x, t) => P x t
  | (.error e, t) => Q e t

/-- Goes on from where a run has ended, unless it has failed. -/
def andThen (r : Except ε α × τ) (k : α → τ → Except ε β × τ) : Except ε β × τ :=
  match r with
  | (.ok x, t) => k x t
  | (.error e, t) => (.error e, t)

theorem Ends.map {r : Except ε α × σ} (f : σ → τ) (h : Ends P Q r)
    (hP : ∀ x s, P x s → P' x (f s)) (hQ : ∀ e s, Q e s → Q' e (f s)) :
    Ends P' Q' (r.1, f r.2) := by
  rcases r with ⟨e | x, s⟩
  · exact hQ e s h
  · exact hP x s h

theorem Ends.imp_error {r : Except ε α × σ} {Q' : ε → σ → Prop} (h : Ends P Q r)
    (hQ : ∀ e s, Q e s → Q' e s) : Ends P Q' r := by
  rcases r with ⟨e | x, s⟩
  · exact hQ e s h
  · exact h

theorem Ends.of_forall {r : Except ε α × σ} (hP : ∀ x s, P x s) (hQ : ∀ e s, Q e s) :
    Ends P Q r := by
  rcases r with ⟨e | x, s⟩
  · exact hQ e s
  · exact hP x s

/-- What holds however a run ends. -/
theorem Ends.always {r : Except ε α × σ} {I : σ → Prop} (h : Ends P Q r)
    (hP : ∀ x s, P x s → I s) (hQ : ∀ e s, Q e s → I s) : I r.2 := by
  rcases r with ⟨e | x, s⟩
  · exact hQ e s h
  · exact hP x s h

theorem Ends.andThen {r : Except ε α × σ} {k : α → σ → Except ε β × σ} (h : Ends P Q r)
    (hk : ∀ x t, P x t → Ends R Q (k x t)) : Ends R Q (andThen r k) := by
  rcases r with ⟨e | x, t⟩
  · exact h
  · exact hk x t h

/-- The result of a step over a disk, with its state and the disk behind it. -/
def runOn (step : StateM Disk (Except ε α × σ)) (d : Disk) : Except ε α × σ × Disk :=
  let ((result, s), d') := step.run d
  (result, s, d')

end Runs

/-! ## Planned faults of writing -/

namespace FaultPlan

variable {plan : FaultPlan} {size size' : Nat} {fault : StorageFault}

/-- A temporary file has room for so many bytes. -/
def Takes (plan : FaultPlan) (size : Nat) : Prop :=
  ∀ room fault, plan.write = some (room, fault) → size ≤ room

/-- Writing so many bytes to a temporary file fails. -/
def Refuses (plan : FaultPlan) (size : Nat) (fault : StorageFault) : Prop :=
  ∃ room, plan.write = some (room, fault) ∧ room < size

theorem Refuses.mono (h : plan.Refuses size fault) (hsize : size ≤ size') :
    plan.Refuses size' fault := by
  obtain ⟨room, hplan, hroom⟩ := h
  exact ⟨room, hplan, Nat.lt_of_lt_of_le hroom hsize⟩

end FaultPlan

/-! ## The buffer -/

/-- A temporary file of a disk behind a buffer. -/
abbrev DiskFile := BufferedFile Place (StateM Disk)

/-- The file at the place `temp`, which the disk `d` has gained, has been given some bytes in
all: it holds the first of them, and the buffer holds the others. -/
structure Filling (plan : FaultPlan) (d : Disk) (temp : Place) (given : List UInt8)
    (t : DiskFile × Disk) : Prop where
  files : t.1.files = Disk.access plan
  place : t.1.temp = temp
  parts : ∃ passed, passed ++ t.1.held.toList = given ∧ d.Gains temp passed t.2 ∧
    plan.Takes passed.length

/-- The file has not taken so many bytes as it was given. -/
structure Stuck (plan : FaultPlan) (d : Disk) (temp : Place) (size : Nat) (fault : StorageFault)
    (t : DiskFile × Disk) : Prop where
  filling : ∃ given, Filling plan d temp given t
  refused : plan.Refuses size fault

variable {plan : FaultPlan} {d d' : Disk} {temp : Place} {passed given bytes chunk : List UInt8}
  {file : DiskFile} {t : DiskFile × Disk} {size size' : Nat} {fault : StorageFault}

theorem Stuck.mono (h : Stuck plan d temp size fault t) (hsize : size ≤ size') :
    Stuck plan d temp size' fault t := ⟨h.filling, h.refused.mono hsize⟩

/-- A write adds its bytes to the temporary file, or as many of them as there is room for. -/
theorem Disk.Gains.write (h : d.Gains temp passed d') (htakes : plan.Takes passed.length)
    (bytes : List UInt8) :
    Ends (fun _ t => t.1 = [] ∧ d.Gains temp (passed ++ bytes) t.2 ∧
        plan.Takes (passed ++ bytes).length)
      (fun fault t => (∃ passed', d.Gains temp passed' t.2 ∧ plan.Takes passed'.length) ∧
        plan.Refuses (passed ++ bytes).length fault)
      (runOn ((Disk.access plan).write temp bytes) d') := by
  show Ends _ _ ((d'.writeTemp plan temp bytes).1.1, (d'.writeTemp plan temp bytes).1.2,
    (d'.writeTemp plan temp bytes).2)
  rw [Disk.writeTemp, h.file?, Option.getD_some]
  cases hplan : plan.write with
  | none =>
    refine ⟨rfl, h.put _, fun room fault hwrite => ?_⟩
    rw [hplan] at hwrite
    cases hwrite
  | some limit =>
    obtain ⟨room, fault⟩ := limit
    have hroom := htakes room fault hplan
    by_cases hfits : bytes.length ≤ room - passed.length
    · simp only [if_pos hfits, List.take_of_length_le hfits, List.drop_of_length_le hfits]
      refine ⟨rfl, h.put _, fun room' fault' hwrite => ?_⟩
      rw [hplan] at hwrite
      cases hwrite
      rw [List.length_append]
      omega
    · simp only [if_neg hfits]
      refine ⟨⟨_, h.put _, fun room' fault' hwrite => ?_⟩, room, hplan, ?_⟩
      · rw [hplan] at hwrite
        cases hwrite
        rw [List.length_append, List.length_take]
        omega
      · rw [List.length_append]
        omega

namespace Filling

/-- Passing the held bytes on empties the buffer. -/
theorem pass (h : Filling plan d temp given (file, d')) :
    Ends (fun _ t => Filling plan d temp given t ∧ t.1.held = #[])
      (Stuck plan d temp given.length) (runOn file.pass d') := by
  obtain ⟨hfiles, hplace, passed, rfl, hgains, htakes⟩ := h
  dsimp only at hfiles hplace hgains htakes ⊢
  rw [BufferedFile.pass]
  split
  · rename_i hempty
    exact ⟨⟨hfiles, hplace, passed, rfl, hgains, htakes⟩, Array.isEmpty_iff.mp hempty⟩
  · have hwrite := hgains.write htakes file.held.toList
    rw [← hfiles, ← hplace] at hwrite
    refine hwrite.map (fun t => ({ file with held := t.1.toArray }, t.2)) ?_ ?_
    · rintro _ ⟨rest, d₁⟩ ⟨hrest, hgains', htakes'⟩
      cases hrest
      exact ⟨⟨hfiles, hplace, _, by simp, hplace ▸ hgains', htakes'⟩, rfl⟩
    · rintro fault ⟨rest, d₁⟩ ⟨⟨passed', hgains', htakes'⟩, hrefused⟩
      exact ⟨⟨_, hfiles, hplace, passed', rfl, hplace ▸ hgains', htakes'⟩, hrefused⟩

/-- A chunk is held, or goes past a buffer that holds nothing. -/
theorem take (h : Filling plan d temp given (file, d')) (chunk : List UInt8)
    (hdirect : file.capacity ≤ chunk.length → file.held = #[] ∨ chunk = []) :
    Ends (fun _ => Filling plan d temp (given ++ chunk))
      (Stuck plan d temp (given ++ chunk).length) (runOn (file.take chunk) d') := by
  obtain ⟨hfiles, hplace, passed, rfl, hgains, htakes⟩ := h
  dsimp only at hfiles hplace hgains htakes ⊢
  rw [BufferedFile.take]
  split
  · exact ⟨hfiles, hplace, passed, by simp, hgains, htakes⟩
  · rename_i hlong
    have hwrite := hgains.write htakes chunk
    rw [← hfiles, ← hplace] at hwrite
    refine hwrite.map (fun t => (file, t.2)) ?_ ?_
    · rintro _ ⟨rest, d₁⟩ ⟨_, hgains', htakes'⟩
      refine ⟨hfiles, hplace, passed ++ chunk, ?_, hplace ▸ hgains', htakes'⟩
      obtain hheld | rfl := hdirect (Nat.not_lt.mp hlong)
      · simp [hheld]
      · simp
    · rintro fault ⟨rest, d₁⟩ ⟨⟨passed', hgains', htakes'⟩, hrefused⟩
      refine ⟨⟨_, hfiles, hplace, passed', rfl, hplace ▸ hgains', htakes'⟩, hrefused.mono ?_⟩
      simp only [List.length_append]
      omega

/-- A chunk that the buffer has no room for waits until the held bytes are passed on. -/
theorem runOn_write : runOn (file.write chunk) d' =
    if chunk.length ≤ file.capacity - file.held.size then runOn (file.take chunk) d'
    else andThen (runOn file.pass d') fun _ t => runOn (t.1.take chunk) t.2 := by
  rw [BufferedFile.write]
  split
  · rfl
  · simp only [runOn, StateT.run_bind]
    rcases StateT.run file.pass d' with ⟨⟨_ | _, _⟩, _⟩ <;> rfl

theorem runOn_flush : runOn file.flush d' = andThen (runOn file.pass d') fun _ t =>
    (((t.1.files.flush t.1.temp).run t.2).1, t.1, ((t.1.files.flush t.1.temp).run t.2).2) := by
  rw [BufferedFile.flush]
  simp only [runOn, StateT.run_bind]
  rcases StateT.run file.pass d' with ⟨⟨_ | _, _⟩, _⟩ <;> rfl

theorem write (h : Filling plan d temp given (file, d')) (chunk : List UInt8) :
    Ends (fun _ => Filling plan d temp (given ++ chunk))
      (Stuck plan d temp (given ++ chunk).length) (runOn (file.write chunk) d') := by
  rw [runOn_write]
  split
  · rename_i hfits
    refine h.take chunk fun hlong => ?_
    -- what fits behind the held bytes and fills the buffer leaves no room for any of them
    by_cases hheld : file.held.size = 0
    · exact .inl (Array.eq_empty_of_size_eq_zero hheld)
    · exact .inr (List.eq_nil_of_length_eq_zero (by omega))
  · have hpass := h.pass.imp_error fun _ _ hstuck =>
      hstuck.mono (List.sublist_append_left given chunk).length_le
    exact hpass.andThen fun _ _ hpassed => hpassed.1.take chunk fun _ => .inl hpassed.2

theorem flush (h : Filling plan d temp given (file, d')) :
    Ends (fun _ t => Filling plan d temp given t ∧ plan.flush = none)
      (fun fault t => (∃ given, Filling plan d temp given t) ∧
        (plan.Refuses given.length fault ∨ plan.flush = some fault))
      (runOn file.flush d') := by
  rw [runOn_flush]
  refine (h.pass.imp_error fun _ _ hstuck => ⟨hstuck.filling, .inl hstuck.refused⟩).andThen ?_
  rintro _ ⟨file, d₁⟩ ⟨hfilling, _⟩
  have hfiles : file.files = Disk.access plan := hfilling.files
  dsimp only
  rw [hfiles]
  show Ends _ _ (Disk.planned plan.flush (.ok ()), file, d₁)
  cases hflush : plan.flush with
  | none => exact ⟨hfilling, rfl⟩
  | some fault => exact ⟨⟨given, hfilling⟩, .inr rfl⟩

theorem gains (h : Filling plan d temp given t) : ∃ content, d.Gains temp content t.2 := by
  obtain ⟨passed, _, hgains, _⟩ := h.parts
  exact ⟨passed, hgains⟩

/-- A buffer that is given up leaves some bytes in the file. -/
theorem release (h : Filling plan d temp given (file, d')) :
    ∃ content, d.Gains temp content (file.release.run d').2 :=
  h.pass.always (I := fun t => ∃ content, d.Gains temp content t.2)
    (fun _ _ hpassed => hpassed.1.gains) fun _ _ ⟨⟨_, hfilling⟩, _⟩ => hfilling.gains

/-- A file that is taken out of its buffer has all bytes. -/
theorem close (h : Filling plan d temp given (file, d')) :
    Ends (fun _ d'' => d.Gains temp given d'' ∧ plan.Takes given.length)
      (fun fault d'' => (∃ content, d.Gains temp content d'') ∧ plan.Refuses given.length fault)
      (file.close.run d') := by
  have hpass := h.pass
  rw [BufferedFile.close, StateT.run_bind]
  change Ends _ _ ((file.pass.run d').1.1, (file.pass.run d').1.2, (file.pass.run d').2) at hpass
  revert hpass
  rcases file.pass.run d' with ⟨⟨fault | _, file₁⟩, d₁⟩
  · rintro ⟨⟨given', hfilling⟩, hrefused⟩
    exact ⟨hfilling.release, hrefused⟩
  · rintro ⟨⟨_, _, passed, rfl, hgains, htakes⟩, hheld⟩
    dsimp only at hheld hgains ⊢
    rw [hheld, List.append_nil]
    exact ⟨hgains, htakes⟩

end Filling
end MethodPack
