import MethodPack.Export.Session

/-!
# Steps

Encoders and sessions are made of steps that change a state and may fail, the state
outliving the failure. Here stands how the outcome of a sequence of such steps comes
about, so that proofs take runs apart without unfolding the steps.
-/

namespace MethodPack

/-- A sequence of results is a value when both of its parts are. -/
theorem bind_ok_iff {ε α β : Type} {r : Except ε α} {f : α → Except ε β} {y : β} :
    r >>= f = .ok y ↔ ∃ x, r = .ok x ∧ f x = .ok y := by
  cases r with
  | ok x => simp [bind, Except.bind]
  | error e => simp [bind, Except.bind]

namespace Export

variable {ε σ α β : Type} {s s' : σ} {e : ε}

/-- What comes of a step from a state: its result, and the state behind it. -/
def outcome (m : ExceptT ε (StateM σ) α) (s : σ) : Except ε α × σ := m.run s

@[simp] theorem outcome_pure (x : α) (s : σ) :
    outcome (pure x : ExceptT ε (StateM σ) α) s = (.ok x, s) := rfl

@[simp] theorem outcome_throw (e : ε) (s : σ) :
    outcome (throw e : ExceptT ε (StateM σ) α) s = (.error e, s) := rfl

section Bind

variable {m : ExceptT ε (StateM σ) α} {f : α → ExceptT ε (StateM σ) β}

theorem outcome_bind : outcome (m >>= f) s = match outcome m s with
    | (.ok x, t) => outcome (f x) t
    | (.error e, t) => (.error e, t) := by
  show (ExceptT.bindCont f (outcome m s).1).run (outcome m s).2 = _
  rcases outcome m s with ⟨_ | _, _⟩ <;> rfl

theorem outcome_bind_ok {x : α} (h : outcome m s = (.ok x, s')) :
    outcome (m >>= f) s = outcome (f x) s' := by
  rw [outcome_bind, h]

theorem outcome_bind_pure (g : α → β) : outcome (m >>= fun x => pure (g x)) s =
    ((outcome m s).1.map g, (outcome m s).2) := by
  rw [outcome_bind]
  rcases outcome m s with ⟨_ | _, _⟩ <;> rfl

/-- A sequence succeeds when both of its steps do. -/
theorem bind_eq_ok {y : β} : outcome (m >>= f) s = (.ok y, s') ↔
    ∃ x t, outcome m s = (.ok x, t) ∧ outcome (f x) t = (.ok y, s') := by
  rw [outcome_bind]
  rcases outcome m s with ⟨_ | x, t⟩ <;> simp [and_assoc]

/-- A sequence fails in its first step, or in the second after the first succeeded. -/
theorem bind_eq_error : outcome (m >>= f) s = (.error e, s') ↔
    outcome m s = (.error e, s') ∨
      ∃ x t, outcome m s = (.ok x, t) ∧ outcome (f x) t = (.error e, s') := by
  rw [outcome_bind]
  rcases outcome m s with ⟨_ | x, t⟩ <;> simp [and_assoc]

end Bind

/-! ## The steps of a session -/

namespace Session

theorem outcome_onTables (e : Encoder α) (s : Session) : outcome (onTables e) s =
    ((outcome e s.tables).1, { s with tables := (outcome e s.tables).2 }) := rfl

theorem outcome_tables (s : Session) : outcome (onTables get) s = (.ok s.tables, s) := rfl

theorem outcome_write (chunk : List UInt8) (s : Session) : outcome (write chunk) s =
    ((s.sink.write chunk).1.mapError .storage, { s with sink := (s.sink.write chunk).2 }) := rfl

theorem outcome_flush (s : Session) :
    outcome flush s = (s.sink.flush.mapError .storage, s) := rfl

end Session

end Export
end MethodPack
