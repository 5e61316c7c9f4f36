import MethodPack.Export.Session

/-!
# Lockstep

All that an export asks of a sink is to take chunks and, in the end, to be flushed. What two
sessions on different sinks have to do with each other is therefore settled step by step: a
relation that holds between their elementary steps, and between sequences of steps that it
holds between, holds between their exports. Main statement: `Lockstep.pack`.
-/

namespace MethodPack.Export

variable {σ τ : Type} {m n : Type → Type} [Monad m] [Monad n] [ByteSink σ m] [ByteSink τ n]

/-- A relation between the steps of sessions on two kinds of sinks that holds between the same
elementary steps, and is kept when steps follow each other. -/
structure Lockstep (R : ∀ {α : Type}, SessionT σ m α → SessionT τ n α → Prop) : Prop where
  pure : ∀ {α : Type} (x : α), R (Pure.pure x) (Pure.pure x)
  throw : ∀ {α : Type} (e : ExportError), R (throw e : SessionT σ m α) (throw e)
  bind : ∀ {α β : Type} {a : SessionT σ m α} {b : SessionT τ n α} {f : α → SessionT σ m β}
    {g : α → SessionT τ n β}, R a b → (∀ x, R (f x) (g x)) → R (a >>= f) (b >>= g)
  onTables : ∀ {α : Type} (e : Encoder α), R (Session.onTables e) (Session.onTables e)
  onCounts : ∀ {α : Type} (f : Counts → α × Counts), R (Session.onCounts f) (Session.onCounts f)
  write : ∀ chunk, R (Session.write chunk) (Session.write chunk)
  flush : R Session.flush Session.flush

namespace Lockstep

variable {R : ∀ {α : Type}, SessionT σ m α → SessionT τ n α → Prop} {α : Type}

theorem lift (h : Lockstep R) (r : Except ExportError α) :
    R (liftM r : SessionT σ m α) (liftM r) := by
  cases r with
  | ok x => exact h.pure x
  | error e => exact h.throw e

theorem forM (h : Lockstep R) {f : α → SessionT σ m Unit} {g : α → SessionT τ n Unit}
    (hstep : ∀ x, R (f x) (g x)) (xs : List α) : R (xs.forM f) (xs.forM g) := by
  induction xs with
  | nil => exact h.pure ()
  | cons x rest ih => exact h.bind (hstep x) fun _ => ih

/-! ## Methods -/

theorem signature (h : Lockstep R) (method : String) (d : MethodDef) :
    R (Session.signature method d) (Session.signature method d) := by
  rw [Session.signature, Session.signature]
  split
  · exact h.pure _
  · exact h.throw _

theorem encodeMethod (h : Lockstep R) (type : QualifiedType) (d : MethodDef) :
    R (Session.encodeMethod type d) (Session.encodeMethod type d) :=
  h.bind (h.signature _ d) fun _ => h.bind (h.lift _) fun _ => h.bind (h.onTables _) fun _ =>
    h.bind (h.onTables _) fun _ => h.bind (h.write _) fun _ => h.onCounts _

mutual

theorem collect (h : Lockstep R) (enclosing : Option TypeRef) : ∀ t : TypeDef,
    R (Session.collect enclosing t) (Session.collect enclosing t)
  | ⟨ns, name, methods, nested⟩ => by
    have hmethods (this : TypeRef) := h.bind (h.forM (h.encodeMethod this.qualify) methods)
      fun _ => h.collectAll this nested
    cases enclosing with
    | none =>
      rw [Session.collect, Session.collect]
      exact h.bind (h.onCounts _) fun _ => hmethods _
    | some declaring =>
      rw [Session.collect, Session.collect]
      exact h.bind (h.onCounts _) fun _ => hmethods _

theorem collectAll (h : Lockstep R) (this : TypeRef) : ∀ ts : List TypeDef,
    R (Session.collectAll this ts) (Session.collectAll this ts)
  | [] => by
    rw [Session.collectAll, Session.collectAll]
    exact h.pure ()
  | t :: rest => by
    rw [Session.collectAll, Session.collectAll]
    exact h.bind (h.collect (some this) t) fun _ => h.collectAll this rest

end

/-! ## Tables -/

theorem writeEntry (h : Lockstep R) (tag : Packed.SectionTag) (entry : List UInt8) :
    R (Session.writeEntry tag entry) (Session.writeEntry tag entry) := by
  have hentry := h.bind (h.write (Packed.countBytes .little entry.length)) fun _ => h.write entry
  rw [Session.writeEntry, Session.writeEntry]
  split
  · exact h.bind (h.throw _) fun _ => hentry
  · exact hentry

theorem writeTable (h : Lockstep R) (tag : Packed.SectionTag) (entries : List (List UInt8)) :
    R (Session.writeTable tag entries) (Session.writeTable tag entries) := by
  have htable := h.bind (h.write (Packed.tableHeader .little tag entries.length)) fun _ =>
    h.forM (h.writeEntry tag) entries
  rw [Session.writeTable, Session.writeTable]
  split
  · exact h.bind (h.throw _) fun _ => htable
  · exact htable

theorem finish (h : Lockstep R) : R Session.finish Session.finish :=
  h.bind (h.onTables _) fun _ => h.bind (h.writeTable _ _) fun _ =>
    h.bind (h.writeTable _ _) fun _ => h.bind h.flush fun _ => h.bind (h.onCounts _) fun _ =>
      h.pure _

/-- **Exports in lockstep.** What holds between the steps holds between whole exports. -/
theorem pack (h : Lockstep R) (types : List TypeDef) (ns : String) :
    R (pack types ns) (pack types ns) :=
  h.bind (h.write _) fun _ => h.bind (h.forM (h.collect none) _) fun _ => h.finish

end Lockstep
end MethodPack.Export
