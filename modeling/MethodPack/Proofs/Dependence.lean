import MethodPack.Proofs.Faults

/-!
# What an export depends on

An export does not look at everything it is given. Types of other namespaces are passed
over, nested types and references to them report namespaces that do not count, of a
signature only the number of arguments and the flag are kept, and labels serve to be told
apart. Main statement: inputs that differ in nothing else are exported alike, to the same
bytes and with the same summary, or with the same error up to its label (`packTo_alike`).
-/

namespace MethodPack

open Export (Positions ExportError Tables Session Encoder SessionM Summary outcome exported selected
  pack packMethods packTo sample)
open Packed (MemberKey MethodSignature SectionTag)

/-! ## Inputs that are alike -/

/-- The reference without the namespaces that nested types report. -/
def TypeRef.plain : TypeRef → TypeRef
  | outermost ns name => outermost ns name
  | nested _ name declaring => nested "" name declaring.plain

namespace Operand

/-- The labels that occur in the operand. -/
def labels : Operand → List Label
  | target l => [l]
  | targets ls => ls
  | _ => []

/-- The operand with its labels renamed, and without the namespaces that do not count. -/
def outline (f : Label → Label) : Operand → Operand
  | target l => target (f l)
  | targets ls => targets (ls.map f)
  | member r => member ⟨r.declaring.plain, r.name⟩
  | o => o

end Operand

/-- The instruction with all labels renamed, and without the namespaces that do not count. -/
def Instruction.outline (f : Label → Label) (i : Instruction) : Instruction :=
  ⟨f i.label, i.opcode, i.operand.outline f⟩

namespace MethodDef

/-- The labels that occur in the method: those of its instructions and of their operands. -/
def occurring (m : MethodDef) : List Label :=
  m.instructions.flatMap fun i => i.label :: i.operand.labels

/-- The renaming keeps the labels of the method apart. -/
def Distinguishes (f : Label → Label) (m : MethodDef) : Prop :=
  ∀ l ∈ m.occurring, ∀ l' ∈ m.occurring, f l = f l' → l = l'

/-- The methods have the same name, number of arguments and flag, and their bodies become
equal when the labels are renamed by `f` and by `g`. -/
structure Alike (f g : Label → Label) (m m' : MethodDef) : Prop where
  name : m.name = m'.name
  argCount : m.argCount = m'.argCount
  returnsValue : m.returnsValue = m'.returnsValue
  left : m.Distinguishes f
  right : m'.Distinguishes g
  body : m.instructions.map (Instruction.outline f) = m'.instructions.map (Instruction.outline g)

end MethodDef

mutual

/-- The types have the same name and, in the same order, methods and nested types that are
alike. The namespaces that they report may differ. -/
inductive TypeDef.Alike : TypeDef → TypeDef → Prop where
  | intro {ns ns' name : String} {methods methods' : List MethodDef} {nested nested' : List TypeDef}
      (hmethods : List.Forall₂ (fun m m' => ∃ f g, MethodDef.Alike f g m m') methods methods')
      (hnested : TypeDef.AllAlike nested nested') :
      TypeDef.Alike ⟨ns, name, methods, nested⟩ ⟨ns', name, methods', nested'⟩

/-- The types are alike one by one. -/
inductive TypeDef.AllAlike : List TypeDef → List TypeDef → Prop where
  | nil : TypeDef.AllAlike [] []
  | cons {t t' : TypeDef} {rest rest' : List TypeDef} (hfirst : TypeDef.Alike t t')
      (hrest : TypeDef.AllAlike rest rest') : TypeDef.AllAlike (t :: rest) (t' :: rest')

end

/-- The methods belong to the same type and are alike. -/
structure DeclaredMethod.Alike (d d' : DeclaredMethod) : Prop where
  type : d.type = d'.type
  method : ∃ f g, MethodDef.Alike f g d.method d'.method

/-- The method with all labels renamed, and without the namespaces that do not count. -/
def DeclaredMethod.outline (f : Label → Label) (d : DeclaredMethod) : DeclaredMethod :=
  ⟨d.type, d.method.withBody (d.method.instructions.map (Instruction.outline f))⟩

/-- The error with its label renamed, if it has one. -/
def Export.ExportError.relabel (f : Label → Label) : ExportError → ExportError
  | unresolvedTarget method l => unresolvedTarget method (f l)
  | duplicateLabel method l => duplicateLabel method (f l)
  | e => e

/-! ## Steps side by side -/

namespace Export

section Results

variable {ε α β : Type}

/-- Both results are values that `V` relates, or both are errors that `E` relates. -/
inductive Related (V : α → β → Prop) (E : ε → ε → Prop) : Except ε α → Except ε β → Prop where
  | ok {x : α} {y : β} (h : V x y) : Related V E (.ok x) (.ok y)
  | error {e e' : ε} (h : E e e') : Related V E (.error e) (.error e')

theorem Related.imp {V : α → β → Prop} {E E' : ε → ε → Prop} {r : Except ε α} {r' : Except ε β}
    (h : Related V E r r') (hE : ∀ e e', E e e' → E' e e') : Related V E' r r' := by
  cases h with
  | ok hxy => exact .ok hxy
  | error he => exact .error (hE _ _ he)

end Results

/-- Both steps lead from the same state to the same state, with related results. -/
def Parallel {ε σ α β : Type} (V : α → β → Prop) (E : ε → ε → Prop)
    (m : ExceptT ε (StateM σ) α) (m' : ExceptT ε (StateM σ) β) : Prop :=
  ∀ s, (outcome m s).2 = (outcome m' s).2 ∧ Related V E (outcome m s).1 (outcome m' s).1

namespace Parallel

variable {ε σ α α' β β' : Type} {V : α → β → Prop} {W : α' → β' → Prop} {E : ε → ε → Prop}

theorem pure {x : α} {y : β} (h : V x y) :
    Parallel V E (Pure.pure x : ExceptT ε (StateM σ) α) (Pure.pure y) := fun _ => ⟨rfl, .ok h⟩

theorem throw {e e' : ε} (h : E e e') :
    Parallel V E (throw e : ExceptT ε (StateM σ) α) (throw e') := fun _ => ⟨rfl, .error h⟩

theorem lift {r : Except ε α} {r' : Except ε β} (h : Related V E r r') :
    Parallel V E (MonadLift.monadLift r : ExceptT ε (StateM σ) α) (MonadLift.monadLift r') :=
  fun _ => ⟨rfl, h⟩

variable {m : ExceptT ε (StateM σ) α} {m' : ExceptT ε (StateM σ) β}

theorem bind {k : α → ExceptT ε (StateM σ) α'} {k' : β → ExceptT ε (StateM σ) β'}
    (hm : Parallel V E m m') (hk : ∀ x y, V x y → Parallel W E (k x) (k' y)) :
    Parallel W E (m >>= k) (m' >>= k') := by
  intro s
  obtain ⟨hstate, hresult⟩ := hm s
  rw [outcome_bind, outcome_bind]
  rcases hrun : outcome m s with ⟨r, t⟩
  rcases hrun' : outcome m' s with ⟨r', t'⟩
  rw [hrun, hrun'] at hstate hresult
  cases hstate
  cases hresult with
  | ok hxy => exact hk _ _ hxy t
  | error he => exact ⟨rfl, .error he⟩

/-- Steps that give the same value go on with it. -/
theorem andThen {m m' : ExceptT ε (StateM σ) α} {k : α → ExceptT ε (StateM σ) α'}
    {k' : α → ExceptT ε (StateM σ) β'} (hm : Parallel Eq E m m')
    (hk : ∀ x, Parallel W E (k x) (k' x)) : Parallel W E (m >>= k) (m' >>= k') := by
  apply hm.bind
  intro x y hxy
  cases hxy
  exact hk x

theorem mapM {f : α → ExceptT ε (StateM σ) α'} {f' : β → ExceptT ε (StateM σ) α'} {g : α → β}
    {xs : List α} (h : ∀ x ∈ xs, Parallel Eq E (f x) (f' (g x))) :
    Parallel Eq E (xs.mapM f) ((xs.map g).mapM f') := by
  induction xs with
  | nil => exact pure rfl
  | cons x rest ih =>
    have hrest : Parallel Eq E (rest.mapM f) ((rest.map g).mapM f') :=
      ih fun x' hx' => h x' (by simp [hx'])
    rw [List.map_cons, List.mapM_cons, List.mapM_cons]
    exact (h x (by simp)).andThen fun y => hrest.andThen fun ys => pure rfl

end Parallel

/-! ## Steps that know no labels -/

/-- The errors of the step carry no label. -/
def LabelFree {σ α : Type} (m : ExceptT ExportError (StateM σ) α) : Prop :=
  ∀ s e, (outcome m s).1 = .error e → ∀ f, e.relabel f = e

namespace LabelFree

section General

variable {σ α β : Type} {m : ExceptT ExportError (StateM σ) α}

theorem pure (x : α) : LabelFree (Pure.pure x : ExceptT ExportError (StateM σ) α) :=
  fun _ _ h => by cases h

theorem throw {e : ExportError} (h : ∀ f, e.relabel f = e) :
    LabelFree (throw e : ExceptT ExportError (StateM σ) α) := by
  intro s e' he
  cases he
  exact h

theorem get : LabelFree (MonadState.get : ExceptT ExportError (StateM σ) σ) :=
  fun _ _ h => by cases h

theorem bind {k : α → ExceptT ExportError (StateM σ) β} (hm : LabelFree m)
    (hk : ∀ x, LabelFree (k x)) : LabelFree (m >>= k) := by
  intro s e he
  rw [outcome_bind] at he
  rcases hrun : outcome m s with ⟨e' | x, t⟩
  · rw [hrun] at he
    cases he
    exact hm s e (by rw [hrun])
  · rw [hrun] at he
    exact hk x t e he

theorem forM {k : α → ExceptT ExportError (StateM σ) Unit} (hk : ∀ x, LabelFree (k x))
    (xs : List α) : LabelFree (xs.forM k) := by
  induction xs with
  | nil => exact pure ()
  | cons x rest ih => exact (hk x).bind fun _ => ih

/-- A step that knows no labels runs parallel to itself, whatever becomes of labels. -/
theorem parallel {E : ExportError → ExportError → Prop} (h : LabelFree m)
    (hE : ∀ e : ExportError, (∀ f, e.relabel f = e) → E e e) : Parallel Eq E m m := by
  intro s
  refine ⟨rfl, ?_⟩
  cases hresult : (outcome m s).1 with
  | ok x => exact .ok rfl
  | error e => exact .error (hE e (h s e hresult))

end General

theorem intern (s : String) : LabelFree (Encoder.intern s) := by
  intro t e he
  rw [Encoder.outcome_intern, StringTable.intern] at he
  split at he
  · cases he
  · split at he
    · cases he
    · cases he
      exact fun _ => rfl

theorem push (blob : List UInt8) : LabelFree (Encoder.push blob) := by
  intro t e he
  rw [Encoder.outcome_push, BlobTable.push] at he
  split at he
  · cases he
  · cases he
    exact fun _ => rfl

theorem reference (type : QualifiedType) (member : String) :
    LabelFree (Encoder.reference type member) := by
  refine (intern _).bind fun ns => (intern _).bind fun path => (intern _).bind fun name => ?_
  cases MemberKey.pack ns path name with
  | ok key => exact pure key
  | error overflow => exact throw fun _ => rfl

/-- A fault of the sink names no label. -/
theorem onSink (f : Sink → Except StorageFault Unit × Sink) :
    LabelFree (Session.onSink f : SessionM Unit) := by
  intro s e he
  change (f s.sink).1.mapError ExportError.storage = .error e at he
  cases hresult : (f s.sink).1 with
  | ok _ =>
    rw [hresult] at he
    cases he
  | error fault =>
    rw [hresult] at he
    cases he
    exact fun _ => rfl

theorem write (chunk : List UInt8) : LabelFree (Session.write chunk) := onSink _

theorem onTables {e : Encoder α} (h : LabelFree e) : LabelFree (Session.onTables e : SessionM α) :=
  fun s => h s.tables

theorem counts : LabelFree (Session.onCounts fun c => (c, c) : SessionM Counts) :=
  fun _ _ h => by cases h

theorem writeTable (tag : SectionTag) (entries : List (List UInt8)) :
    LabelFree (Session.writeTable tag entries) := by
  have hentry (entry : List UInt8) : LabelFree (Session.writeEntry tag entry) := by
    rw [Session.writeEntry_eq]
    split
    · exact throw fun _ => rfl
    · exact write _
  have hentries := forM hentry entries
  have htooMany : ∀ f, (Session.tooMany tag entries.length).relabel f =
      Session.tooMany tag entries.length := by
    intro f
    cases tag with
    | blob => rfl
    | string => rfl
    | method => rfl
  rw [Session.writeTable]
  split
  · exact (throw htooMany).bind fun _ => (write _).bind fun _ => hentries
  · exact (write _).bind fun _ => hentries

theorem finish : LabelFree Session.finish :=
  (onTables get).bind fun _ => (writeTable _ _).bind fun _ => (writeTable _ _).bind fun _ =>
    (onSink _).bind fun _ => counts.bind fun _ => pure _

end LabelFree

/-! ## Encoding under a renaming -/

variable {f : Label → Label} {labels : List Label} {p q : Positions} {method : String}

/-- The first error becomes the second when its label is renamed. -/
def RelabelsTo (f : Label → Label) (e e' : ExportError) : Prop := e.relabel f = e'

/-- Steps that run parallel to a third one, with their labels renamed, run parallel to each
other. -/
theorem Parallel.meet {σ α : Type} {f g : Label → Label}
    {m m' m₀ : ExceptT ExportError (StateM σ) α} (h : Parallel Eq (RelabelsTo f) m m₀)
    (h' : Parallel Eq (RelabelsTo g) m' m₀) :
    Parallel Eq (fun e e' => e.relabel f = e'.relabel g) m m' := by
  intro s
  obtain ⟨hstate, hresult⟩ := h s
  obtain ⟨hstate', hresult'⟩ := h' s
  refine ⟨hstate.trans hstate'.symm, ?_⟩
  generalize (outcome m s).1 = r at hresult ⊢
  generalize (outcome m' s).1 = r' at hresult' ⊢
  generalize (outcome m₀ s).1 = r₀ at hresult hresult'
  cases hresult with
  | ok hx =>
    cases hresult' with
    | ok hy => exact .ok (hx.trans hy.symm)
  | error he =>
    cases hresult' with
    | error he' => exact .error (he.trans he'.symm)

/-- The positions `q` give the renamed labels the positions that `p` gives the labels. -/
def Positions.Renames (f : Label → Label) (labels : List Label) (p q : Positions) : Prop :=
  ∀ l ∈ labels, q.position? (f l) = p.position? l

/-- Numbering a renamed body stops at the renamed label. -/
theorem Positions.number_outline {body : List Instruction} {n : Nat}
    (hf : ∀ l ∈ labels, ∀ l' ∈ labels, f l = f l' → l = l') (hp : p.Renames f labels q)
    (hbody : ∀ i ∈ body, i.label ∈ labels) :
    Related (Renames f labels) (RelabelsTo f) (number method p n body)
      (number method q n (body.map (Instruction.outline f))) := by
  induction body generalizing p q n with
  | nil => exact .ok hp
  | cons i rest ih =>
    have hi : i.label ∈ labels := hbody i (by simp)
    have hcontains : q.byLabel.contains (f i.label) = p.byLabel.contains i.label := by
      rw [Std.HashMap.contains_eq_isSome_getElem?, Std.HashMap.contains_eq_isSome_getElem?]
      exact congrArg Option.isSome (hp i.label hi)
    rw [List.map_cons, number, number]
    simp only [Instruction.outline, hcontains]
    split
    · exact .error rfl
    · apply ih _ fun j hj => hbody j (by simp [hj])
      intro l hl
      have hold := hp l hl
      rw [position?, position?] at hold
      rw [position?, position?, Std.HashMap.getElem?_insert, Std.HashMap.getElem?_insert, hold]
      -- the renaming keeps the new label apart from the others
      by_cases heq : i.label = l
      · simp [heq]
      · have hne : f i.label ≠ f l := fun h => heq (hf _ hi _ hl h)
        simp [heq, hne]

theorem Positions.build_outline {body : List Instruction}
    (hf : ∀ l ∈ labels, ∀ l' ∈ labels, f l = f l' → l = l')
    (hbody : ∀ i ∈ body, i.label ∈ labels) :
    Related (Renames f labels) (RelabelsTo f) (build method body)
      (build method (body.map (Instruction.outline f))) := by
  rw [build, build, List.length_map]
  split
  · exact .error rfl
  · refine number_outline hf ?_ hbody
    intro l _
    simp [position?]

theorem qualify_plain (t : TypeRef) : t.plain.qualify = t.qualify := by
  have hparts : t.plain.rootNs = t.rootNs ∧ t.plain.chain = t.chain := by
    induction t with
    | outermost ns name => exact ⟨rfl, rfl⟩
    | nested ns name declaring ih =>
      exact ⟨ih.1, congrArg (name :: ·) ih.2⟩
  rw [TypeRef.qualify, TypeRef.qualify, hparts.1, hparts.2]

namespace Encoder

/-- A step that knows no labels runs parallel to itself when labels are renamed. -/
theorem unlabeled {α : Type} {m : Encoder α} (h : LabelFree m) : Parallel Eq (RelabelsTo f) m m :=
  h.parallel fun _ he => he f

theorem resolve_outline (hp : p.Renames f labels q) {l : Label} (hl : l ∈ labels) :
    Parallel Eq (RelabelsTo f) (resolve method p l) (resolve method q (f l)) := by
  rw [resolve, resolve, hp l hl]
  cases p.position? l with
  | some position => exact .pure rfl
  | none => exact .throw rfl

/-- An instruction under renamed labels is encoded as before. -/
theorem instruction_outline (hp : p.Renames f labels q) {i : Instruction}
    (hi : ∀ l ∈ i.operand.labels, l ∈ labels) :
    Parallel Eq (RelabelsTo f) (instruction method p i) (instruction method q (i.outline f)) := by
  obtain ⟨label, opcode, operand⟩ := i
  have hoperand : Parallel Eq (RelabelsTo f)
      (Encoder.operand method p ⟨label, opcode, operand⟩)
      (Encoder.operand method q (Instruction.outline f ⟨label, opcode, operand⟩)) := by
    cases operand with
    | string s => exact (unlabeled (.intern s)).andThen fun _ => .pure rfl
    | target l =>
      have hl : l ∈ labels := hi l (by simp [Operand.labels])
      exact (resolve_outline hp hl).andThen fun _ => .pure rfl
    | targets ls =>
      have hls : ∀ l ∈ ls, l ∈ labels := hi
      exact (Parallel.mapM fun l hl => resolve_outline hp (hls l hl)).andThen fun _ =>
        (unlabeled (.push _)).andThen fun _ => .pure rfl
    | member r =>
      show Parallel Eq _ (reference r.declaring.qualify r.name >>= _)
        (reference r.declaring.plain.qualify r.name >>= _)
      rw [qualify_plain]
      exact (unlabeled (.reference _ _)).andThen fun _ => .pure rfl
    | unsupported shape => exact .throw rfl
    | _ => exact .pure rfl
  exact hoperand.andThen fun _ => .pure rfl

/-- A method with renamed labels has the record that it had before. -/
theorem methodRecord_outline {d : DeclaredMethod} (hf : d.method.Distinguishes f) :
    Parallel Eq (RelabelsTo f) (methodRecord d) (methodRecord (d.outline f)) := by
  have hlabel : ∀ i ∈ d.method.instructions, ∀ l ∈ i.label :: i.operand.labels,
      l ∈ d.method.occurring := fun i hi l hl => List.mem_flatMap.mpr ⟨i, hi, hl⟩
  have hrecord : Parallel Eq (RelabelsTo f) (do
      let positions ← (MonadLift.monadLift (Positions.build d.fullName d.method.instructions) :
        Encoder Positions)
      let key ← Encoder.reference d.type d.method.name
      let body ← d.method.instructions.mapM (Encoder.instruction d.fullName positions)
      return Packed.Section.method key d.signature.pack body) (do
      let positions ← (MonadLift.monadLift (Positions.build d.fullName
        (d.method.instructions.map (Instruction.outline f))) : Encoder Positions)
      let key ← Encoder.reference d.type d.method.name
      let body ← (d.method.instructions.map (Instruction.outline f)).mapM
        (Encoder.instruction d.fullName positions)
      return Packed.Section.method key d.signature.pack body) := by
    have hbuild : Related (Positions.Renames f d.method.occurring) (RelabelsTo f)
        (Positions.build d.fullName d.method.instructions)
        (Positions.build d.fullName (d.method.instructions.map (Instruction.outline f))) :=
      Positions.build_outline hf fun i hi => hlabel i hi _ (by simp)
    apply (Parallel.lift hbuild).bind
    intro p q hp
    have hbody : Parallel Eq (RelabelsTo f)
        (d.method.instructions.mapM (Encoder.instruction d.fullName p))
        ((d.method.instructions.map (Instruction.outline f)).mapM
          (Encoder.instruction d.fullName q)) :=
      Parallel.mapM fun i hi => instruction_outline hp fun l hl => hlabel i hi l (by simp [hl])
    exact (unlabeled (.reference _ _)).andThen fun _ => hbody.andThen fun _ => .pure rfl
  have hcount : (d.outline f).method.argCount = d.method.argCount := rfl
  rw [methodRecord, methodRecord, hcount]
  by_cases harguments : MethodSignature.maxArgs < d.method.argCount
  · rw [if_pos harguments, if_pos harguments]
    exact Parallel.bind (V := Eq) (.throw rfl) fun _ _ _ => hrecord
  · rw [if_neg harguments, if_neg harguments]
    exact hrecord

/-- The record is made of the name, the number of arguments, the flag and the body. -/
theorem methodRecord_congr {d d' : DeclaredMethod} (htype : d.type = d'.type)
    (hname : d.method.name = d'.method.name) (hcount : d.method.argCount = d'.method.argCount)
    (hvalue : d.method.returnsValue = d'.method.returnsValue)
    (hbody : d.method.instructions = d'.method.instructions) :
    methodRecord d = methodRecord d' := by
  rw [methodRecord, methodRecord, DeclaredMethod.fullName, DeclaredMethod.fullName,
    DeclaredMethod.signature, DeclaredMethod.signature, htype, hname, hcount, hvalue, hbody]

theorem methodRecord_alike {d d' : DeclaredMethod} {g : Label → Label} (htype : d.type = d'.type)
    (h : MethodDef.Alike f g d.method d'.method) :
    Parallel Eq (fun e e' => e.relabel f = e'.relabel g) (methodRecord d) (methodRecord d') := by
  have hleft := methodRecord_outline h.left
  have hright := methodRecord_outline h.right
  have hsame : methodRecord (d.outline f) = methodRecord (d'.outline g) :=
    methodRecord_congr htype h.name h.argCount h.returnsValue h.body
  rw [← hsame] at hright
  exact hleft.meet hright

end Encoder

/-! ## Whole exports -/

namespace Session

variable {d d' : DeclaredMethod} {ds ds' : List DeclaredMethod} {s : Session}

theorem encodeMethod_alike {g : Label → Label} (htype : d.type = d'.type)
    (h : MethodDef.Alike f g d.method d'.method) :
    Parallel Eq (fun e e' => e.relabel f = e'.relabel g) (encodeMethod d.type d.method)
      (encodeMethod d'.type d'.method) := by
  have hrecord : Parallel Eq (fun e e' => e.relabel f = e'.relabel g)
      (onTables (Encoder.methodRecord d) : SessionM _) (onTables (Encoder.methodRecord d')) := by
    intro s
    obtain ⟨htables, hresult⟩ := Encoder.methodRecord_alike htype h s.tables
    rw [outcome_onTables, outcome_onTables, htables]
    exact ⟨rfl, hresult⟩
  have hlength : d.method.instructions.length = d'.method.instructions.length := by
    simpa using congrArg List.length h.body
  have hcount : Parallel Eq (fun e e' => e.relabel f = e'.relabel g) (countMethod d)
      (countMethod d') := by
    rw [countMethod, countMethod, hlength]
    exact fun s => ⟨rfl, .ok rfl⟩
  have hwrite (chunk : List UInt8) : Parallel Eq (fun e e' => e.relabel f = e'.relabel g)
      (write chunk) (write chunk) :=
    (LabelFree.write chunk).parallel fun e he => (he f).trans (he g).symm
  rw [encodeMethod_eq, encodeMethod_eq]
  exact hrecord.andThen fun r => (hwrite _).andThen fun _ => hcount

/-- From the session, the methods before the `k`-th are encoded, and it fails. -/
def StopsAt (s : Session) (ds : List DeclaredMethod) (k : Nat) (d : DeclaredMethod)
    (e : ExportError) : Prop :=
  ds[k]? = some d ∧ ∃ t, outcome (encodeAll (ds.take k)) s = (.ok (), t) ∧
    (outcome (encodeMethod d.type d.method) t).1 = .error e

/-- Both runs stop at the same place, at methods that are alike. Any renamings under which the
methods become equal make the errors equal. -/
def StopAlike (s : Session) (ds ds' : List DeclaredMethod) (e e' : ExportError) : Prop :=
  ∃ k d d', StopsAt s ds k d e ∧ StopsAt s ds' k d' e' ∧ d.Alike d' ∧
    ∀ f g, MethodDef.Alike f g d.method d'.method → e.relabel f = e'.relabel g

theorem StopsAt.head {e : ExportError}
    (h : (outcome (encodeMethod d.type d.method) s).1 = .error e) :
    StopsAt s (d :: ds) 0 d e := ⟨rfl, s, rfl, h⟩

theorem encodeAll_cons (d : DeclaredMethod) (ds : List DeclaredMethod) :
    encodeAll (d :: ds) = encodeMethod d.type d.method >>= fun _ => encodeAll ds := rfl

theorem StopsAt.tail {t : Session} {first : DeclaredMethod} {k : Nat} {e : ExportError}
    (h : StopsAt t ds k d e)
    (hfirst : outcome (encodeMethod first.type first.method) s = (.ok (), t)) :
    StopsAt s (first :: ds) (k + 1) d e := by
  obtain ⟨hd, u, hbefore, hfails⟩ := h
  refine ⟨hd, u, ?_, hfails⟩
  rw [List.take_succ_cons, encodeAll_cons, outcome_bind_ok hfirst, hbefore]

/-- Methods that are alike are encoded alike, or both runs stop at the same place. -/
theorem encodeAll_alike (h : List.Forall₂ DeclaredMethod.Alike ds ds') (s : Session) :
    (outcome (encodeAll ds) s).2 = (outcome (encodeAll ds') s).2 ∧
      Related Eq (StopAlike s ds ds') (outcome (encodeAll ds) s).1
        (outcome (encodeAll ds') s).1 := by
  induction h generalizing s with
  | nil => exact ⟨rfl, .ok rfl⟩
  | @cons d d' rest rest' hd hrest ih =>
    obtain ⟨f, g, hfg⟩ := hd.method
    obtain ⟨hstate, hresult⟩ := encodeMethod_alike hd.type hfg s
    rw [encodeAll_cons, encodeAll_cons, outcome_bind, outcome_bind]
    rcases hrun : outcome (encodeMethod d.type d.method) s with ⟨r, t⟩
    rcases hrun' : outcome (encodeMethod d'.type d'.method) s with ⟨r', t'⟩
    rw [hrun, hrun'] at hstate hresult
    cases hstate
    cases hresult with
    | error _ =>
      refine ⟨rfl, .error ⟨0, d, d', .head (by rw [hrun]), .head (by rw [hrun']), hd, ?_⟩⟩
      -- any renamings make the errors equal, not only those at hand
      intro f g hfg
      have hagain := (encodeMethod_alike hd.type hfg s).2
      rw [hrun, hrun'] at hagain
      cases hagain with
      | error he => exact he
    | ok _ =>
      obtain ⟨hstate, hresult⟩ := ih t
      refine ⟨hstate, hresult.imp ?_⟩
      rintro e e' ⟨k, d₁, d₁', hstops, hstops', halike, hrelabel⟩
      exact ⟨k + 1, d₁, d₁', hstops.tail hrun, hstops'.tail hrun', halike, hrelabel⟩

end Session

mutual

theorem count_alike : ∀ {t t' : TypeDef}, t.Alike t' → t.count = t'.count
  | _, _, .intro _ hnested => by rw [TypeDef.count, TypeDef.count, countAll_alike hnested]

theorem countAll_alike : ∀ {ts ts' : List TypeDef}, TypeDef.AllAlike ts ts' →
    TypeDef.countAll ts = TypeDef.countAll ts'
  | _, _, .nil => rfl
  | _, _, .cons hfirst hrest => by
    rw [TypeDef.countAll, TypeDef.countAll, count_alike hfirst, countAll_alike hrest]

end

mutual

theorem walk_alike (ns : String) (around : List String) : ∀ {t t' : TypeDef}, t.Alike t' →
    List.Forall₂ DeclaredMethod.Alike (t.walk ns around) (t'.walk ns around)
  | _, _, .intro hmethods hnested => by
    rw [TypeDef.walk, TypeDef.walk]
    refine List.rel_append ?_ (walkAll_alike ns _ hnested)
    rw [List.forall₂_map_left_iff, List.forall₂_map_right_iff]
    exact hmethods.imp fun _ _ hm => ⟨rfl, hm⟩

theorem walkAll_alike (ns : String) (around : List String) : ∀ {ts ts' : List TypeDef},
    TypeDef.AllAlike ts ts' → List.Forall₂ DeclaredMethod.Alike (TypeDef.walkAll ns around ts)
      (TypeDef.walkAll ns around ts')
  | _, _, .nil => .nil
  | _, _, .cons hfirst hrest => by
    rw [TypeDef.walkAll, TypeDef.walkAll]
    exact List.rel_append (walk_alike ns around hfirst) (walkAll_alike ns around hrest)

end

/-- The errors are equal and carry no label, or both runs stop at the same method and the errors
are equal up to the renamed label. -/
def SameError (sink : Sink) (ds ds' : List DeclaredMethod) (e e' : ExportError) : Prop :=
  (e = e' ∧ ∀ f, e.relabel f = e) ∨
    ∃ s, outcome Session.start { sink } = (.ok (), s) ∧ Session.StopAlike s ds ds' e e'

theorem packMethods_alike {ds ds' : List DeclaredMethod}
    (h : List.Forall₂ DeclaredMethod.Alike ds ds') (sink : Sink) :
    (outcome (packMethods ds) { sink }).2 = (outcome (packMethods ds') { sink }).2 ∧
      Related Eq (SameError sink ds ds') (outcome (packMethods ds) { sink }).1
        (outcome (packMethods ds') { sink }).1 := by
  have hstart : LabelFree Session.start := .write _
  rw [packMethods, packMethods, outcome_bind, outcome_bind]
  rcases hrun : outcome Session.start { sink } with ⟨e | _, s⟩
  · exact ⟨rfl, .error (.inl ⟨rfl, hstart _ e (by rw [hrun])⟩)⟩
  · simp only
    obtain ⟨hstate, hresult⟩ := Session.encodeAll_alike h s
    rw [outcome_bind, outcome_bind]
    generalize outcome (Session.encodeAll ds) s = reached at hstate hresult ⊢
    generalize outcome (Session.encodeAll ds') s = reached' at hstate hresult ⊢
    obtain ⟨r, t⟩ := reached
    obtain ⟨r', t'⟩ := reached'
    cases hstate
    cases hresult with
    | ok _ => exact LabelFree.finish.parallel (fun e he => .inl ⟨rfl, he⟩) t
    | error he => exact ⟨rfl, .error (.inr ⟨s, hrun, he⟩)⟩

/-- **What an export depends on.** Inputs whose types of the exported namespace are alike leave
the same bytes in the sink. Both exports succeed with the same summary, or both fail with the
same error up to the renamed label. -/
theorem packTo_alike (sink : Sink) {types types' : List TypeDef} {ns : String}
    (h : TypeDef.AllAlike (selected types ns) (selected types' ns)) :
    (packTo sink types ns).2 = (packTo sink types' ns).2 ∧
      Related Eq (SameError sink (exported types ns) (exported types' ns))
        (packTo sink types ns).1 (packTo sink types' ns).1 := by
  have hwalk : List.Forall₂ DeclaredMethod.Alike (exported types ns) (exported types' ns) :=
    walkAll_alike ns [] h
  obtain ⟨hstate, hresult⟩ := packMethods_alike hwalk sink
  obtain ⟨k, hpack, hcount⟩ := outcome_pack types ns { sink }
  obtain ⟨k', hpack', hcount'⟩ := outcome_pack types' ns { sink }
  rw [← countAll_alike h] at hcount'
  show (outcome (pack types ns) { sink }).2.sink = (outcome (pack types' ns) { sink }).2.sink ∧
    Related Eq _ (outcome (pack types ns) { sink }).1 (outcome (pack types' ns) { sink }).1
  rw [hpack, hpack', hstate]
  refine ⟨rfl, ?_⟩
  generalize (outcome (packMethods (exported types ns)) { sink }).1 = r at hresult hcount ⊢
  generalize (outcome (packMethods (exported types' ns)) { sink }).1 = r' at hresult hcount' ⊢
  cases hresult with
  | ok hx =>
    rw [hcount rfl, hcount' rfl, hx]
    exact .ok rfl
  | error he => exact .error he

/-- The types of the sample, with a type of another namespace that has no encoding, and with
other labels, namespaces and kinds of parameters where they do not count. -/
def disguised : List TypeDef :=
  [{ ns := "Other"
     name := "Broken"
     methods := [{ name := "lost", instructions := [⟨⟨0⟩, .br, .target ⟨7⟩⟩] }] },
   { ns := "App"
     name := "Outer"
     methods := [{
       name := "run"
       genericParams := 1
       hasThis := true
       instructions := [
         ⟨⟨90⟩, .ldstr, .string "hi"⟩,
         ⟨⟨85⟩, .call, .member ⟨.nested "Else" "Inner" (.outermost "App" "Outer"), "go"⟩⟩,
         ⟨⟨80⟩, .switch, .targets [⟨71⟩, ⟨90⟩]⟩,
         ⟨⟨71⟩, .br, .target ⟨85⟩⟩] }]
     nested := [{
       ns := "Elsewhere"
       name := "Inner"
       methods := [{ name := "go", params := 1, instructions := [.bare 3 .ret] }] }] }]

theorem alike_disguised : TypeDef.AllAlike (selected sample "App") (selected disguised "App") := by
  refine .cons (.intro (.cons ⟨fun l => ⟨90 - l.offset⟩, id, ?_⟩ .nil)
    (.cons (.intro (.cons ⟨fun l => ⟨l.offset + 3⟩, id, ?_⟩ .nil) .nil) .nil)) .nil
  · exact ⟨rfl, rfl, rfl, by unfold MethodDef.Distinguishes; decide, fun _ _ _ _ h => h, rfl⟩
  · exact ⟨rfl, rfl, rfl, by unfold MethodDef.Distinguishes; decide, fun _ _ _ _ h => h, rfl⟩

theorem packTo_alike_disguised :
    TypeDef.AllAlike (selected sample "App") (selected disguised "App") ∧
      ∃ summary sink, packTo {} sample "App" = (.ok summary, sink) ∧
        packTo {} disguised "App" = (.ok summary, sink) := by
  obtain ⟨hsink, hresult⟩ := packTo_alike {} alike_disguised
  obtain ⟨summary, s, hrun⟩ := pack_succeeds sample "App" (by decide) (by decide)
  have hpack : packTo {} sample "App" = (.ok summary, s.sink) := packTo_eq_iff.mpr ⟨s, hrun, rfl⟩
  refine ⟨alike_disguised, summary, s.sink, hpack, ?_⟩
  rw [hpack] at hsink hresult
  rcases hother : packTo {} disguised "App" with ⟨r, sink⟩
  rw [hother] at hsink hresult
  cases hsink
  cases hresult with
  | ok hsummary => rw [hsummary]

end Export
end MethodPack
