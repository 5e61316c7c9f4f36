import MethodPack.Proofs.Steps

/-!
# The walk

An export meets the methods of the selected types in one order: those of a type in
declaration order, then those of its nested types, one type after the other. Main
statement: collecting types encodes the methods of the walk one after the other, and
counts the types on the way (`counts_collectTypes`).
-/

namespace MethodPack

/-- A method, and the type that declares it as a reference word names it. -/
structure DeclaredMethod where
  type : QualifiedType
  method : MethodDef
deriving DecidableEq, Repr

/-- The name of the method as errors give it. -/
def DeclaredMethod.fullName (d : DeclaredMethod) : String := d.type.memberName d.method.name

mutual

/-- The methods of a type and of the types nested in it. The type lies within the types
named `around`, the outermost first, and `ns` is the namespace of the outermost one. -/
def TypeDef.walk (ns : String) (around : List String) : TypeDef → List DeclaredMethod
  | ⟨_, name, methods, nested⟩ =>
    methods.map (fun m => ⟨⟨ns, "/".intercalate (around ++ [name])⟩, m⟩) ++
      walkAll ns (around ++ [name]) nested

/-- The methods of several types, one type after the other. -/
def TypeDef.walkAll (ns : String) (around : List String) : List TypeDef → List DeclaredMethod
  | [] => []
  | t :: rest => t.walk ns around ++ walkAll ns around rest

end

mutual

/-- A type and the types nested in it. -/
def TypeDef.count : TypeDef → Nat
  | ⟨_, _, _, nested⟩ => 1 + countAll nested

/-- Several types and the types nested in them. -/
def TypeDef.countAll : List TypeDef → Nat
  | [] => 0
  | t :: rest => t.count + countAll rest

end

namespace Export

/-- The top-level types of exactly the given namespace. -/
def selected (types : List TypeDef) (ns : String) : List TypeDef :=
  types.filter fun t => t.ns == ns

/-- The methods that an export meets, in order. -/
def exported (types : List TypeDef) (ns : String) : List DeclaredMethod :=
  TypeDef.walkAll ns [] (selected types ns)

/-- A type with a nested one. Its method branches, switches and refers to a string and to
a method of the nested type. -/
def sample : List TypeDef :=
  [{ ns := "App"
     name := "Outer"
     methods := [{
       name := "run"
       params := 2
       instructions := [
         ⟨⟨0⟩, .ldstr, .string "hi"⟩,
         ⟨⟨5⟩, .call, .member ⟨.nestedIn (.outermost "App" "Outer") "Inner", "go"⟩⟩,
         ⟨⟨10⟩, .switch, .targets [⟨19⟩, ⟨0⟩]⟩,
         ⟨⟨19⟩, .br, .target ⟨5⟩⟩] }]
     nested := [{
       ns := ""
       name := "Inner"
       methods := [{ name := "go", hasThis := true, instructions := [.bare 0 .ret] }] }] }]

example : (exported sample "App").map DeclaredMethod.fullName =
    ["App.Outer::run", "App.Outer/Inner::go"] := by decide

namespace SessionOn

variable {σ : Type}

/-- The session with `n` more types counted. -/
def addTypes (s : SessionOn σ) (n : Nat) : SessionOn σ :=
  { s with counts := { s.counts with types := s.counts.types + n } }

@[simp] theorem tables_addTypes (s : SessionOn σ) (n : Nat) : (s.addTypes n).tables = s.tables :=
  rfl

theorem addTypes_addTypes (s : SessionOn σ) (m n : Nat) :
    (s.addTypes m).addTypes n = s.addTypes (m + n) := by
  simp [addTypes, Nat.add_assoc]

end SessionOn

namespace Session

/-- Encodes methods one after the other. -/
def encodeAll (ds : List DeclaredMethod) : SessionM Unit :=
  ds.forM fun d => encodeMethod d.type d.method

/-! ## Steps that do not look at the number of types -/

/-- The step does the same whatever number of types has been counted. -/
def IgnoresTypes {α : Type} (m : SessionM α) : Prop :=
  ∀ s n, outcome m (s.addTypes n) = ((outcome m s).1, (outcome m s).2.addTypes n)

namespace IgnoresTypes

variable {α β : Type}

theorem pure (x : α) : IgnoresTypes (Pure.pure x) := fun _ _ => rfl

theorem throw (e : ExportError) : IgnoresTypes (throw e : SessionM α) := fun _ _ => rfl

theorem lift (r : Except ExportError α) :
    IgnoresTypes (MonadLift.monadLift r : SessionM α) := fun _ _ => rfl

theorem onTables (e : Encoder α) : IgnoresTypes (onTables e) := fun _ _ => rfl

theorem write (chunk : List UInt8) : IgnoresTypes (write chunk) := fun _ _ => rfl

theorem flush : IgnoresTypes flush := fun _ _ => rfl

theorem bind {m : SessionM α} {f : α → SessionM β} (hm : IgnoresTypes m)
    (hf : ∀ x, IgnoresTypes (f x)) : IgnoresTypes (m >>= f) := by
  intro s n
  rw [outcome_bind, outcome_bind, hm]
  rcases outcome m s with ⟨_ | x, t⟩
  · rfl
  · exact hf x t n

theorem encodeMethod (type : QualifiedType) (m : MethodDef) :
    IgnoresTypes (encodeMethod type m) := by
  have hcount : IgnoresTypes (count fun c => { c with
      methods := c.methods + 1
      instructions := c.instructions + m.instructions.length }) := fun _ _ => rfl
  refine bind ?_ fun signature => bind (lift _) fun positions => bind (onTables _) fun key =>
    bind (onTables _) fun body => bind (write _) fun _ => hcount
  rw [signature]
  split
  · exact pure _
  · exact throw _

theorem encodeAll (ds : List DeclaredMethod) : IgnoresTypes (encodeAll ds) := by
  induction ds with
  | nil => exact pure ()
  | cons d ds ih => exact (encodeMethod d.type d.method).bind fun _ => ih

end IgnoresTypes

/-! ## Collecting is encoding and counting -/

/-- `long` does what `short` does and counts types on the way: `n` of them when it
succeeds, and some number of them when it fails. -/
def Counts (n : Nat) (long short : SessionM Unit) : Prop :=
  ∀ s, ∃ k, outcome long s = ((outcome short s).1, (outcome short s).2.addTypes k) ∧
    ((outcome short s).1 = .ok () → k = n)

namespace Counts

theorem refl (m : SessionM Unit) : Counts 0 m m := fun _ => ⟨0, rfl, fun _ => rfl⟩

theorem one : Counts 1 (count fun c => { c with types := c.types + 1 }) (pure ()) :=
  fun _ => ⟨1, rfl, fun _ => rfl⟩

theorem bind {n₁ n₂ : Nat} {long₁ short₁ long₂ short₂ : SessionM Unit}
    (h₁ : Counts n₁ long₁ short₁) (h₂ : Counts n₂ long₂ short₂) (hignores : IgnoresTypes short₂) :
    Counts (n₁ + n₂) (long₁ >>= fun _ => long₂) (short₁ >>= fun _ => short₂) := by
  intro s
  obtain ⟨k₁, hk₁, hn₁⟩ := h₁ s
  rcases hfirst : outcome short₁ s with ⟨e | _, t⟩
  · refine ⟨k₁, ?_, ?_⟩
    · rw [outcome_bind, outcome_bind, hk₁, hfirst]
    · rw [outcome_bind, hfirst]
      exact fun h => by cases h
  -- the second step starts with the types counted by the first, which it ignores
  · obtain ⟨k₂, hk₂, hn₂⟩ := h₂ (t.addTypes k₁)
    rw [hignores] at hk₂ hn₂
    rw [hfirst] at hk₁ hn₁
    refine ⟨k₁ + k₂, ?_, ?_⟩
    · rw [outcome_bind, outcome_bind, hk₁, hfirst]
      simp only [hk₂, SessionOn.addTypes_addTypes]
    · rw [outcome_bind, hfirst]
      exact fun h => by rw [hn₁ rfl, hn₂ h]

end Counts

theorem encodeAll_append (ds es : List DeclaredMethod) :
    encodeAll (ds ++ es) = encodeAll ds >>= fun _ => encodeAll es :=
  List.forM_append

theorem encodeAll_singleton (d : DeclaredMethod) :
    encodeAll [d] = encodeMethod d.type d.method := bind_pure_unit

theorem encodeAll_map (type : QualifiedType) (methods : List MethodDef) :
    encodeAll (methods.map fun m => ⟨type, m⟩) = methods.forM (encodeMethod type) :=
  List.forM_map

/-- The methods of `this` and of the types nested in it. -/
theorem counts_methods (this : TypeRef) (methods : List MethodDef) {n : Nat}
    {rest : SessionM Unit} {ds : List DeclaredMethod} (h : Counts n rest (encodeAll ds)) :
    Counts (1 + n)
      (count (fun c => { c with types := c.types + 1 }) >>= fun _ =>
        methods.forM (encodeMethod this.qualify) >>= fun _ => rest)
      (encodeAll (methods.map (fun m => ⟨this.qualify, m⟩) ++ ds)) := by
  have hmethods : Counts 0 (methods.forM (encodeMethod this.qualify))
      (encodeAll (methods.map fun m => ⟨this.qualify, m⟩)) := by
    rw [encodeAll_map]
    exact Counts.refl _
  have hall := hmethods.bind h (IgnoresTypes.encodeAll ds)
  rw [← encodeAll_append, Nat.zero_add] at hall
  simpa using Counts.one.bind hall (IgnoresTypes.encodeAll _)

mutual

theorem counts_collect (enclosing : Option TypeRef) : ∀ t : TypeDef, Counts t.count
    (collect enclosing t)
    (encodeAll (t.walk ((enclosing.map TypeRef.rootNs).getD t.ns)
      ((enclosing.map fun r => r.chain.reverse).getD [])))
  | ⟨ns, name, methods, nested⟩ => by
    rw [TypeDef.count, TypeDef.walk]
    cases enclosing with
    | none =>
      rw [collect]
      exact counts_methods (.outermost ns name) methods
        (counts_collectAll (.outermost ns name) nested)
    | some declaring =>
      -- the names around a nested type are the chain of the type that declares it
      have hchain : declaring.chain.reverse ++ [name] =
          (TypeRef.nested ns name declaring).chain.reverse := by simp [TypeRef.chain]
      rw [collect]
      simp only [Option.map_some, Option.getD_some, hchain]
      exact counts_methods (.nested ns name declaring) methods
        (counts_collectAll (.nested ns name declaring) nested)

theorem counts_collectAll (this : TypeRef) : ∀ ts : List TypeDef, Counts (TypeDef.countAll ts)
    (collectAll this ts) (encodeAll (TypeDef.walkAll this.rootNs this.chain.reverse ts))
  | [] => Counts.refl _
  | t :: rest => by
    rw [TypeDef.countAll, collectAll, TypeDef.walkAll, encodeAll_append]
    exact (counts_collect (some this) t).bind (counts_collectAll this rest)
      (IgnoresTypes.encodeAll _)

end

/-- **Collecting is encoding the walk**, with the types counted on the way. -/
theorem counts_collectTypes (ns : String) (ts : List TypeDef) (h : ∀ t ∈ ts, t.ns = ns) :
    Counts (TypeDef.countAll ts) (ts.forM collectType) (encodeAll (TypeDef.walkAll ns [] ts)) := by
  induction ts with
  | nil => exact Counts.refl _
  | cons t rest ih =>
    have hfirst := counts_collect none t
    simp only [Option.map_none, Option.getD_none, h t (by simp)] at hfirst
    rw [TypeDef.countAll, TypeDef.walkAll, encodeAll_append]
    exact hfirst.bind (ih fun u hu => h u (by simp [hu])) (IgnoresTypes.encodeAll _)

/-! ## A whole export -/

namespace IgnoresTypes

theorem writeEntry (tag : Packed.SectionTag) (entry : List UInt8) :
    IgnoresTypes (writeEntry tag entry) := by
  have hentry := (write (Packed.countBytes .little entry.length)).bind fun _ => write entry
  rw [Session.writeEntry]
  split
  · exact (throw _).bind fun _ => hentry
  · exact hentry

theorem writeEntries (tag : Packed.SectionTag) (entries : List (List UInt8)) :
    IgnoresTypes (entries.forM (Session.writeEntry tag)) := by
  induction entries with
  | nil => exact pure ()
  | cons entry rest ih => exact (writeEntry tag entry).bind fun _ => ih

theorem writeTable (tag : Packed.SectionTag) (entries : List (List UInt8)) :
    IgnoresTypes (writeTable tag entries) := by
  rw [Session.writeTable]
  split
  · exact (throw _).bind fun _ => (write _).bind fun _ => writeEntries tag entries
  · exact (write _).bind fun _ => writeEntries tag entries

end IgnoresTypes

/-- Finishing reports the number of types, and does not look at it otherwise. -/
theorem outcome_finish_addTypes (s : Session) (n : Nat) : outcome finish (s.addTypes n) =
    ((outcome finish s).1.map fun summary => { summary with types := summary.types + n },
      (outcome finish s).2.addTypes n) := by
  rw [finish, outcome_bind_ok (outcome_tables _), outcome_bind_ok (outcome_tables _)]
  simp only [SessionOn.tables_addTypes]
  rw [outcome_bind, outcome_bind, IgnoresTypes.writeTable]
  rcases outcome (Session.writeTable .string _) s with ⟨_ | _, t⟩
  · rfl
  · simp only
    rw [outcome_bind, outcome_bind, IgnoresTypes.writeTable]
    rcases outcome (Session.writeTable .blob _) t with ⟨_ | _, u⟩
    · rfl
    · simp only
      rw [outcome_bind, outcome_bind, IgnoresTypes.flush]
      rcases outcome flush u with ⟨_ | _, v⟩ <;> rfl

end Session

/-- An export as one list of methods, with no types to count. -/
def packMethods (ds : List DeclaredMethod) : SessionM Summary := do
  Session.start
  Session.encodeAll ds
  Session.finish

/-- **An export writes the methods of the walk**: it does what exporting their list
does, and reports the number of the selected types with all nested ones. -/
theorem outcome_pack (types : List TypeDef) (ns : String) (s : Session) :
    ∃ k, outcome (pack types ns) s =
      ((outcome (packMethods (exported types ns)) s).1.map
        fun summary => { summary with types := summary.types + k },
        (outcome (packMethods (exported types ns)) s).2.addTypes k) ∧
      ((outcome (packMethods (exported types ns)) s).1.isOk →
        k = TypeDef.countAll (selected types ns)) := by
  have hcollect := Session.counts_collectTypes ns (selected types ns)
    (fun t ht => by simpa [selected] using (List.mem_filter.mp ht).2)
  rw [pack, packMethods, outcome_bind, outcome_bind]
  rcases outcome Session.start s with ⟨_ | _, t⟩
  · exact ⟨0, rfl, fun h => by cases h⟩
  · obtain ⟨k, hk, hn⟩ := hcollect t
    refine ⟨k, ?_⟩
    simp only [exported, outcome_bind (m := Session.encodeAll _)]
    rw [show types.filter (fun t => t.ns == ns) = selected types ns from rfl, outcome_bind, hk]
    rcases hwalk : outcome (Session.encodeAll (TypeDef.walkAll ns [] (selected types ns))) t with
      ⟨_ | _, u⟩
    · exact ⟨rfl, fun h => by cases h⟩
    · exact ⟨Session.outcome_finish_addTypes u k, fun _ => hn (by rw [hwalk])⟩

/-- An export succeeds when exporting the methods of the walk does. -/
theorem pack_succeeds_iff (types : List TypeDef) (ns : String) (s : Session) :
    (∃ summary s', outcome (pack types ns) s = (.ok summary, s')) ↔
      ∃ summary s', outcome (packMethods (exported types ns)) s = (.ok summary, s') := by
  obtain ⟨k, hpack, _⟩ := outcome_pack types ns s
  rw [hpack]
  rcases outcome (packMethods (exported types ns)) s with ⟨e | summary, t⟩
  · simp [Except.map]
  · simp [Except.map]

/-- Exporting to a sink is a session of which only the sink is kept. -/
theorem packTo_eq_iff {types : List TypeDef} {ns : String} {sink sink' : Sink}
    {result : Except ExportError Summary} : packTo sink types ns = (result, sink') ↔
      ∃ s, outcome (pack types ns) { sink } = (result, s) ∧ s.sink = sink' := by
  rw [show packTo sink types ns = ((outcome (pack types ns) { sink }).1,
    (outcome (pack types ns) { sink }).2.sink) from rfl]
  rcases outcome (pack types ns) { sink } with ⟨r, s⟩
  simp [and_assoc]

end Export
end MethodPack
