import MethodPack.Proofs.Packing

/-!
# Faults

Why methods have no encoding, computed from the methods alone: `fault?` names the
first fault in the order in which an export looks for faults. Main statement: on a sink
without a limit, and within the limits of tables and entries, an export succeeds when
every method has an encoding and stops with the first fault otherwise
(`packMethods_verdict`).
-/

namespace MethodPack

open Export (ExportError bodyLabels firstRepeated? place trace switches)
open Packed (MemberKey MethodSignature SectionTag maxLength entryBytes tableBytes tableHeader)

/-! ## The first fault -/

/-- Why a reference to a member of the type has no word. -/
def QualifiedType.fault? (place : String → Nat) (q : QualifiedType) : Option ExportError :=
  (MemberKey.overflow? (place q.ns) (place q.path)).map .keyOverflow

/-- Why the operand of an instruction has no encoding within a method with the given
labels. Of a list of targets the first one that is missing counts. -/
def Instruction.fault? (place : String → Nat) (method : String) (labels : List Label)
    (i : Instruction) : Option ExportError :=
  match i.operand with
  | .target l => if l ∈ labels then none else some (.unresolvedTarget method l)
  | .targets ls => (ls.find? fun l => l ∉ labels).map (.unresolvedTarget method)
  | .member m => m.declaring.qualify.fault? place
  | .unsupported shape => some (.unsupportedOperand method i.opcode shape)
  | _ => none

/-- Why a method has no encoding: its arguments, its labels, its own reference, and then
its instructions one after the other. -/
def DeclaredMethod.fault? (place : String → Nat) (d : DeclaredMethod) : Option ExportError :=
  if MethodSignature.maxArgs < d.method.argCount then
    some (.tooManyArguments d.fullName d.method.argCount)
  else
    ((firstRepeated? [] d.labels).map (.duplicateLabel d.fullName)).or <|
      (d.type.fault? place).or <|
        d.method.instructions.findSome? fun i => i.fault? place d.fullName d.labels

/-- The first fault of some methods, when they are exported from the start. -/
def Export.fault? (ds : List DeclaredMethod) : Option ExportError :=
  ds.findSome? fun d => d.fault? (place (trace ds))

section Encodable

variable {place : String → Nat} {labels : List Label}

theorem QualifiedType.Fits.fault?_eq_none {q : QualifiedType} (h : q.Fits place) :
    q.fault? place = none := by
  rw [fault?, overflow?_eq_none.mpr h]
  rfl

theorem Instruction.fault?_eq_none {i : Instruction} (method : String)
    (h : i.operand.Encodable place labels) : i.fault? place method labels = none := by
  obtain ⟨label, opcode, operand⟩ := i
  cases operand with
  | target l => exact if_pos h
  | targets ls =>
    have hall : ∀ l ∈ ls, l ∈ labels := h
    have hfind : ls.find? (fun l => l ∉ labels) = none :=
      List.find?_eq_none.mpr fun l hl => by simpa using hall l hl
    exact Option.map_eq_none_iff.mpr hfind
  | member m => exact QualifiedType.Fits.fault?_eq_none h
  | unsupported shape => exact h.elim
  | _ => rfl

/-- The arguments of a method fit, and no label is repeated. -/
structure DeclaredMethod.InOrder (d : DeclaredMethod) : Prop where
  arguments : d.method.argCount ≤ MethodSignature.maxArgs
  labels : d.labels.Nodup

/-- Behind its arguments and labels, the first fault is that of a reference or of an
instruction. -/
theorem DeclaredMethod.InOrder.fault?_eq {d : DeclaredMethod} (h : d.InOrder) :
    d.fault? place = (d.type.fault? place).or
      (d.method.instructions.findSome? fun i => i.fault? place d.fullName d.labels) := by
  have hlabels : firstRepeated? [] d.labels = none :=
    (Export.firstRepeated?_eq_none List.nodup_nil).mpr h.labels
  rw [fault?, if_neg (Nat.not_lt.mpr h.arguments), hlabels]
  rfl

theorem DeclaredMethod.Encodable.fault?_eq_none {d : DeclaredMethod} (h : d.Encodable place) :
    d.fault? place = none := by
  have hd : d.InOrder := ⟨h.arguments, h.labels⟩
  have hbody : d.method.instructions.findSome?
      (fun i => i.fault? place d.fullName d.labels) = none :=
    List.findSome?_eq_none_iff.mpr fun i hi =>
      Instruction.fault?_eq_none d.fullName (h.operands i hi)
  rw [hd.fault?_eq, h.reference.fault?_eq_none, hbody, Option.none_or]

end Encodable

/-! ## Where an encoding stops -/

namespace DeclaredMethod

/-- What is wrong with a method before anything of it is encoded: its arguments, its length
or its labels. -/
inductive Malformed (d : DeclaredMethod) : ExportError → Prop
  | arguments (h : MethodSignature.maxArgs < d.method.argCount) :
    Malformed d (.tooManyArguments d.fullName d.method.argCount)
  | instructions (harguments : d.method.argCount ≤ MethodSignature.maxArgs)
    (h : maxLength < d.method.instructions.length) :
    Malformed d (.tooManyInstructions d.fullName d.method.instructions.length)
  | label {l : Label} (harguments : d.method.argCount ≤ MethodSignature.maxArgs)
    (h : firstRepeated? [] d.labels = some l) : Malformed d (.duplicateLabel d.fullName l)

/-- The method has an encoding up to an instruction, in front of which those of `before` stand. -/
structure Reaches (place : String → Nat) (d : DeclaredMethod) (before : List Instruction)
    (i : Instruction) : Prop where
  inOrder : d.InOrder
  reference : d.type.Fits place
  body : ∃ after, d.method.instructions = before ++ i :: after
  operands : ∀ j ∈ before, j.operand.Encodable place d.labels

/-- Why and where a method that is in order stops: at its own reference, or at an instruction
that it reaches. `before` are the instructions in front of it, and `failing` are the strings of
the reference that fails there, if it is one of a member. -/
inductive StopsAt (place : String → Nat) (d : DeclaredMethod) :
    ExportError → (before : List Instruction) → (failing : List String) → Prop
  | reference {o} (hd : d.InOrder)
    (h : MemberKey.overflow? (place d.type.ns) (place d.type.path) = some o) :
    StopsAt place d (.keyOverflow o) [] []
  | member {before label opcode m o} (hi : d.Reaches place before ⟨label, opcode, .member m⟩)
    (h : MemberKey.overflow? (place m.declaring.qualify.ns) (place m.declaring.qualify.path) =
      some o) :
    StopsAt place d (.keyOverflow o) before (m.declaring.qualify.strings m.name)
  | target {before label opcode l} (hi : d.Reaches place before ⟨label, opcode, .target l⟩)
    (h : l ∉ d.labels) : StopsAt place d (.unresolvedTarget d.fullName l) before []
  | targets {before label opcode ls l} (hi : d.Reaches place before ⟨label, opcode, .targets ls⟩)
    (h : (ls.find? fun l => l ∉ d.labels) = some l) :
    StopsAt place d (.unresolvedTarget d.fullName l) before []
  | unsupported {before label opcode shape}
    (hi : d.Reaches place before ⟨label, opcode, .unsupported shape⟩) :
    StopsAt place d (.unsupportedOperand d.fullName opcode shape) before []

/-- The strings of the method's own reference and of some of its instructions. -/
def stringsThrough (d : DeclaredMethod) (before : List Instruction) : List String :=
  d.type.strings d.method.name ++ before.flatMap fun i => i.operand.strings

/-- The blobs of some instructions of the method. -/
def blobsThrough (d : DeclaredMethod) (before : List Instruction) : List (List UInt8) :=
  before.flatMap fun i => i.operand.blobs d.labels

variable {place : String → Nat} {d : DeclaredMethod} {before : List Instruction}
  {i : Instruction} {failing : List String} {e : ExportError}

theorem Malformed.fault? (h : d.Malformed e) (hlen : d.method.instructions.length ≤ maxLength) :
    d.fault? place = some e := by
  cases h with
  | arguments h => exact if_pos h
  | instructions _ h => omega
  | label harguments h =>
    rw [DeclaredMethod.fault?, if_neg (Nat.not_lt.mpr harguments), h]
    rfl

/-- The fault of an instruction that a method reaches is that of the method. -/
theorem Reaches.fault?_eq (h : d.Reaches place before i)
    (hi : i.fault? place d.fullName d.labels = some e) : d.fault? place = some e := by
  obtain ⟨after, hbody⟩ := h.body
  have hbefore : before.findSome? (fun j => j.fault? place d.fullName d.labels) = none :=
    List.findSome?_eq_none_iff.mpr fun j hj => Instruction.fault?_eq_none _ (h.operands j hj)
  rw [h.inOrder.fault?_eq, h.reference.fault?_eq_none, Option.none_or, hbody,
    List.findSome?_append, hbefore, Option.none_or, List.findSome?_cons, hi]

/-- A method stops at an instruction that it reaches and that has a fault. -/
theorem StopsAt.of_fault? (h : d.Reaches place before i)
    (hi : i.fault? place d.fullName d.labels = some e) :
    d.StopsAt place e before i.operand.strings := by
  obtain ⟨label, opcode, operand⟩ := i
  cases operand with
  | target l =>
    by_cases hl : l ∈ d.labels
    · simp [Instruction.fault?, hl] at hi
    · simp only [Instruction.fault?, hl, if_false, Option.some.injEq] at hi
      exact hi ▸ .target h hl
  | targets ls =>
    obtain ⟨l, hl, rfl⟩ := Option.map_eq_some_iff.mp hi
    exact .targets h hl
  | member m =>
    obtain ⟨o, ho, rfl⟩ := Option.map_eq_some_iff.mp hi
    exact .member h ho
  | unsupported shape =>
    cases hi
    exact .unsupported h
  | _ => cases hi

/-- A method stops with its fault. -/
theorem StopsAt.fault? (h : d.StopsAt place e before failing) : d.fault? place = some e := by
  cases h with
  | reference hd h => rw [hd.fault?_eq, QualifiedType.fault?, h, Option.map_some, Option.some_or]
  | member hi h => exact hi.fault?_eq (by simp [Instruction.fault?, QualifiedType.fault?, h])
  | target hi h => exact hi.fault?_eq (if_neg h)
  | targets hi h => exact hi.fault?_eq (congrArg (Option.map _) h)
  | unsupported hi => exact hi.fault?_eq rfl

end DeclaredMethod

namespace Export.Encoder

variable {t t' : Tables} {trace all : List String} {blobs : List (List UInt8)} {e : ExportError}

/-! ## Encoding fails -/

section Error

/-- A table would have to hold more entries than it can. -/
inductive Overfull (all : List String) (blobs : List (List UInt8)) : ExportError → Prop
  | strings (h : maxLength < all.eraseDups.length) :
    Overfull all blobs (.tooManyStrings (maxLength + 1))
  | blobs (h : maxLength < blobs.length) : Overfull all blobs (.tooManyBlobs (maxLength + 1))

theorem Overfull.mono {blobs' : List (List UInt8)} (h : Overfull all blobs e)
    (hblobs : blobs <+: blobs') : Overfull all blobs' e := by
  cases h with
  | strings h => exact .strings h
  | blobs h => exact .blobs (Nat.lt_of_lt_of_le h hblobs.length_le)

theorem not_overfull (hroom : all.eraseDups.length ≤ maxLength)
    (hblobs : blobs.length ≤ maxLength) : ¬ Overfull all blobs e := by
  intro h
  cases h with
  | strings h => omega
  | blobs h => omega

theorem intern_overfull {s : String} (h : t.Holds trace blobs) (hall : trace ++ [s] <+: all)
    (hrun : outcome (intern s) t = (.error e, t')) : Overfull all [] e := by
  obtain ⟨rfl, hfull⟩ := intern_error h hrun
  exact .strings (Nat.lt_of_lt_of_le hfull (eraseDups_isPrefix hall).length_le)

/-- There is room for a string of a trace that the table can hold in the end. -/
theorem intern_never_fails {s : String} (h : t.Holds trace blobs)
    (hroom : all.eraseDups.length ≤ maxLength) (hall : trace ++ [s] <+: all) :
    outcome (intern s) t ≠ (.error e, t') :=
  fun hrun => not_overfull hroom (Nat.zero_le _) (intern_overfull h hall hrun)

/-- A reference fails for want of room, or with its fault when all its strings are interned. -/
theorem reference_failure {q : QualifiedType} {member : String} (h : t.Holds trace blobs)
    (hall : trace ++ q.strings member <+: all)
    (hrun : outcome (reference q member) t = (.error e, t')) :
    Overfull all [] e ∨
      q.fault? (place all) = some e ∧ t'.Holds (trace ++ q.strings member) blobs := by
  have hlist : trace ++ q.strings member = trace ++ [q.ns] ++ [q.path] ++ [member] := by
    simp [QualifiedType.strings]
  rw [hlist] at hall ⊢
  have hall₂ := (List.prefix_append _ [member]).trans hall
  have hall₁ := (List.prefix_append _ [q.path]).trans hall₂
  rw [reference] at hrun
  obtain hns | ⟨ns, t₁, hns, hrun⟩ := bind_eq_error.mp hrun
  · exact .inl (intern_overfull h hall₁ hns)
  obtain ⟨h₁, hplace₁⟩ := intern_ok h hall₁ hns
  obtain hpath | ⟨path, t₂, hpath, hrun⟩ := bind_eq_error.mp hrun
  · exact .inl (intern_overfull h₁ hall₂ hpath)
  obtain ⟨h₂, hplace₂⟩ := intern_ok h₁ hall₂ hpath
  obtain hname | ⟨name, t₃, hname, hrun⟩ := bind_eq_error.mp hrun
  · exact .inl (intern_overfull h₂ hall hname)
  obtain ⟨h₃, _⟩ := intern_ok h₂ hall hname
  -- none of the three strings is refused, so it is the word that does not pack
  rw [MemberKey.pack_eq, hplace₁, hplace₂] at hrun
  rw [QualifiedType.fault?]
  cases hoverflow : MemberKey.overflow? (place all q.ns) (place all q.path) with
  | none => simp [hoverflow] at hrun
  | some o =>
    simp only [hoverflow, outcome_throw, Prod.mk.injEq, Except.error.injEq] at hrun
    obtain ⟨rfl, rfl⟩ := hrun
    exact .inr ⟨rfl, h₃⟩

theorem reference_error {q : QualifiedType} {member : String} (h : t.Holds trace blobs)
    (hroom : all.eraseDups.length ≤ maxLength) (hall : trace ++ q.strings member <+: all)
    (hrun : outcome (reference q member) t = (.error e, t')) : q.fault? (place all) = some e :=
  ((reference_failure h hall hrun).resolve_left (not_overfull hroom (Nat.zero_le _))).1

variable {method : String} {positions : Positions} {labels : List Label}

theorem resolve_error {l : Label} (hp : positions.Numbers labels)
    (hrun : outcome (resolve method positions l) t = (.error e, t')) :
    t' = t ∧ l ∉ labels ∧ e = .unresolvedTarget method l := by
  rw [resolve, hp] at hrun
  by_cases hl : l ∈ labels
  · simp [hl] at hrun
  · simp only [hl, if_false, outcome_throw, Prod.mk.injEq, Except.error.injEq] at hrun
    exact ⟨hrun.2.symm, hl, hrun.1.symm⟩

theorem resolveAll_error {ls : List Label} (hp : positions.Numbers labels)
    (hrun : outcome (ls.mapM (resolve method positions)) t = (.error e, t')) :
    t' = t ∧ (ls.find? fun l => l ∉ labels).map (.unresolvedTarget method) = some e := by
  induction ls generalizing t with
  | nil => cases hrun
  | cons l rest ih =>
    rw [List.mapM_cons] at hrun
    obtain hfirst | ⟨p, t₁, hfirst, hnext⟩ := bind_eq_error.mp hrun
    · obtain ⟨rfl, hl, rfl⟩ := resolve_error hp hfirst
      simp [hl]
    · obtain ⟨rfl, hl, _⟩ := resolve_ok hp hfirst
      obtain hrest | ⟨ps, t₂, _, hlast⟩ := bind_eq_error.mp hnext
      · simpa [hl] using ih hrest
      · cases hlast

/-- An operand fails for want of room, or with its fault when its strings are interned. It has
not pushed a blob then. -/
theorem operand_failure {i : Instruction} (h : t.Holds trace blobs) (hp : positions.Numbers labels)
    (hall : trace ++ i.operand.strings <+: all)
    (hrun : outcome (operand method positions i) t = (.error e, t')) :
    Overfull all (blobs ++ i.operand.blobs labels) e ∨
      i.fault? (place all) method labels = some e ∧
        t'.Holds (trace ++ i.operand.strings) blobs := by
  obtain ⟨label, opcode, operand⟩ := i
  cases operand with
  | string s =>
    obtain hid | ⟨id, t₁, _, hrun⟩ := bind_eq_error.mp hrun
    · exact .inl ((intern_overfull h hall hid).mono (List.nil_prefix))
    · cases hrun
  | target l =>
    obtain hresolve | ⟨p, t₁, _, hrun⟩ := bind_eq_error.mp hrun
    · obtain ⟨rfl, hl, rfl⟩ := resolve_error hp hresolve
      exact .inr ⟨if_neg hl, by simpa [Operand.strings] using h⟩
    · cases hrun
  | targets ls =>
    obtain hresolve | ⟨ps, t₁, hresolve, hnext⟩ := bind_eq_error.mp hrun
    · obtain ⟨rfl, hfind⟩ := resolveAll_error hp hresolve
      exact .inr ⟨hfind, by simpa [Operand.strings] using h⟩
    · obtain ⟨rfl, _⟩ := resolveAll_ok hp hresolve
      obtain hpush | ⟨id, t₂, _, hlast⟩ := bind_eq_error.mp hnext
      · obtain ⟨rfl, hfull⟩ := push_error h hpush
        refine .inl (.blobs ?_)
        simp only [Operand.blobs, List.length_append, List.length_singleton]
        omega
      · cases hlast
  | member m =>
    obtain hkey | ⟨key, t₁, _, hrun⟩ := bind_eq_error.mp hrun
    · exact (reference_failure h hall hkey).imp_left fun hfull => hfull.mono List.nil_prefix
    · cases hrun
  | unsupported shape =>
    cases hrun
    exact .inr ⟨rfl, by simpa [Operand.strings] using h⟩
  | _ => cases hrun

/-- A body fails for want of room, or at the first instruction that has a fault. What the
instructions before it add to the tables is added then. -/
theorem body_failure {body : List Instruction} (h : t.Holds trace blobs)
    (hp : positions.Numbers labels) (hlen : labels.length ≤ maxLength)
    (hall : trace ++ body.flatMap (fun i => i.operand.strings) <+: all)
    (hrun : outcome (body.mapM (instruction method positions)) t = (.error e, t')) :
    Overfull all (blobs ++ body.flatMap fun i => i.operand.blobs labels) e ∨
      ∃ before i after, body = before ++ i :: after ∧
        (∀ j ∈ before, j.operand.Encodable (place all) labels) ∧
        i.fault? (place all) method labels = some e ∧
        t'.Holds (trace ++ (before ++ [i]).flatMap fun j => j.operand.strings)
          (blobs ++ before.flatMap fun j => j.operand.blobs labels) := by
  -- an instruction that was encoded joins those before, and the tables hold what it adds
  induction body generalizing t trace blobs with
  | nil => cases hrun
  | cons i rest ih =>
    rw [List.flatMap_cons, ← List.append_assoc] at hall ⊢
    have halli := (List.prefix_append _ _).trans hall
    rw [List.mapM_cons] at hrun
    obtain hfirst | ⟨raw, t₁, hfirst, hrun⟩ := bind_eq_error.mp hrun
    · obtain hoperand | ⟨field, t₂, _, hfirst⟩ := bind_eq_error.mp hfirst
      · refine (operand_failure h hp halli hoperand).imp (fun hfull => ?_) fun ⟨hi, ht⟩ => ?_
        · exact hfull.mono (List.prefix_append _ _)
        · exact ⟨[], i, rest, rfl, by simp, hi, by simpa using ht⟩
      · cases hfirst
    · obtain ⟨field, t₂, hfield, hfirst⟩ := bind_eq_ok.mp hfirst
      cases hfirst
      obtain ⟨h₁, hencodable, _⟩ := operand_ok h hp hlen halli hfield
      obtain hrest | ⟨raws, t₃, _, hrun⟩ := bind_eq_error.mp hrun
      · refine (ih h₁ hall hrest).imp_right ?_
        rintro ⟨before, j, after, rfl, hbefore, hj, ht⟩
        refine ⟨i :: before, j, after, rfl, List.forall_mem_cons.mpr ⟨hencodable, hbefore⟩, hj, ?_⟩
        simpa using ht
      · cases hrun

/-- A record fails for want of room, or at once when the method is malformed, or where the
method stops. What is added to the tables until then stays there. -/
theorem methodRecord_failure {d : DeclaredMethod} (h : t.Holds trace blobs)
    (hall : trace ++ d.strings <+: all) (hrun : outcome (methodRecord d) t = (.error e, t')) :
    Overfull all (blobs ++ d.blobs) e ∨ (d.Malformed e ∧ t' = t) ∨
      ∃ before failing, d.StopsAt (place all) e before failing ∧
        t'.Holds (trace ++ (d.stringsThrough before ++ failing))
          (blobs ++ d.blobsThrough before) := by
  rw [methodRecord] at hrun
  split at hrun
  · rename_i hmany
    cases hrun
    exact .inr (.inl ⟨.arguments hmany, rfl⟩)
  rename_i hfew
  have harguments : d.method.argCount ≤ MethodSignature.maxArgs := Nat.not_lt.mp hfew
  rw [DeclaredMethod.strings, ← List.append_assoc] at hall
  have hallkey := (List.prefix_append _ _).trans hall
  obtain hbuild | ⟨positions, t₁, hbuild, hrun⟩ := bind_eq_error.mp hrun
  · obtain ⟨hbuilt, rfl⟩ := Prod.mk.inj hbuild
    rcases Positions.build_error hbuilt with ⟨hlong, rfl⟩ | hrepeated
    · exact .inr (.inl ⟨.instructions harguments hlong, rfl⟩)
    · obtain ⟨l, hl, rfl⟩ := Option.map_eq_some_iff.mp hrepeated
      exact .inr (.inl ⟨.label harguments hl, rfl⟩)
  obtain ⟨hbuilt, rfl⟩ := Prod.mk.inj hbuild
  obtain ⟨hlen, hnodup, hnumbers⟩ := Positions.build_ok hbuilt
  have hd : d.InOrder := ⟨harguments, hnodup⟩
  obtain hkey | ⟨key, t₂, hkey, hrun⟩ := bind_eq_error.mp hrun
  · refine (reference_failure h hallkey hkey).imp (fun hfull => hfull.mono List.nil_prefix) ?_
    rintro ⟨hfault, ht⟩
    obtain ⟨o, ho, rfl⟩ := Option.map_eq_some_iff.mp hfault
    refine .inr ⟨[], [], .reference hd ho, ?_⟩
    simpa [DeclaredMethod.stringsThrough, DeclaredMethod.blobsThrough] using ht
  obtain ⟨h₁, hfits, _⟩ := reference_ok h hallkey hkey
  obtain hbody | ⟨body, t₃, _, hrun⟩ := bind_eq_error.mp hrun
  · have hcount : d.labels.length ≤ maxLength := by
      simpa [DeclaredMethod.labels, bodyLabels] using hlen
    refine (body_failure h₁ hnumbers hcount hall hbody).imp_right ?_
    rintro ⟨before, i, after, hsplit, hbefore, hi, ht⟩
    have hreach : d.Reaches (place all) before i := ⟨hd, hfits, ⟨after, hsplit⟩, hbefore⟩
    refine .inr ⟨before, _, .of_fault? hreach hi, ?_⟩
    simpa [DeclaredMethod.stringsThrough, DeclaredMethod.blobsThrough, DeclaredMethod.labels]
      using ht
  · cases hrun

/-- A record fails with the fault of its method, when the tables have room for what it adds. -/
theorem methodRecord_error {d : DeclaredMethod} (h : t.Holds trace blobs)
    (hlen : d.method.instructions.length ≤ maxLength) (hroom : all.eraseDups.length ≤ maxLength)
    (hall : trace ++ d.strings <+: all) (hblobs : (blobs ++ d.blobs).length ≤ maxLength)
    (hrun : outcome (methodRecord d) t = (.error e, t')) : d.fault? (place all) = some e := by
  rcases methodRecord_failure h hall hrun with hfull | ⟨hmalformed, _⟩ | ⟨_, _, hstop, _⟩
  · exact absurd hfull (not_overfull hroom hblobs)
  · exact hmalformed.fault? hlen
  · exact hstop.fault?

end Error

end Export.Encoder

namespace Export

/-! ## Where a walk stops -/

namespace Written

open Encoder (methodRecord)

variable {sink : Sink} {all : List String} {done ds : List DeclaredMethod} {d : DeclaredMethod}
  {s s' : Session} {e : ExportError}

/-- A method fails when its record is made, which writes nothing, or when the record is
written. -/
theorem encodeMethod_error (h : Written sink all done s) (hall : trace (done ++ [d]) <+: all)
    (hrun : outcome (Session.encodeMethod d.type d.method) s = (.error e, s')) :
    (∃ t, outcome (methodRecord d) s.tables = (.error e, t) ∧ s' = { s with tables := t }) ∨
      ∃ t, let r := d.record (place all) (switches done).length
        r.tag = .method ∧ r.Fits ∧
          outcome (Session.write (r.bytes .little)) { s with tables := t } = (.error e, s') := by
  rw [Session.encodeMethod_eq] at hrun
  obtain hrecord | ⟨r, s₁, hrecord, hnext⟩ := bind_eq_error.mp hrun
  · rw [Session.outcome_onTables, Prod.mk.injEq] at hrecord
    obtain ⟨he, rfl⟩ := hrecord
    exact .inl ⟨_, Prod.ext he rfl, rfl⟩
  · rw [Session.outcome_onTables, Prod.mk.injEq] at hrecord
    obtain ⟨hr, rfl⟩ := hrecord
    rw [trace_append, trace_singleton] at hall
    obtain ⟨_, _, hlen, rfl⟩ := Encoder.methodRecord_ok h.tables hall (Prod.ext hr rfl)
    obtain hwrite | ⟨_, s₂, _, hcount⟩ := bind_eq_error.mp hnext
    · refine .inr ⟨_, rfl, ?_, hwrite⟩
      show (layoutBody _ _ _ d.method.instructions).length ≤ maxLength
      rwa [length_layoutBody]
    · cases hcount

/-- A walk that fails stops at one of its methods, and has encoded all before. -/
theorem encodeAll_error (h : Written sink all done s) (hall : trace (done ++ ds) <+: all)
    (hrun : outcome (Session.encodeAll ds) s = (.error e, s')) :
    ∃ before d after t, ds = before ++ d :: after ∧ Written sink all (done ++ before) t ∧
      outcome (Session.encodeMethod d.type d.method) t = (.error e, s') := by
  induction ds generalizing done s with
  | nil => cases hrun
  | cons d rest ih =>
    obtain hfirst | ⟨_, t, hfirst, hrest⟩ := bind_eq_error.mp hrun
    · exact ⟨[], d, rest, s, rfl, by rwa [List.append_nil], hfirst⟩
    -- the method in front joins those that are done
    · have hnext := h.encodeMethod ((trace_concat_isPrefix done d rest).trans hall) hfirst
      have hlist : done ++ d :: rest = done ++ [d] ++ rest := by simp
      rw [hlist] at hall
      obtain ⟨before, d', after, u, rfl, hwritten, herror⟩ := ih hnext hall hrest
      rw [List.append_assoc, List.singleton_append] at hwritten
      exact ⟨d :: before, d', after, u, rfl, hwritten, herror⟩

end Written

/-! ## Sinks without a limit -/

namespace Session

variable {entries : List (List UInt8)} {s : Session}

theorem writeEntries_of_unlimited (tag : SectionTag) (hlimit : s.sink.limit = none)
    (hlens : ∀ b ∈ entries, b.length ≤ maxLength) :
    outcome (entries.forM (writeEntry tag)) s =
      (.ok (), { s with sink := s.sink.append (entries.flatMap (entryBytes .little)) }) := by
  induction entries generalizing s with
  | nil => simp
  | cons entry rest ih =>
    have hlen : ¬ maxLength < entry.length := Nat.not_lt.mpr (hlens entry (by simp))
    have hentry : outcome (writeEntry tag entry) s =
        (.ok (), { s with sink := s.sink.append (entryBytes .little entry) }) := by
      rw [writeEntry_eq, if_neg hlen]
      exact write_of_unlimited _ hlimit
    have hrest := ih (s := { s with sink := s.sink.append (entryBytes .little entry) }) hlimit
      fun b hb => hlens b (by simp [hb])
    rw [Sink.append_append, ← List.flatMap_cons] at hrest
    exact (outcome_bind_ok hentry).trans hrest

theorem writeTable_of_unlimited (tag : SectionTag) (entries : List (List UInt8))
    (hlimit : s.sink.limit = none) (hlen : entries.length ≤ maxLength)
    (hlens : ∀ b ∈ entries, b.length ≤ maxLength) :
    outcome (writeTable tag entries) s =
      (.ok (), { s with sink := s.sink.append (tableBytes .little tag entries) }) := by
  have hroom : ¬ maxLength < entries.length := Nat.not_lt.mpr hlen
  have hheader := write_of_unlimited (tableHeader .little tag entries.length) hlimit
  have hentries := writeEntries_of_unlimited tag
    (s := { s with sink := s.sink.append (tableHeader .little tag entries.length) }) hlimit hlens
  rw [Sink.append_append] at hentries
  rw [writeTable, if_neg hroom]
  exact (outcome_bind_ok hheader).trans hentries

/-- Finishing does not fail on a sink without a limit, when the entries are not too long. -/
theorem finish_of_unlimited (hlimit : s.sink.limit = none) (hflush : s.sink.flush = .ok ())
    (hstrings : ∀ b ∈ s.tables.strings.entries, (Text.toUtf8 b).length ≤ maxLength)
    (hblobs : ∀ b ∈ s.tables.blobs.entries, b.length ≤ maxLength) :
    ∃ summary s', outcome finish s = (.ok summary, s') := by
  have hstringTable := writeTable_of_unlimited .string
    (s.tables.strings.entries.toList.map Text.toUtf8) hlimit
    (by simpa using s.tables.strings.size_le) (by simpa using hstrings)
  have hblobTable := writeTable_of_unlimited .blob s.tables.blobs.entries.toList
    (s := { s with sink := s.sink.append (tableBytes .little .string
      (s.tables.strings.entries.toList.map Text.toUtf8)) }) hlimit
    (by simpa using s.tables.blobs.size_le) (by simpa using hblobs)
  rw [finish, outcome_bind_ok (outcome_tables _), outcome_bind_ok hstringTable,
    outcome_bind_ok hblobTable, outcome_bind, outcome_flush, Sink.flush_append,
    Sink.flush_append, hflush]
  exact ⟨_, _, rfl⟩

end Session

/-! ## The verdict -/

/-- The tables that some methods fill, their bodies and the entries of the tables are
within the limits of a stream. -/
structure WithinLimits (ds : List DeclaredMethod) : Prop where
  strings : (trace ds).eraseDups.length ≤ maxLength
  blobs : (switches ds).length ≤ maxLength
  bodies : ∀ d ∈ ds, d.method.instructions.length ≤ maxLength
  stringLengths : ∀ s ∈ trace ds, (Text.toUtf8 s).length ≤ maxLength
  blobLengths : ∀ b ∈ switches ds, b.length ≤ maxLength

instance (ds : List DeclaredMethod) : Decidable (WithinLimits ds) :=
  decidable_of_iff ((trace ds).eraseDups.length ≤ maxLength ∧ (switches ds).length ≤ maxLength ∧
      (∀ d ∈ ds, d.method.instructions.length ≤ maxLength) ∧
      (∀ s ∈ trace ds, (Text.toUtf8 s).length ≤ maxLength) ∧
      ∀ b ∈ switches ds, b.length ≤ maxLength)
    ⟨fun ⟨strings, blobs, bodies, stringLengths, blobLengths⟩ =>
        ⟨strings, blobs, bodies, stringLengths, blobLengths⟩,
      fun h => ⟨h.strings, h.blobs, h.bodies, h.stringLengths, h.blobLengths⟩⟩

variable {ds : List DeclaredMethod} {sink : Sink} {s s' : Session} {e : ExportError}

/-- A walk that fails on a sink without a limit stops at the first fault. -/
theorem Written.encodeAll_fault (h : Written sink (trace ds) [] s) (hlimits : WithinLimits ds)
    (hlimit : sink.limit = none) (hrun : outcome (Session.encodeAll ds) s = (.error e, s')) :
    fault? ds = some e := by
  obtain ⟨before, d, after, t, hds, hwritten, herror⟩ := h.encodeAll_error (List.prefix_refl _) hrun
  rw [List.nil_append] at hwritten
  have hall : trace (before ++ [d]) <+: trace ds := hds ▸ trace_concat_isPrefix before d after
  -- the methods before have an encoding, so the first fault is that of `d`
  have hbefore : before.findSome? (fun d => d.fault? (place (trace ds))) = none :=
    List.findSome?_eq_none_iff.mpr fun d hd => (hwritten.encodable d hd).fault?_eq_none
  obtain ⟨tables, hrecord, _⟩ | ⟨tables, _, _, hwrite⟩ := hwritten.encodeMethod_error hall herror
  · have hfault : d.fault? (place (trace ds)) = some e := by
      refine Encoder.methodRecord_error hwritten.tables (hlimits.bodies d (by simp [hds]))
        hlimits.strings ?_ ?_ hrecord
      · rwa [trace_append, trace_singleton] at hall
      · have hblobs := hlimits.blobs
        have hcons : switches (d :: after) = d.blobs ++ switches after := rfl
        rw [hds, switches_append, hcons, List.length_append, List.length_append] at hblobs
        rw [List.length_append]
        omega
    rw [fault?]
    conv_lhs => rw [hds]
    rw [List.findSome?_append, ← hds, hbefore, List.findSome?_cons, hfault, Option.none_or]
  · have hfree : t.sink.limit = none := by rw [hwritten.sink, Sink.limit_append, hlimit]
    rw [Session.write_of_unlimited (s := { t with tables }) _ hfree] at hwrite
    cases hwrite

/-- An export that fails within the limits fails with the first fault. -/
theorem packMethods_fault (hlimits : WithinLimits ds) (hlimit : sink.limit = none)
    (hflush : sink.flush = .ok ()) (h : outcome (packMethods ds) { sink } = (.error e, s')) :
    fault? ds = some e := by
  obtain hstart | ⟨_, s₁, hstart, hnext⟩ := bind_eq_error.mp h
  · rw [Session.start, Session.write_of_unlimited _ hlimit] at hstart
    cases hstart
  have hstarted : Written sink (trace ds) [] s₁ := Written.start hstart
  obtain hwalk | ⟨_, s₂, hwalk, hfinish⟩ := bind_eq_error.mp hnext
  · exact hstarted.encodeAll_fault hlimits hlimit hwalk
  · have hwritten := hstarted.encodeAll (List.prefix_refl _) hwalk
    rw [List.nil_append] at hwritten
    obtain ⟨summary, s₃, hfinished⟩ := Session.finish_of_unlimited (s := s₂)
      (by rw [hwritten.sink, Sink.limit_append, hlimit])
      (by rw [hwritten.sink, Sink.flush_append, hflush])
      (fun b hb => hlimits.stringLengths b (by
        rw [← List.mem_eraseDups, ← hwritten.tables.strings]
        exact Array.mem_def.mp hb))
      (fun b hb => hlimits.blobLengths b (by
        rw [← hwritten.tables.blobs]
        exact Array.mem_def.mp hb))
    rw [hfinished] at hfinish
    cases hfinish

/-- **The verdict of an export**: it succeeds when every method has an encoding, and
stops with the first fault otherwise. -/
theorem packMethods_verdict (sink : Sink) (hlimits : WithinLimits ds) (hlimit : sink.limit = none)
    (hflush : sink.flush = .ok ()) :
    ((∃ summary s, outcome (packMethods ds) { sink } = (.ok summary, s)) ↔
      ∀ d ∈ ds, d.Encodable (place (trace ds))) ∧
    ∀ e, (∃ s, outcome (packMethods ds) { sink } = (.error e, s)) ↔ fault? ds = some e := by
  have hclean : (∀ d ∈ ds, d.Encodable (place (trace ds))) → fault? ds = none := by
    intro h
    exact List.findSome?_eq_none_iff.mpr fun d hd => (h d hd).fault?_eq_none
  rcases hrun : outcome (packMethods ds) { sink } with ⟨e | summary, s⟩
  · have hfault := packMethods_fault hlimits hlimit hflush hrun
    refine ⟨⟨?_, ?_⟩, fun e' => ⟨?_, ?_⟩⟩
    · rintro ⟨_, _, h⟩
      cases h
    · intro h
      rw [hclean h] at hfault
      cases hfault
    · rintro ⟨_, h⟩
      cases h
      exact hfault
    · intro h
      rw [hfault] at h
      cases h
      exact ⟨s, rfl⟩
  · have hencodable := (packMethods_ok hrun).1.encodable
    refine ⟨⟨?_, ?_⟩, fun e' => ⟨?_, ?_⟩⟩
    · intro _
      exact hencodable
    · intro _
      exact ⟨summary, s, rfl⟩
    · rintro ⟨_, h⟩
      cases h
    · intro h
      rw [hclean hencodable] at h
      cases h

/-- An export succeeds within the limits when every method that it meets has an encoding. -/
theorem pack_succeeds (types : List TypeDef) (ns : String)
    (hlimits : WithinLimits (exported types ns))
    (h : ∀ d ∈ exported types ns, d.Encodable (place (trace (exported types ns)))) :
    ∃ summary s, outcome (pack types ns) {} = (.ok summary, s) :=
  (pack_succeeds_iff types ns {}).mpr ((packMethods_verdict {} hlimits rfl rfl).1.mpr h)

/-- **The verdict of a whole export** to a sink in memory, within the limits: it succeeds
when every method that it meets has an encoding, with the places that strings get in the
order in which they are first interned. Otherwise it gives the first fault. -/
theorem packTo_verdict {types : List TypeDef} {ns : String}
    (h : WithinLimits (exported types ns)) :
    ((∃ summary, (packTo {} types ns).1 = .ok summary) ↔
      ∀ d ∈ exported types ns, d.Encodable (place (trace (exported types ns)))) ∧
    ∀ e, (packTo {} types ns).1 = .error e ↔ fault? (exported types ns) = some e := by
  obtain ⟨hok, herror⟩ := packMethods_verdict {} h rfl rfl
  obtain ⟨k, hpack, _⟩ := outcome_pack types ns {}
  have hresult : (packTo {} types ns).1 =
      (outcome (packMethods (exported types ns)) {}).1.map
        fun summary => { summary with types := summary.types + k } := congrArg Prod.fst hpack
  rw [hresult, ← hok]
  simp only [← herror]
  rcases outcome (packMethods (exported types ns)) { sink := {} } with ⟨e | summary, s⟩
  · simp [Except.map]
  · simp [Except.map]

theorem packTo_verdict_sample :
    (∃ summary, (packTo {} sample "App").1 = .ok summary) ∧
    (packTo {} (sample ++ [{ ns := "App", name := "Late", methods := [{
      name := "jump", instructions := [⟨⟨0⟩, .br, .target ⟨7⟩⟩] }] }]) "App").1 =
        .error (.unresolvedTarget "App.Late::jump" ⟨7⟩) :=
  ⟨(packTo_verdict (by decide)).1.mpr (by decide),
    ((packTo_verdict (by decide)).2 _).mpr (by decide)⟩

end Export
end MethodPack
