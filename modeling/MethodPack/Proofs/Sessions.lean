import MethodPack.Proofs.Growth

/-!
# Sessions

A session survives the operations that fail in it. The invariant `Kept` ties the bytes and
the counts of a session to the records of the methods that were encoded so far. Every
operation keeps it, at whatever point it fails: what it has added to the tables stays, and the
records it has written are whole. Main statement: whatever has been done with a session, it
can be finished, and everything it has handed out is found in the module that is read
(`finish_performAll`).
-/

namespace MethodPack.Export

open Packed (Module MethodRecord Section StringId BlobId MemberKey TableId Closed maxLength
  streamBytes)

/-! ## Encoding on a sink without a limit -/

namespace Session

/-- The session behind the record of a method, which leaves the given tables. -/
def withMethod (s : Session) (d : DeclaredMethod) (record : Section) (tables : Tables) :
    Session where
  tables := tables
  counts := { s.counts with
    methods := s.counts.methods + 1
    instructions := s.counts.instructions + d.method.instructions.length }
  sink := s.sink.append (record.bytes .little)

@[simp] theorem sink_withMethod (s : Session) (d : DeclaredMethod) (record : Section)
    (tables : Tables) :
    (s.withMethod d record tables).sink = s.sink.append (record.bytes .little) := rfl

/-- All that encoding a method can do, when writing does not fail. -/
theorem encodeMethod_of_unlimited (d : DeclaredMethod) {s : Session} (h : s.sink.limit = none) :
    outcome (encodeMethod d.type d.method) s =
      match outcome (Encoder.methodRecord d) s.tables with
      | (.ok record, tables) => (.ok (), s.withMethod d record tables)
      | (.error e, tables) => (.error e, { s with tables }) := by
  rw [encodeMethod_eq, outcome_bind, outcome_onTables]
  rcases outcome (Encoder.methodRecord d) s.tables with ⟨e | record, tables⟩
  · rfl
  · have hwrite := write_of_unlimited (s := { s with tables }) (record.bytes .little) h
    exact outcome_bind_ok hwrite

end Session

/-! ## Operations -/

/-- What can be done with a session in progress. -/
inductive Operation where
  | intern (s : String)
  | push (blob : List UInt8)
  | reference (type : QualifiedType) (member : String)
  | memberReference (m : MemberRef)
  | encodeMethod (type : QualifiedType) (method : MethodDef)
  | collectType (type : TypeDef)

/-- What an operation hands out. -/
inductive Issued where
  | string (id : StringId)
  | blob (id : BlobId)
  | member (key : MemberKey)
  | nothing

namespace Operation

def perform : Operation → SessionM Issued
  | intern s => do return .string (← Session.onTables (Encoder.intern s))
  | push blob => do return .blob (← Session.onTables (Encoder.push blob))
  | reference type member => do
    return .member (← Session.onTables (Encoder.reference type member))
  | memberReference m => do return .member (← Session.onTables (Encoder.memberReference m))
  | encodeMethod type method => do
    Session.encodeMethod type method
    return .nothing
  | collectType type => do
    Session.collectType type
    return .nothing

/-- What was handed out leads to what the operation asked for. -/
def Resolves (m : Module) : Operation → Except ExportError Issued → Prop
  | _, .error _ => True
  | intern s, .ok (.string id) => m.string? id = some s
  | push blob, .ok (.blob id) => m.blob? id = some blob
  | reference type member, .ok (.member key) => m.Names key type member
  | memberReference r, .ok (.member key) => m.Names key r.declaring.qualify r.name
  | encodeMethod .., .ok .nothing => True
  | collectType _, .ok .nothing => True
  | _, .ok _ => False

/-- The methods that the operation encodes, one after the other until one fails. Those of a
type are the methods of its walk (`Session.counts_collect`). -/
def methods : Operation → List DeclaredMethod
  | encodeMethod type method => [⟨type, method⟩]
  | collectType type => type.walk type.ns []
  | _ => []

end Operation

/-- Performs operations one after the other, whether or not they fail: their results, and
the session behind them. -/
def performAll : List Operation → Session → List (Except ExportError Issued) × Session
  | [], s => ([], s)
  | op :: rest, s =>
    let (result, t) := outcome op.perform s
    let (results, u) := performAll rest t
    (result :: results, u)

/-- A call of `encodeMethod` that succeeded: its method, and the bytes that it wrote. -/
structure Call where
  method : DeclaredMethod
  written : List UInt8

/-- The calls that succeed when methods are encoded one after the other until one fails. -/
def callsFor : List DeclaredMethod → Session → List Call
  | [], _ => []
  | d :: rest, s =>
    match outcome (Session.encodeMethod d.type d.method) s with
    | (.ok _, t) => ⟨d, t.sink.bytes.toList.drop s.sink.bytes.size⟩ :: callsFor rest t
    | (.error _, _) => []

/-- The calls of `encodeMethod` that succeed while operations are performed. -/
def calls : List Operation → Session → List Call
  | [], _ => []
  | op :: rest, s => callsFor op.methods s ++ calls rest (outcome op.perform s).2

/-- A session behind its start in an empty sink without limit. -/
def opened : Session := (outcome Session.start {}).2

/-! ## The invariant of a session -/

/-- The record is what the call wrote, and describes its method. -/
structure Call.Left (m : Module) (c : Call) (r : MethodRecord) : Prop where
  written : c.written = r.toSection.bytes .little
  describes : Describes m c.method r

theorem Call.Left.mono {m m' : Module} {c : Call} {r : MethodRecord} (hm : m.Begins m')
    (h : c.Left m r) : c.Left m' r :=
  ⟨h.written, hm.describes h.describes⟩

/-- What a session holds when the given calls have succeeded in it and left the records. -/
structure Kept (calls : List Call) (records : List MethodRecord) (s : Session) : Prop where
  sink : s.sink = ({} : Sink).append (streamBytes .little (records.map MethodRecord.toSection))
  left : List.Forall₂ (Call.Left s.snapshot) calls records
  fits : ∀ r ∈ records, r.Fits
  methods : s.counts.methods = records.length
  instructions : s.counts.instructions = (records.map fun r => r.instructions.length).sum

namespace Operation

/-- Whatever an operation does, the tables grow. -/
theorem grows (op : Operation) : Grows Session.snapshot op.perform := by
  cases op with
  | intern s => exact (Grows.onTables (.intern s)).bind fun _ => .pure _
  | push blob => exact (Grows.onTables (.push blob)).bind fun _ => .pure _
  | reference type member => exact (Grows.onTables (.reference type member)).bind fun _ => .pure _
  | memberReference m => exact (Grows.onTables (.reference _ m.name)).bind fun _ => .pure _
  | encodeMethod type method => exact (Grows.encodeMethod ⟨type, method⟩).bind fun _ => .pure _
  | collectType type => exact (Grows.collectType type).bind fun _ => .pure _

end Operation

namespace Kept

variable {done : List Call} {records : List MethodRecord} {s t : Session} {d : DeclaredMethod}
  {tables : Tables} {e : ExportError}

theorem opened : outcome Session.start {} = (.ok (), opened) ∧ Kept [] [] opened :=
  ⟨rfl, ⟨rfl, .nil, by simp, rfl, rfl⟩⟩

/-- Steps that write nothing, and count types at most, keep the invariant. -/
theorem grow (h : Kept done records s) (htables : s.snapshot.Begins t.snapshot)
    (hsink : t.sink = s.sink) (hmethods : t.counts.methods = s.counts.methods)
    (hinstructions : t.counts.instructions = s.counts.instructions) : Kept done records t where
  sink := by rw [hsink, h.sink]
  left := h.left.imp fun _ _ hleft => hleft.mono htables
  fits := h.fits
  methods := by rw [hmethods, h.methods]
  instructions := by rw [hinstructions, h.instructions]

theorem unlimited (h : Kept done records s) : s.sink.limit = none := by
  rw [h.sink, Sink.limit_append]

/-- A step that only works on the tables keeps the invariant. -/
theorem onTables {α : Type} {encoder : Encoder α} (h : Kept done records s)
    (hgrows : Grows Tables.snapshot encoder) (issue : α → Issued) :
    Kept done records (outcome (Session.onTables encoder >>= fun x => pure (issue x)) s).2 := by
  rw [outcome_bind_pure]
  exact h.grow (hgrows s.tables) rfl rfl rfl

/-- Where nothing is encoded, no call is added, and no record. -/
theorem idle (h : Kept done records t) :
    ∃ new, Kept (done ++ callsFor [] s) (records ++ new) t :=
  ⟨[], by rwa [callsFor, List.append_nil, List.append_nil]⟩

/-- A method that fails has added to the tables at most. -/
theorem encodeMethod_error (h : Kept done records s)
    (hrecord : outcome (Encoder.methodRecord d) s.tables = (.error e, tables)) :
    Kept done records { s with tables } := by
  have hgrows := Grows.methodRecord d s.tables
  rw [hrecord] at hgrows
  exact h.grow hgrows rfl rfl rfl

/-- A method that is encoded leaves its record, which is what is written for it. -/
theorem encodeMethod_ok (h : Kept done records s) {chunk : Section}
    (hrecord : outcome (Encoder.methodRecord d) s.tables = (.ok chunk, tables)) :
    ∃ r, Kept (done ++ [⟨d, chunk.bytes .little⟩]) (records ++ [r])
      (s.withMethod d chunk tables) := by
  have hgrows := Grows.methodRecord d s.tables
  rw [hrecord] at hgrows
  have hold : Kept done records { s with tables } := h.grow hgrows rfl rfl rfl
  obtain ⟨htables, hencodable, hlen, rfl⟩ :=
    Encoder.methodRecord_ok s.tables.holds_entries (List.prefix_refl _) hrecord
  have hdescribes := hencodable.describes htables.snapshot (fun _ hs => List.mem_append_right _ hs)
    s.tables.blobs.entries.toList.length
  rw [← hencodable.toSection_read]
  refine ⟨_, {
    sink := ?_
    left := List.rel_append hold.left (.cons ⟨rfl, hdescribes⟩ .nil)
    fits := ?_
    methods := ?_
    instructions := ?_ }⟩
  · rw [Session.sink_withMethod, h.sink, Sink.append_append]
    simp [streamBytes]
  · intro r hr
    rcases List.mem_append.mp hr with hr | hr
    · exact h.fits r hr
    · rw [List.mem_singleton.mp hr]
      exact hencodable.fits_read hlen _
  · simp [Session.withMethod, h.methods]
  · simp [Session.withMethod, h.instructions, DeclaredMethod.read, length_layoutBody]

/-- Encoding methods until one fails keeps the invariant. -/
theorem encodeAll (h : Kept done records s) (ds : List DeclaredMethod) :
    ∃ new, Kept (done ++ callsFor ds s) (records ++ new) (outcome (Session.encodeAll ds) s).2 := by
  induction ds generalizing done records s with
  | nil => exact h.idle
  | cons d rest ih =>
    have hstep := Session.encodeMethod_of_unlimited d h.unlimited
    have hall : outcome (Session.encodeAll (d :: rest)) s =
      outcome (Session.encodeMethod d.type d.method >>= fun _ => Session.encodeAll rest) s := rfl
    rw [hall, outcome_bind, callsFor, hstep]
    rcases hrecord : outcome (Encoder.methodRecord d) s.tables with ⟨e | chunk, tables⟩
    · exact ⟨[], by simpa using h.encodeMethod_error hrecord⟩
    · obtain ⟨r, hnext⟩ := h.encodeMethod_ok hrecord
      obtain ⟨new, hrest⟩ := ih hnext
      refine ⟨r :: new, ?_⟩
      simpa [Session.sink_withMethod, Sink.drop_append] using hrest

/-- An operation keeps the invariant, also when it fails. -/
theorem perform (h : Kept done records s) (op : Operation) :
    ∃ new, Kept (done ++ callsFor op.methods s) (records ++ new) (outcome op.perform s).2 := by
  cases op with
  | encodeMethod type method =>
    obtain ⟨new, hnext⟩ := h.encodeAll [⟨type, method⟩]
    refine ⟨new, ?_⟩
    rw [Operation.perform, outcome_bind_pure]
    rwa [Session.encodeAll_singleton] at hnext
  | collectType type =>
    obtain ⟨new, hnext⟩ := h.encodeAll (type.walk type.ns [])
    -- collecting encodes the walk, and counts types
    obtain ⟨k, hcollect, _⟩ := Session.counts_collect none type s
    refine ⟨new, ?_⟩
    rw [Operation.perform, outcome_bind_pure, Session.collectType, hcollect]
    exact hnext.grow (.refl _) rfl rfl rfl
  | intern x => exact (h.onTables (.intern x) .string).idle
  | push blob => exact (h.onTables (.push blob) .blob).idle
  | reference type member => exact (h.onTables (.reference type member) .member).idle
  | memberReference m => exact (h.onTables (.reference _ m.name) .member).idle

/-- Operations keep the invariant, whichever of them fail. -/
theorem performAll (h : Kept done records s) (ops : List Operation) :
    ∃ new, Kept (done ++ calls ops s) (records ++ new) (performAll ops s).2 := by
  induction ops generalizing done records s with
  | nil => exact h.idle (s := s)
  | cons op rest ih =>
    obtain ⟨first, hfirst⟩ := h.perform op
    obtain ⟨more, hrest⟩ := ih hfirst
    refine ⟨first ++ more, ?_⟩
    rwa [List.append_assoc, List.append_assoc] at hrest

/-- A session that keeps the invariant can be finished, and reads back as its records and
its tables. -/
theorem finish (h : Kept done records s)
    (hstrings : ∀ x ∈ s.tables.strings.entries, (Text.toUtf8 x).length ≤ maxLength)
    (hblobs : ∀ b ∈ s.tables.blobs.entries, b.length ≤ maxLength) :
    ∃ s' m, outcome Session.finish s = (.ok { s.counts with
        strings := s.tables.strings.size, blobs := s.tables.blobs.size }, s') ∧
      Module.ofBytes s'.sink.bytes.toList = .ok m ∧ s.snapshot.Begins m ∧ m.methods = records ∧
      m.strings = s.tables.strings.entries ∧ m.blobs = s.tables.blobs.entries := by
  have hflush : s.sink.flush = .ok () := by
    rw [h.sink, Sink.flush_append]
    rfl
  obtain ⟨summary, s', hrun⟩ := Session.finish_of_unlimited h.unlimited hflush hstrings hblobs
  obtain ⟨hstringsFit, hblobsFit, rfl, rfl⟩ := Session.finish_ok hrun
  have hclosed : Closed (records.map MethodRecord.toSection) s.tables.strings.entries.toList
      s.tables.blobs.entries.toList := by
    refine .of_records ?_ hstringsFit hblobsFit
    intro x hx
    obtain ⟨r, hr, rfl⟩ := List.mem_map.mp hx
    exact ⟨rfl, (h.fits r hr).body⟩
  have hbytes : (s.sink.append (Section.bytes .little (.strings s.tables.strings.entries.toList) ++
      Section.bytes .little (.blobs s.tables.blobs.entries.toList))).bytes.toList =
        streamBytes .little (records.map MethodRecord.toSection ++
          [.strings s.tables.strings.entries.toList, .blobs s.tables.blobs.entries.toList]) := by
    rw [h.sink, Sink.append_append, Sink.toList_append rfl]
    simp [streamBytes]
  have hread : Module.ofBytes (streamBytes .little _) = _ := hclosed.ofBytes
  rw [← hbytes] at hread
  exact ⟨_, _, hrun, hread, ⟨List.prefix_refl _, List.prefix_refl _⟩,
    MethodRecord.filterMap_toSection h.fits, rfl, rfl⟩

end Kept

/-! ## What was handed out -/

theorem names_reference {q : QualifiedType} {member : String} {key : MemberKey} {t t' : Tables}
    (hrun : outcome (Encoder.reference q member) t = (.ok key, t')) :
    t'.snapshot.Names key q member := by
  obtain ⟨ht, hfits, rfl⟩ := Encoder.reference_ok t.holds_entries (List.prefix_refl _) hrun
  obtain ⟨hns, htype, hname⟩ :=
    ht.snapshot.key_parts hfits fun _ hs => List.mem_append_right _ hs
  exact ⟨hns, htype, hname⟩

namespace Operation

/-- What is handed out leads to its entry right behind the operation. -/
theorem resolves_perform (op : Operation) (s : Session) :
    op.Resolves (outcome op.perform s).2.snapshot (outcome op.perform s).1 := by
  cases op with
  | intern x =>
    rw [perform, outcome_bind_pure, Session.outcome_onTables]
    rcases hrun : outcome (Encoder.intern x) s.tables with ⟨e | id, t⟩
    · trivial
    · obtain ⟨ht, hid⟩ := Encoder.intern_ok s.tables.holds_entries (List.prefix_refl _) hrun
      exact ht.snapshot.string?_eq (by simp) hid
  | push blob =>
    rw [perform, outcome_bind_pure, Session.outcome_onTables]
    rcases hrun : outcome (Encoder.push blob) s.tables with ⟨e | id, t⟩
    · trivial
    · obtain ⟨ht, hid⟩ := Encoder.push_ok s.tables.holds_entries hrun
      show t.snapshot.blob? id = some blob
      rw [Module.blob?, TableId.position, hid, Nat.add_sub_cancel, ← Array.getElem?_toList,
        ht.snapshot.blobs, List.getElem?_concat_length]
  | reference q member =>
    rw [perform, outcome_bind_pure, Session.outcome_onTables]
    rcases hrun : outcome (Encoder.reference q member) s.tables with ⟨e | key, t⟩
    · trivial
    · exact names_reference hrun
  | memberReference r =>
    rw [perform, outcome_bind_pure, Session.outcome_onTables]
    rcases hrun : outcome (Encoder.memberReference r) s.tables with ⟨e | key, t⟩
    · trivial
    · exact names_reference hrun
  | encodeMethod q m =>
    rw [perform, outcome_bind_pure]
    rcases outcome (Session.encodeMethod q m) s with ⟨_ | _, _⟩ <;> trivial
  | collectType t =>
    rw [perform, outcome_bind_pure]
    rcases outcome (Session.collectType t) s with ⟨_ | _, _⟩ <;> trivial

/-- What leads to an entry leads to it ever after. -/
theorem Resolves.mono {m m' : Module} {op : Operation} {result : Except ExportError Issued}
    (hm : m.Begins m') (h : op.Resolves m result) : op.Resolves m' result := by
  match op, result, h with
  | _, .error _, _ => trivial
  | intern _, .ok (.string _), h => exact hm.string? h
  | push _, .ok (.blob _), h => exact hm.blob? h
  | reference .., .ok (.member _), h => exact hm.names h
  | memberReference _, .ok (.member _), h => exact hm.names h
  | encodeMethod .., .ok .nothing, _ => trivial
  | collectType _, .ok .nothing, _ => trivial

end Operation

theorem begins_performAll (ops : List Operation) (s : Session) :
    s.snapshot.Begins (performAll ops s).2.snapshot := by
  induction ops generalizing s with
  | nil => exact .refl _
  | cons op rest ih => exact (op.grows s).trans (ih _)

/-- Everything that operations hand out leads to its entry in the end. -/
theorem resolves_performAll {m : Module} (ops : List Operation) {s : Session}
    (hm : (performAll ops s).2.snapshot.Begins m) :
    List.Forall₂ (Operation.Resolves m) ops (performAll ops s).1 := by
  induction ops generalizing s with
  | nil => exact .nil
  | cons op rest ih =>
    have hrest : (outcome op.perform s).2.snapshot.Begins m := (begins_performAll rest _).trans hm
    exact .cons ((op.resolves_perform s).mono hrest) (ih hm)

/-! ## Finishing -/

/-- **Sessions survive failures.** Whatever operations have been performed, and whichever of
them failed, the session can be finished when no entry of its tables is too long. The module
that is read has the records of the methods that were encoded, in order and as they were
written, the tables of the session and the counts of the summary; and whatever an
operation handed out leads to the entry it was issued for. -/
theorem finish_performAll {ops : List Operation} {results : List (Except ExportError Issued)}
    {s : Session} (hrun : performAll ops opened = (results, s))
    (hstrings : ∀ x ∈ s.tables.strings.entries, (Text.toUtf8 x).length ≤ maxLength)
    (hblobs : ∀ b ∈ s.tables.blobs.entries, b.length ≤ maxLength) :
    outcome Session.start {} = (.ok (), opened) ∧
    ∃ summary s' m, outcome Session.finish s = (.ok summary, s') ∧
      Module.ofBytes s'.sink.bytes.toList = .ok m ∧
      List.Forall₂ (Call.Left m) (calls ops opened) m.methods ∧
      m.strings = s.tables.strings.entries ∧ m.blobs = s.tables.blobs.entries ∧
      summary.methods = m.methods.length ∧
      summary.instructions = (m.methods.map fun r => r.instructions.length).sum ∧
      summary.strings = m.strings.size ∧ summary.blobs = m.blobs.size ∧
      List.Forall₂ (Operation.Resolves m) ops results := by
  obtain ⟨rfl, rfl⟩ := Prod.ext_iff.mp hrun
  obtain ⟨hstart, hopened⟩ := Kept.opened
  obtain ⟨records, hkept⟩ := hopened.performAll ops
  rw [List.nil_append, List.nil_append] at hkept
  obtain ⟨s', m, hfinish, hread, hm, rfl, hstringTable, hblobTable⟩ :=
    hkept.finish hstrings hblobs
  refine ⟨hstart, _, s', m, hfinish, hread, ?_, hstringTable, hblobTable, hkept.methods,
    hkept.instructions, ?_, ?_, resolves_performAll ops hm⟩
  · exact hkept.left.imp fun _ _ hleft => hleft.mono hm
  · rw [hstringTable]
    rfl
  · rw [hblobTable]
    rfl

/-- A method that is refused for its operand, after its own reference was encoded. -/
def refused : DeclaredMethod :=
  ⟨⟨"App", "Outer"⟩, { name := "bad", instructions := [⟨⟨0⟩, .calli, .unsupported "CallSite"⟩] }⟩

/-- A method that is refused leaves what it has interned in the tables. -/
theorem methodRecord_refused : ∃ e t, outcome (Encoder.methodRecord refused) {} = (.error e, t) ∧
    t.Holds ["App", "Outer", "bad"] [] := by
  obtain ⟨positions, hbuild⟩ :
      ∃ p, Positions.build refused.fullName refused.method.instructions = .ok p := by
    rcases hbuild : Positions.build refused.fullName refused.method.instructions with e | p
    · rcases Positions.build_error hbuild with hlong | hrepeated
      · exact absurd hlong.1 (by decide)
      · exact absurd hrepeated (by simp [refused, bodyLabels, firstRepeated?])
    · exact ⟨p, rfl⟩
  rcases hkey : outcome (Encoder.reference refused.type refused.method.name) {} with ⟨e | key, t⟩
  · have hfault := Encoder.reference_error Tables.holds_empty (by decide) (List.prefix_refl _) hkey
    rw [QualifiedType.Fits.fault?_eq_none (by decide)] at hfault
    cases hfault
  · refine ⟨.unsupportedOperand refused.fullName .calli "CallSite", t, ?_,
      (Encoder.reference_ok Tables.holds_empty (List.prefix_refl _) hkey).1⟩
    rw [Encoder.methodRecord, if_neg (by decide), hbuild]
    exact outcome_bind_ok hkey

/-- A session goes on behind a method that is refused. -/
theorem finish_performAll_sample :
    ∃ e id s summary s' m,
      performAll [.encodeMethod refused.type refused.method, .intern "kept"] opened =
        ([.error e, .ok (.string id)], s) ∧
      outcome Session.finish s = (.ok summary, s') ∧
      Module.ofBytes s'.sink.bytes.toList = .ok m ∧ m.methods = [] ∧
      m.strings.toList = ["App", "Outer", "bad", "kept"] ∧ m.string? id = some "kept" := by
  obtain ⟨e, t, hrecord, ht⟩ := methodRecord_refused
  rcases hintern : outcome (Encoder.intern "kept") t with ⟨e' | id, t'⟩
  · exact absurd hintern (Encoder.intern_never_fails ht (by decide) (List.prefix_refl _))
  obtain ⟨ht', _⟩ := Encoder.intern_ok ht (List.prefix_refl _) hintern
  have hmethod : outcome (Session.encodeMethod refused.type refused.method) opened =
      (.error e, { opened with tables := t }) := by
    rw [Session.encodeMethod_of_unlimited refused rfl, show opened.tables = {} from rfl, hrecord]
  have hfirst : outcome (Operation.perform (.encodeMethod refused.type refused.method)) opened =
      (.error e, { opened with tables := t }) := by
    rw [Operation.perform, outcome_bind_pure, hmethod]
    rfl
  have hsecond : outcome (Operation.perform (.intern "kept")) { opened with tables := t } =
      (.ok (.string id), { opened with tables := t' }) := by
    rw [Operation.perform, outcome_bind_pure, Session.outcome_onTables, hintern]
    rfl
  have hrun : performAll [.encodeMethod refused.type refused.method, .intern "kept"] opened =
      ([.error e, .ok (.string id)], { opened with tables := t' }) := by
    simp only [performAll, hfirst, hsecond]
  have hcalls : calls [.encodeMethod refused.type refused.method, .intern "kept"] opened = [] := by
    simp only [calls, callsFor, Operation.methods, hmethod, List.append_nil]
  have hstrings : ∀ x ∈ t'.strings.entries, (Text.toUtf8 x).length ≤ maxLength := by
    intro x hx
    rw [Array.mem_def, ht'.strings] at hx
    revert x
    decide
  have hblobs : ∀ b ∈ t'.blobs.entries, b.length ≤ maxLength := by
    intro b hb
    rw [Array.mem_def, ht'.blobs] at hb
    cases hb
  obtain ⟨_, summary, s', m, hfinish, hread, hmethods, hstringTable, _, _, _, _, _, hresolves⟩ :=
    finish_performAll hrun hstrings hblobs
  rw [hcalls] at hmethods
  refine ⟨_, id, _, summary, s', m, hrun, hfinish, hread, ?_, ?_, ?_⟩
  · exact List.forall₂_nil_left_iff.mp hmethods
  · rw [hstringTable, ht'.strings]
    decide
  · obtain ⟨_, hissued⟩ := List.forall₂_cons.mp hresolves
    exact (List.forall₂_cons.mp hissued).1

end MethodPack.Export
