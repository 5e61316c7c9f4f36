import MethodPack.Proofs.Layout
import MethodPack.Proofs.Streams

/-!
# Packing

What an export that succeeds leaves in its sink. The invariant `Written` ties the
bytes, the tables and the counts of a session to the methods encoded so far; each
method that is encoded keeps it (`Written.encodeMethod`), and so does a run over many
(`Written.encodeAll`). Main statement: the bytes of a finished export are the stream of
the layout and of both tables (`pack_ok`).
-/

namespace MethodPack

/-! ## Writing -/

namespace Sink

variable {sink sink' : Sink} {chunk : List UInt8}

/-- The sink with more bytes stored. -/
def append (sink : Sink) (chunk : List UInt8) : Sink := { sink with bytes := sink.bytes ++ chunk }

@[simp] theorem limit_append : (sink.append chunk).limit = sink.limit := rfl

@[simp] theorem flush_append : (sink.append chunk).flush = sink.flush := rfl

@[simp] theorem append_nil : sink.append [] = sink := by
  cases sink
  simp [append]

theorem append_append {chunk' : List UInt8} :
    (sink.append chunk).append chunk' = sink.append (chunk ++ chunk') := by
  have hbytes : sink.bytes ++ chunk ++ chunk' = sink.bytes ++ (chunk ++ chunk') :=
    Array.ext' (by simp)
  rw [append, append, append, hbytes]

theorem toList_append (h : sink.bytes = #[]) : (sink.append chunk).bytes.toList = chunk := by
  simp [append, h]

/-- What is appended stands behind the bytes before. -/
theorem drop_append : (sink.append chunk).bytes.toList.drop sink.bytes.size = chunk := by
  simp [append, ← Array.length_toList]

theorem size_append : (sink.append chunk).bytes.size = sink.bytes.size + chunk.length := by
  rw [append, ← Array.length_toList, Array.toList_appendList, List.length_append,
    Array.length_toList]

theorem write_eq : sink.write chunk =
    (if (sink.fitting chunk).length = chunk.length then .ok () else .error .sinkFull,
      sink.append (sink.fitting chunk)) := rfl

theorem fitting_isPrefix (sink : Sink) (chunk : List UInt8) : sink.fitting chunk <+: chunk := by
  rw [fitting]
  split
  · exact List.prefix_refl _
  · exact List.take_prefix _ _

theorem fitting_of_unlimited (h : sink.limit = none) : sink.fitting chunk = chunk := by
  rw [fitting, h]

/-- A write that succeeds stores the whole chunk. -/
theorem write_ok (h : sink.write chunk = (.ok (), sink')) : sink' = sink.append chunk := by
  rw [write_eq] at h
  split at h
  · rename_i hlen
    cases h
    rw [(fitting_isPrefix sink chunk).eq_of_length hlen]
  · cases h

/-- A write that fails stores a proper part of the chunk. -/
theorem write_error {fault : StorageFault} (h : sink.write chunk = (.error fault, sink')) :
    ∃ kept, kept <+: chunk ∧ kept.length < chunk.length ∧ sink' = sink.append kept := by
  rw [write_eq] at h
  split at h
  · cases h
  · rename_i hlen
    cases h
    have := (fitting_isPrefix sink chunk).length_le
    exact ⟨_, fitting_isPrefix sink chunk, by omega, rfl⟩

theorem write_of_unlimited (chunk : List UInt8) (h : sink.limit = none) :
    sink.write chunk = (.ok (), sink.append chunk) := by
  rw [write_eq, fitting_of_unlimited h, if_pos rfl]

/-- Two chunks one after the other are written as one. -/
theorem write_append (sink : Sink) (chunk chunk' : List UInt8) : sink.write (chunk ++ chunk') =
    match sink.write chunk with
    | (.ok (), sink') => sink'.write chunk'
    | (.error fault, sink') => (.error fault, sink') := by
  cases hlimit : sink.limit with
  | none =>
    rw [write_of_unlimited _ hlimit, write_of_unlimited _ hlimit]
    simp only
    rw [write_of_unlimited _ (by rw [limit_append, hlimit]), append_append]
  | some limit =>
    have hfitting (kept : List UInt8) : (sink.append kept).fitting =
        List.take (limit - (sink.bytes.size + kept.length)) := by
      funext chunk
      rw [fitting, limit_append, hlimit, size_append]
    have hfirst : sink.fitting = List.take (limit - sink.bytes.size) := by
      simpa using hfitting []
    rw [write_eq, write_eq, hfirst]
    by_cases hfits : chunk.length ≤ limit - sink.bytes.size
    · have hall : chunk.take (limit - sink.bytes.size) = chunk := List.take_of_length_le hfits
      simp only [hall, if_true]
      rw [write_eq, hfitting, append_append, List.take_append, hall, Nat.sub_sub]
      simp only [List.length_append, Nat.add_left_cancel_iff]
    · have hnone : chunk'.take (limit - sink.bytes.size - chunk.length) = [] :=
        List.take_eq_nil_iff.mpr (.inl (by omega))
      rw [List.take_append, hnone, List.append_nil]
      simp only [List.length_take, List.length_append]
      rw [if_neg (by omega), if_neg (by omega)]

end Sink

namespace Export

open Packed (Section SectionTag Closed maxLength streamBytes tableBytes entryBytes)

namespace Session

variable {chunk : List UInt8} {s s' : Session}

theorem write_ok (h : outcome (write chunk) s = (.ok (), s')) :
    s' = { s with sink := s.sink.append chunk } := by
  rw [outcome_write, Prod.mk.injEq] at h
  obtain ⟨hresult, rfl⟩ := h
  cases hwrite : (s.sink.write chunk).1 with
  | ok => exact congrArg (fun sink => { s with sink }) (Sink.write_ok (Prod.ext hwrite rfl))
  | error fault => simp [hwrite, Except.mapError] at hresult

theorem write_error {e : ExportError} (h : outcome (write chunk) s = (.error e, s')) :
    ∃ kept, kept <+: chunk ∧ kept.length < chunk.length ∧
      s' = { s with sink := s.sink.append kept } := by
  rw [outcome_write, Prod.mk.injEq] at h
  obtain ⟨hresult, rfl⟩ := h
  cases hwrite : (s.sink.write chunk).1 with
  | ok => simp [hwrite, Except.mapError] at hresult
  | error fault =>
    obtain ⟨kept, hkept, hlen, hsink⟩ := Sink.write_error (Prod.ext hwrite rfl)
    exact ⟨kept, hkept, hlen, congrArg (fun sink => { s with sink }) hsink⟩

theorem write_of_unlimited (chunk : List UInt8) (h : s.sink.limit = none) :
    outcome (write chunk) s = (.ok (), { s with sink := s.sink.append chunk }) := by
  rw [outcome_write, Sink.write_of_unlimited chunk h]
  rfl

theorem write_append (chunk chunk' : List UInt8) :
    (write (chunk ++ chunk') : SessionM Unit) = write chunk >>= fun _ => write chunk' := by
  funext s
  show outcome (write (chunk ++ chunk')) s = outcome (write chunk >>= fun _ => write chunk') s
  rw [outcome_bind, outcome_write, outcome_write, Sink.write_append]
  rcases s.sink.write chunk with ⟨_ | _, _⟩ <;> rfl

/-- An entry and its length are written as one chunk. -/
theorem writeEntry_eq (tag : SectionTag) (entry : List UInt8) :
    (writeEntry tag entry : SessionM Unit) =
      if maxLength < entry.length then throw (.entryTooLarge tag entry.length)
      else write (entryBytes .little entry) := by
  rw [writeEntry, entryBytes, write_append]
  split <;> rfl

end Session

/-! ## The layout of many methods -/

section Layout

variable {place : String → Nat} {blobs : Nat} {d : DeclaredMethod} {ds es : List DeclaredMethod}

theorem trace_append (ds es : List DeclaredMethod) :
    trace (ds ++ es) = trace ds ++ trace es := List.flatMap_append

theorem switches_append (ds es : List DeclaredMethod) :
    switches (ds ++ es) = switches ds ++ switches es := List.flatMap_append

/-- The trace up to a method begins the trace of all methods. -/
theorem trace_concat_isPrefix (ds : List DeclaredMethod) (d : DeclaredMethod)
    (es : List DeclaredMethod) : trace (ds ++ [d]) <+: trace (ds ++ d :: es) := by
  have hsplit : ds ++ d :: es = ds ++ [d] ++ es := by simp
  rw [hsplit, trace_append (ds ++ [d])]
  exact List.prefix_append _ _

theorem trace_singleton : trace [d] = d.strings := by simp [trace]

theorem switches_singleton : switches [d] = d.blobs := by simp [switches]

theorem layout_append : layout place blobs (ds ++ es) =
    layout place blobs ds ++ layout place (blobs + (switches ds).length) es := by
  induction ds generalizing blobs with
  | nil => rfl
  | cons d rest ih =>
    rw [List.cons_append, layout, ih, layout, List.cons_append]
    simp [switches, Nat.add_assoc]

theorem length_layoutBody {labels : List Label} {body : List Instruction} :
    (layoutBody place labels blobs body).length = body.length := by
  induction body generalizing blobs with
  | nil => rfl
  | cons i rest ih => rw [layoutBody, List.length_cons, ih, List.length_cons]

theorem mem_layout {s : Section} (hs : s ∈ layout place blobs ds) :
    ∃ d ∈ ds, ∃ n, s = d.record place n := by
  induction ds generalizing blobs with
  | nil => cases hs
  | cons d rest ih =>
    rcases List.mem_cons.mp hs with rfl | hs
    · exact ⟨d, by simp, blobs, rfl⟩
    · obtain ⟨d', hd', h⟩ := ih hs
      exact ⟨d', by simp [hd'], h⟩

theorem record_mem_layout (place : String → Nat) (blobs : Nat) (hd : d ∈ ds) :
    ∃ n, d.record place n ∈ layout place blobs ds := by
  induction ds generalizing blobs with
  | nil => cases hd
  | cons d' rest ih =>
    rcases List.mem_cons.mp hd with rfl | hd
    · exact ⟨blobs, by simp [layout]⟩
    · obtain ⟨n, h⟩ := ih (blobs + d'.blobs.length) hd
      exact ⟨n, by simp [layout, h]⟩

end Layout

/-! ## The invariant of the walk -/

/-- The instructions of some methods. -/
def instructionCount (ds : List DeclaredMethod) : Nat :=
  (ds.map fun d => d.method.instructions.length).sum

/-- What a session holds when it has encoded the methods `done` from its start with
`sink`, where `all` is the trace in the end. -/
structure Written (sink : Sink) (all : List String) (done : List DeclaredMethod) (s : Session) :
    Prop where
  tables : s.tables.Holds (trace done) (switches done)
  sink : s.sink = sink.append (streamBytes .little (layout (place all) 0 done))
  methods : s.counts.methods = done.length
  instructions : s.counts.instructions = instructionCount done
  types : s.counts.types = 0
  encodable : ∀ d ∈ done, d.Encodable (place all)
  lengths : ∀ d ∈ done, d.method.instructions.length ≤ maxLength

namespace Written

open Session (encodeMethod_eq)

variable {sink : Sink} {all : List String} {done ds : List DeclaredMethod} {d : DeclaredMethod}
  {s s' : Session}

/-- The records of the layout are method records, of bodies within the limit. -/
theorem records (h : Written sink all done s) :
    ∀ r ∈ layout (place all) 0 done, r.tag = .method ∧ r.Fits := by
  intro r hr
  obtain ⟨d, hd, n, rfl⟩ := mem_layout hr
  refine ⟨rfl, ?_⟩
  show (layoutBody _ _ n d.method.instructions).length ≤ maxLength
  rw [length_layoutBody]
  exact h.lengths d hd

theorem encodeMethod (h : Written sink all done s) (hall : trace (done ++ [d]) <+: all)
    (hrun : outcome (Session.encodeMethod d.type d.method) s = (.ok (), s')) :
    Written sink all (done ++ [d]) s' := by
  rw [encodeMethod_eq, bind_eq_ok] at hrun
  obtain ⟨r, s₁, hrecord, hrun⟩ := hrun
  obtain ⟨_, s₂, hwrite, hcount⟩ := bind_eq_ok.mp hrun
  rw [Session.outcome_onTables, Prod.mk.injEq] at hrecord
  obtain ⟨hr, rfl⟩ := hrecord
  cases Session.write_ok hwrite
  cases hcount
  rw [trace_append, trace_singleton] at hall
  obtain ⟨htables, hencodable, hlen, rfl⟩ :=
    Encoder.methodRecord_ok h.tables hall (Prod.ext hr rfl)
  exact {
    tables := by
      rw [trace_append, trace_singleton, switches_append, switches_singleton]
      exact htables
    sink := by
      rw [layout_append]
      simp [h.sink, Sink.append_append, streamBytes, layout]
    methods := by simp [h.methods]
    instructions := by simp [h.instructions, instructionCount]
    types := h.types
    encodable := by
      intro d' hd'
      rcases List.mem_append.mp hd' with hd' | hd'
      · exact h.encodable d' hd'
      · rwa [List.mem_singleton.mp hd']
    lengths := by
      intro d' hd'
      rcases List.mem_append.mp hd' with hd' | hd'
      · exact h.lengths d' hd'
      · rwa [List.mem_singleton.mp hd'] }

theorem encodeAll (h : Written sink all done s) (hall : trace (done ++ ds) <+: all)
    (hrun : outcome (Session.encodeAll ds) s = (.ok (), s')) :
    Written sink all (done ++ ds) s' := by
  induction ds generalizing done s with
  | nil =>
    cases hrun
    rwa [List.append_nil]
  | cons d rest ih =>
    -- the method in front joins those that are done
    obtain ⟨_, t, hfirst, hrest⟩ := bind_eq_ok.mp hrun
    have hnext := h.encodeMethod ((trace_concat_isPrefix done d rest).trans hall) hfirst
    have hlist : done ++ d :: rest = done ++ [d] ++ rest := by simp
    rw [hlist] at hall ⊢
    exact ih hnext hall hrest

/-- The invariant holds behind the marker. -/
theorem start (hrun : outcome Session.start { sink } = (.ok (), s')) :
    Written sink all [] s' := by
  cases Session.write_ok hrun
  exact {
    tables := Tables.holds_empty
    sink := by simp [streamBytes, layout]
    methods := rfl
    instructions := rfl
    types := rfl
    encodable := by simp
    lengths := by simp }

end Written

/-! ## The tables behind the records -/

namespace Session

variable {tag : SectionTag} {entries : List (List UInt8)} {s s' : Session}

theorem writeEntry_ok {entry : List UInt8} (h : outcome (writeEntry tag entry) s = (.ok (), s')) :
    entry.length ≤ maxLength ∧
      s' = { s with sink := s.sink.append (entryBytes .little entry) } := by
  rw [writeEntry_eq] at h
  split at h
  · cases h
  · exact ⟨by omega, write_ok h⟩

theorem writeEntries_ok (h : outcome (entries.forM (writeEntry tag)) s = (.ok (), s')) :
    (∀ b ∈ entries, b.length ≤ maxLength) ∧
      s' = { s with sink := s.sink.append (entries.flatMap (entryBytes .little)) } := by
  induction entries generalizing s with
  | nil =>
    cases h
    simp
  | cons entry rest ih =>
    obtain ⟨_, t, hfirst, hrest⟩ := bind_eq_ok.mp h
    obtain ⟨hlen, rfl⟩ := writeEntry_ok hfirst
    obtain ⟨hlens, rfl⟩ := ih hrest
    exact ⟨List.forall_mem_cons.mpr ⟨hlen, hlens⟩, by rw [Sink.append_append, List.flatMap_cons]⟩

theorem writeTable_ok (h : outcome (writeTable tag entries) s = (.ok (), s')) :
    (entries.length ≤ maxLength ∧ ∀ b ∈ entries, b.length ≤ maxLength) ∧
      s' = { s with sink := s.sink.append (tableBytes .little tag entries) } := by
  rw [writeTable] at h
  split at h
  · cases h
  · rename_i hlen
    obtain ⟨_, t, hheader, hentries⟩ := bind_eq_ok.mp h
    cases write_ok hheader
    obtain ⟨hlens, rfl⟩ := writeEntries_ok hentries
    exact ⟨⟨by omega, hlens⟩, by rw [Sink.append_append, tableBytes]⟩

theorem finish_ok {summary : Summary} (h : outcome finish s = (.ok summary, s')) :
    Section.Fits (.strings s.tables.strings.entries.toList) ∧
      Section.Fits (.blobs s.tables.blobs.entries.toList) ∧
      s' = { s with
        sink := s.sink.append (Section.bytes .little (.strings s.tables.strings.entries.toList) ++
          Section.bytes .little (.blobs s.tables.blobs.entries.toList)) } ∧
      summary = { s.counts with
        strings := s.tables.strings.size, blobs := s.tables.blobs.size } := by
  rw [finish, outcome_bind_ok (outcome_tables _)] at h
  obtain ⟨_, t, hstrings, h⟩ := bind_eq_ok.mp h
  obtain ⟨_, u, hblobs, h⟩ := bind_eq_ok.mp h
  obtain ⟨_, v, hflush, h⟩ := bind_eq_ok.mp h
  obtain ⟨⟨hlen, hlens⟩, rfl⟩ := writeTable_ok hstrings
  obtain ⟨hfits, rfl⟩ := writeTable_ok hblobs
  rw [outcome_flush, Prod.mk.injEq] at hflush
  obtain ⟨_, rfl⟩ := hflush
  cases h
  refine ⟨⟨by simpa using hlen, fun s hs => hlens _ (List.mem_map_of_mem hs)⟩, hfits, ?_, rfl⟩
  rw [Sink.append_append]
  rfl

end Session

/-! ## A finished export -/

/-- What a session holds when it has exported the methods `ds` to `sink` from start to end:
the tables are the trace without repetitions and the switches in order, and the stream is the
marker, the records of the layout and both tables. -/
structure Finished (sink : Sink) (ds : List DeclaredMethod) (s : Session) : Prop where
  tables : s.tables.Holds (trace ds) (switches ds)
  closed : Closed (layout (place (trace ds)) 0 ds) (trace ds).eraseDups (switches ds)
  sink : s.sink = sink.append (streamBytes .little (layout (place (trace ds)) 0 ds ++
    [.strings (trace ds).eraseDups, .blobs (switches ds)]))
  encodable : ∀ d ∈ ds, d.Encodable (place (trace ds))

variable {sink : Sink} {s : Session} {summary : Summary}

theorem packMethods_ok {ds : List DeclaredMethod}
    (h : outcome (packMethods ds) { sink } = (.ok summary, s)) :
    Finished sink ds s ∧ summary =
      ⟨⟨0, ds.length, instructionCount ds⟩, (trace ds).eraseDups.length, (switches ds).length⟩ := by
  obtain ⟨_, s₁, hstart, h⟩ := bind_eq_ok.mp h
  obtain ⟨_, s₂, hwalk, hfinish⟩ := bind_eq_ok.mp h
  have hstarted : Written sink (trace ds) [] s₁ := Written.start hstart
  have hwritten : Written sink (trace ds) ds s₂ := hstarted.encodeAll (List.prefix_refl _) hwalk
  have hentries : s₂.tables.strings.entries.toList = (trace ds).eraseDups := hwritten.tables.strings
  obtain ⟨hstrings, hblobs, rfl, rfl⟩ := Session.finish_ok hfinish
  rw [hentries] at hstrings
  rw [hwritten.tables.blobs] at hblobs
  refine ⟨⟨hwritten.tables, .of_records hwritten.records hstrings hblobs, ?_,
    hwritten.encodable⟩, ?_⟩
  · simp only [hentries, hwritten.tables.blobs]
    rw [hwritten.sink, Sink.append_append]
    simp [streamBytes]
  · have hcounts : s₂.counts = ⟨0, ds.length, instructionCount ds⟩ := by
      rw [← hwritten.types, ← hwritten.methods, ← hwritten.instructions]
    have hstringCount : s₂.tables.strings.size = (trace ds).eraseDups.length := by
      rw [← hentries, Array.length_toList, StringTable.size]
    have hblobCount : s₂.tables.blobs.size = (switches ds).length := by
      rw [← hwritten.tables.blobs, Array.length_toList, BlobTable.size]
    rw [hcounts, hstringCount, hblobCount]

/-- **A finished export** has written the methods of the walk, and has counted the selected
types with all nested ones. -/
theorem pack_ok {types : List TypeDef} {ns : String}
    (h : outcome (pack types ns) { sink } = (.ok summary, s)) :
    Finished sink (exported types ns) s ∧ summary =
      ⟨⟨TypeDef.countAll (selected types ns), (exported types ns).length,
        instructionCount (exported types ns)⟩,
        (trace (exported types ns)).eraseDups.length, (switches (exported types ns)).length⟩ := by
  obtain ⟨k, hpack, hcount⟩ := outcome_pack types ns { sink }
  rw [h] at hpack
  rcases hrun : outcome (packMethods (exported types ns)) { sink } with ⟨e | counted, t⟩
  · rw [hrun] at hpack
    cases hpack
  · rw [hrun] at hpack hcount
    cases hpack
    obtain ⟨hfinished, rfl⟩ := packMethods_ok hrun
    refine ⟨⟨hfinished.tables, hfinished.closed, hfinished.sink, hfinished.encodable⟩, ?_⟩
    rw [hcount rfl]
    simp

end Export
end MethodPack
