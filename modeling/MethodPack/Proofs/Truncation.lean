import MethodPack.Proofs.Faults
import MethodPack.Proofs.Limits

/-!
# Truncation

A stream that was not written to its end is refused. The bytes that an export leaves when
it fails are a proper part of some finished stream (`Incomplete`): of the one that ends with
the tables as far as they were written, the missing entries being empty.
-/

namespace MethodPack

open Packed (Module Section SectionTag ByteOrder Closed maxLength streamBytes tableBytes tableHeader
  entryBytes)

/-! ## Incomplete streams -/

namespace Packed

/-- The bytes are refused since something is missing at their end. -/
def Cut (bytes : List UInt8) : Prop :=
  ∃ e, Module.ofBytes bytes = .error e ∧
    ((∃ offset needed, e = .endOfStream offset needed) ∨ ∃ tag, e = .missingSection tag)

/-- The bytes are a proper part of a finished stream. -/
def Incomplete (bytes : List UInt8) : Prop :=
  ∃ ss strings blobs, Closed ss strings blobs ∧
    bytes <+: streamBytes .little (ss ++ [.strings strings, .blobs blobs]) ∧
    bytes.length < (streamBytes .little (ss ++ [.strings strings, .blobs blobs])).length

namespace Incomplete

variable {ss ss' : List Section} {s : Section} {strings : List String}
  {blobs : List (List UInt8)} {part : List UInt8}

theorem cut (h : Incomplete part) : Cut part := by
  obtain ⟨ss, strings, blobs, hclosed, hpart, hlen⟩ := h
  exact hclosed.ofBytes_cut hpart fun heq => by
    rw [← heq] at hlen
    omega

/-- The sections before the cut stand whole, and the one in which it lies in part. -/
theorem of_part (more : List Section) (hclosed : Closed ss' strings blobs)
    (hsplit : ss' ++ [.strings strings, .blobs blobs] = ss ++ s :: more)
    (hpart : part <+: s.bytes .little) (hlen : part.length < (s.bytes .little).length) :
    Incomplete (streamBytes .little ss ++ part) := by
  have hstream : streamBytes .little (ss ++ s :: more) = streamBytes .little ss ++
      (s.bytes .little ++ more.flatMap (Section.bytes .little)) := by simp [streamBytes]
  refine ⟨ss', strings, blobs, hclosed, ?_, ?_⟩
  · rw [hsplit, hstream, List.prefix_append_right_inj]
    exact hpart.trans (List.prefix_append _ _)
  · rw [hsplit, hstream, List.length_append, List.length_append, List.length_append]
    omega

theorem fits_nil : Section.Fits (.strings []) ∧ Section.Fits (.blobs []) := by
  simp [Section.Fits]

/-- The cut lies within the marker. -/
theorem of_marker (hpart : part <+: ByteOrder.little.encode16 version)
    (hlen : part.length < (ByteOrder.little.encode16 version).length) : Incomplete part := by
  refine ⟨[], [], [], .of_records (by simp) fits_nil.1 fits_nil.2, ?_, ?_⟩
  · exact hpart.trans (List.prefix_append _ _)
  · rw [streamBytes, List.length_append]
    omega

variable (hss : ∀ r ∈ ss, r.tag = .method ∧ r.Fits)
include hss

/-- The cut lies within a method record. -/
theorem of_record (hs : s.tag = .method ∧ s.Fits) (hpart : part <+: s.bytes .little)
    (hlen : part.length < (s.bytes .little).length) :
    Incomplete (streamBytes .little ss ++ part) := by
  have hrecords : ∀ r ∈ ss ++ [s], r.tag = .method ∧ r.Fits := by
    intro r hr
    rcases List.mem_append.mp hr with hr | hr
    · exact hss r hr
    · rwa [List.mem_singleton.mp hr]
  exact of_part [.strings [], .blobs []] (.of_records hrecords fits_nil.1 fits_nil.2) (by simp)
    hpart hlen

/-- The cut lies within the string table. -/
theorem of_strings (hstrings : Section.Fits (.strings strings))
    (hpart : part <+: Section.bytes .little (.strings strings))
    (hlen : part.length < (Section.bytes .little (.strings strings)).length) :
    Incomplete (streamBytes .little ss ++ part) :=
  of_part [.blobs []] (.of_records hss hstrings fits_nil.2) rfl hpart hlen

/-- The cut lies behind the last of the records. -/
theorem of_records : Incomplete (streamBytes .little ss) := by
  have hpart : ([] : List UInt8) <+: Section.bytes .little (.strings []) := List.nil_prefix
  have h := of_strings hss fits_nil.1 hpart (by simp [Section.bytes_eq])
  rwa [List.append_nil] at h

/-- The cut lies within the blob table. -/
theorem of_blobs (hstrings : Section.Fits (.strings strings))
    (hblobs : Section.Fits (.blobs blobs))
    (hpart : part <+: Section.bytes .little (.blobs blobs))
    (hlen : part.length < (Section.bytes .little (.blobs blobs)).length) :
    Incomplete (streamBytes .little (ss ++ [.strings strings]) ++ part) :=
  of_part [] (.of_records hss hstrings hblobs) (by simp) hpart hlen

end Incomplete
end Packed

/-! ## Tables that are written in part -/

namespace Export

namespace Session

variable {α : Type} {f : α → List UInt8} {pad : α} {xs : List α} {tag : SectionTag}
  {s s' : Session} {e : ExportError}

theorem fits_replicate (hpad : f pad = []) (n : Nat) :
    ∀ y ∈ List.replicate n pad, (f y).length ≤ maxLength := by
  intro y hy
  rw [List.eq_of_mem_replicate hy, hpad]
  exact Nat.zero_le _

/-- An entry that was not written begins another that is within the limit: itself, or the
empty one if it is too long. -/
theorem writeEntry_error {x : α} (hpad : f pad = [])
    (h : outcome (writeEntry tag (f x)) s = (.error e, s')) :
    ∃ (y : α) (kept : List UInt8), (f y).length ≤ maxLength ∧
      kept <+: entryBytes .little (f y) ∧ kept.length < (entryBytes .little (f y)).length ∧
      s'.sink = s.sink.append kept := by
  rw [writeEntry_eq] at h
  split at h
  · cases h
    refine ⟨pad, [], ?_, List.nil_prefix, ?_, Sink.append_nil.symm⟩
    · rw [hpad]
      exact Nat.zero_le _
    · rw [entryBytes, List.length_append, Packed.length_countBytes, List.length_nil]
      omega
  · rename_i hlen
    obtain ⟨kept, hkept, hshort, rfl⟩ := write_error h
    exact ⟨x, kept, by omega, hkept, hshort, rfl⟩

/-- Entries that were written in part begin a list of as many entries within the limit. -/
theorem writeEntries_error (hpad : f pad = [])
    (h : outcome ((xs.map f).forM (writeEntry tag)) s = (.error e, s')) :
    ∃ (ys : List α) (kept : List UInt8), ys.length = xs.length ∧
      (∀ y ∈ ys, (f y).length ≤ maxLength) ∧
      kept <+: (ys.map f).flatMap (entryBytes .little) ∧
      kept.length < ((ys.map f).flatMap (entryBytes .little)).length ∧
      s'.sink = s.sink.append kept := by
  induction xs generalizing s with
  | nil => cases h
  | cons x rest ih =>
    obtain hfirst | ⟨_, t, hfirst, hrest⟩ := bind_eq_error.mp h
    -- the entries behind the cut are taken to be empty
    · obtain ⟨y, kept, hlen, hkept, hshort, hsink⟩ := writeEntry_error hpad hfirst
      refine ⟨y :: List.replicate rest.length pad, kept, ?_, ?_, ?_, ?_, hsink⟩
      · rw [List.length_cons, List.length_replicate, List.length_cons]
      · exact List.forall_mem_cons.mpr ⟨hlen, fits_replicate hpad _⟩
      · exact hkept.trans (List.prefix_append _ _)
      · rw [List.map_cons, List.flatMap_cons, List.length_append]
        omega
    -- the cut lies further behind
    · obtain ⟨hlen, rfl⟩ := writeEntry_ok hfirst
      obtain ⟨ys, kept, hcount, hlens, hkept, hshort, hsink⟩ := ih hrest
      refine ⟨x :: ys, entryBytes .little (f x) ++ kept, ?_, ?_, ?_, ?_, ?_⟩
      · rw [List.length_cons, hcount, List.length_cons]
      · exact List.forall_mem_cons.mpr ⟨hlen, hlens⟩
      · exact (List.prefix_append_right_inj _).mpr hkept
      · rw [List.map_cons, List.flatMap_cons, List.length_append, List.length_append]
        omega
      · rw [hsink, Sink.append_append]

/-- A table that was written in part begins a table within the limits. -/
theorem writeTable_error (hpad : f pad = []) (hcount : xs.length ≤ maxLength)
    (h : outcome (writeTable tag (xs.map f)) s = (.error e, s')) :
    ∃ (ys : List α) (kept : List UInt8),
      (ys.length ≤ maxLength ∧ ∀ y ∈ ys, (f y).length ≤ maxLength) ∧
      kept <+: tableBytes .little tag (ys.map f) ∧
      kept.length < (tableBytes .little tag (ys.map f)).length ∧
      s'.sink = s.sink.append kept := by
  have hroom : ¬ maxLength < (xs.map f).length := by
    rw [List.length_map]
    omega
  rw [writeTable, if_neg hroom] at h
  obtain hheader | ⟨_, t, hheader, hentries⟩ := bind_eq_error.mp h
  · obtain ⟨kept, hkept, hshort, rfl⟩ := write_error hheader
    refine ⟨List.replicate xs.length pad, kept,
      ⟨by rwa [List.length_replicate], fits_replicate hpad _⟩, ?_, ?_, rfl⟩
    · rw [List.length_map] at hkept
      rw [tableBytes, List.length_map, List.length_replicate]
      exact hkept.trans (List.prefix_append _ _)
    · rw [List.length_map] at hshort
      rw [tableBytes, List.length_map, List.length_replicate, List.length_append]
      omega
  · cases write_ok hheader
    obtain ⟨ys, kept, hsame, hlens, hkept, hshort, hsink⟩ := writeEntries_error hpad hentries
    have hheaders : tableHeader .little tag (ys.map f).length =
        tableHeader .little tag (xs.map f).length := by
      rw [List.length_map, List.length_map, hsame]
    refine ⟨ys, tableHeader .little tag (xs.map f).length ++ kept, ⟨by omega, hlens⟩, ?_, ?_, ?_⟩
    · rw [tableBytes, hheaders]
      exact (List.prefix_append_right_inj _).mpr hkept
    · rw [tableBytes, hheaders, List.length_append, List.length_append]
      omega
    · rw [hsink, Sink.append_append]

/-- Finishing fails within the string table, within the blob table, or in the final flush. -/
theorem finish_error (h : outcome finish s = (.error e, s')) :
    (∃ ys kept, Section.Fits (.strings ys) ∧ kept <+: Section.bytes .little (.strings ys) ∧
      kept.length < (Section.bytes .little (.strings ys)).length ∧
      s'.sink = s.sink.append kept) ∨
    (Section.Fits (.strings s.tables.strings.entries.toList) ∧
      ∃ ys kept, Section.Fits (.blobs ys) ∧ kept <+: Section.bytes .little (.blobs ys) ∧
        kept.length < (Section.bytes .little (.blobs ys)).length ∧
        s'.sink = s.sink.append
          (Section.bytes .little (.strings s.tables.strings.entries.toList) ++ kept)) ∨
    e = .storage .flushFailed := by
  rw [finish, outcome_bind_ok (outcome_tables _)] at h
  obtain hstrings | ⟨_, t, hstrings, hnext⟩ := bind_eq_error.mp h
  -- the sizes of the tables are within the limit, so a table fails in its bytes only
  · obtain ⟨ys, kept, hfits, hkept, hshort, hsink⟩ :=
      writeTable_error (show Text.toUtf8 "" = [] from rfl) s.tables.strings.size_le hstrings
    exact .inl ⟨ys, kept, hfits, hkept, hshort, hsink⟩
  obtain ⟨⟨hlen, hlens⟩, rfl⟩ := writeTable_ok hstrings
  obtain hblobs | ⟨_, u, hblobs, hlast⟩ := bind_eq_error.mp hnext
  · rw [← List.map_id s.tables.blobs.entries.toList] at hblobs
    obtain ⟨ys, kept, hfits, hkept, hshort, hsink⟩ :=
      writeTable_error (show id ([] : List UInt8) = [] from rfl) s.tables.blobs.size_le hblobs
    rw [List.map_id] at hkept hshort
    refine .inr (.inl ⟨⟨by simpa using hlen, fun b hb => hlens _ (List.mem_map_of_mem hb)⟩,
      ys, kept, hfits, hkept, hshort, ?_⟩)
    rw [hsink, Sink.append_append]
    rfl
  · obtain hflush | ⟨_, v, _, hcounts⟩ := bind_eq_error.mp hlast
    · rw [outcome_flush, Prod.mk.injEq, Sink.flush] at hflush
      split at hflush
      · cases hflush.1
        exact .inr (.inr rfl)
      · cases hflush.1
    · cases hcounts

end Session

/-! ## Exports that fail -/

variable {sink : Sink} {ds : List DeclaredMethod} {s s' : Session} {e : ExportError}

/-- A walk that fails leaves the marker, whole records, and part of one more at most. -/
theorem Written.encodeAll_incomplete {all : List String} (h : Written sink all [] s)
    (hall : trace ds <+: all) (hsink : sink.bytes = #[])
    (hrun : outcome (Session.encodeAll ds) s = (.error e, s')) :
    Packed.Incomplete s'.sink.bytes.toList := by
  obtain ⟨before, d, after, t, hds, hwritten, herror⟩ := h.encodeAll_error hall hrun
  rw [List.nil_append] at hwritten
  rw [hds] at hall
  have hall' : trace (before ++ [d]) <+: all := (trace_concat_isPrefix before d after).trans hall
  have hrecords := hwritten.records
  obtain ⟨tables, _, rfl⟩ | ⟨tables, htag, hfits, hwrite⟩ :=
    hwritten.encodeMethod_error hall' herror
  · rw [hwritten.sink, Sink.toList_append hsink]
    exact .of_records hrecords
  -- the record was made, and written in part
  · obtain ⟨kept, hkept, hshort, rfl⟩ := Session.write_error hwrite
    simp only [hwritten.sink, Sink.append_append, Sink.toList_append hsink]
    exact .of_record hrecords ⟨htag, hfits⟩ hkept hshort

/-- An export that fails before its final flush leaves an incomplete stream. -/
theorem packMethods_incomplete (hsink : sink.bytes = #[])
    (h : outcome (packMethods ds) { sink } = (.error e, s)) (hflush : e ≠ .storage .flushFailed) :
    Packed.Incomplete s.sink.bytes.toList := by
  obtain hstart | ⟨_, s₁, hstart, hnext⟩ := bind_eq_error.mp h
  · obtain ⟨kept, hkept, hshort, rfl⟩ := Session.write_error hstart
    rw [Sink.toList_append hsink]
    exact .of_marker hkept hshort
  have hstarted : Written sink (trace ds) [] s₁ := Written.start hstart
  obtain hwalk | ⟨_, s₂, hwalk, hfinish⟩ := bind_eq_error.mp hnext
  · exact hstarted.encodeAll_incomplete (List.prefix_refl _) hsink hwalk
  have hwritten := hstarted.encodeAll (List.prefix_refl _) hwalk
  rw [List.nil_append] at hwritten
  have hrecords := hwritten.records
  obtain ⟨ys, kept, hfits, hkept, hshort, hbytes⟩ |
    ⟨hstrings, ys, kept, hfits, hkept, hshort, hbytes⟩ | hlast := Session.finish_error hfinish
  · rw [hbytes, hwritten.sink, Sink.append_append, Sink.toList_append hsink]
    exact .of_strings hrecords hfits hkept hshort
  · have hincomplete := Packed.Incomplete.of_blobs hrecords hstrings hfits hkept hshort
    rw [hbytes, hwritten.sink, Sink.append_append, Sink.toList_append hsink]
    simpa [streamBytes] using hincomplete
  · exact absurd hlast hflush

/-- **A stream that was not written to its end is refused**: every proper part of what a
finished export wrote from the start, and what an export leaves that failed anywhere but
in its final flush, whatever the limit of the sink. -/
theorem unfinished_refused (types : List TypeDef) (ns : String) (limit : Option Nat)
    (flushFails : Bool) :
    (∀ summary sink, packTo { limit, flushFails } types ns = (.ok summary, sink) →
      ∀ part, part <+: sink.bytes.toList → part ≠ sink.bytes.toList → Packed.Cut part) ∧
    ∀ e sink, packTo { limit, flushFails } types ns = (.error e, sink) →
      e ≠ .storage .flushFailed → Packed.Cut sink.bytes.toList := by
  constructor
  · intro summary sink h part hpart hproper
    obtain ⟨s, hrun, rfl⟩ := packTo_eq_iff.mp h
    have hfinished := (pack_ok hrun).1
    rw [hfinished.sink, Sink.toList_append rfl] at hpart hproper
    exact hfinished.closed.ofBytes_cut hpart hproper
  · intro e sink h hflush
    obtain ⟨s, hrun, rfl⟩ := packTo_eq_iff.mp h
    obtain ⟨k, hpack, _⟩ := outcome_pack types ns { sink := { limit, flushFails } }
    rw [hrun] at hpack
    rcases hmethods : outcome (packMethods (exported types ns)) { sink := { limit, flushFails } }
      with ⟨e' | summary, t⟩
    · rw [hmethods] at hpack
      cases hpack
      exact (packMethods_incomplete rfl hmethods hflush).cut
    · rw [hmethods] at hpack
      cases hpack

/-- The sample cut short by a byte, and exports of it that fail within the marker, within a
record, within the string table and within the blob table. -/
theorem unfinished_refused_sample :
    (∃ summary sink, packTo {} sample "App" = (.ok summary, sink) ∧
      Packed.Cut sink.bytes.toList.dropLast) ∧
    ∀ limit ∈ [1, 40, 95, 150], ∃ sink,
      packTo { limit := some limit } sample "App" = (.error (.storage .sinkFull), sink) ∧
        sink.bytes.size = limit ∧ Packed.Cut sink.bytes.toList := by
  obtain ⟨summary, s, hrun⟩ := pack_succeeds sample "App" (by decide) (by decide)
  have hpack : packTo {} sample "App" = (.ok summary, s.sink) := packTo_eq_iff.mpr ⟨s, hrun, rfl⟩
  have hsize : s.sink.bytes.size = 153 := by
    rw [(pack_ok hrun).1.sink, Sink.size_append]
    decide +kernel
  constructor
  · refine ⟨summary, s.sink, hpack, (unfinished_refused sample "App" none false).1 summary s.sink
      hpack _ (List.dropLast_prefix _) fun heq => ?_⟩
    have := congrArg List.length heq
    rw [List.length_dropLast, Array.length_toList] at this
    omega
  · intro limit hlimit
    have hshort : limit < 153 := by
      revert limit
      decide
    have hfull : packTo { limit := some limit } sample "App" =
        (.error (.storage .sinkFull), s.sink.cut limit) := by
      rw [packTo_of_full (by rwa [hpack, hsize]), hpack]
    refine ⟨_, hfull, ?_, (unfinished_refused sample "App" (some limit) false).2 _ _ hfull
      (by decide)⟩
    simp only [Sink.cut, Array.size_extract, Array.take]
    omega

end Export
end MethodPack
