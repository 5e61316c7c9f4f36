import MethodPack.Proofs.Faults
import MethodPack.Proofs.Growth

/-!
# Appending

Types that are appended to the input leave what was exported before them where it was. The
records hold places in tables that later types still extend, but a string keeps its place
and a blob its number, so the records of the first types are the same. Main statement: the
stream of the first types begins that of all, but for the tables at its end, and these begin
those of all; and where the first types stop an export, nothing behind them is looked at
(`packTo_append`).
-/

namespace MethodPack

open Packed (Module MethodRecord Section streamBytes maxLength)

/-! ## The parts of a stream -/

namespace Packed.Module

/-- The version marker and the records of the methods. -/
def head (m : Module) : List UInt8 :=
  streamBytes m.order (m.methods.map MethodRecord.toSection)

/-- The tables of strings and of blobs. -/
def tail (m : Module) : List UInt8 :=
  Section.bytes m.order (.strings m.strings.toList) ++ Section.bytes m.order (.blobs m.blobs.toList)

/-- What comes first among the methods comes first in the stream. -/
theorem head_isPrefix {m m' : Module} (horder : m.order = m'.order)
    (h : m.methods <+: m'.methods) : m.head <+: m'.head := by
  obtain ⟨more, hmore⟩ := h
  rw [head, head, ← hmore, horder, List.map_append, streamBytes, streamBytes, List.flatMap_append,
    ← List.append_assoc]
  exact List.prefix_append _ _

end Packed.Module

/-! ## Layouts that keep their places -/

section Layout

variable {place place' : String → Nat}

theorem QualifiedType.key_congr {q : QualifiedType} {member : String}
    (h : ∀ s ∈ q.strings member, place s = place' s) :
    q.key member place = q.key member place' := by
  rw [key, key, h q.ns (by simp [strings]), h q.path (by simp [strings]),
    h member (by simp [strings])]

theorem Operand.field_congr {o : Operand} {labels : List Label} {blobs : Nat}
    (h : ∀ s ∈ o.strings, place s = place' s) :
    o.field place labels blobs = o.field place' labels blobs := by
  cases o with
  | string s => rw [field, field, h s (by simp [strings])]
  | member m => rw [field, field, QualifiedType.key_congr h]
  | _ => rfl

theorem layoutBody_congr {labels : List Label} {blobs : Nat} {body : List Instruction}
    (h : ∀ i ∈ body, ∀ s ∈ i.operand.strings, place s = place' s) :
    layoutBody place labels blobs body = layoutBody place' labels blobs body := by
  induction body generalizing blobs with
  | nil => rfl
  | cons i rest ih =>
    have hrest : ∀ n, layoutBody place labels n rest = layoutBody place' labels n rest :=
      fun _ => ih fun j hj => h j (by simp [hj])
    rw [layoutBody, layoutBody, Operand.field_congr (h i (by simp)), hrest]

theorem DeclaredMethod.record_congr {d : DeclaredMethod} {blobs : Nat}
    (h : ∀ s ∈ d.strings, place s = place' s) : d.record place blobs = d.record place' blobs := by
  have hkey : d.key place = d.key place' :=
    QualifiedType.key_congr fun s hs => h s (List.mem_append_left _ hs)
  have hbody : layoutBody place d.labels blobs d.method.instructions =
      layoutBody place' d.labels blobs d.method.instructions :=
    layoutBody_congr fun i hi s hs => h s (d.strings_of_operand hi s hs)
  rw [record, record, hkey, hbody]

/-- A layout depends on the places of the strings that it mentions. -/
theorem Export.layout_congr {ds : List DeclaredMethod} {blobs : Nat}
    (h : ∀ s ∈ trace ds, place s = place' s) : layout place blobs ds = layout place' blobs ds := by
  induction ds generalizing blobs with
  | nil => rfl
  | cons d rest ih =>
    have hd : ∀ s ∈ d.strings, place s = place' s :=
      fun s hs => h s (strings_subset_trace (by simp) s hs)
    have hrest : ∀ s ∈ trace rest, place s = place' s :=
      fun s hs => h s (List.mem_append_right _ hs)
    rw [layout, layout, DeclaredMethod.record_congr hd, ih hrest]

end Layout

namespace Export

/-! ## A finished export with more methods -/

section Finished

variable {ds es : List DeclaredMethod} {s s' : Session} {sink : Sink}

/-- A finished export to an empty sink reads back, and its stream is the head and the tail of
the module. -/
theorem Finished.parts (h : Finished sink ds s) (hsink : sink.bytes = #[]) :
    ∃ m, Module.ofBytes s.sink.bytes.toList = .ok m ∧ m.Holds (trace ds) (switches ds) ∧
      m.methods = (layout (place (trace ds)) 0 ds).filterMap Section.record? ∧
      s.sink.bytes.toList = m.head ++ m.tail := by
  obtain ⟨m, hread, hholds, _, _, hmethods⟩ := h.ofBytes hsink
  refine ⟨m, hread, hholds, hmethods, ?_⟩
  rw [Module.head, Module.tail, hholds.order, hholds.strings, hholds.blobs, hmethods,
    map_toSection_layout h.encodable, h.sink, Sink.toList_append hsink]
  simp [streamBytes]

/-- The places of the first methods are those of all. -/
theorem layout_isPrefix (ds es : List DeclaredMethod) :
    layout (place (trace ds)) 0 ds <+: layout (place (trace (ds ++ es))) 0 (ds ++ es) := by
  have hall : trace ds <+: trace (ds ++ es) := by
    rw [trace_append]
    exact List.prefix_append _ _
  have hplaces : layout (place (trace ds)) 0 ds = layout (place (trace (ds ++ es))) 0 ds :=
    layout_congr fun s hs => (place_of_isPrefix hall hs).symm
  rw [hplaces, layout_append]
  exact List.prefix_append _ _

theorem begins_of_holds {m m' : Module} (h : m.Holds (trace ds) (switches ds))
    (h' : m'.Holds (trace (ds ++ es)) (switches (ds ++ es))) : m.Begins m' where
  strings := by
    rw [h.strings, h'.strings, trace_append]
    exact eraseDups_isPrefix (List.prefix_append _ _)
  blobs := by
    rw [h.blobs, h'.blobs, switches_append]
    exact List.prefix_append _ _

end Finished

/-! ## The walk over more types -/

section Walk

variable {ds es : List DeclaredMethod} {s : Session} {summary : Summary}

theorem walkAll_append (ns : String) (around : List String) (ts us : List TypeDef) :
    TypeDef.walkAll ns around (ts ++ us) =
      TypeDef.walkAll ns around ts ++ TypeDef.walkAll ns around us := by
  induction ts with
  | nil => rfl
  | cons t rest ih =>
    rw [List.cons_append, TypeDef.walkAll, TypeDef.walkAll, ih, List.append_assoc]

theorem selected_append (types more : List TypeDef) (ns : String) :
    selected (types ++ more) ns = selected types ns ++ selected more ns :=
  List.filter_append ..

theorem exported_append (types more : List TypeDef) (ns : String) :
    exported (types ++ more) ns = exported types ns ++ exported more ns := by
  rw [exported, selected_append, walkAll_append, exported, exported]

/-- A session that could be finished later on can be finished now, on a sink that does not
fail. -/
theorem finish_of_later {t : Session} {summary : Summary} {s' : Session}
    (hlater : s.snapshot.Begins t.snapshot) (hlimit : s.sink.limit = none)
    (hflush : s.sink.flush = .ok ()) (h : outcome Session.finish t = (.ok summary, s')) :
    ∃ summary' s', outcome Session.finish s = (.ok summary', s') := by
  obtain ⟨hstrings, hblobs, _⟩ := Session.finish_ok h
  apply Session.finish_of_unlimited hlimit hflush
  · intro b hb
    exact hstrings.2 b (hlater.strings.subset (Array.mem_toList_iff.mpr hb))
  · intro b hb
    exact hblobs.2 b (hlater.blobs.subset (Array.mem_toList_iff.mpr hb))

/-- When an export of more methods succeeds, that of the first ones does. -/
theorem packMethods_of_append (h : outcome (packMethods (ds ++ es)) {} = (.ok summary, s)) :
    ∃ summary' s', outcome (packMethods ds) {} = (.ok summary', s') := by
  obtain ⟨_, s₁, hstart, h⟩ := bind_eq_ok.mp h
  obtain ⟨_, s₃, hwalk, hfinish⟩ := bind_eq_ok.mp h
  rw [Session.encodeAll_append] at hwalk
  obtain ⟨_, s₂, hfirst, hmore⟩ := bind_eq_ok.mp hwalk
  have hstarted : Written {} (trace ds) [] s₁ := Written.start hstart
  have hwritten : Written {} (trace ds) ds s₂ := hstarted.encodeAll (List.prefix_refl _) hfirst
  have hlater : s₂.snapshot.Begins s₃.snapshot := by
    have hgrows := Grows.encodeAll es s₂
    rwa [hmore] at hgrows
  have hlimit : s₂.sink.limit = none := by rw [hwritten.sink, Sink.limit_append]
  have hflush : s₂.sink.flush = .ok () := by
    rw [hwritten.sink, Sink.flush_append]
    rfl
  obtain ⟨summary', s', hfinish'⟩ := finish_of_later hlater hlimit hflush hfinish
  refine ⟨summary', s', ?_⟩
  rw [packMethods, outcome_bind_ok hstart, outcome_bind_ok hfirst, hfinish']

end Walk

/-! ## Exports of more types -/

/-- An export up to the tables: the marker and the records of the selected types. -/
def packRecords (types : List TypeDef) (ns : String) : SessionM Unit := do
  Session.start
  (selected types ns).forM Session.collectType

theorem pack_eq_packRecords (types : List TypeDef) (ns : String) :
    pack types ns = packRecords types ns >>= fun _ => Session.finish := by
  rw [packRecords, bind_assoc]
  rfl

theorem packRecords_append (types more : List TypeDef) (ns : String) :
    packRecords (types ++ more) ns =
      packRecords types ns >>= fun _ => (selected more ns).forM Session.collectType := by
  have hwalk : (selected types ns ++ selected more ns).forM Session.collectType =
      (selected types ns).forM Session.collectType >>= fun _ =>
        (selected more ns).forM Session.collectType := List.forM_append
  rw [packRecords, selected_append, hwalk, packRecords, bind_assoc]

/-- An export that fails before the tables leaves the sink as it is there. -/
theorem packTo_of_packRecords {types : List TypeDef} {ns : String} {sink : Sink} {s : Session}
    {e : ExportError} (h : outcome (packRecords types ns) { sink } = (.error e, s)) :
    packTo sink types ns = (.error e, s.sink) := by
  refine packTo_eq_iff.mpr ⟨s, ?_, rfl⟩
  rw [pack_eq_packRecords, outcome_bind, h]

/-- **Appending types never renumbers.** On a sink that does not fail, an export that succeeds
succeeds without its last types as well. Its marker and its records then begin with those of
the shorter export, and so do both tables. And where the first types stop an export, more
types make no difference. -/
theorem packTo_append (types more : List TypeDef) (ns : String) :
    (∀ summary sink, packTo {} (types ++ more) ns = (.ok summary, sink) →
      ∃ summary₀ sink₀ m₀ m, packTo {} types ns = (.ok summary₀, sink₀) ∧
        Module.ofBytes sink₀.bytes.toList = .ok m₀ ∧ Module.ofBytes sink.bytes.toList = .ok m ∧
        sink₀.bytes.toList = m₀.head ++ m₀.tail ∧ sink.bytes.toList = m.head ++ m.tail ∧
        m₀.head <+: m.head ∧ m₀.methods <+: m.methods ∧ m₀.Begins m) ∧
    ∀ sink s e, outcome (packRecords types ns) { sink } = (.error e, s) →
      packTo sink types ns = (.error e, s.sink) ∧
        packTo sink (types ++ more) ns = (.error e, s.sink) := by
  constructor
  · intro summary sink h
    obtain ⟨s, hrun, rfl⟩ := packTo_eq_iff.mp h
    obtain ⟨_, _, hmethods⟩ := (pack_succeeds_iff _ _ _).mp ⟨_, _, hrun⟩
    have hfinished := (pack_ok hrun).1
    rw [exported_append] at hmethods hfinished
    obtain ⟨summary₀, s₀, hrun₀⟩ := (pack_succeeds_iff _ _ _).mpr (packMethods_of_append hmethods)
    have hfinished₀ := (pack_ok hrun₀).1
    obtain ⟨m₀, hread₀, hholds₀, hrecords₀, hparts₀⟩ := hfinished₀.parts rfl
    obtain ⟨m, hread, hholds, hrecords, hparts⟩ := hfinished.parts rfl
    have hbegins : m₀.methods <+: m.methods := by
      rw [hrecords₀, hrecords]
      exact (layout_isPrefix _ _).filterMap _
    have horder : m₀.order = m.order := hholds₀.order.trans hholds.order.symm
    exact ⟨summary₀, s₀.sink, m₀, m, packTo_eq_iff.mpr ⟨s₀, hrun₀, rfl⟩, hread₀, hread, hparts₀,
      hparts, Module.head_isPrefix horder hbegins, hbegins, begins_of_holds hholds₀ hholds⟩
  · intro sink s e h
    refine ⟨packTo_of_packRecords h, packTo_of_packRecords ?_⟩
    rw [packRecords_append, outcome_bind, h]

/-- A type whose method refers to the sample. -/
def late : TypeDef :=
  { ns := "App"
    name := "Late"
    methods := [{
      name := "go"
      instructions := [
        ⟨⟨0⟩, .ldstr, .string "hi"⟩,
        ⟨⟨5⟩, .call, .member ⟨.outermost "App" "Outer", "run"⟩⟩] }] }

/-- A type whose method has more arguments than a signature can hold. -/
def wide : TypeDef :=
  { ns := "App"
    name := "Wide"
    methods := [{ name := "go", genericParams := 0x3fffffff, params := 1 }] }

theorem packTo_append_sample :
    (∃ summary sink summary₀ sink₀ m₀ m, packTo {} (sample ++ [late]) "App" = (.ok summary, sink) ∧
      packTo {} sample "App" = (.ok summary₀, sink₀) ∧
      Module.ofBytes sink₀.bytes.toList = .ok m₀ ∧ Module.ofBytes sink.bytes.toList = .ok m ∧
      m₀.head <+: m.head ∧ m₀.Begins m) ∧
    (packTo {} [wide] "App").1 = .error (.tooManyArguments "App.Wide::go" 0x40000000) ∧
      packTo {} ([wide] ++ sample) "App" = packTo {} [wide] "App" := by
  constructor
  · obtain ⟨summary, s, hrun⟩ := pack_succeeds (sample ++ [late]) "App" (by decide) (by decide)
    have hpack : packTo {} (sample ++ [late]) "App" = (.ok summary, s.sink) :=
      packTo_eq_iff.mpr ⟨s, hrun, rfl⟩
    obtain ⟨summary₀, sink₀, m₀, m, hpack₀, hread₀, hread, _, _, hhead, _, hbegins⟩ :=
      (packTo_append sample [late] "App").1 summary s.sink hpack
    exact ⟨summary, s.sink, summary₀, sink₀, m₀, m, hpack, hpack₀, hread₀, hread, hhead, hbegins⟩
  · have hfails : outcome (packRecords [wide] "App") {} =
        (.error (.tooManyArguments "App.Wide::go" 0x40000000),
          (outcome (packRecords [wide] "App") {}).2) := by
      rfl
    obtain ⟨hfirst, hboth⟩ := (packTo_append [wide] sample "App").2 {} _ _ hfails
    rw [hboth, hfirst]
    exact ⟨rfl, rfl⟩

end Export
end MethodPack
