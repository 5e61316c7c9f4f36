import MethodPack.Proofs.Sessions

/-!
# Method effects

What the encoding of a method changes in a session whose sink takes every write. When it
succeeds, one record is written and counted. When it fails, nothing is written or counted, and
the tables keep what was added until then: nothing when the method is malformed, and otherwise the
strings of its own reference, those of the instructions before the one that fails with their
blobs, and those of the reference that fails. Main statement: `encodeMethod_effect`.
-/

namespace MethodPack

namespace Export

/-! ## What is added to the tables -/

namespace Tables

/-- The tables `t'` are those of `t` with strings and blobs added: behind the entries of `t`
stand the strings that are new, each once and in the order in which they occur, and all the
blobs. -/
structure Added (t : Tables) (strings : List String) (blobs : List (List UInt8)) (t' : Tables) :
    Prop where
  strings : t'.strings.entries.toList =
    t.strings.entries.toList ++ (strings.removeAll t.strings.entries.toList).eraseDups
  blobs : t'.blobs.entries.toList = t.blobs.entries.toList ++ blobs

variable {t t' : Tables} {strings : List String} {blobs : List (List UInt8)}

/-- What a trace leaves that begins with the entries of a table. -/
theorem Holds.added
    (h : t'.Holds (t.strings.entries.toList ++ strings) (t.blobs.entries.toList ++ blobs)) :
    t.Added strings blobs t' where
  strings := by
    rw [h.strings, List.eraseDups_append, eraseDups_eq_self t.strings.nodup]
  blobs := h.blobs

end Tables

/-- The error is found before anything of the method is put into the tables. -/
def ExportError.Preliminary : ExportError → Prop
  | tooManyArguments .. | tooManyInstructions .. | duplicateLabel .. => True
  | _ => False

theorem Encoder.Overfull.not_preliminary {all : List String} {blobs : List (List UInt8)}
    {e : ExportError} (h : Encoder.Overfull all blobs e) : ¬ e.Preliminary := by
  cases h with
  | strings => exact id
  | blobs => exact id

end Export

namespace DeclaredMethod

open Export (ExportError)

variable {place : String → Nat} {d : DeclaredMethod} {e : ExportError}

theorem Malformed.preliminary (h : d.Malformed e) : e.Preliminary := by
  cases h with
  | arguments => trivial
  | instructions => trivial
  | label => trivial

theorem StopsAt.not_preliminary {before : List Instruction} {failing : List String}
    (h : d.StopsAt place e before failing) : ¬ e.Preliminary := by
  cases h with
  | reference => exact id
  | member => exact id
  | target => exact id
  | targets => exact id
  | unsupported => exact id

end DeclaredMethod

/-! ## The record of a method -/

namespace Packed

/-- A record is 17 bytes in front of its body, and 9 for each instruction. -/
theorem Section.length_method (order : ByteOrder) (key : MemberKey) (signature : Int32)
    (body : List RawInstruction) :
    (Section.bytes order (.method key signature body)).length = 17 + 9 * body.length := by
  have hbody : (body.flatMap (RawInstruction.bytes order)).length = 9 * body.length := by
    induction body with
    | nil => rfl
    | cons i rest ih =>
      rw [List.flatMap_cons, List.length_append, ih, RawInstruction.bytes, List.length_cons,
        ByteOrder.length_encode64, List.length_cons]
      omega
  simp only [Section.bytes, List.length_append, List.length_cons, hbody,
    ByteOrder.length_encode64, ByteOrder.length_encodeInt32, length_countBytes]

end Packed

theorem DeclaredMethod.length_record (d : DeclaredMethod) (place : String → Nat) (blobs : Nat) :
    ((d.record place blobs).bytes .little).length = 17 + 9 * d.method.instructions.length := by
  rw [record, Packed.Section.length_method, Export.length_layoutBody]

namespace Export

/-! ## Success and failure -/

section Effects

open Packed (maxLength)

variable {d : DeclaredMethod} {s s' : Session} {e : ExportError}

/-- A method that is encoded has an encoding, and leaves its record and its entries. -/
theorem encodeMethod_ok (hlimit : s.sink.limit = none)
    (hrun : outcome (Session.encodeMethod d.type d.method) s = (.ok (), s')) :
    let all := s.tables.strings.entries.toList ++ d.strings
    d.Encodable (place all) ∧ s.tables.Added d.strings d.blobs s'.tables ∧
      s' = s.withMethod d (d.record (place all) s.tables.blobs.size) s'.tables := by
  rw [Session.encodeMethod_of_unlimited d hlimit] at hrun
  rcases hrecord : outcome (Encoder.methodRecord d) s.tables with ⟨e | record, tables⟩
  · rw [hrecord] at hrun
    cases hrun
  · rw [hrecord] at hrun
    cases hrun
    obtain ⟨htables, hencodable, _, rfl⟩ :=
      Encoder.methodRecord_ok s.tables.holds_entries (List.prefix_refl _) hrecord
    exact ⟨hencodable, htables.added, rfl⟩

/-- A method that fails changes the tables at most. -/
theorem encodeMethod_error (hlimit : s.sink.limit = none)
    (hrun : outcome (Session.encodeMethod d.type d.method) s = (.error e, s')) :
    outcome (Encoder.methodRecord d) s.tables = (.error e, s'.tables) ∧
      s' = { s with tables := s'.tables } := by
  rw [Session.encodeMethod_of_unlimited d hlimit] at hrun
  rcases hrecord : outcome (Encoder.methodRecord d) s.tables with ⟨e' | record, tables⟩
  · rw [hrecord] at hrun
    cases hrun
    exact ⟨rfl, rfl⟩
  · rw [hrecord] at hrun
    cases hrun

/-- Within the limits, a method fails with its fault. -/
theorem encodeMethod_fault (hlimit : s.sink.limit = none)
    (hroom : (s.tables.strings.entries.toList ++ d.strings).eraseDups.length ≤ maxLength)
    (hblobs : (s.tables.blobs.entries.toList ++ d.blobs).length ≤ maxLength)
    (hlen : d.method.instructions.length ≤ maxLength)
    (hrun : outcome (Session.encodeMethod d.type d.method) s = (.error e, s')) :
    d.fault? (place (s.tables.strings.entries.toList ++ d.strings)) = some e :=
  Encoder.methodRecord_error s.tables.holds_entries hlen hroom (List.prefix_refl _) hblobs
    (encodeMethod_error hlimit hrun).1

/-- **What the encoding of a method changes**, on a sink that takes every write. When it
succeeds, exactly its record is written and counted, and its strings and blobs are added. When it
fails, nothing is written or counted, and the tables have grown at most. They are the same when
the error is preliminary. With any other error, unless a table would have grown beyond its limit,
exactly the strings of the method's own reference and of the instructions before the one that
fails are added, those of a reference that fails, and the blobs of these instructions. -/
theorem encodeMethod_effect (type : QualifiedType) (method : MethodDef) {s : Session}
    (hlimit : s.sink.limit = none) :
    let d : DeclaredMethod := ⟨type, method⟩
    let all := s.tables.strings.entries.toList ++ d.strings
    (∀ s', outcome (Session.encodeMethod type method) s = (.ok (), s') →
      let record := (d.record (place all) s.tables.blobs.size).bytes .little
      record.length = 17 + 9 * method.instructions.length ∧ s'.sink = s.sink.append record ∧
        s'.counts = { s.counts with
          methods := s.counts.methods + 1
          instructions := s.counts.instructions + method.instructions.length } ∧
        s.tables.Added d.strings d.blobs s'.tables) ∧
    ∀ e s', outcome (Session.encodeMethod type method) s = (.error e, s') →
      s'.sink = s.sink ∧ s'.counts = s.counts ∧
      s.tables.strings.entries.toList <+: s'.tables.strings.entries.toList ∧
      s.tables.blobs.entries.toList <+: s'.tables.blobs.entries.toList ∧
      (e.Preliminary → s'.tables = s.tables) ∧
      (¬ e.Preliminary →
        Encoder.Overfull all (s.tables.blobs.entries.toList ++ d.blobs) e ∨
        ∃ before failing, d.StopsAt (place all) e before failing ∧
          s.tables.Added (d.stringsThrough before ++ failing) (d.blobsThrough before)
            s'.tables) := by
  intro d all
  refine ⟨fun s' hrun => ?_, fun e s' hrun => ?_⟩
  · obtain ⟨_, hadded, hs'⟩ := encodeMethod_ok (d := d) hlimit hrun
    exact ⟨d.length_record _ _, by rw [hs']; rfl, by rw [hs']; rfl, hadded⟩
  · obtain ⟨hrecord, hs'⟩ := encodeMethod_error (d := d) hlimit hrun
    have hgrows := Grows.methodRecord d s.tables
    rw [hrecord] at hgrows
    refine ⟨by rw [hs'], by rw [hs'], hgrows.strings, hgrows.blobs, ?_⟩
    rcases Encoder.methodRecord_failure s.tables.holds_entries (List.prefix_refl _) hrecord with
      hfull | ⟨hmalformed, htables⟩ | ⟨before, failing, hstop, htables⟩
    · exact ⟨fun he => absurd he hfull.not_preliminary, fun _ => .inl hfull⟩
    · exact ⟨fun _ => htables, fun he => absurd hmalformed.preliminary he⟩
    · exact ⟨fun he => absurd he hstop.not_preliminary,
        fun _ => .inr ⟨before, failing, hstop, htables.added⟩⟩

/-- A method of one instruction that is encoded. -/
def answered : DeclaredMethod :=
  ⟨⟨"App", "Outer"⟩, { name := "answer", instructions := [⟨⟨0⟩, .ret, .none⟩] }⟩

/-- A method that fails between two strings, behind a switch. -/
def stopped : DeclaredMethod :=
  ⟨⟨"App", "Outer"⟩, { name := "pick", instructions :=
    [⟨⟨0⟩, .ldstr, .string "hi"⟩, ⟨⟨1⟩, .switch, .targets [⟨1⟩, ⟨0⟩]⟩,
      ⟨⟨2⟩, .calli, .unsupported "CallSite"⟩, ⟨⟨3⟩, .ldstr, .string "late"⟩] }⟩

/-- Of the method that fails, the second string is not interned. -/
theorem encodeMethod_effect_sample :
    (∃ s', outcome (Session.encodeMethod answered.type answered.method) opened = (.ok (), s') ∧
      (∃ record, record.length = 26 ∧ s'.sink = opened.sink.append record) ∧
      s'.counts = ⟨0, 1, 1⟩ ∧
      s'.tables.strings.entries.toList = ["App", "Outer", "answer"] ∧
      s'.tables.blobs.entries.toList = []) ∧
    ∃ e s', outcome (Session.encodeMethod stopped.type stopped.method) opened = (.error e, s') ∧
      s'.sink = opened.sink ∧ s'.counts = {} ∧
      s'.tables.strings.entries.toList = ["App", "Outer", "pick", "hi"] ∧
      s'.tables.blobs.entries.toList = [[1, 0, 0, 0, 0, 0, 0, 0]] := by
  constructor
  · rcases hrun : outcome (Session.encodeMethod answered.type answered.method) opened with
      ⟨e | ⟨⟩, s'⟩
    · have hfault := encodeMethod_fault rfl (by decide) (by decide) (by decide) hrun
      rw [DeclaredMethod.Encodable.fault?_eq_none (by decide)] at hfault
      cases hfault
    · obtain ⟨hlength, hsink, hcounts, hadded⟩ :=
        (encodeMethod_effect answered.type answered.method rfl).1 s' hrun
      exact ⟨s', rfl, ⟨_, hlength, hsink⟩, hcounts, hadded.strings.trans (by decide),
        hadded.blobs.trans (by decide)⟩
  · rcases hrun : outcome (Session.encodeMethod stopped.type stopped.method) opened with
      ⟨e | ⟨⟩, s'⟩
    · have hfault : stopped.fault? _ = some e :=
        encodeMethod_fault rfl (by decide) (by decide) (by decide) hrun
      obtain ⟨hsink, hcounts, _, _, _, hstops⟩ :=
        (encodeMethod_effect stopped.type stopped.method rfl).2 e s' hrun
      have he : e = .unsupportedOperand stopped.fullName .calli "CallSite" :=
        Option.some.inj (hfault.symm.trans rfl)
      rcases hstops (by rw [he]; exact id) with hfull | ⟨before, failing, hstop, hadded⟩
      · exact absurd hfull (Encoder.not_overfull (by decide) (by decide))
      · cases hstop with
        | reference => cases he
        | member => cases he
        | target => cases he
        | targets => cases he
        | unsupported hi =>
          obtain ⟨after, hbody⟩ := hi.body
          obtain ⟨s₁, s₂, rfl⟩ : ∃ s₁ s₂, before = [s₁, s₂] := by
            rcases before with _ | ⟨s₁, _ | ⟨s₂, _ | ⟨s₃, _ | ⟨s₄, _⟩⟩⟩⟩
            · cases hbody
            · cases hbody
            · exact ⟨s₁, s₂, rfl⟩
            · cases hbody
            · have hlength := congrArg List.length hbody
              simp [stopped] at hlength
          cases hbody
          exact ⟨_, s', rfl, hsink, hcounts, hadded.strings.trans (by decide),
            hadded.blobs.trans (by decide)⟩
    · obtain ⟨hencodable, _⟩ := encodeMethod_ok (d := stopped) rfl hrun
      exact absurd hencodable (by decide)

end Effects

end Export
end MethodPack
