import MethodPack.Proofs.References

/-!
# Full names

A full name is cut at its first `::`, and what stands before it at its last point. So a
name that was put together from three parts is taken apart into them exactly when no cut
comes out elsewhere. The lookup of a method takes the three parts to their places and finds
the first record with the reference word of these. Main statement: in a module that is read
back from an export, this is the record of the first method with the three names
(`findMethod?_packTo`).
-/

namespace MethodPack

open Export (place trace exported packTo sample Summary)
open Packed (Module MemberKey MethodRecord StringId TableId splitFullName? maxLength)

/-! ## Cutting texts -/

namespace Packed

variable {mark cs before behind : List Char} {c : Char}

theorem cutFirst?_of_isPrefix (h : mark <+: c :: cs) :
    cutFirst? mark (c :: cs) = some ([], (c :: cs).drop mark.length) := by
  rw [cutFirst?, if_pos (List.isPrefixOf_iff_prefix.mpr h)]

theorem cutFirst?_of_not_isPrefix (h : ¬ mark <+: c :: cs) :
    cutFirst? mark (c :: cs) = (cutFirst? mark cs).map fun cut => (c :: cut.1, cut.2) := by
  rw [cutFirst?, if_neg (mt List.isPrefixOf_iff_prefix.mp h)]

/-- A cut takes the text apart into the mark and what stands around it. -/
theorem cutFirst?_sound (h : cutFirst? mark cs = some (before, behind)) :
    cs = before ++ mark ++ behind := by
  induction cs generalizing before with
  | nil =>
    rw [cutFirst?] at h
    split at h
    · rename_i hempty
      cases h
      simp [List.isEmpty_iff.mp hempty]
    · cases h
  | cons c rest ih =>
    by_cases hbegins : mark <+: c :: rest
    · rw [cutFirst?_of_isPrefix hbegins] at h
      cases h
      obtain ⟨rest', hrest⟩ := hbegins
      rw [← hrest, List.drop_left, List.nil_append]
    · rw [cutFirst?_of_not_isPrefix hbegins] at h
      obtain ⟨⟨before', behind'⟩, hcut, heq⟩ := Option.map_eq_some_iff.mp h
      cases heq
      rw [ih hcut]
      rfl

/-- There is no cut exactly when the mark does not occur. -/
theorem cutFirst?_eq_none_iff : cutFirst? mark cs = none ↔ ¬ mark <:+: cs := by
  induction cs with
  | nil =>
    rw [cutFirst?, List.infix_nil]
    by_cases hempty : mark = []
    · simp [hempty]
    · simp [hempty]
  | cons c rest ih =>
    rw [List.infix_cons_iff]
    by_cases hbegins : mark <+: c :: rest
    · simp [cutFirst?_of_isPrefix hbegins, hbegins]
    · simp [cutFirst?_of_not_isPrefix hbegins, hbegins, ih]

/-- The cut is made at a given mark when none begins before it, not even one that reaches into
that mark. -/
theorem cutFirst?_append_iff (hmark : mark ≠ []) :
    cutFirst? mark (before ++ mark ++ behind) = some (before, behind) ↔
      ¬ mark <:+: before ++ mark.dropLast := by
  induction before with
  | nil =>
    obtain ⟨m, marks, rfl⟩ := List.exists_cons_of_ne_nil hmark
    -- the mark is longer than its own beginning
    have hlong : ¬ m :: marks <:+: (m :: marks).dropLast := by
      intro hinfix
      have hlength := hinfix.length_le
      rw [List.length_dropLast, List.length_cons] at hlength
      omega
    have hbegins : m :: marks <+: m :: (marks ++ behind) := List.prefix_append (m :: marks) behind
    simp only [List.nil_append, List.cons_append, cutFirst?_of_isPrefix hbegins, hlong,
      not_false_eq_true, iff_true]
    simp
  | cons c rest ih =>
    have hpart : c :: (rest ++ mark.dropLast) <+: c :: (rest ++ mark ++ behind) := by
      rw [List.append_assoc, List.prefix_cons_inj, List.prefix_append_right_inj]
      exact (List.dropLast_prefix mark).trans (List.prefix_append _ _)
    -- what stands before is long enough to settle whether a mark begins at its front
    have hfront : mark <+: c :: (rest ++ mark ++ behind) ↔
        mark <+: c :: (rest ++ mark.dropLast) := by
      constructor
      · intro hbegins
        refine List.prefix_of_prefix_length_le hbegins hpart ?_
        rw [List.length_cons, List.length_append, List.length_dropLast]
        omega
      · intro hbegins
        exact hbegins.trans hpart
    rw [List.cons_append, List.cons_append, List.cons_append, List.infix_cons_iff]
    by_cases hbegins : mark <+: c :: (rest ++ mark.dropLast)
    · rw [cutFirst?_of_isPrefix (hfront.mpr hbegins)]
      simp [hbegins]
    · rw [cutFirst?_of_not_isPrefix (mt hfront.mp hbegins)]
      simp only [hbegins, false_or, ← ih, Option.map_eq_some_iff, Prod.mk.injEq, List.cons.injEq,
        true_and, Prod.exists]
      constructor
      · rintro ⟨_, _, hcut, rfl, rfl⟩
        exact hcut
      · intro hcut
        exact ⟨_, _, hcut, rfl, rfl⟩

theorem cutLast?_eq_none_iff : cutLast? c cs = none ↔ c ∉ cs := by
  induction cs with
  | nil => simp [cutLast?]
  | cons x rest ih =>
    rw [cutLast?, List.mem_cons, not_or]
    cases hcut : cutLast? c rest with
    | some cut =>
      have hmem : c ∈ rest := by
        by_contra hnot
        rw [ih.mpr hnot] at hcut
        cases hcut
      simp [hmem]
    | none =>
      have hnot : c ∉ rest := ih.mp hcut
      by_cases hx : x = c
      · simp [hx]
      · simp [hx, hnot, Ne.symm hx]

/-- The cut is made at a given character when it does not occur behind. -/
theorem cutLast?_append (h : c ∉ behind) :
    cutLast? c (before ++ c :: behind) = some (before, behind) := by
  induction before with
  | nil => simp [cutLast?, cutLast?_eq_none_iff.mpr h]
  | cons x rest ih => rw [List.cons_append, cutLast?, ih]

theorem cutLast?_sound (h : cutLast? c cs = some (before, behind)) :
    cs = before ++ c :: behind ∧ c ∉ behind := by
  induction cs generalizing before with
  | nil => cases h
  | cons x rest ih =>
    rw [cutLast?] at h
    split at h
    · rename_i before' behind' hcut
      cases h
      obtain ⟨hrest, hbehind⟩ := ih hcut
      exact ⟨congrArg (x :: ·) hrest, hbehind⟩
    · rename_i hcut
      split at h
      · rename_i hx
        cases h
        exact ⟨by rw [hx, List.nil_append], cutLast?_eq_none_iff.mp hcut⟩
      · cases h

/-! ## Splitting full names -/

/-- A text splits into three parts exactly when `::` occurs in it. -/
theorem splitFullName?_eq_none_iff {s : String} :
    splitFullName? s = none ↔ ¬ [':', ':'] <:+: s.toList := by
  rw [← cutFirst?_eq_none_iff, splitFullName?]
  cases cutFirst? [':', ':'] s.toList with
  | none => simp
  | some cut => simp

/-- **Splitting takes a full name apart** into the parts it was put together from, exactly when
the type has no point, and no `::` begins in what stands before the name of the member. -/
theorem splitFullName?_append_iff (ns type name : String) :
    splitFullName? (ns ++ "." ++ type ++ "::" ++ name) = some (ns, type, name) ↔
      '.' ∉ type.toList ∧ ¬ [':', ':'] <:+: (ns ++ "." ++ type ++ ":").toList := by
  have htext : (ns ++ "." ++ type ++ "::" ++ name).toList =
      (ns.toList ++ '.' :: type.toList) ++ [':', ':'] ++ name.toList := by simp
  have hbefore : (ns ++ "." ++ type ++ ":").toList =
      (ns.toList ++ '.' :: type.toList) ++ [':', ':'].dropLast := by simp
  have hmark : [':', ':'] ≠ [] := List.cons_ne_nil _ _
  have hcutiff : cutFirst? [':', ':'] ((ns.toList ++ '.' :: type.toList) ++ [':', ':'] ++
      name.toList) = some (ns.toList ++ '.' :: type.toList, name.toList) ↔ _ :=
    cutFirst?_append_iff hmark
  rw [hbefore, ← hcutiff, splitFullName?, htext]
  constructor
  · intro hsplit
    obtain ⟨⟨qualified, behind⟩, hcut, hparts⟩ := Option.bind_eq_some_iff.mp hsplit
    simp only [Option.pure_def, Option.some.injEq, Prod.mk.injEq] at hparts
    obtain ⟨hns, htype, rfl⟩ := hparts
    -- the parts behind the marks are the same, so those before are too
    have hsound := cutFirst?_sound hcut
    rw [String.toList_ofList] at hsound
    have hqualified := List.append_cancel_right (List.append_cancel_right hsound)
    rw [← hqualified] at hns htype hcut
    cases hpoint : cutLast? '.' (ns.toList ++ '.' :: type.toList) with
    | none => simp [cutLast?_eq_none_iff] at hpoint
    | some parts =>
      obtain ⟨_, hbehind⟩ := cutLast?_sound hpoint
      rw [hpoint, Option.getD_some] at htype
      rw [← String.toList_ofList (l := parts.2), htype] at hbehind
      rw [String.toList_ofList] at hcut ⊢
      exact ⟨hbehind, hcut⟩
  · rintro ⟨hpoint, hcut⟩
    have hpoint' : cutLast? '.' (ns.toList ++ '.' :: type.toList) = some (ns.toList, type.toList) :=
      cutLast?_append hpoint
    rw [hcut, Option.bind_eq_bind, Option.bind_some]
    simp only [hpoint']
    simp

/-! ## Looking methods up -/

namespace Module.Holds

variable {m : Module} {all : List String} {blobs : List (List UInt8)} {s : String}

theorem findString?_eq_none (h : m.Holds all blobs) (hs : s ∉ all) : m.findString? s = none := by
  have hidx : m.strings.toList.idxOf? s = none := by
    rw [List.idxOf?_eq_none_iff, h.strings]
    simpa using hs
  rw [findString?, hidx]
  rfl

/-- A string of the trace is found at its place. -/
theorem findString?_eq_some (h : m.Holds all blobs) (hs : s ∈ all) :
    ∃ id : StringId, m.findString? s = some id ∧ id.index.toNat = place all s := by
  have hmem : s ∈ m.strings.toList := by
    rw [h.strings]
    simpa using hs
  have hidx : m.strings.toList.idxOf? s = some (m.strings.toList.idxOf s) := by
    rw [List.idxOf?, List.findIdx?_eq_some_iff_findIdx_eq, List.idxOf]
    exact ⟨List.idxOf_lt_length_of_mem hmem, rfl⟩
  have hroom : m.strings.toList.idxOf s + 1 < 0x100000000 := by
    have := List.idxOf_lt_length_of_mem hmem
    have hcount := h.stringCount
    rw [← h.strings, maxLength] at hcount
    omega
  refine ⟨.atPosition _ hroom, ?_, ?_⟩
  · rw [findString?, hidx, Option.bind_eq_bind, Option.bind_some, TableId.ofPosition?,
      dif_pos hroom]
  · rw [TableId.toNat_index_atPosition, place, h.strings]

theorem findString?_sound {id : StringId} (h : m.Holds all blobs)
    (hid : m.findString? s = some id) : s ∈ all ∧ id.index.toNat = place all s := by
  by_cases hs : s ∈ all
  · obtain ⟨id', hid', hplace⟩ := h.findString?_eq_some hs
    rw [hid'] at hid
    cases hid
    exact ⟨hs, hplace⟩
  · rw [h.findString?_eq_none hs] at hid
    cases hid

/-- A key that is found for three strings means these. -/
theorem memberKey?_sound {ns type name : String} {key : MemberKey} (h : m.Holds all blobs)
    (hkey : m.memberKey? ns type name = some key) : m.Means (place all) key (ns, type, name) := by
  obtain ⟨nsId, hns, hkey⟩ := Option.bind_eq_some_iff.mp hkey
  obtain ⟨typeId, htype, hkey⟩ := Option.bind_eq_some_iff.mp hkey
  obtain ⟨nameId, hname, hkey⟩ := Option.bind_eq_some_iff.mp hkey
  obtain ⟨hns, hnsPlace⟩ := h.findString?_sound hns
  obtain ⟨htype, htypePlace⟩ := h.findString?_sound htype
  obtain ⟨hname, hnamePlace⟩ := h.findString?_sound hname
  rw [MemberKey.pack_eq, hnsPlace, htypePlace, hnamePlace] at hkey
  cases hoverflow : MemberKey.overflow? (place all ns) (place all type) with
  | some o =>
    rw [hoverflow] at hkey
    cases hkey
  | none =>
    rw [hoverflow] at hkey
    cases hkey
    have hfits : QualifiedType.Fits (place all) ⟨ns, type⟩ :=
      QualifiedType.overflow?_eq_none.mp hoverflow
    have hstrings : ∀ s ∈ QualifiedType.strings ⟨ns, type⟩ name, s ∈ all := by
      simp [QualifiedType.strings, hns, htype, hname]
    have hmeans := h.means hfits hstrings
    rw [QualifiedType.key] at hmeans
    exact hmeans

/-- The key of a member is found for its strings. -/
theorem memberKey?_eq_some {q : QualifiedType} {member : String} (h : m.Holds all blobs)
    (hfits : q.Fits (place all)) (hq : ∀ s ∈ q.strings member, s ∈ all) :
    m.memberKey? q.ns q.path member = some (q.key member (place all)) := by
  obtain ⟨nsId, hns, hnsPlace⟩ := h.findString?_eq_some (hq q.ns (by simp [QualifiedType.strings]))
  obtain ⟨pathId, hpath, hpathPlace⟩ :=
    h.findString?_eq_some (hq q.path (by simp [QualifiedType.strings]))
  obtain ⟨nameId, hname, hnamePlace⟩ :=
    h.findString?_eq_some (hq member (by simp [QualifiedType.strings]))
  have hoverflow := QualifiedType.overflow?_eq_none.mpr hfits
  simp only [memberKey?, hns, hpath, hname, Option.bind_eq_bind, Option.bind_some]
  rw [MemberKey.pack_eq, hnsPlace, hpathPlace, hnamePlace, hoverflow]
  rfl

end Module.Holds
end Packed

/-- The first record that a related list has at the place of an entry of the right kind. -/
theorem find?_of_forall₂ {α β : Type} {R : α → β → Prop} {p : α → Bool} {q : β → Bool}
    (hpq : ∀ x y, R x y → q y = p x) {xs : List α} {ys : List β} (h : List.Forall₂ R xs ys) :
    ys.find? q = (xs.findIdx? p).bind (ys[·]?) := by
  induction h with
  | nil => rfl
  | cons hxy hrest ih =>
    rename_i x y xs ys
    rw [List.find?_cons, List.findIdx?_cons, hpq x y hxy]
    cases p x with
    | true => rfl
    | false =>
      rw [ih]
      cases xs.findIdx? p with
      | none => rfl
      | some n => rfl

/-- The record of the first method with the given names. -/
def firstNamed? (ds : List DeclaredMethod) (rs : List MethodRecord)
    (names : String × String × String) : Option MethodRecord :=
  (ds.findIdx? fun d => d.names = names).bind (rs[·]?)

namespace Export

variable {sink : Sink} {types : List TypeDef} {ns : String} {summary : Summary}

/-- The key of three strings leads to the first method with these names. -/
theorem find?_memberKey? {limit : Option Nat} {flushFails : Bool} {m : Module}
    (h : packTo { limit, flushFails } types ns = (.ok summary, sink))
    (hm : m.Holds (trace (exported types ns)) (switches (exported types ns)))
    (hwords : List.Forall₂ (DeclaredMethod.Referenced m (place (trace (exported types ns))))
      (exported types ns) m.methods) (names : String × String × String) :
    ((m.memberKey? names.1 names.2.1 names.2.2).bind fun key =>
      m.methods.find? fun r => r.key = key) = firstNamed? (exported types ns) m.methods names := by
  cases hkey : m.memberKey? names.1 names.2.1 names.2.2 with
  | some key =>
    have hmeans := hm.memberKey?_sound hkey
    rw [Option.bind_some, firstNamed?]
    apply find?_of_forall₂ _ hwords
    intro d r hr
    rw [decide_eq_decide]
    exact hr.key.eq_iff hmeans
  | none =>
    -- a method with the names would have a key, and it would have been found
    have hnone : (exported types ns).findIdx? (fun d => d.names = names) = none := by
      rw [List.findIdx?_eq_none_iff]
      intro d hd
      rw [decide_eq_false_iff_not]
      rintro rfl
      obtain ⟨s, hrun, _⟩ := packTo_eq_iff.mp h
      have hencodable := (pack_ok hrun).1.encodable d hd
      have hstrings := strings_subset_trace hd
      have hfound := hm.memberKey?_eq_some hencodable.reference
        fun s hs => hstrings s (List.mem_append_left _ hs)
      rw [DeclaredMethod.names] at hkey
      rw [hkey] at hfound
      cases hfound
    rw [firstNamed?, hnone]
    rfl

/-- **Lookup by name is exact.** Splitting takes a full name apart into the parts it was put
together from, exactly when the type has no point and no `::` begins before that of the name.
And in a module that is read back from an export, a text without `::` leads to no method, and
any other to the record of the first method with the names that it splits into. -/
theorem findMethod?_packTo :
    (∀ ns type name : String,
      splitFullName? (ns ++ "." ++ type ++ "::" ++ name) = some (ns, type, name) ↔
        '.' ∉ type.toList ∧ ¬ [':', ':'] <:+: (ns ++ "." ++ type ++ ":").toList) ∧
    ∀ limit flushFails types ns summary sink,
      packTo { limit, flushFails } types ns = (.ok summary, sink) →
        ∃ m, Module.ofBytes sink.bytes.toList = .ok m ∧
          List.Forall₂ (Describes m) (exported types ns) m.methods ∧
          ∀ text : String, (¬ [':', ':'] <:+: text.toList → m.findMethod? text = none) ∧
            ([':', ':'] <:+: text.toList → ∃ names, splitFullName? text = some names ∧
              m.findMethod? text = firstNamed? (exported types ns) m.methods names) := by
  refine ⟨Packed.splitFullName?_append_iff, ?_⟩
  intro limit flushFails types ns summary sink h
  obtain ⟨m, hread, hholds, hdescribes, hwords⟩ := referenced_packTo h
  refine ⟨m, hread, hdescribes, ?_⟩
  intro text
  constructor
  · intro hplain
    rw [Module.findMethod?, Packed.splitFullName?_eq_none_iff.mpr hplain]
    rfl
  · intro hinfix
    cases hsplit : splitFullName? text with
    | none => exact absurd hinfix (Packed.splitFullName?_eq_none_iff.mp hsplit)
    | some names =>
      refine ⟨names, rfl, ?_⟩
      rw [Module.findMethod?, hsplit]
      exact find?_memberKey? h hholds hwords names

theorem findMethod?_packTo_sample :
    ∃ summary sink m caller callee, packTo {} sample "App" = (.ok summary, sink) ∧
      Module.ofBytes sink.bytes.toList = .ok m ∧ m.methods = [caller, callee] ∧
      m.findMethod? "App.Outer/Inner::go" = some callee ∧
      m.findMethod? "App.Outer::go" = none ∧ m.findMethod? "App.Outer" = none := by
  obtain ⟨summary, s, hrun⟩ := pack_succeeds sample "App" (by decide) (by decide)
  have hpack : packTo {} sample "App" = (.ok summary, s.sink) := packTo_eq_iff.mpr ⟨s, hrun, rfl⟩
  obtain ⟨m, hread, hdescribes, hlookup⟩ :=
    findMethod?_packTo.2 none false sample "App" summary s.sink hpack
  obtain ⟨caller, _, _, hrest, hmethods⟩ := List.forall₂_cons_left_iff.mp hdescribes
  obtain ⟨callee, _, _, hlast, rfl⟩ := List.forall₂_cons_left_iff.mp hrest
  rw [List.forall₂_nil_left_iff.mp hlast] at hmethods
  refine ⟨summary, s.sink, m, caller, callee, hpack, hread, hmethods, ?_, ?_, ?_⟩
  · obtain ⟨names, hsplit, hfound⟩ := (hlookup "App.Outer/Inner::go").2
      ⟨"App.Outer/Inner".toList, "go".toList, rfl⟩
    have hnames : names = ("App", "Outer/Inner", "go") := Option.some.inj (hsplit.symm.trans rfl)
    rw [hfound, hnames, hmethods]
    rfl
  · obtain ⟨names, hsplit, hfound⟩ := (hlookup "App.Outer::go").2
      ⟨"App.Outer".toList, "go".toList, rfl⟩
    have hnames : names = ("App", "Outer", "go") := Option.some.inj (hsplit.symm.trans rfl)
    rw [hfound, hnames]
    rfl
  · exact (hlookup "App.Outer").1 (Packed.cutFirst?_eq_none_iff.mp rfl)

end Export
end MethodPack
