import MethodPack.Proofs.Growth

/-!
# Interning

Requests to a string table, from the empty one on: strings are interned, and in between looked
up by text and by place. What has been interned so far tells the table apart from its history
(`holds_after`), and so tells every reply. Main statement: a string gets its rank among the
distinct ones, and what was issued for it leads back to it for good (`after_law`).
-/

namespace MethodPack

/-! ## Places by their numbers -/

namespace Packed.TableId

variable {table : Table} {id id' : TableId table}

theorem toNat_index_pos (id : TableId table) : 0 < id.index.toNat := by
  have hne : id.index.toNat ≠ 0 := fun h => id.index_ne_zero (UInt32.toNat_inj.mp h)
  omega

theorem position_add_one (id : TableId table) : id.position + 1 = id.index.toNat := by
  have hpos := id.toNat_index_pos
  rw [position]
  omega

theorem ext_toNat (h : id.index.toNat = id'.index.toNat) : id = id' := by
  obtain ⟨index, hindex⟩ := id
  obtain ⟨index', hindex'⟩ := id'
  obtain rfl : index = index' := UInt32.toNat_inj.mp h
  rfl

/-- The place of a position is the one whose position it is. -/
theorem ofPosition?_eq_some_iff {position : Nat} :
    ofPosition? position = some id ↔ id.position = position := by
  constructor
  · intro h
    rw [ofPosition?] at h
    split at h
    · cases h
      exact position_atPosition _
    · cases h
  · rintro rfl
    have hlt := id.index.toNat_lt
    have hroom : id.position + 1 < 0x100000000 := by
      rw [position_add_one]
      exact hlt
    rw [ofPosition?, dif_pos hroom, Option.some.injEq]
    apply ext_toNat
    rw [toNat_index_atPosition, position_add_one]

end Packed.TableId

namespace Export.StringTable

open Packed (StringId TableId maxLength)

/-! ## Requests -/

/-- A request to a string table. -/
inductive Request where
  | intern (s : String)
  | get (s : String)
  | resolve (id : StringId)
  | size
  | items

/-- The reply to a request of the same name. -/
inductive Reply where
  | intern (result : Except ExportError StringId)
  | get (id : Option StringId)
  | resolve (s : Option String)
  | size (n : Nat)
  | items (all : List String)

/-- The reply to a request, and the table behind it. -/
def Request.perform (t : StringTable) : Request → Reply × StringTable
  | intern s => (.intern (t.intern s).1, (t.intern s).2)
  | get s => (.get (t.get? s), t)
  | resolve id => (.resolve (t.resolve? id), t)
  | size => (.size t.size, t)
  | items => (.items t.entries.toList, t)

/-- The table behind requests, one after the other. -/
def performAll (t : StringTable) (requests : List Request) : StringTable :=
  requests.foldl (fun t r => (r.perform t).2) t

/-- The table behind requests to the empty one. -/
def after (requests : List Request) : StringTable := empty.performAll requests

def Request.interned : Request → List String
  | intern s => [s]
  | _ => []

/-- The strings that requests intern, in order and with repetitions. -/
def interned (requests : List Request) : List String := requests.flatMap Request.interned

/-- The reply is the right one where the strings `before` were interned, of all those that are
interned from first to last. -/
def Request.Due (before all : List String) : Request → Reply → Prop
  | intern s, .intern result => ∃ id, result = .ok id ∧ id.index.toNat = place all s
  | get s, .get id? =>
    (s ∈ before → ∃ id, id? = some id ∧ id.index.toNat = place all s) ∧ (s ∉ before → id? = none)
  | resolve id, .resolve s? => s? = before.eraseDups[id.position]?
  | size, .size n => n = before.eraseDups.length
  | items, .items all => all = before.eraseDups
  | _, _ => False

/-- The place was issued for the string by one of the requests. -/
def Issued (requests : List Request) (id : StringId) (s : String) : Prop :=
  ∃ past future, requests = past ++ .intern s :: future ∧
    ((Request.intern s).perform (after past)).1 = .intern (.ok id)

variable {t t' : StringTable} {id : StringId} {s : String} {trace all : List String}
  {request : Request} {requests past future : List Request}

@[simp] theorem Request.interned_intern : (Request.intern s).interned = [s] := rfl

@[simp] theorem interned_append : interned (past ++ future) = interned past ++ interned future :=
  List.flatMap_append

@[simp] theorem interned_cons :
    interned (request :: future) = request.interned ++ interned future :=
  List.flatMap_cons

theorem after_append : after (past ++ future) = (after past).performAll future :=
  List.foldl_append

/-! ## Places and positions -/

theorem position_lt_size (h : t.resolve? id = some s) : id.position < t.size :=
  (Array.getElem?_eq_some_iff.mp h).1

/-- Looking up by text and looking up by place undo each other. -/
theorem get?_eq_some_iff : t.get? s = some id ↔ t.resolve? id = some s := by
  rw [get?, resolve?, Option.bind_eq_some_iff]
  constructor
  · rintro ⟨position, hposition, hid⟩
    rw [TableId.ofPosition?_eq_some_iff.mp hid]
    exact (t.positions_spec s position).mp hposition
  · intro h
    exact ⟨id.position, (t.positions_spec s _).mpr h, TableId.ofPosition?_eq_some_iff.mpr rfl⟩

/-- A text is not found exactly where it was not interned. -/
theorem Holds.get?_eq_none_iff (h : t.Holds trace) : t.get? s = none ↔ s ∉ trace := by
  rw [h.mem_iff, get?]
  constructor
  · rintro hnone ⟨position, hposition⟩
    rw [hposition, Option.bind_some, TableId.ofPosition?, dif_pos (t.position_lt hposition)]
      at hnone
    cases hnone
  · intro hnone
    rcases hposition : t.positions[s]? with _ | position
    · rfl
    · exact absurd ⟨position, hposition⟩ hnone

theorem Holds.size_eq (h : t.Holds trace) : t.size = trace.eraseDups.length := by
  rw [size, ← Array.length_toList, h]

theorem Holds.resolve?_eq (h : t.Holds trace) : t.resolve? id = trace.eraseDups[id.position]? := by
  rw [resolve?, ← h, Array.getElem?_toList]

/-- The place with the rank of a string leads to it. -/
theorem Holds.resolve?_of_index (h : t.Holds trace) (hs : s ∈ trace)
    (hid : id.index.toNat = place trace s) : t.resolve? id = some s := by
  rw [h.resolve?_eq, TableId.position, hid]
  exact getElem?_place hs

/-- The place where a string is found is its rank. -/
theorem Holds.index_of_resolve? (h : t.Holds trace) (hid : t.resolve? id = some s) :
    id.index.toNat = place trace s := by
  obtain ⟨position, hposition, hplace⟩ := Option.bind_eq_some_iff.mp (get?_eq_some_iff.mpr hid)
  rw [← h.position hposition, ← TableId.ofPosition?_eq_some_iff.mp hplace, id.position_add_one]

/-! ## One request -/

/-- Interning appends at most. -/
theorem entries_isPrefix_intern (t : StringTable) (s : String) :
    t.entries.toList <+: (t.intern s).2.entries.toList := by
  rcases hrun : t.intern s with ⟨e | id, t'⟩
  · obtain ⟨rfl, _⟩ := intern_error t.holds_entries hrun
    exact List.prefix_refl _
  · rw [t.holds_entries, (intern_ok t.holds_entries hrun).1]
    exact eraseDups_isPrefix (List.prefix_append _ _)

/-- What a place leads to stays when a request follows. -/
theorem resolve?_perform (request : Request) (h : t.resolve? id = some s) :
    (request.perform t).2.resolve? id = some s := by
  cases request with
  | intern s' =>
    exact Packed.Module.Begins.getElem?_of_toList (t.entries_isPrefix_intern s') h
  | get | resolve | size | items => exact h

theorem resolve?_performAll (more : List Request) (h : t.resolve? id = some s) :
    (t.performAll more).resolve? id = some s := by
  induction more generalizing t with
  | nil => exact h
  | cons request rest ih => exact ih (resolve?_perform request h)

/-- While there is room, interning issues a place. -/
theorem Holds.exists_intern (h : t.Holds trace)
    (hroom : (trace ++ [s]).eraseDups.length ≤ maxLength) :
    ∃ id t', t.intern s = (.ok id, t') ∧ t'.Holds (trace ++ [s]) ∧
      id.index.toNat = place (trace ++ [s]) s := by
  rcases hrun : t.intern s with ⟨e | id, t'⟩
  · have hfull := (intern_error h hrun).2.2
    omega
  · exact ⟨id, t', rfl, intern_ok h hrun⟩

/-- A request leaves what its strings leave. -/
theorem Holds.perform (h : t.Holds trace)
    (hroom : (trace ++ request.interned).eraseDups.length ≤ maxLength) :
    (request.perform t).2.Holds (trace ++ request.interned) := by
  cases request with
  | intern s =>
    obtain ⟨id, t', hrun, ht', _⟩ := h.exists_intern hroom
    rw [Request.perform, hrun]
    exact ht'
  | get | resolve | size | items => simpa [Request.perform, Request.interned] using h

/-- The reply to a request is the right one. -/
theorem Holds.due (h : t.Holds trace) (hall : trace ++ request.interned <+: all)
    (hroom : (trace ++ request.interned).eraseDups.length ≤ maxLength) :
    request.Due trace all (request.perform t).1 := by
  cases request with
  | intern s =>
    obtain ⟨id, t', hrun, _, hid⟩ := h.exists_intern hroom
    rw [Request.interned_intern] at hall
    refine ⟨id, by rw [hrun], ?_⟩
    rw [hid, place_of_isPrefix hall (by simp)]
  | get s =>
    have hbefore : trace <+: all := by simpa [Request.interned] using hall
    refine ⟨?_, h.get?_eq_none_iff.mpr⟩
    intro hs
    rcases hget : t.get? s with _ | id
    · exact absurd hs (h.get?_eq_none_iff.mp hget)
    · refine ⟨id, rfl, ?_⟩
      rw [h.index_of_resolve? (get?_eq_some_iff.mp hget), place_of_isPrefix hbefore hs]
  | resolve id => exact h.resolve?_eq
  | size => exact h.size_eq
  | items => exact h

/-! ## Many requests -/

/-- Where there is room for all strings, there is room for the first of them. -/
theorem room_of_isPrefix (h : trace <+: all) (hroom : all.eraseDups.length ≤ maxLength) :
    trace.eraseDups.length ≤ maxLength :=
  Nat.le_trans (eraseDups_isPrefix h).length_le hroom

theorem interned_isPrefix (past : List Request) (request : Request) (future : List Request) :
    interned past ++ request.interned <+: interned (past ++ request :: future) := by
  rw [interned_append, interned_cons, ← List.append_assoc]
  exact List.prefix_append _ _

/-- Requests leave what their strings leave. -/
theorem Holds.performAll (h : t.Holds trace)
    (hroom : (trace ++ interned requests).eraseDups.length ≤ maxLength) :
    (t.performAll requests).Holds (trace ++ interned requests) := by
  induction requests generalizing t trace with
  | nil =>
    rw [interned, List.flatMap_nil, List.append_nil]
    exact h
  | cons request rest ih =>
    rw [interned_cons, ← List.append_assoc] at hroom ⊢
    exact ih (h.perform (room_of_isPrefix (List.prefix_append _ _) hroom)) hroom

theorem holds_after (hroom : (interned requests).eraseDups.length ≤ maxLength) :
    (after requests).Holds (interned requests) :=
  holds_empty.performAll hroom

/-- At every request, the table holds what was interned before it, and has room for it. -/
theorem holds_past (hroom : (interned (past ++ request :: future)).eraseDups.length ≤ maxLength) :
    (after past).Holds (interned past) ∧
      (interned past ++ request.interned).eraseDups.length ≤ maxLength := by
  have hnext := room_of_isPrefix (interned_isPrefix past request future) hroom
  exact ⟨holds_after (room_of_isPrefix (List.prefix_append _ _) hnext), hnext⟩

/-- A place was issued for a string exactly if it leads there in the end. -/
theorem issued_iff (hroom : (interned requests).eraseDups.length ≤ maxLength) :
    Issued requests id s ↔ (after requests).resolve? id = some s := by
  constructor
  · rintro ⟨past, future, rfl, hreply⟩
    obtain ⟨hpast, hnext⟩ := holds_past hroom
    obtain ⟨id', t', hrun, ht', hid'⟩ := hpast.exists_intern hnext
    have hafter : after (past ++ .intern s :: future) = t'.performAll future := by
      rw [after_append]
      show (((after past).intern s).2).performAll future = _
      rw [hrun]
    rw [Request.perform, hrun] at hreply
    cases hreply
    rw [hafter]
    exact resolve?_performAll future (ht'.resolve?_of_index (by simp) hid')
  · intro hid
    have hholds := holds_after hroom
    -- some request interned the string, and the place that it was given is its rank
    have hmem : s ∈ interned requests := by
      rw [hholds.resolve?_eq] at hid
      exact List.mem_eraseDups.mp (List.mem_of_getElem? hid)
    obtain ⟨request, hrequest, hs⟩ := List.mem_flatMap.mp hmem
    obtain rfl : request = .intern s := by
      cases request with
      | intern s' => rw [List.mem_singleton.mp hs]
      | get | resolve | size | items => cases hs
    obtain ⟨past, future, rfl⟩ := List.append_of_mem hrequest
    obtain ⟨hpast, hnext⟩ := holds_past hroom
    obtain ⟨id', t', hrun, _, hid'⟩ := hpast.exists_intern hnext
    have hindex : id'.index.toNat = id.index.toNat := by
      rw [hid', hholds.index_of_resolve? hid]
      exact (place_of_isPrefix (interned_isPrefix past (.intern s) future) (by simp)).symm
    obtain rfl : id' = id := TableId.ext_toNat hindex
    exact ⟨past, future, rfl, by rw [Request.perform, hrun]⟩

/-- The numbers of the places that lead to a string are those from one to the size. -/
theorem exists_place_iff (t : StringTable) (n : Nat) :
    (∃ id s, id.index.toNat = n ∧ t.resolve? id = some s) ↔ 1 ≤ n ∧ n ≤ t.size := by
  have hsize : t.size ≤ maxLength := t.size_le
  rw [maxLength] at hsize
  constructor
  · rintro ⟨id, s, rfl, hid⟩
    have hlt := position_lt_size hid
    have hpos := id.toNat_index_pos
    rw [← id.position_add_one] at hpos ⊢
    omega
  · rintro ⟨hone, hn⟩
    have hlt : n - 1 < t.entries.size := by
      rw [size] at hn
      omega
    refine ⟨.atPosition (n - 1) (by omega), t.entries[n - 1], ?_, ?_⟩
    · rw [TableId.toNat_index_atPosition]
      omega
    · rw [resolve?, TableId.position_atPosition]
      exact Array.getElem?_eq_getElem hlt

/-- **The law of the string table.** Whatever is asked of a table, from the empty one on, as long
as there is room for the distinct strings: every reply is the right one, and a string that is
interned gets its rank among the distinct ones in the order of their first occurrences, counted
from one. The table holds no string twice. A text is found at a place exactly where the place
leads to the text, and is not found exactly where it was not interned. The places that were
issued are those that lead somewhere, they are numbered from one to the size, and what a place
leads to stays whatever is asked from then on. -/
theorem after_law (requests : List Request)
    (hroom : (interned requests).eraseDups.length < 2 ^ 31) :
    (∀ past request future, requests = past ++ request :: future →
      request.Due (interned past) (interned requests) (request.perform (after past)).1) ∧
    (after requests).entries.toList.Nodup ∧
    (∀ s id, (after requests).get? s = some id ↔ (after requests).resolve? id = some s) ∧
    (∀ s, (after requests).get? s = none ↔ s ∉ interned requests) ∧
    (∀ id s, Issued requests id s ↔ (after requests).resolve? id = some s) ∧
    (∀ n, (∃ id s, id.index.toNat = n ∧ Issued requests id s) ↔
      1 ≤ n ∧ n ≤ (after requests).size) ∧
    ∀ id s, Issued requests id s →
      ∀ more, (after (requests ++ more)).resolve? id = some s := by
  have hroom' : (interned requests).eraseDups.length ≤ maxLength := by
    rw [maxLength]
    omega
  refine ⟨?_, (after requests).nodup, fun _ _ => get?_eq_some_iff,
    fun _ => (holds_after hroom').get?_eq_none_iff, fun _ _ => issued_iff hroom', ?_, ?_⟩
  · rintro past request future rfl
    obtain ⟨hpast, hnext⟩ := holds_past hroom'
    exact hpast.due (interned_isPrefix past request future) hnext
  · intro n
    simp only [issued_iff hroom']
    exact exists_place_iff (after requests) n
  · intro id s hissued more
    rw [after_append]
    exact resolve?_performAll more ((issued_iff hroom').mp hissued)

/-- Equality is exact, and looking up does not intern: the second string has the second place,
also after it was looked up in vain. -/
theorem after_law_sample :
    let requests : List Request :=
      [.intern "Name", .get "name", .intern "name", .intern "Name", .intern ""]
    (after [.intern "Name"]).get? "name" = none ∧
      (∃ id, Issued requests id "name" ∧ id.index.toNat = 2 ∧
        (after requests).get? "name" = some id ∧
        ∀ more, (after (requests ++ more)).resolve? id = some "name") ∧
      (after requests).get? "NAME" = none ∧
      ∃ id s, id.index.toNat = 3 ∧ Issued requests id s := by
  intro requests
  obtain ⟨hdue, _, hget, hnone, hissued, hnumbers, hstays⟩ := after_law requests (by decide)
  obtain ⟨-, habsent⟩ := hdue [.intern "Name"] (.get "name") [.intern "name", .intern "Name",
    .intern ""] rfl
  obtain ⟨id, hreply, hid⟩ := hdue [.intern "Name", .get "name"] (.intern "name")
    [.intern "Name", .intern ""] rfl
  have hname : Issued requests id "name" :=
    ⟨[.intern "Name", .get "name"], [.intern "Name", .intern ""], rfl, congrArg _ hreply⟩
  have htwo : place (interned requests) "name" = 2 := by decide
  have hholds : (after requests).Holds (interned requests) := holds_after (by decide)
  have hsize : 3 ≤ (after requests).size := by
    rw [hholds.size_eq]
    decide
  refine ⟨habsent (by decide), ⟨id, hname, hid.trans htwo, ?_, hstays id _ hname⟩,
    (hnone _).mpr (by decide), (hnumbers 3).mpr ⟨by decide, hsize⟩⟩
  exact (hget _ id).mpr ((hissued id _).mp hname)

end Export.StringTable
end MethodPack
