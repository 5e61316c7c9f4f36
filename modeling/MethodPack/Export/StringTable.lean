import Std.Data.HashMap
import MethodPack.Export.Error

/-! The table of interned strings. A string gets its place when it is first seen
and keeps it; the table never holds a string twice. -/
namespace MethodPack.Export

open Packed (StringId TableId maxLength)

/-- Strings in the order of their places, and the position of each. -/
structure StringTable where
  entries : Array String := #[]
  positions : Std.HashMap String Nat := ∅
  positions_spec : ∀ (s : String) (i : Nat), positions[s]? = some i ↔ entries[i]? = some s := by simp
  size_le : entries.size ≤ maxLength := by decide

namespace StringTable

/-- The table without strings. -/
def empty : StringTable := {}

instance : Inhabited StringTable := ⟨empty⟩

def size (t : StringTable) : Nat := t.entries.size

def isEmpty (t : StringTable) : Bool := t.entries.isEmpty

/-- The place of a string, if it has been interned. -/
def get? (t : StringTable) (s : String) : Option StringId :=
  t.positions[s]?.bind TableId.ofPosition?

/-- The string at a place. -/
def resolve? (t : StringTable) (id : StringId) : Option String := t.entries[id.position]?

/-- Appends a string the table does not hold. The parts of the table are taken out first,
so that none of them is copied. -/
def push (t : StringTable) (s : String) (h : t.positions[s]? = none) (room : t.size < maxLength) :
    StringTable :=
  match t, h, room with
  | ⟨entries, positions, spec, _⟩, h, room =>
    let position := entries.size
    { entries := entries.push s
      positions := positions.insert s position
      positions_spec := by
        intro s' i
        have old := spec s' i
        have absent : ∀ i : Nat, entries[i]? ≠ some s := fun i hi => by
          simp [(spec s i).2 hi] at h
        rw [Std.HashMap.getElem?_insert, Array.getElem?_push]
        by_cases hs : s = s'
        · subst hs
          by_cases hi : i = entries.size
          · simp [hi, position]
          · simp [hi, Ne.symm hi, position, absent i]
        · by_cases hi : i = entries.size
          · subst hi
            simpa [hs] using old
          · simp [hi, hs, old]
      size_le := by rw [Array.size_push]; exact room }

/-- Every position of the table has a place. -/
theorem position_lt (t : StringTable) {s : String} {i : Nat} (h : t.positions[s]? = some i) :
    i + 1 < 0x100000000 := by
  have hi := (Array.getElem?_eq_some_iff.mp ((t.positions_spec s i).1 h)).1
  have := t.size_le
  simp only [maxLength] at this
  omega

/-- The place of a string, which is appended when it is seen for the first time, and the
table afterwards. A full table refuses new strings and stays as it is. -/
def intern (t : StringTable) (s : String) : Except ExportError StringId × StringTable :=
  match h : t.positions[s]? with
  | some i => (.ok (.atPosition i (t.position_lt h)), t)
  | none =>
    if room : t.size < maxLength then
      (.ok (.atPosition t.size (by simp only [maxLength] at room; omega)), t.push s h room)
    else (.error (.tooManyStrings (t.size + 1)), t)

end StringTable
end MethodPack.Export
