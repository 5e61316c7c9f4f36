import MethodPack.Proofs.ByteOrders
import MethodPack.Proofs.Digits
import MethodPack.Proofs.Lines

/-!
# Members

The list of members has a line for each method of a module, unless a name breaks it: names stand
in the list as they are, and may hold newlines. Main statement: the lines of the list are those
of the methods exactly where no name holds a newline (`lines_listMembers_iff`).
-/

namespace MethodPack.Listing

open Text (OneLine newlines pieces lines)
open Packed (Module MethodRecord MemberKey AbstractStream)

variable {m : Module} {key : MemberKey} {r : MethodRecord}

/-! ## The line of a method -/

theorem newlines_decimal (n : Nat) : newlines (Number.decimal n) = 0 :=
  Text.oneLine_iff_newlines.mp (Number.NoDigit.notMem_decimal (by decide) n)

/-- All newlines in the line of a method are those of its name. -/
theorem newlines_memberLine (m : Module) (r : MethodRecord) :
    newlines (memberLine m r) = newlines (m.memberText r.key) := by
  have hopening : newlines "(" = 0 := by decide
  have hclosing : newlines ")" = 0 := by decide
  have hmark : newlines (if r.signature.returnsValue then " -> value" else "") = 0 := by
    split <;> decide
  simp [memberLine, hopening, newlines_decimal, hclosing, hmark]

/-- The text of a reference is on one line exactly where its parts do not resolve, or the name
they resolve to holds no newline. -/
theorem oneLine_memberText_iff :
    OneLine (m.memberText key) ↔ ∀ name, m.memberName? key = some name → OneLine name := by
  rw [Module.memberText]
  rcases m.memberName? key with _ | name
  · have hhex : OneLine (Number.paddedHex 16 key.word.toNat) :=
      Number.NoDigit.notMem_paddedHex (by decide) _ _
    have hopening : OneLine "<" := by decide
    have hmark : OneLine "0x" := by decide
    have hclosing : OneLine ">" := by decide
    simp [MemberKey.hex, hhex, hopening, hmark, hclosing]
  · simp

/-! ## The lines of the list -/

/-- The lines of the list are the pieces of the lines of the methods. -/
theorem lines_listMembers (m : Module) :
    lines (listMembers m) = (m.methods.map (memberLine m)).flatMap pieces := by
  have htext : listMembers m = String.join ((m.methods.map (memberLine m)).map line) ++ "" := by
    rw [String.append_empty, listMembers, List.map_map]
    rfl
  rw [htext, Text.lines_join]
  exact List.append_nil _

/-- **The lines of the list of members.** There is one for each method, and one more for each
newline in a name. So the methods have a line each exactly where no name that resolves holds a
newline, and then the lines are those of the methods, in order. -/
theorem lines_listMembers_iff (m : Module) :
    (lines (listMembers m)).length =
      m.methods.length + (m.methods.map fun r => newlines (m.memberText r.key)).sum ∧
    ((lines (listMembers m)).length = m.methods.length ↔
      ∀ r ∈ m.methods, ∀ name, m.memberName? r.key = some name → OneLine name) ∧
    ((∀ r ∈ m.methods, ∀ name, m.memberName? r.key = some name → OneLine name) →
      lines (listMembers m) = m.methods.map (memberLine m)) := by
  have honeLine (r : MethodRecord) : OneLine (memberLine m r) ↔
      ∀ name, m.memberName? r.key = some name → OneLine name := by
    rw [Text.oneLine_iff_newlines, newlines_memberLine, ← Text.oneLine_iff_newlines,
      oneLine_memberText_iff]
  have hall : (∀ s ∈ m.methods.map (memberLine m), OneLine s) ↔
      ∀ r ∈ m.methods, ∀ name, m.memberName? r.key = some name → OneLine name := by
    simp only [List.forall_mem_map, honeLine]
  rw [lines_listMembers]
  refine ⟨?_, ?_, ?_⟩
  · rw [Text.length_flatMap_pieces, List.length_map, List.map_map]
    simp only [Function.comp_def, newlines_memberLine]
  · rw [← hall, ← Text.length_flatMap_pieces_eq_iff, List.length_map]
  · intro h
    exact Text.flatMap_pieces (hall.mpr h)

/-- A stream with one method, whose name ends a line and begins another one: its list shows two
methods. -/
theorem lines_listMembers_forged :
    let bytes : List UInt8 := [1, 0, 0, 3, 0, 0, 0, 2, 0, 1, 0, 0, 0, 0, 0, 0, 0, 0, 0,
      1, 3, 0, 0, 0, 1, 0, 0, 0, 68, 1, 0, 0, 0, 84, 12, 0, 0, 0, 97, 40, 48, 41, 10, 68, 46, 84,
      58, 58, 98, 99, 2, 0, 0, 0, 0]
    ∃ m, Module.ofBytes bytes = .ok m ∧ m.methods.length = 1 ∧
      lines (listMembers m) = ["D.T::a(0)", "D.T::bc(0)"] := by
  intro bytes
  let st : AbstractStream :=
    ⟨[.method ⟨0x0001000200000003⟩ 0 [], .strings ["D", "T", "a(0)\nD.T::bc"], .switches []],
      by simp [Packed.AbstractSection.Fits, Packed.maxLength]; decide, by decide, by decide⟩
  have hbytes : st.bytes .little = bytes := by decide
  exact ⟨_, hbytes ▸ st.ofBytes_bytes .little, rfl, by decide⟩

end MethodPack.Listing
