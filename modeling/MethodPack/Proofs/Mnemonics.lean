import Mathlib.Data.List.Nodup
import MethodPack.Proofs.Words

/-!
# Mnemonics

No two opcodes share a mnemonic, so an opcode is found by its own
(`Opcode.ofMnemonic?_mnemonic`).
-/

namespace MethodPack.Opcode

theorem mem_all (c : Opcode) : c ∈ all := Array.mem_of_getElem? (Packed.ofByte?_byte c)

/-- The bytes of a string as the digits of one number, which is quick to compare. -/
def byteNumber (s : String) : Nat :=
  s.toByteArray.data.toList.foldl (fun n b => n * 256 + b.toNat) 0

theorem nodup_mnemonics : (all.toList.map fun c => byteNumber c.mnemonic).Nodup := by
  decide +kernel

theorem mnemonic_injective {c d : Opcode} (h : c.mnemonic = d.mnemonic) : c = d :=
  List.inj_on_of_nodup_map nodup_mnemonics (Array.mem_def.mp (mem_all c))
    (Array.mem_def.mp (mem_all d)) (congrArg byteNumber h)

/-- The mnemonic of an opcode finds it. -/
theorem ofMnemonic?_mnemonic (c : Opcode) : ofMnemonic? c.mnemonic = some c := by
  have hsome : (ofMnemonic? c.mnemonic).isSome := by
    rw [ofMnemonic?, Array.find?_isSome]
    exact ⟨c, mem_all c, beq_self_eq_true _⟩
  obtain ⟨d, hd⟩ := Option.isSome_iff_exists.mp hsome
  have hmnemonic : d.mnemonic = c.mnemonic := by simpa using Array.find?_some hd
  rw [hd, mnemonic_injective hmnemonic]

end MethodPack.Opcode
