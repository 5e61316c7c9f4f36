import MethodPack.Proofs.Words

/-!
# Header words

The record of a method begins with two words that are packed from parts: the reference word,
from three places in the string table, and the signature word, from an argument count and a
flag. Main statement: packing refuses exactly the places that are too far, and packing and
reading the parts undo one another (`header_words_lossless`).
-/

namespace MethodPack.Packed

/-! ## Reference words -/

namespace MemberKey

variable {k : MemberKey} {ns type name : StringId}

/-- Places pack exactly when the namespace and the type fit 16 bits. -/
theorem exists_pack_iff : (∃ k, pack ns type name = .ok k) ↔
    ns.index.toNat ≤ 65535 ∧ type.index.toNat ≤ 65535 := by
  have hfits : overflow? ns.index.toNat type.index.toNat = none ↔
      ns.index.toNat ≤ 65535 ∧ type.index.toNat ≤ 65535 := by
    rw [overflow?_eq_none]
    omega
  rw [← hfits, pack_eq]
  cases overflow? ns.index.toNat type.index.toNat with
  | none => simp
  | some e => simp

theorem pack_of_far_ns (h : 65535 < ns.index.toNat) :
    pack ns type name = .error ⟨.ns, ns.index⟩ := by
  have hns : 2 ^ 16 ≤ ns.index.toNat := by omega
  rw [pack_eq, overflow?, if_pos hns]
  show Except.error (KeyOverflow.mk .ns (UInt32.ofNat ns.index.toNat)) = _
  rw [UInt32.ofNat_toNat]

theorem pack_of_far_type (hns : ns.index.toNat ≤ 65535) (h : 65535 < type.index.toNat) :
    pack ns type name = .error ⟨.type, type.index⟩ := by
  have hfits : ¬ 2 ^ 16 ≤ ns.index.toNat := by omega
  have htype : 2 ^ 16 ≤ type.index.toNat := by omega
  rw [pack_eq, overflow?, if_neg hfits, if_pos htype]
  show Except.error (KeyOverflow.mk .type (UInt32.ofNat type.index.toNat)) = _
  rw [UInt32.ofNat_toNat]

/-- Places pack into the word whose parts they are, and into no other. -/
theorem pack_eq_ok_iff : pack ns type name = .ok k ↔
    k.ns? = some ns ∧ k.type? = some type ∧ k.name? = some name := by
  constructor
  · intro h
    rw [pack_eq] at h
    cases hoverflow : overflow? ns.index.toNat type.index.toNat with
    | some e =>
      rw [hoverflow] at h
      cases h
    | none =>
      rw [hoverflow] at h
      cases h
      obtain ⟨hns, htype⟩ := overflow?_eq_none.mp hoverflow
      have hname := name.index.toNat_lt
      exact ⟨ns?_ofPlaces hns htype hname rfl, type?_ofPlaces hns htype hname rfl,
        name?_ofPlaces hns htype hname rfl⟩
  · rintro ⟨hns, htype, hname⟩
    rw [ns?_eq_some_iff] at hns
    rw [type?_eq_some_iff] at htype
    rw [name?_eq_some_iff] at hname
    -- sixteen bits hold what fits, so what was read of them is not refused
    have hoverflow : overflow? (k.bits 48 64) (k.bits 32 48) = none :=
      overflow?_eq_none.mpr ⟨k.bits_lt 48 64, k.bits_lt 32 48⟩
    rw [pack_eq, ← hns, ← htype, ← hname, hoverflow]
    exact congrArg Except.ok k.ofPlaces_bits

/-- A word with no part that is zero has three places as its parts. -/
theorem exists_parts (hns : k.bits 48 64 ≠ 0) (htype : k.bits 32 48 ≠ 0)
    (hname : k.bits 0 32 ≠ 0) :
    ∃ ns type name, k.ns? = some ns ∧ k.type? = some type ∧ k.name? = some name := by
  obtain ⟨ns, hns⟩ := TableId.exists_index hns ((k.bits_lt 48 64).trans (by decide))
  obtain ⟨type, htype⟩ := TableId.exists_index htype ((k.bits_lt 32 48).trans (by decide))
  obtain ⟨name, hname⟩ := TableId.exists_index hname (k.bits_lt 0 32)
  exact ⟨ns, type, name, ns?_eq_some_iff.mpr hns.symm, type?_eq_some_iff.mpr htype.symm,
    name?_eq_some_iff.mpr hname.symm⟩

end MemberKey

/-! ## Signature words -/

namespace MethodSignature

variable {s : MethodSignature} {word : Int32}

/-- A word is not negative exactly when its highest bit is not set. -/
theorem nonneg_iff_toNat_lt : 0 ≤ word ↔ word.toUInt32.toNat < 2 ^ 31 := by
  have hvalue : word.toInt = if 2 * word.toUInt32.toNat < 2 ^ 32 then (word.toUInt32.toNat : Int)
      else word.toUInt32.toNat - (2 ^ 32 : Nat) := by
    rw [← Int32.toInt_toBitVec, ← Int32.toBitVec_toUInt32, BitVec.toInt_eq_toNat_cond]
    rfl
  have hlt := word.toUInt32.toNat_lt
  rw [Int32.le_iff_toInt_le, Int32.toInt_zero, hvalue]
  split <;> omega

theorem pack_nonneg (h : s.argCount.toNat ≤ maxArgs) : 0 ≤ s.pack := by
  have hflag : s.returnsValue.toNat < 2 := s.returnsValue.toNat_lt
  rw [nonneg_iff_toNat_lt, toNat_pack h]
  rw [maxArgs] at h
  omega

theorem argCount_unpack_le (h : 0 ≤ word) : (unpack word).argCount.toNat ≤ maxArgs := by
  have hlt := nonneg_iff_toNat_lt.mp h
  rw [toNat_argCount_unpack, maxArgs]
  omega

theorem pack_unpack (h : 0 ≤ word) : (unpack word).pack = word := by
  have hbits : (unpack word).pack.toUInt32 = word.toUInt32 := by
    apply UInt32.toNat_inj.mp
    rw [toNat_pack (argCount_unpack_le h), toNat_argCount_unpack, toNat_returnsValue_unpack]
    omega
  calc (unpack word).pack = (unpack word).pack.toUInt32.toInt32 := (Int32.toInt32_toUInt32 _).symm
    _ = word := by rw [hbits, Int32.toInt32_toUInt32]

end MethodSignature

/-! ## Both words -/

/-- **The words that head a record lose nothing.** Three places pack into a reference word exactly
when those of the namespace and of the type are at most 65535; otherwise the error names the
first of the two that is beyond. The parts of the word are then the places, and a word with no
part that is zero is what its parts pack into. A signature within the limit on arguments packs
into a word that is not negative, from which it is read back, and a word that is not negative
is read as a signature within the limit, which packs into it. -/
theorem header_words_lossless :
    (∀ ns type name : StringId,
      ((∃ k, MemberKey.pack ns type name = .ok k) ↔
        ns.index.toNat ≤ 65535 ∧ type.index.toNat ≤ 65535) ∧
      (65535 < ns.index.toNat → MemberKey.pack ns type name = .error ⟨.ns, ns.index⟩) ∧
      (ns.index.toNat ≤ 65535 → 65535 < type.index.toNat →
        MemberKey.pack ns type name = .error ⟨.type, type.index⟩) ∧
      ∀ k, MemberKey.pack ns type name = .ok k →
        k.ns? = some ns ∧ k.type? = some type ∧ k.name? = some name) ∧
    (∀ k : MemberKey, k.bits 48 64 ≠ 0 → k.bits 32 48 ≠ 0 → k.bits 0 32 ≠ 0 →
      ∃ ns type name, k.ns? = some ns ∧ k.type? = some type ∧ k.name? = some name ∧
        MemberKey.pack ns type name = .ok k) ∧
    (∀ s : MethodSignature, s.argCount.toNat ≤ MethodSignature.maxArgs →
      0 ≤ s.pack ∧ MethodSignature.unpack s.pack = s) ∧
    ∀ word : Int32, 0 ≤ word →
      (MethodSignature.unpack word).argCount.toNat ≤ MethodSignature.maxArgs ∧
      (MethodSignature.unpack word).pack = word := by
  refine ⟨?_, ?_, ?_, ?_⟩
  · intro ns type name
    exact ⟨MemberKey.exists_pack_iff, MemberKey.pack_of_far_ns, MemberKey.pack_of_far_type,
      fun k => MemberKey.pack_eq_ok_iff.mp⟩
  · intro k hns htype hname
    obtain ⟨ns, type, name, hparts⟩ := MemberKey.exists_parts hns htype hname
    exact ⟨ns, type, name, hparts.1, hparts.2.1, hparts.2.2, MemberKey.pack_eq_ok_iff.mpr hparts⟩
  · intro s h
    exact ⟨MethodSignature.pack_nonneg h, MethodSignature.unpack_pack h⟩
  · intro word h
    exact ⟨MethodSignature.argCount_unpack_le h, MethodSignature.pack_unpack h⟩

/-- The farthest places that pack and the nearest that do not, a word as it stands in a stream,
the largest signature and the largest word. -/
theorem header_words_lossless_sample :
    let last : StringId := ⟨0xffff, by decide⟩
    let beyond : StringId := ⟨0x10000, by decide⟩
    let farthest : StringId := ⟨0xffffffff, by decide⟩
    let largest : MethodSignature := ⟨0x3fffffff, true⟩
    (∃ k, MemberKey.pack last last farthest = .ok k ∧
      k.ns? = some last ∧ k.type? = some last ∧ k.name? = some farthest) ∧
    MemberKey.pack beyond farthest last = .error ⟨.ns, 0x10000⟩ ∧
    MemberKey.pack last beyond farthest = .error ⟨.type, 0x10000⟩ ∧
    (∃ ns type name, MemberKey.pack ns type name = .ok ⟨0x0001000200000003⟩) ∧
    (0 ≤ largest.pack ∧ MethodSignature.unpack largest.pack = largest) ∧
    (MethodSignature.unpack Int32.maxValue).pack = Int32.maxValue := by
  intro last beyond farthest largest
  obtain ⟨hpack, hword, hsignature, hvalue⟩ := header_words_lossless
  refine ⟨?_, ?_, ?_, ?_, ?_, ?_⟩
  · obtain ⟨hok, -, -, hparts⟩ := hpack last last farthest
    obtain ⟨k, hk⟩ := hok.mpr (by decide)
    exact ⟨k, hk, hparts k hk⟩
  · exact (hpack beyond farthest last).2.1 (by decide)
  · exact (hpack last beyond farthest).2.2.1 (by decide) (by decide)
  · obtain ⟨ns, type, name, -, -, -, hk⟩ :=
      hword ⟨0x0001000200000003⟩ (by decide) (by decide) (by decide)
    exact ⟨ns, type, name, hk⟩
  · exact hsignature largest (by decide)
  · exact (hvalue Int32.maxValue (by decide)).2

end MethodPack.Packed
