import Mathlib.Data.Nat.Bitwise
import MethodPack.Packed.Section

/-!
# Words

Every word of a stream reads back as it was written, in either byte order, and bytes
that were read are the word of what they were read as.
Reference words and signature words are given in arithmetic as well: a reference
word is the number whose digits are its three places, and its parts are the
places again.
-/

namespace MethodPack.Packed

/-! ## Words as bytes -/

@[simp] theorem length_lowBytes (width n : Nat) : (lowBytes width n).length = width := by
  induction width generalizing n with
  | zero => rfl
  | succ width ih => simp [lowBytes, ih]

theorem ofLowBytes_lowBytes {width n : Nat} (h : n < 256 ^ width) :
    ofLowBytes (lowBytes width n) = n := by
  induction width generalizing n with
  | zero =>
    have : n = 0 := by simpa using h
    simp [lowBytes, ofLowBytes, this]
  | succ width ih =>
    have hrest : n / 256 < 256 ^ width := by
      rw [Nat.pow_succ] at h
      omega
    have hbyte : n.toUInt8.toNat = n % 256 := UInt8.toNat_ofNat'
    rw [lowBytes, ofLowBytes, ih hrest, hbyte]
    omega

theorem ofLowBytes_lt (bytes : List UInt8) : ofLowBytes bytes < 256 ^ bytes.length := by
  induction bytes with
  | nil => exact Nat.one_pos
  | cons b bytes ih =>
    have hb : b.toNat < 256 := b.toNat_lt
    rw [ofLowBytes, List.length_cons, Nat.pow_succ]
    omega

theorem lowBytes_ofLowBytes (bytes : List UInt8) :
    lowBytes bytes.length (ofLowBytes bytes) = bytes := by
  induction bytes with
  | nil => rfl
  | cons b bytes ih =>
    have hb : b.toNat < 256 := b.toNat_lt
    have hbyte : (b.toNat + 256 * ofLowBytes bytes).toUInt8 = b := by
      apply UInt8.toNat_inj.mp
      show (b.toNat + 256 * ofLowBytes bytes) % 256 = b.toNat
      omega
    have hrest : (b.toNat + 256 * ofLowBytes bytes) / 256 = ofLowBytes bytes := by omega
    rw [ofLowBytes, List.length_cons, lowBytes, hbyte, hrest, ih]

/-- What lies beyond the width has no part in the bytes. -/
theorem lowBytes_mod (width n : Nat) : lowBytes width (n % 256 ^ width) = lowBytes width n := by
  induction width generalizing n with
  | zero => rfl
  | succ width ih =>
    have hbyte : (n % 256 ^ (width + 1)).toUInt8 = n.toUInt8 := by
      apply UInt8.toNat_inj.mp
      show n % 256 ^ (width + 1) % 256 = n % 256
      exact Nat.mod_mod_of_dvd n (Dvd.intro_left (256 ^ width) rfl)
    have hrest : n % 256 ^ (width + 1) / 256 = n / 256 % 256 ^ width := by
      rw [Nat.pow_succ', Nat.mod_mul_right_div_self]
    rw [lowBytes, lowBytes, hbyte, hrest, ih]

namespace ByteOrder

variable (order : ByteOrder)

@[simp] theorem length_encode (width n : Nat) : (order.encode width n).length = width := by
  cases order <;> simp [encode]

theorem decode_encode {width n : Nat} (h : n < 256 ^ width) :
    order.decode (order.encode width n) = n := by
  cases order <;> simp [encode, decode, ofLowBytes_lowBytes h]

@[simp] theorem length_encode16 (n : UInt16) : (order.encode16 n).length = 2 := by
  simp [encode16]

@[simp] theorem length_encode64 (n : UInt64) : (order.encode64 n).length = 8 := by
  simp [encode64]

@[simp] theorem length_encodeInt32 (n : Int32) : (order.encodeInt32 n).length = 4 := by
  simp [encodeInt32]

@[simp] theorem decode64_encode64 (n : UInt64) : order.decode64 (order.encode64 n) = n := by
  rw [decode64, encode64, decode_encode order n.toNat_lt]
  exact UInt64.ofNat_toNat

@[simp] theorem decodeInt32_encodeInt32 (n : Int32) :
    order.decodeInt32 (order.encodeInt32 n) = n := by
  rw [decodeInt32, encodeInt32, decode_encode order n.toUInt32.toNat_lt]
  show (UInt32.ofNat n.toUInt32.toNat).toInt32 = n
  rw [UInt32.ofNat_toNat, Int32.toInt32_toUInt32]

/-- Each order recognises the marker it writes. -/
@[simp] theorem detect?_marker : detect? (order.encode16 version) = some order := by
  cases order <;> decide

/-! Bytes are the word of what was read from them. -/

theorem decode_lt (bytes : List UInt8) : order.decode bytes < 256 ^ bytes.length := by
  cases order with
  | little => exact ofLowBytes_lt bytes
  | big => simpa [decode] using ofLowBytes_lt bytes.reverse

theorem encode_decode (bytes : List UInt8) :
    order.encode bytes.length (order.decode bytes) = bytes := by
  cases order with
  | little => exact lowBytes_ofLowBytes bytes
  | big =>
    have h := lowBytes_ofLowBytes bytes.reverse
    rw [List.length_reverse] at h
    rw [encode, decode, h, List.reverse_reverse]

section Decoded

variable {bytes : List UInt8}

theorem encode16_decode16 (h : bytes.length = 2) :
    order.encode16 (order.decode16 bytes) = bytes := by
  have hlt := order.decode_lt bytes
  have hword : (order.decode16 bytes).toNat = order.decode bytes :=
    UInt16.toNat_ofNat_of_lt' (by rwa [h] at hlt)
  rw [encode16, hword, ← h, encode_decode]

theorem encode64_decode64 (h : bytes.length = 8) :
    order.encode64 (order.decode64 bytes) = bytes := by
  have hlt := order.decode_lt bytes
  have hword : (order.decode64 bytes).toNat = order.decode bytes :=
    UInt64.toNat_ofNat_of_lt' (by rwa [h] at hlt)
  rw [encode64, hword, ← h, encode_decode]

theorem encodeInt32_decodeInt32 (h : bytes.length = 4) :
    order.encodeInt32 (order.decodeInt32 bytes) = bytes := by
  have hlt := order.decode_lt bytes
  have hword : (order.decode bytes).toUInt32.toNat = order.decode bytes :=
    UInt32.toNat_ofNat_of_lt' (by rwa [h] at hlt)
  rw [encodeInt32, decodeInt32, UInt32.toUInt32_toInt32, hword, ← h, encode_decode]

/-- What an order recognises as the marker is the marker that it writes. -/
theorem marker_of_detect? {order : ByteOrder} (hlen : bytes.length = 2)
    (h : detect? bytes = some order) : order.encode16 version = bytes := by
  have hversion : order.decode16 bytes = version := by simpa using List.find?_some h
  rw [← hversion, encode16_decode16 order hlen]

end Decoded

end ByteOrder

/-! ## Counts -/

/-- A count within the limit is a word that is not negative. -/
theorem toInt_ofNat_count {n : Nat} (h : n ≤ maxLength) : (Int32.ofNat n).toInt = n := by
  rw [maxLength] at h
  exact Int32.toInt_ofNat_of_lt (by omega)

/-- A word that is not negative is the count that it stands for. -/
theorem ofNat_toInt_of_nonneg {value : Int32} (h : ¬ value < 0) :
    value.toInt.toNat ≤ maxLength ∧ Int32.ofNat value.toInt.toNat = value := by
  rw [Int32.lt_iff_toInt_lt] at h
  have hpos : 0 ≤ value.toInt := by simpa using h
  have hlt := value.toInt_lt
  have hle : value.toInt.toNat ≤ maxLength := by rw [maxLength]; omega
  refine ⟨hle, ?_⟩
  apply Int32.toInt_inj.mp
  rw [toInt_ofNat_count hle]
  omega

@[simp] theorem length_countBytes (order : ByteOrder) (n : Nat) :
    (countBytes order n).length = 4 := by
  simp [countBytes]

/-! ## Opcodes and tags -/

set_option maxRecDepth 4000 in
theorem ofByte?_byte (c : Opcode) : Opcode.ofByte? c.byte = some c := by
  cases c <;> rfl

theorem SectionTag.ofByte?_byte (t : SectionTag) : SectionTag.ofByte? t.byte = some t := by
  cases t <;> rfl

/-- The table lists the opcodes in the order of their bytes, from zero on. -/
theorem bytes_all : Opcode.all.toList.map (fun c => c.byte.toNat) = List.range 219 := by
  decide +kernel

theorem size_all : Opcode.all.size = 219 := by
  simpa using congrArg List.length bytes_all

theorem byte_of_ofByte? {b : UInt8} {c : Opcode} (h : Opcode.ofByte? b = some c) : c.byte = b := by
  have hb : b.toNat < 219 := by
    rw [← size_all]
    exact (Array.getElem?_eq_some_iff.mp h).1
  have hplace := congrArg (fun l => l[b.toNat]?) bytes_all
  rw [Opcode.ofByte?, ← Array.getElem?_toList] at h
  simp only [List.getElem?_map, h, Option.map_some, List.getElem?_range hb] at hplace
  exact UInt8.toNat_inj.mp (Option.some.inj hplace)

/-- The opcode bytes are those below 219. -/
theorem exists_byte_iff (b : UInt8) : (∃ c : Opcode, c.byte = b) ↔ b.toNat < 219 := by
  rw [← size_all]
  constructor
  · rintro ⟨c, rfl⟩
    exact (Array.getElem?_eq_some_iff.mp (ofByte?_byte c)).1
  · intro hb
    exact ⟨_, byte_of_ofByte? (Array.getElem?_eq_getElem hb)⟩

theorem SectionTag.byte_of_ofByte? {b : UInt8} {t : SectionTag}
    (h : SectionTag.ofByte? b = some t) : t.byte = b := by
  unfold SectionTag.ofByte? at h
  split at h
  · cases h; rfl
  · cases h; rfl
  · cases h; rfl
  · cases h

/-! ## Places -/

namespace TableId

variable {table : Table}

@[simp] theorem ofIndex?_index (id : TableId table) : ofIndex? id.index = some id := by
  simp [ofIndex?, id.index_ne_zero]

/-- A number is read as the place that has it. -/
theorem ofIndex?_eq_some_iff {index : UInt32} {id : TableId table} :
    ofIndex? index = some id ↔ index.toNat = id.index.toNat := by
  rw [UInt32.toNat_inj]
  constructor
  · intro h
    by_cases hzero : index = 0
    · rw [ofIndex?, dif_pos hzero] at h
      cases h
    · rw [ofIndex?, dif_neg hzero] at h
      cases h
      rfl
  · rintro rfl
    exact ofIndex?_index id

@[simp] theorem toNat_index_atPosition {position : Nat} (h : position + 1 < 0x100000000) :
    (atPosition position h : TableId table).index.toNat = position + 1 :=
  UInt32.toNat_ofNatLT ..

@[simp] theorem position_atPosition {p : Nat} (h : p + 1 < 0x100000000) :
    (atPosition p h : TableId table).position = p := by
  simp [position]

/-- A number that is not zero and not too large is that of a place. -/
theorem exists_index {n : Nat} (h : n ≠ 0) (hlt : n < 2 ^ 32) :
    ∃ id : TableId table, id.index.toNat = n := by
  refine ⟨atPosition (n - 1) (by omega), ?_⟩
  rw [toNat_index_atPosition]
  omega

end TableId

/-! ## Reference words -/

namespace MemberKey

/-- The reference word of three places, in arithmetic. -/
def ofPlaces (ns type name : Nat) : MemberKey :=
  ⟨(ns * 2 ^ 48 + type * 2 ^ 32 + name).toUInt64⟩

/-- Why three places do not pack; the namespace is checked first. -/
def overflow? (ns type : Nat) : Option KeyOverflow :=
  if 2 ^ 16 ≤ ns then some ⟨.ns, ns.toUInt32⟩
  else if 2 ^ 16 ≤ type then some ⟨.type, type.toUInt32⟩
  else none

theorem overflow?_eq_none {ns type : Nat} :
    overflow? ns type = none ↔ ns < 2 ^ 16 ∧ type < 2 ^ 16 := by
  rw [overflow?]
  split
  · simp
    omega
  · split
    · simp
      omega
    · simp
      omega

/-- Shifting the parts of a word into place adds them up, since none reaches into the next. -/
theorem or_shifts {a b c : Nat} (hb : b < 2 ^ 16) (hc : c < 2 ^ 32) :
    a <<< 48 ||| b <<< 32 ||| c = a * 2 ^ 48 + b * 2 ^ 32 + c := by
  -- the two lower parts fill the bits below the highest part, and no more
  have hlow : b <<< 32 + c = b <<< 32 ||| c := Nat.shiftLeft_add_eq_or_of_lt hc b
  have hsum : b <<< 32 + c < 2 ^ 48 := by
    rw [Nat.shiftLeft_eq]
    omega
  rw [Nat.or_assoc, ← hlow, ← Nat.shiftLeft_add_eq_or_of_lt hsum, Nat.shiftLeft_eq,
    Nat.shiftLeft_eq]
  omega

theorem pack_eq (ns type name : StringId) :
    pack ns type name = match overflow? ns.index.toNat type.index.toNat with
      | some e => .error e
      | none => .ok (ofPlaces ns.index.toNat type.index.toNat name.index.toNat) := by
  by_cases hns : ns.index.toNat < 0x10000
  · by_cases htype : type.index.toNat < 0x10000
    · have hn : ¬ 2 ^ 16 ≤ ns.index.toNat := by omega
      have ht : ¬ 2 ^ 16 ≤ type.index.toNat := by omega
      have hword : ns.index.toUInt64 <<< 48 ||| type.index.toUInt64 <<< 32 ||| name.index.toUInt64
          = (ns.index.toNat * 2 ^ 48 + type.index.toNat * 2 ^ 32 + name.index.toNat).toUInt64 := by
        have hname := name.index.toNat_lt
        apply UInt64.toNat_inj.mp
        rw [← or_shifts htype hname]
        simp
      simp only [pack, narrow, hns, htype, hn, ht, overflow?, ofPlaces, if_true, if_false, bind,
        Except.bind, pure, Except.pure, hword]
    · have hn : ¬ 2 ^ 16 ≤ ns.index.toNat := by omega
      have ht : 2 ^ 16 ≤ type.index.toNat := by omega
      simp only [pack, narrow, hns, htype, hn, ht, overflow?, if_true, if_false, bind, Except.bind]
      simp
  · have hn : 2 ^ 16 ≤ ns.index.toNat := by omega
    simp only [pack, narrow, hns, hn, overflow?, if_true, if_false, bind, Except.bind]
    simp

/-! The parts of a word are numbers between two of its bits, and a word is made of them. -/

section Bits

variable {k : MemberKey} {id : StringId}

/-- The number in the bits of a word from `low` up to `high`. -/
def bits (k : MemberKey) (low high : Nat) : Nat := k.word.toNat / 2 ^ low % 2 ^ (high - low)

theorem bits_lt (k : MemberKey) (low high : Nat) : k.bits low high < 2 ^ (high - low) :=
  Nat.mod_lt _ (Nat.two_pow_pos _)

theorem ns?_eq_some_iff : k.ns? = some id ↔ k.bits 48 64 = id.index.toNat := by
  have hpart : (k.word >>> 48).toUInt32.toNat = k.bits 48 64 := by
    have hword := k.word.toNat_lt
    rw [UInt64.toNat_toUInt32, UInt64.toNat_shiftRight, bits]
    simp only [UInt64.reduceToNat, Nat.reduceMod, Nat.shiftRight_eq_div_pow]
    omega
  rw [ns?, TableId.ofIndex?_eq_some_iff, hpart]

theorem type?_eq_some_iff : k.type? = some id ↔ k.bits 32 48 = id.index.toNat := by
  have hpart : (k.word >>> 32 &&& 0xffff).toUInt32.toNat = k.bits 32 48 := by
    rw [UInt64.toNat_toUInt32, UInt64.toNat_and, UInt64.toNat_shiftRight, bits]
    simp only [UInt64.reduceToNat, Nat.reduceMod, Nat.shiftRight_eq_div_pow]
    rw [show 65535 = 2 ^ 16 - 1 from rfl, Nat.and_two_pow_sub_one_eq_mod]
    omega
  rw [type?, TableId.ofIndex?_eq_some_iff, hpart]

theorem name?_eq_some_iff : k.name? = some id ↔ k.bits 0 32 = id.index.toNat := by
  have hpart : k.word.toUInt32.toNat = k.bits 0 32 := by
    rw [UInt64.toNat_toUInt32, bits]
    omega
  rw [name?, TableId.ofIndex?_eq_some_iff, hpart]

theorem ofPlaces_bits (k : MemberKey) :
    ofPlaces (k.bits 48 64) (k.bits 32 48) (k.bits 0 32) = k := by
  have hsum : k.bits 48 64 * 2 ^ 48 + k.bits 32 48 * 2 ^ 32 + k.bits 0 32 = k.word.toNat := by
    have hword := k.word.toNat_lt
    simp only [bits]
    omega
  rw [ofPlaces, hsum]
  show MemberKey.mk (UInt64.ofNat k.word.toNat) = k
  rw [UInt64.ofNat_toNat]

end Bits

/-! The parts of a word are the places it was packed from. -/

section Parts

variable {ns type name : Nat} (hns : ns < 2 ^ 16) (htype : type < 2 ^ 16) (hname : name < 2 ^ 32)
include hns htype hname

theorem toNat_ofPlaces :
    (ofPlaces ns type name).word.toNat = ns * 2 ^ 48 + type * 2 ^ 32 + name := by
  show (UInt64.ofNat (ns * 2 ^ 48 + type * 2 ^ 32 + name)).toNat = _
  rw [UInt64.toNat_ofNat_of_lt']
  show _ < 2 ^ 64
  omega

theorem ns?_ofPlaces {id : StringId} (hid : id.index.toNat = ns) :
    (ofPlaces ns type name).ns? = some id := by
  rw [ns?_eq_some_iff, bits, toNat_ofPlaces hns htype hname, hid]
  omega

theorem type?_ofPlaces {id : StringId} (hid : id.index.toNat = type) :
    (ofPlaces ns type name).type? = some id := by
  rw [type?_eq_some_iff, bits, toNat_ofPlaces hns htype hname, hid]
  omega

theorem name?_ofPlaces {id : StringId} (hid : id.index.toNat = name) :
    (ofPlaces ns type name).name? = some id := by
  rw [name?_eq_some_iff, bits, toNat_ofPlaces hns htype hname, hid]
  omega

end Parts

end MemberKey

/-! ## Signature words -/

namespace MethodSignature

theorem toNat_pack {s : MethodSignature} (h : s.argCount.toNat ≤ maxArgs) :
    s.pack.toUInt32.toNat = 2 * s.argCount.toNat + s.returnsValue.toNat := by
  have hflag : s.returnsValue.toNat < 2 ^ 1 := s.returnsValue.toNat_lt
  have hbit : (if s.returnsValue then (1 : UInt32) else 0).toNat = s.returnsValue.toNat := by
    cases s.returnsValue <;> rfl
  have hshift : (s.argCount <<< 1).toNat = s.argCount.toNat <<< 1 := by
    rw [maxArgs] at h
    rw [UInt32.toNat_shiftLeft]
    simp only [UInt32.reduceToNat, Nat.reduceMod, Nat.shiftLeft_eq]
    omega
  rw [pack, UInt32.toUInt32_toInt32, UInt32.toNat_or, hshift, hbit,
    ← Nat.shiftLeft_add_eq_or_of_lt hflag, Nat.shiftLeft_eq]
  omega

theorem toNat_argCount_unpack (word : Int32) :
    (unpack word).argCount.toNat = word.toUInt32.toNat / 2 := by
  show (word.toUInt32 >>> 1).toNat = _
  rw [UInt32.toNat_shiftRight]
  simp only [UInt32.reduceToNat, Nat.reduceMod, Nat.shiftRight_eq_div_pow, pow_one]

theorem toNat_returnsValue_unpack (word : Int32) :
    (unpack word).returnsValue.toNat = word.toUInt32.toNat % 2 := by
  have hbit : (word.toUInt32 &&& 1).toNat = word.toUInt32.toNat % 2 := by
    rw [UInt32.toNat_and, UInt32.toNat_one, Nat.and_one_is_mod]
  show (word.toUInt32 &&& 1 == 1).toNat = _
  rcases Nat.mod_two_eq_zero_or_one word.toUInt32.toNat with heven | hodd
  · have hzero : word.toUInt32 &&& 1 = 0 := UInt32.toNat_inj.mp (hbit.trans heven)
    rw [hzero, heven]
    rfl
  · have hone : word.toUInt32 &&& 1 = 1 := UInt32.toNat_inj.mp (hbit.trans hodd)
    rw [hone, hodd]
    rfl

theorem unpack_pack {s : MethodSignature} (h : s.argCount.toNat ≤ maxArgs) :
    unpack s.pack = s := by
  have hflag : s.returnsValue.toNat < 2 := s.returnsValue.toNat_lt
  have hargs : (unpack s.pack).argCount = s.argCount := by
    apply UInt32.toNat_inj.mp
    rw [toNat_argCount_unpack, toNat_pack h]
    omega
  have hreturns : (unpack s.pack).returnsValue = s.returnsValue := by
    rw [Bool.eq_iff_iff, ← Bool.toNat_eq_one, ← Bool.toNat_eq_one, toNat_returnsValue_unpack,
      toNat_pack h]
    omega
  calc unpack s.pack = ⟨(unpack s.pack).argCount, (unpack s.pack).returnsValue⟩ := rfl
    _ = s := by rw [hargs, hreturns]

end MethodSignature

end MethodPack.Packed
