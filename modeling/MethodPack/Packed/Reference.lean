import MethodPack.Number.Digits

/-! Places in the trailer tables, the word that packs three of them into the
reference to a member, and the word of a method's signature. -/
namespace MethodPack.Packed

/-- The trailer tables. -/
inductive Table where
  | string
  | blob
deriving DecidableEq, Repr

/-- A place in a table, counted from one. -/
structure TableId (table : Table) where
  index : UInt32
  index_ne_zero : index ≠ 0
deriving DecidableEq, Repr

abbrev StringId := TableId .string

abbrev BlobId := TableId .blob

namespace TableId

/-- The place with the given number; zero means there is none. -/
def ofIndex? (index : UInt32) : Option (TableId table) :=
  if h : index = 0 then none else some ⟨index, h⟩

/-- The place of the entry at a position counted from zero that is not too far. -/
def atPosition (position : Nat) (h : position + 1 < 0x100000000) : TableId table where
  index := .ofNatLT (position + 1) h
  index_ne_zero := by simp [← UInt32.toNat_inj]; omega

/-- The place of the entry at a position counted from zero. -/
def ofPosition? (position : Nat) : Option (TableId table) :=
  if h : position + 1 < 0x100000000 then some (atPosition position h) else none

/-- The position of the entry, counted from zero. -/
def position (id : TableId table) : Nat := id.index.toNat - 1

end TableId

/-- A part of a reference word that has only 16 bits. -/
inductive KeyPart where
  | ns
  | type
deriving DecidableEq, Repr

def KeyPart.text : KeyPart → String
  | ns => "namespace"
  | type => "type"

/-- A place in the string table that does not fit its part of a reference word. -/
structure KeyOverflow where
  part : KeyPart
  index : UInt32
deriving DecidableEq, Repr

def KeyOverflow.message (e : KeyOverflow) : String :=
  e.part.text ++ " string index " ++ Number.decimal e.index.toNat ++ " does not fit in 16 bits"

/-- A reference word: 16 bits for the namespace, 16 for the declaring type and 32 for
the name, each a place in the string table. -/
structure MemberKey where
  word : UInt64
deriving DecidableEq, Repr, Inhabited

namespace MemberKey

/-- A place as a part of 16 bits. -/
def narrow (part : KeyPart) (id : StringId) : Except KeyOverflow UInt64 :=
  if id.index.toNat < 0x10000 then .ok id.index.toUInt64 else .error ⟨part, id.index⟩

/-- Packs three places; the namespace is checked first. -/
def pack (ns type name : StringId) : Except KeyOverflow MemberKey := do
  let ns ← narrow .ns ns
  let type ← narrow .type type
  return ⟨(ns <<< 48) ||| (type <<< 32) ||| name.index.toUInt64⟩

def ns? (k : MemberKey) : Option StringId := TableId.ofIndex? (k.word >>> 48).toUInt32

def type? (k : MemberKey) : Option StringId :=
  TableId.ofIndex? ((k.word >>> 32) &&& 0xffff).toUInt32

def name? (k : MemberKey) : Option StringId := TableId.ofIndex? k.word.toUInt32

/-- The word in sixteen hexadecimal digits. -/
def hex (k : MemberKey) : String := "0x" ++ Number.paddedHex 16 k.word.toNat

end MemberKey

/-- The argument count of a method and whether it returns a value. -/
structure MethodSignature where
  argCount : UInt32
  returnsValue : Bool
deriving DecidableEq, Repr

namespace MethodSignature

/-- The largest argument count whose word is not negative. -/
def maxArgs : Nat := 0x3fffffff

/-- The word of a signature: the count above the lowest bit, which is the flag. -/
def pack (s : MethodSignature) : Int32 :=
  ((s.argCount <<< 1) ||| (if s.returnsValue then 1 else 0)).toInt32

def unpack (word : Int32) : MethodSignature :=
  ⟨word.toUInt32 >>> 1, word.toUInt32 &&& 1 == 1⟩

end MethodSignature
end MethodPack.Packed
