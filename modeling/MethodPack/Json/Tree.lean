import MethodPack.Json.Numeral

/-! JSON documents as trees that keep the first fault of their text in its place.
Everything before the fault is in the tree, nothing after it, so that a visitor in
document order meets a fault exactly when a reader of the text would. -/
namespace MethodPack.Json

/-- Why a text stops being JSON. -/
inductive Fault where
  /-- Some character cannot stand where it stands. -/
  | malformed
  /-- The text ends too early. -/
  | endOfText
deriving DecidableEq, Repr, Inhabited

/-- One unit of a string: a character, or the sixteen bits of a numeric escape. -/
inductive TextUnit where
  | char (c : Char)
  | escape (bits : UInt16)
deriving DecidableEq, Repr, Inhabited

/-- A string as written, with the fault that ends it, if any. -/
structure Text where
  units : List TextUnit
  fault : Option Fault := none
deriving DecidableEq, Repr, Inhabited

namespace Text

def ofString (s : String) : Text := ⟨s.toList.map .char, none⟩

/-- Whether sixteen bits are the first half of a surrogate pair. -/
def isLeading (u : UInt16) : Bool := 0xd800 ≤ u && u ≤ 0xdbff

/-- Whether sixteen bits are the second half of a surrogate pair. -/
def isTrailing (u : UInt16) : Bool := 0xdc00 ≤ u && u ≤ 0xdfff

/-- The character of a surrogate pair. -/
def joinPair (lead trail : UInt16) : Char :=
  Char.ofNat (0x10000 + (lead.toNat - 0xd800) * 0x400 + (trail.toNat - 0xdc00))

/-- The characters of a list of units. Half a surrogate pair on its own is malformed
unless the text ends right behind a first half. -/
def decodeUnits (fault : Option Fault) : List TextUnit → Except Fault (List Char)
  | [] => match fault with
    | none => .ok []
    | some f => .error f
  | .char c :: rest => (decodeUnits fault rest).map (c :: ·)
  | .escape u :: rest =>
    if isTrailing u then .error .malformed
    else if isLeading u then
      match rest with
      | .escape v :: rest =>
        if isTrailing v then (decodeUnits fault rest).map (joinPair u v :: ·)
        else .error .malformed
      | .char _ :: _ => .error .malformed
      | [] => .error (fault.getD .malformed)
    else (decodeUnits fault rest).map (Char.ofNat u.toNat :: ·)

/-- The string that is written. -/
def decode (t : Text) : Except Fault String := (decodeUnits t.fault t.units).map String.ofList

/-- The fault a reader meets that passes over the string. -/
def skip (t : Text) : Except Fault Unit :=
  match t.fault with
  | none => .ok ()
  | some fault => .error fault

end Text

mutual

/-- A value, or the fault that stands in its place. -/
inductive Node where
  | null
  | bool (value : Bool)
  | number (numeral : Numeral)
  /-- A numeral cut short by the end of the text. -/
  | cutNumeral
  | string (text : Text)
  | array (items : Items)
  | object (members : Members)
  | broken (fault : Fault)

/-- The items of an array, and the fault in place of its end, if any. -/
inductive Items where
  | done (fault : Option Fault)
  | cons (head : Node) (tail : Items)

/-- The members of an object in order, and the fault in place of its end, if any. -/
inductive Members where
  | done (fault : Option Fault)
  | cons (key : Text) (value : Node) (tail : Members)

end

instance : Inhabited Node := ⟨.null⟩
instance : Inhabited Items := ⟨.done none⟩
instance : Inhabited Members := ⟨.done none⟩

/-- The items of a list, with a given end. -/
def Items.ofList (nodes : List Node) (fault : Option Fault := none) : Items :=
  nodes.foldr .cons (.done fault)

/-- The members of a list, with a given end. -/
def Members.ofList (members : List (Text × Node)) (fault : Option Fault := none) : Members :=
  members.foldr (fun m rest => .cons m.1 m.2 rest) (.done fault)

/-- How many items there are. -/
def Items.length : Items → Nat
  | done _ => 0
  | cons _ tail => tail.length + 1

/-! ## Skipping

A value nobody asks for is only checked for its shape: numerals of any size,
unpaired surrogates and any depth are fine. -/

mutual

/-- The first fault a reader meets that passes over the value. -/
def Node.skip : Node → Except Fault Unit
  | .null | .bool _ | .number _ => .ok ()
  | .cutNumeral => .error .malformed
  | .string text => text.skip
  | .array items => items.skip
  | .object members => members.skip
  | .broken fault => .error fault

def Items.skip : Items → Except Fault Unit
  | .done none => .ok ()
  | .done (some fault) => .error fault
  | .cons head tail => do head.skip; tail.skip

def Members.skip : Members → Except Fault Unit
  | .done none => .ok ()
  | .done (some fault) => .error fault
  | .cons key value tail => do key.skip; value.skip; tail.skip

end

end MethodPack.Json
