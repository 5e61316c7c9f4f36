import MethodPack.Json.Scan

/-! Settled trees: values read as a whole. A settled tree has no faults, its strings
are plain characters, its numerals stand for numbers, and each object has its keys
in ascending order, without repetition. -/
namespace MethodPack.Json

/-- The most containers that may be open at once. -/
def maxDepth : Nat := 127

namespace Members

/-- The value of a key among members with plain keys. -/
def find? (key : String) : Members → Option Node
  | .done _ => none
  | .cons k value tail => if k = Text.ofString key then some value else tail.find? key

/-- Puts a member into its place by key order; it replaces a member of the same key. -/
def insert (key : String) (value : Node) : Members → Members
  | .done fault => .cons (.ofString key) value (.done fault)
  | .cons k v tail =>
    match k.decode with
    | .error _ => .cons k v tail
    | .ok k' =>
      if key < k' then .cons (.ofString key) value (.cons k v tail)
      else if key = k' then .cons k value tail
      else .cons k v (tail.insert key value)

end Members

mutual

/-- Reads a value as a whole while no more than `room` containers are open at once. -/
def Node.settle (room : Nat) : Node → Except Fault Node
  | .null => .ok .null
  | .bool b => .ok (.bool b)
  | .number n => if n.value?.isSome then .ok (.number n) else .error .malformed
  | .cutNumeral => .error .endOfText
  | .string text => do return .string (.ofString (← text.decode))
  | .array items =>
    match room with
    | 0 => .error .malformed
    | room + 1 => do return .array (← items.settle room)
  | .object members =>
    match room with
    | 0 => .error .malformed
    | room + 1 => do return .object (← members.settle room (.done none))
  | .broken fault => .error fault

def Items.settle (room : Nat) : Items → Except Fault Items
  | .done none => .ok (.done none)
  | .done (some fault) => .error fault
  | .cons head tail => do
    let head ← head.settle room
    return .cons head (← tail.settle room)

/-- Reads members in document order into the settled members `into`. -/
def Members.settle (room : Nat) : Members → (into : Members) → Except Fault Members
  | .done none, into => .ok into
  | .done (some fault), _ => .error fault
  | .cons key value tail, into => do
    let key ← key.decode
    let value ← value.settle room
    tail.settle room (into.insert key value)

end

/-- Reads a whole text as one value. -/
def Document.settle (d : Document) : Except Fault Node := do
  let node ← d.root.settle maxDepth
  if d.trailing then .error .malformed else return node

end MethodPack.Json
