import MethodPack.Packed.Module

/-! Looking things up in a decoded stream: table entries by place, places by entry,
members by reference word and methods by full name. -/
namespace MethodPack.Packed

/-- Cuts a text at the first occurrence of `mark`. -/
def cutFirst? (mark : List Char) : List Char → Option (List Char × List Char)
  | [] => if mark.isEmpty then some ([], []) else none
  | c :: rest =>
    if mark.isPrefixOf (c :: rest) then some ([], (c :: rest).drop mark.length)
    else (cutFirst? mark rest).map fun (before, behind) => (c :: before, behind)

/-- Cuts a text at the last occurrence of a character. -/
def cutLast? (mark : Char) : List Char → Option (List Char × List Char)
  | [] => none
  | c :: rest =>
    match cutLast? mark rest with
    | some (before, behind) => some (c :: before, behind)
    | none => if c = mark then some ([], rest) else none

/-- Splits a full name at its first `::`, and what stands before at its last point. A
type without a namespace has the empty one. -/
def splitFullName? (fullName : String) : Option (String × String × String) := do
  let (qualified, name) ← cutFirst? [':', ':'] fullName.toList
  let (ns, type) := (cutLast? '.' qualified).getD ([], qualified)
  return (.ofList ns, .ofList type, .ofList name)

namespace Module

/-- The string at a place. -/
def string? (m : Module) (id : StringId) : Option String := m.strings[id.position]?

/-- The place of a string, the first if there are several. -/
def findString? (m : Module) (s : String) : Option StringId := do
  TableId.ofPosition? (← m.strings.toList.idxOf? s)

/-- The blob at a place. -/
def blob? (m : Module) (id : BlobId) : Option (List UInt8) := m.blobs[id.position]?

/-- The words of four bytes that a blob consists of. -/
def blobWords (order : ByteOrder) : List UInt8 → List Int32
  | a :: b :: c :: d :: rest => order.decodeInt32 [a, b, c, d] :: blobWords order rest
  | _ => []

/-- The positions that a blob lists, if its size fits. -/
def switchTargets? (m : Module) (id : BlobId) : Option (List Int32) := do
  let blob ← m.blob? id
  if blob.length % switchTargetSize = 0 then some (blobWords m.order blob) else none

/-- The full name of a member, if all three parts of its word are in the table. -/
def memberName? (m : Module) (key : MemberKey) : Option String := do
  let ns ← m.string? (← key.ns?)
  let type ← m.string? (← key.type?)
  let name ← m.string? (← key.name?)
  return ns ++ "." ++ type ++ "::" ++ name

/-- The full name of a member, or its reference word if it has none. -/
def memberText (m : Module) (key : MemberKey) : String :=
  (m.memberName? key).getD ("<" ++ key.hex ++ ">")

/-- The reference word of a member, if all three parts are in the table and fit. -/
def memberKey? (m : Module) (ns type name : String) : Option MemberKey := do
  (MemberKey.pack (← m.findString? ns) (← m.findString? type) (← m.findString? name)).toOption

/-- The first method with the given full name. -/
def findMethod? (m : Module) (fullName : String) : Option MethodRecord := do
  let (ns, type, name) ← splitFullName? fullName
  let key ← m.memberKey? ns type name
  m.methods.find? fun r => r.key = key

end Module
end MethodPack.Packed
