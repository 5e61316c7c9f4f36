/-! References to types and to their members, and the two strings that name a
type: the namespace of its outermost enclosing type and the path of names from
that type inward. -/
namespace MethodPack

/-- A type, by its name and the types that enclose it. A nested type may report a
namespace of its own, which does not count. -/
inductive TypeRef where
  | outermost (ns name : String)
  | nested (ns name : String) (declaring : TypeRef)
deriving DecidableEq, Repr, Inhabited

namespace TypeRef

/-- The namespace the type reports for itself. -/
def ns : TypeRef → String
  | outermost ns _ => ns
  | nested ns _ _ => ns

def name : TypeRef → String
  | outermost _ name => name
  | nested _ name _ => name

/-- The directly enclosing type. -/
def declaring? : TypeRef → Option TypeRef
  | outermost .. => none
  | nested _ _ declaring => some declaring

/-- A type nested in `declaring`, which reports no namespace. -/
def nestedIn (declaring : TypeRef) (name : String) : TypeRef := nested "" name declaring

/-- The names from the type outward. -/
def chain : TypeRef → List String
  | outermost _ name => [name]
  | nested _ name declaring => name :: declaring.chain

/-- The namespace of the outermost enclosing type. -/
def rootNs : TypeRef → String
  | outermost ns _ => ns
  | nested _ _ declaring => declaring.rootNs

end TypeRef

/-- A declaring type by the two strings a reference word names it with. -/
structure QualifiedType where
  ns : String
  /-- The names from the outermost type inward, with a slash between them. -/
  path : String
deriving DecidableEq, Repr, Inhabited

namespace QualifiedType

/-- The full name of a member of the type. -/
def memberName (t : QualifiedType) (member : String) : String :=
  t.ns ++ "." ++ t.path ++ "::" ++ member

end QualifiedType

/-- The two strings that name a type. -/
def TypeRef.qualify (t : TypeRef) : QualifiedType :=
  ⟨t.rootNs, "/".intercalate t.chain.reverse⟩

/-- A field, method or type that an instruction refers to. -/
structure MemberRef where
  declaring : TypeRef
  name : String
deriving DecidableEq, Repr, Inhabited

/-- The reference to a type itself: a nested type is a member of the type that
encloses it, and an outermost type its own member with the empty name. -/
def MemberRef.ofType : TypeRef → MemberRef
  | .outermost ns name => ⟨.outermost ns name, ""⟩
  | .nested _ name declaring => ⟨declaring, name⟩

end MethodPack
