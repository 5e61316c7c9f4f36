import MethodPack.Model.Instruction

/-! Method and type definitions, in declaration order. -/
namespace MethodPack

/-- The return type of a method that returns no value. -/
def voidType : String := "System.Void"

/-- A method and its decoded body; a method without a body has no instructions. -/
structure MethodDef where
  name : String
  genericParams : UInt32 := 0
  params : UInt32 := 0
  /-- Whether the method takes an implicit receiver. -/
  hasThis : Bool := false
  /-- The full name of the return type. -/
  returnType : String := voidType
  instructions : List Instruction := []
deriving DecidableEq, Repr

namespace MethodDef

/-- Generic parameters, declared parameters and the receiver, if there is one. -/
def argCount (m : MethodDef) : Nat :=
  m.genericParams.toNat + m.params.toNat + m.hasThis.toNat

def returnsValue (m : MethodDef) : Bool := m.returnType != voidType

/-- The method with the given number of declared parameters. -/
def withParams (m : MethodDef) (params : UInt32) : MethodDef := { m with params }

/-- The method with the given number of generic parameters. -/
def withGenericParams (m : MethodDef) (genericParams : UInt32) : MethodDef :=
  { m with genericParams }

/-- The method with a receiver. -/
def instanced (m : MethodDef) : MethodDef := { m with hasThis := true }

def returning (m : MethodDef) (returnType : String) : MethodDef := { m with returnType }

def withBody (m : MethodDef) (instructions : List Instruction) : MethodDef :=
  { m with instructions }

end MethodDef

/-- A type with its methods and its nested types. -/
structure TypeDef where
  ns : String
  name : String
  methods : List MethodDef := []
  nested : List TypeDef := []
deriving Repr

namespace TypeDef

/-- The type with one more method, behind the others. -/
def withMethod (t : TypeDef) (m : MethodDef) : TypeDef := { t with methods := t.methods ++ [m] }

/-- The type with one more nested type, behind the others. -/
def withNested (t n : TypeDef) : TypeDef := { t with nested := t.nested ++ [n] }

end TypeDef
end MethodPack
