/-! Words as bytes, in either order. -/
namespace MethodPack.Packed

/-- The order of the bytes of every word in a stream. -/
inductive ByteOrder where
  | little
  | big
deriving DecidableEq, Repr, Inhabited

/-- The lowest `width` bytes of a number, lowest first. -/
def lowBytes : (width : Nat) → Nat → List UInt8
  | 0, _ => []
  | width + 1, n => n.toUInt8 :: lowBytes width (n / 256)

/-- The number whose bytes are given, lowest first. -/
def ofLowBytes : List UInt8 → Nat
  | [] => 0
  | b :: bytes => b.toNat + 256 * ofLowBytes bytes

namespace ByteOrder

/-- A number as a word of `width` bytes. -/
def encode (order : ByteOrder) (width n : Nat) : List UInt8 :=
  match order with
  | little => lowBytes width n
  | big => (lowBytes width n).reverse

/-- The number that a word stands for. -/
def decode (order : ByteOrder) (bytes : List UInt8) : Nat :=
  match order with
  | little => ofLowBytes bytes
  | big => ofLowBytes bytes.reverse

def encode16 (order : ByteOrder) (n : UInt16) : List UInt8 := order.encode 2 n.toNat

def encode64 (order : ByteOrder) (n : UInt64) : List UInt8 := order.encode 8 n.toNat

/-- A signed word of four bytes, as its two's complement. -/
def encodeInt32 (order : ByteOrder) (n : Int32) : List UInt8 := order.encode 4 n.toUInt32.toNat

def decode16 (order : ByteOrder) (bytes : List UInt8) : UInt16 := (order.decode bytes).toUInt16

def decode64 (order : ByteOrder) (bytes : List UInt8) : UInt64 := (order.decode bytes).toUInt64

def decodeInt32 (order : ByteOrder) (bytes : List UInt8) : Int32 :=
  (order.decode bytes).toUInt32.toInt32

end ByteOrder

/-- The format version, the first word of every stream. -/
def version : UInt16 := 1

/-- The size of an operand field. -/
def operandSize : Nat := 8

/-- The size of an opcode byte and its operand field. -/
def instructionSize : Nat := 1 + operandSize

/-- The size of a position in a switch blob. -/
def switchTargetSize : Nat := 4

/-- The byte order in which two bytes are the version marker. -/
def ByteOrder.detect? (marker : List UInt8) : Option ByteOrder :=
  [little, big].find? fun order => order.decode16 marker == version

end MethodPack.Packed
