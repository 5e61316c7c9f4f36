import MethodPack.Json.Tree

/-! Scanning a text into a tree. The scanner is a machine that takes one character
at a time: a mode says what may stand next, and a stack of frames holds the
containers still open. A fault closes every open container and ends the scan. -/
namespace MethodPack.Json

/-- A scanned text: its value, and whether something other than blanks follows it. -/
structure Document where
  root : Node
  trailing : Bool

namespace Scan

/-- A container still open. What it holds so far is kept last first. -/
inductive Frame where
  | array (items : List Node)
  /-- An object that waits for the value of `key`. -/
  | object (members : List (Text × Node)) (key : Text)

/-- Where in a numeral the scan is. -/
inductive NumeralStage where
  | sign
  | zero
  | whole
  | point
  | fraction
  | exponentMark
  | exponentSign
  | exponent
deriving DecidableEq, Repr

/-- A numeral in the making, its digits last first. -/
structure Draft where
  stage : NumeralStage
  negative : Bool := false
  whole : List Nat := []
  fraction : List Nat := []
  down : Bool := false
  exponent : List Nat := []

/-- Where in a string the scan is. -/
inductive StringStage where
  | plain
  /-- Behind a backslash. -/
  | escape
  /-- Among the four bytes of a numeric escape: how many are read, and their value
  unless one is no hexadecimal digit. -/
  | hex (bytes : Nat) (value : Option Nat)
deriving DecidableEq, Repr

/-- Whether a string is a value or the key of a member behind the given ones. -/
inductive StringRole where
  | value
  | key (members : List (Text × Node))

/-- What may stand next. -/
inductive Mode where
  | value
  /-- A value or the end of an array that is still empty. -/
  | firstItem
  /-- A comma or the end of the array on top of the stack. -/
  | nextItem
  /-- A key or the end of an object that is still empty. -/
  | firstKey
  /-- A key, behind a comma. -/
  | key (members : List (Text × Node))
  | colon (members : List (Text × Node)) (key : Text)
  /-- A comma or the end of an object. -/
  | nextMember (members : List (Text × Node))
  /-- The rest of a literal name. -/
  | word (rest : List Char) (node : Node)
  | numeral (draft : Draft)
  | string (role : StringRole) (stage : StringStage) (units : List TextUnit)
  /-- Blanks behind the document. -/
  | finished (root : Node)
  /-- Nothing: the scan is over. -/
  | stopped (document : Document)

/-- The mode and the open containers, innermost first. -/
structure State where
  mode : Mode
  stack : List Frame

def isBlank (c : Char) : Bool := c == ' ' || c == '\n' || c == '\t' || c == '\r'

/-! ## Values and faults -/

/-- Goes on behind a complete value. -/
def deliver (node : Node) : List Frame → State
  | [] => ⟨.finished node, []⟩
  | .array items :: stack => ⟨.nextItem, .array (node :: items) :: stack⟩
  | .object members key :: stack => ⟨.nextMember ((key, node) :: members), stack⟩

/-- The root of a document whose innermost value is `node`, the last one read. -/
def closeAll (fault : Fault) (node : Node) : List Frame → Node
  | [] => node
  | .array items :: stack =>
    closeAll fault (.array (.ofList (node :: items).reverse fault)) stack
  | .object members key :: stack =>
    closeAll fault (.object (.ofList ((key, node) :: members).reverse fault)) stack

/-- The root of a document in which `fault` stands where the mode is. -/
def rootWith (fault : Fault) : Mode → List Frame → Node
  | .nextItem, .array items :: stack => closeAll fault (.array (.ofList items.reverse fault)) stack
  | .firstItem, .array items :: stack => closeAll fault (.array (.ofList items.reverse fault)) stack
  | .firstKey, stack => closeAll fault (.object (.done fault)) stack
  | .key members, stack | .nextMember members, stack =>
    closeAll fault (.object (.ofList members.reverse fault)) stack
  | .colon members key, stack => closeAll fault (.broken fault) (.object members key :: stack)
  | .string .value _ units, stack => closeAll fault (.string ⟨units.reverse, fault⟩) stack
  | .string (.key members) _ units, stack =>
    closeAll fault (.broken fault) (.object members ⟨units.reverse, fault⟩ :: stack)
  | .numeral _, stack =>
    closeAll fault (if fault = .endOfText then .cutNumeral else .broken fault) stack
  | .finished root, _ => root
  | .stopped document, _ => document.root
  | _, stack => closeAll fault (.broken fault) stack

/-- Ends the scan with a fault. -/
def fail (fault : Fault) (s : State) : State :=
  ⟨.stopped ⟨rootWith fault s.mode s.stack, false⟩, []⟩

/-! ## Numerals -/

def digit? (c : Char) : Option Nat := if c.isDigit then some (c.toNat - '0'.toNat) else none

/-- What a character does to a numeral. -/
inductive Extension where
  | more (draft : Draft)
  /-- The numeral ends before the character. -/
  | ended
  | malformed

/-- The draft with the exponent mark behind it, if the character is one. -/
def Draft.mark (d : Draft) (c : Char) : Extension :=
  if c == 'e' || c == 'E' then .more { d with stage := .exponentMark } else .ended

def Draft.extend (d : Draft) (c : Char) : Extension :=
  match d.stage, digit? c with
  | .sign, some 0 => .more { d with stage := .zero, whole := [0] }
  | .sign, some n => .more { d with stage := .whole, whole := [n] }
  | .sign, none => .malformed
  | .zero, some _ => .malformed
  | .zero, none => if c == '.' then .more { d with stage := .point } else d.mark c
  | .whole, some n => .more { d with whole := n :: d.whole }
  | .whole, none => if c == '.' then .more { d with stage := .point } else d.mark c
  | .point, some n => .more { d with stage := .fraction, fraction := [n] }
  | .point, none => .malformed
  | .fraction, some n => .more { d with fraction := n :: d.fraction }
  | .fraction, none => d.mark c
  | .exponentMark, some n => .more { d with stage := .exponent, exponent := [n] }
  | .exponentMark, none =>
    if c == '+' then .more { d with stage := .exponentSign }
    else if c == '-' then .more { d with stage := .exponentSign, down := true }
    else .malformed
  | .exponentSign, some n => .more { d with stage := .exponent, exponent := [n] }
  | .exponentSign, none => .malformed
  | .exponent, some n => .more { d with exponent := n :: d.exponent }
  | .exponent, none => .ended

/-- The numeral, if it may end here. -/
def Draft.numeral? (d : Draft) : Option Numeral :=
  match d.stage with
  | .zero | .whole => some ⟨d.negative, d.whole.reverse, [], none⟩
  | .fraction => some ⟨d.negative, d.whole.reverse, d.fraction.reverse, none⟩
  | .exponent =>
    some ⟨d.negative, d.whole.reverse, d.fraction.reverse, some (d.down, d.exponent.reverse)⟩
  | _ => none

/-! ## Strings -/

def hexDigit? (c : Char) : Option Nat :=
  if '0' ≤ c && c ≤ '9' then some (c.toNat - '0'.toNat)
  else if 'a' ≤ c && c ≤ 'f' then some (c.toNat - 'a'.toNat + 10)
  else if 'A' ≤ c && c ≤ 'F' then some (c.toNat - 'A'.toNat + 10)
  else none

/-- The character of a short escape. -/
def shortEscape? (c : Char) : Option Char :=
  match c with
  | '"' => some '"'
  | '\\' => some '\\'
  | '/' => some '/'
  | 'b' => some '\x08'
  | 'f' => some '\x0c'
  | 'n' => some '\n'
  | 'r' => some '\r'
  | 't' => some '\t'
  | _ => none

/-- Goes on behind a complete string. -/
def closeString (role : StringRole) (units : List TextUnit) (stack : List Frame) : State :=
  match role with
  | .value => deliver (.string ⟨units.reverse, none⟩) stack
  | .key members => ⟨.colon members ⟨units.reverse, none⟩, stack⟩

/-- A character inside a string. A numeric escape takes four bytes before it is
judged, so that one the text cuts short ends early rather than being malformed. -/
def stringStep (c : Char) (role : StringRole) (stage : StringStage) (units : List TextUnit)
    (stack : List Frame) : State :=
  let stay (stage : StringStage) (units : List TextUnit) : State :=
    ⟨.string role stage units, stack⟩
  let here : State := ⟨.string role stage units, stack⟩
  match stage with
  | .plain =>
    if c == '"' then closeString role units stack
    else if c == '\\' then stay .escape units
    else if c.toNat < 0x20 then fail .malformed here
    else stay .plain (.char c :: units)
  | .escape =>
    if c == 'u' then stay (.hex 0 (some 0)) units
    else match shortEscape? c with
      | some e => stay .plain (.char e :: units)
      | none => fail .malformed here
  | .hex bytes value =>
    let bytes := bytes + c.utf8Size
    let value := value.bind fun v => (hexDigit? c).map (v * 16 + ·)
    if bytes < 4 then stay (.hex bytes value) units
    else match value with
      | some v => stay .plain (.escape v.toUInt16 :: units)
      | none => fail .malformed here

/-! ## Steps -/

/-- The first character of a value. -/
def valueStep (c : Char) (mode : Mode) (stack : List Frame) : State :=
  match c with
  | '{' => ⟨.firstKey, stack⟩
  | '[' => ⟨.firstItem, .array [] :: stack⟩
  | '"' => ⟨.string .value .plain [], stack⟩
  | 'n' => ⟨.word ['u', 'l', 'l'] .null, stack⟩
  | 't' => ⟨.word ['r', 'u', 'e'] (.bool true), stack⟩
  | 'f' => ⟨.word ['a', 'l', 's', 'e'] (.bool false), stack⟩
  | '-' => ⟨.numeral { stage := .sign, negative := true }, stack⟩
  | c =>
    match (Draft.mk .sign false [] [] false []).extend c with
    | .more draft => ⟨.numeral draft, stack⟩
    | _ => fail .malformed ⟨match mode with | .firstItem => .value | m => m, stack⟩

/-- A character outside of strings and numerals that is no blank. -/
def markStep (c : Char) (s : State) : State :=
  match s.mode, s.stack with
  | .value, stack => valueStep c .value stack
  | .firstItem, .array items :: stack =>
    if c == ']' then deliver (.array (.ofList items.reverse)) stack
    else valueStep c .firstItem s.stack
  | .nextItem, .array items :: stack =>
    if c == ']' then deliver (.array (.ofList items.reverse)) stack
    else if c == ',' then ⟨.value, s.stack⟩
    else fail .malformed s
  | .firstKey, stack =>
    if c == '}' then deliver (.object (.done none)) stack
    else if c == '"' then ⟨.string (.key []) .plain [], stack⟩
    else fail .malformed s
  | .key members, stack =>
    if c == '"' then ⟨.string (.key members) .plain [], stack⟩ else fail .malformed s
  | .colon members key, stack =>
    if c == ':' then ⟨.value, .object members key :: stack⟩ else fail .malformed s
  | .nextMember members, stack =>
    if c == '}' then deliver (.object (.ofList members.reverse)) stack
    else if c == ',' then ⟨.key members, stack⟩
    else fail .malformed s
  | .finished root, _ => ⟨.stopped ⟨root, true⟩, []⟩
  | _, _ => s

/-- A character outside of strings and numerals. -/
def blankOrMark (c : Char) (s : State) : State := if isBlank c then s else markStep c s

/-- Takes one character. -/
def step (s : State) (c : Char) : State :=
  match s.mode with
  | .stopped _ => s
  | .string role stage units => stringStep c role stage units s.stack
  | .word [] node => blankOrMark c (deliver node s.stack)
  | .word [w] node => if c == w then deliver node s.stack else fail .malformed s
  | .word (w :: rest) node => if c == w then ⟨.word rest node, s.stack⟩ else fail .malformed s
  | .numeral draft =>
    match draft.extend c with
    | .more draft => ⟨.numeral draft, s.stack⟩
    | .malformed => fail .malformed s
    | .ended =>
      match draft.numeral? with
      | some numeral => blankOrMark c (deliver (.number numeral) s.stack)
      | none => fail .malformed s
  | _ => blankOrMark c s

/-- The document of a text that ends in the given state. -/
def finish (s : State) : Document :=
  let s := match s.mode with
    | .numeral draft =>
      match draft.numeral? with
      | some numeral => deliver (.number numeral) s.stack
      | none => s
    | _ => s
  match s.mode with
  | .finished root => ⟨root, false⟩
  | .stopped document => document
  | mode => ⟨rootWith .endOfText mode s.stack, false⟩

/-- The state before the first character. -/
def start : State := ⟨.value, []⟩

end Scan

/-- Scans a text. -/
def Document.scan (text : String) : Document :=
  Scan.finish (text.toList.foldl Scan.step Scan.start)

end MethodPack.Json
