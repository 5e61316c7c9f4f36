/-! The command line. It has two levels, the program and one of its commands, and each
level reads its own switches; only `--verbose` belongs to both. Every switch and every
value is judged when the next one is met, so that of two faults the one that is
complete first wins. -/
namespace MethodPack.Command

/-- What the program is asked to do. -/
inductive Task where
  | pack (metadata ns output : String)
  | dump (path : String)
  | members (path : String)
deriving DecidableEq, Repr

/-- A command line that asks for something. -/
structure Invocation where
  task : Task
  verbose : Bool
deriving DecidableEq, Repr

/-- Why a command line asks for nothing the program does. -/
inductive UsageFault where
  | nothingAsked
  | missingCommand
  | unknownCommand
  | helpAsked
  | missingRequired
  | unknownArgument
  /-- A switch is given twice at one level. -/
  | repeated
  /-- A value is missing, or a path is empty. -/
  | invalidValue
  /-- A switch without value is given one. -/
  | surplusValue
deriving DecidableEq, Repr

namespace UsageFault

/-- The exit status: asking for help is no failure. -/
def status : UsageFault → Nat
  | helpAsked => 0
  | _ => 2

def message : UsageFault → String
  | nothingAsked | missingCommand => "a command is missing"
  | unknownCommand => "the command is unknown"
  | helpAsked => "help"
  | missingRequired => "a required argument is missing"
  | unknownArgument => "an argument is not expected"
  | repeated => "an argument is given twice"
  | invalidValue => "a value is missing"
  | surplusValue => "a value is not expected"

end UsageFault

/-! ## Levels and their switches -/

/-- The commands. -/
inductive Level where
  | pack
  | dump
  | members
deriving DecidableEq, Repr

def Level.ofName? : String → Option Level
  | "export" => some pack
  | "dump" => some dump
  | "members" => some members
  | _ => none

/-- What a value is for. -/
inductive Slot where
  | path
  | ns
  | output
deriving DecidableEq, Repr

/-- What a switch does. -/
inductive Switch where
  | value (slot : Slot)
  | verbose
  | help
deriving DecidableEq, Repr

namespace Switch

/-- The switches that every level has, by their letter. -/
def common? : Char → Option Switch
  | 'v' => some verbose
  | 'h' => some help
  | _ => none

/-- The switch of a letter. The program itself has no level. -/
def ofLetter? : Option Level → Char → Option Switch
  | some .pack, 'n' => some (value .ns)
  | some .pack, 'o' => some (value .output)
  | _, c => common? c

/-- The letter of a long name. -/
def letter? : String → Option Char
  | "namespace" => some 'n'
  | "output" => some 'o'
  | "verbose" => some 'v'
  | "help" => some 'h'
  | _ => none

/-- The switch of a long name. Names are never cut short. -/
def ofName? (level : Option Level) (name : String) : Option Switch :=
  (letter? name).bind (ofLetter? level)

end Switch

/-! ## Words -/

/-- How a word of the command line looks. -/
inductive Shape where
  /-- Behind it every word is a value. -/
  | endOfSwitches
  | long (name : String) (value : Option String)
  | letters (cs : List Char)
  | plain
deriving DecidableEq, Repr

/-- The shape of a word. A single dash is plain. -/
def Shape.of (word : String) : Shape :=
  match word.toList with
  | ['-', '-'] => endOfSwitches
  | '-' :: '-' :: rest =>
    match rest.dropWhile (· != '=') with
    | [] => long (String.ofList rest) none
    | _ :: value => long (String.ofList (rest.takeWhile (· != '='))) (String.ofList value)
  | '-' :: c :: rest => letters (c :: rest)
  | _ => plain

/-! ## One level -/

/-- What one level has been given so far. The last value waits until something else
comes, and a switch may still wait for its value. -/
structure Draft where
  path : Option String := none
  ns : Option String := none
  output : Option String := none
  verbose : Bool := false
  pending : Option (Slot × Option String) := none
deriving DecidableEq, Repr

abbrev Reading := Except UsageFault

namespace Draft

def get? (d : Draft) : Slot → Option String
  | .path => d.path
  | .ns => d.ns
  | .output => d.output

def set (d : Draft) (slot : Slot) (value : String) : Draft :=
  match slot with
  | .path => { d with path := value }
  | .ns => { d with ns := value }
  | .output => { d with output := value }

/-- Keeps a value. Only a namespace may be empty. -/
def store (d : Draft) (slot : Slot) (value : String) : Reading Draft :=
  if (d.get? slot).isSome then .error .repeated
  else if slot ≠ .ns ∧ value = "" then .error .invalidValue
  else .ok (d.set slot value)

/-- Keeps the value that waits. -/
def settle (d : Draft) : Reading Draft :=
  match d.pending with
  | none => .ok d
  | some (_, none) => .error .invalidValue
  | some (slot, some value) => { d with pending := none }.store slot value

/-- Takes a switch, perhaps with a value on it. -/
def give (d : Draft) (switch : Switch) (value : Option String) : Reading Draft := do
  let d ← d.settle
  match switch, value with
  | .value slot, some value => d.store slot value
  | .value slot, none => return { d with pending := some (slot, none) }
  | .verbose, _ => if d.verbose then throw .repeated else return { d with verbose := true }
  | .help, _ => throw .helpAsked

/-- Takes a switch by its long name. -/
def long (level : Option Level) (d : Draft) (name : String) (value : Option String) :
    Reading Draft :=
  match Switch.ofName? level name, value with
  | none, _ => .error .unknownArgument
  | some (.value slot), value => d.give (.value slot) value
  | some _, some _ => .error .surplusValue
  | some switch, none => d.give switch none

/-- Takes switches by their letters. The first that takes a value gets the rest of the
letters as its value, with or without an equals sign before them. -/
def letters (level : Option Level) (d : Draft) : List Char → Reading Draft
  | [] => .ok d
  | c :: rest =>
    match Switch.ofLetter? level c with
    | none => .error .unknownArgument
    | some (.value slot) =>
      match rest with
      | [] => d.give (.value slot) none
      | '=' :: value => d.give (.value slot) (String.ofList value)
      | value => d.give (.value slot) (String.ofList value)
    | some switch => do letters level (← d.give switch none) rest

/-- Takes a value without switch. There is one at most. -/
def positional (d : Draft) (value : String) : Reading Draft := do
  if d.path.isSome ∨ d.pending.any (·.1 = .path) then throw .unknownArgument
  let d ← d.settle
  return { d with pending := some (.path, some value) }

/-- Takes a word that is no switch: the value of the switch that waits for one, or a
value of its own. -/
def plain (d : Draft) (word : String) : Reading Draft :=
  match d.pending with
  | some (slot, none) => .ok { d with pending := some (slot, some word) }
  | _ => d.positional word

end Draft

/-- Reads the words behind a command. -/
def readWords (level : Level) (d : Draft) : List String → Reading Draft
  | [] => d.settle
  | word :: rest =>
    match Shape.of word with
    | .endOfSwitches => do (← rest.foldlM Draft.positional d).settle
    | .long name value => do readWords level (← d.long (some level) name value) rest
    | .letters cs => do readWords level (← d.letters (some level) cs) rest
    | .plain => do readWords level (← d.plain word) rest

/-- A value that must be given. -/
def required : Option String → Reading String
  | some value => .ok value
  | none => .error .missingRequired

/-- The file a stream goes to unless another one is named. -/
def defaultOutput : String := "out.bin"

/-- The task of a command and its words. -/
def Draft.task (level : Level) (d : Draft) : Reading Task := do
  let path ← required d.path
  match level with
  | .pack => return .pack path (← required d.ns) (d.output.getD defaultOutput)
  | .dump => return .dump path
  | .members => return .members path

/-! ## The program -/

/-- Help is asked for; it can be asked for one command, or for help itself. -/
def helpOn : List String → UsageFault
  | [] => .helpAsked
  | [name] => if (Level.ofName? name).isSome ∨ name = "help" then .helpAsked else .unknownCommand
  | _ => .unknownCommand

/-- The fault of a command line that ends before a command. -/
def noCommand (d : Draft) : UsageFault := if d.verbose then .missingCommand else .nothingAsked

/-- The fault of words that cannot name a command because switches have been ended. -/
def behindEnd (d : Draft) : List String → UsageFault
  | [] => noCommand d
  | word :: _ =>
    if (Level.ofName? word).isSome ∨ word = "help" then .unknownArgument else .unknownCommand

/-- Reads a command line from the program's own switches on. -/
def readProgram (d : Draft) : List String → Reading Invocation
  | [] => .error (noCommand d)
  | word :: rest =>
    match Level.ofName? word with
    | some level => do
      let inner ← readWords level {} rest
      return ⟨← inner.task level, d.verbose || inner.verbose⟩
    | none =>
      if word = "help" then .error (helpOn rest)
      else match Shape.of word with
        | .endOfSwitches => .error (behindEnd d rest)
        | .long name value => do readProgram (← d.long none name value) rest
        | .letters cs => do readProgram (← d.letters none cs) rest
        | .plain => .error .unknownCommand

/-- Reads the words behind the program's name. -/
def Invocation.ofArguments (words : List String) : Reading Invocation := readProgram {} words

end MethodPack.Command
