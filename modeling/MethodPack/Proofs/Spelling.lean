import Mathlib.Tactic.IntervalCases
import MethodPack.Metadata.Decode

/-!
# Spelling

The grammar of JSON (RFC 8259) as a relation between a tree and the characters it may be
written with, blanks included. The scanner reads every text of the grammar as the tree it is
written from, without a fault (`Document.scan_of_spelled`); the grammar is stated without the
scanner, production by production.
-/

namespace MethodPack.Json

/-! ## The grammar -/

/-- Characters that may stand between tokens. -/
def Blank (cs : List Char) : Prop := ∀ c ∈ cs, c ∈ [' ', '\t', '\n', '\r']

/-- Characters with a short escape, and the letter that stands for them. -/
def shortEscapes : List (Char × Char) :=
  [('"', '"'), ('\\', '\\'), ('/', '/'), ('\x08', 'b'), ('\x0c', 'f'), ('\n', 'n'), ('\r', 'r'),
    ('\t', 't')]

def lowerDigits : List Char :=
  ['0', '1', '2', '3', '4', '5', '6', '7', '8', '9', 'a', 'b', 'c', 'd', 'e', 'f']

def upperDigits : List Char :=
  ['0', '1', '2', '3', '4', '5', '6', '7', '8', '9', 'A', 'B', 'C', 'D', 'E', 'F']

/-- The character is the hexadecimal digit of the value. -/
def HexDigit (c : Char) (value : Nat) : Prop :=
  lowerDigits[value]? = some c ∨ upperDigits[value]? = some c

/-- The ways to write one unit of a string. -/
inductive TextUnit.Spelled : TextUnit → List Char → Prop
  | plain {c : Char} (hlow : 0x20 ≤ c.toNat) (hquote : c ≠ '"') (hback : c ≠ '\\') :
    Spelled (.char c) [c]
  | short {c letter : Char} (h : (c, letter) ∈ shortEscapes) : Spelled (.char c) ['\\', letter]
  | numeric {a b c d : Char} {w x y z : Nat} (ha : HexDigit a w) (hb : HexDigit b x)
      (hc : HexDigit c y) (hd : HexDigit d z) :
    Spelled (.escape (((w * 16 + x) * 16 + y) * 16 + z).toUInt16) ['\\', 'u', a, b, c, d]

inductive UnitsSpelled : List TextUnit → List Char → Prop
  | nil : UnitsSpelled [] []
  | cons {unit : TextUnit} {units : List TextUnit} {cs ds : List Char} (hunit : unit.Spelled cs)
      (hrest : UnitsSpelled units ds) : UnitsSpelled (unit :: units) (cs ++ ds)

/-- A string between its quotation marks. -/
inductive Text.Spelled : Text → List Char → Prop
  | quoted {units : List TextUnit} {cs : List Char} (h : UnitsSpelled units cs) :
    Spelled ⟨units, none⟩ ('"' :: (cs ++ ['"']))

def Digits (ds : List Nat) : Prop := ∀ d ∈ ds, d < 10

def digitChars (ds : List Nat) : List Char := ds.map Nat.digitChar

/-- The digits before the point: a zero alone, or digits that start with another one. -/
inductive WholeSpelled : List Nat → List Char → Prop
  | zero : WholeSpelled [0] ['0']
  | digits {d : Nat} {ds : List Nat} (hpos : d ≠ 0) (h : Digits (d :: ds)) :
    WholeSpelled (d :: ds) (digitChars (d :: ds))

inductive FractionSpelled : List Nat → List Char → Prop
  | absent : FractionSpelled [] []
  | point {d : Nat} {ds : List Nat} (h : Digits (d :: ds)) :
    FractionSpelled (d :: ds) ('.' :: digitChars (d :: ds))

inductive ExponentSpelled : Option (Bool × List Nat) → List Char → Prop
  | absent : ExponentSpelled none []
  | marked {mark : Char} {down : Bool} {sign : List Char} {d : Nat} {ds : List Nat}
      (hmark : mark = 'e' ∨ mark = 'E')
      (hsign : (down, sign) ∈ [(false, []), (false, ['+']), (true, ['-'])])
      (h : Digits (d :: ds)) :
    ExponentSpelled (some (down, d :: ds)) (mark :: (sign ++ digitChars (d :: ds)))

inductive Numeral.Spelled : Numeral → List Char → Prop
  | parts {negative : Bool} {whole fraction : List Nat} {exponent : Option (Bool × List Nat)}
      {ws fs es : List Char} (hwhole : WholeSpelled whole ws)
      (hfraction : FractionSpelled fraction fs) (hexponent : ExponentSpelled exponent es) :
    Spelled ⟨negative, whole, fraction, exponent⟩
      ((if negative then ['-'] else []) ++ (ws ++ (fs ++ es)))

mutual

/-- The ways to write a value. A tree with a fault has none. -/
inductive Node.Spelled : Node → List Char → Prop
  | null : Node.Spelled .null ['n', 'u', 'l', 'l']
  | true : Node.Spelled (.bool true) ['t', 'r', 'u', 'e']
  | false : Node.Spelled (.bool false) ['f', 'a', 'l', 's', 'e']
  | number {n : Numeral} {cs : List Char} (h : n.Spelled cs) : Node.Spelled (.number n) cs
  | string {text : Text} {cs : List Char} (h : text.Spelled cs) : Node.Spelled (.string text) cs
  | emptyArray {gap : List Char} (hgap : Blank gap) :
    Node.Spelled (.array (.done none)) ('[' :: (gap ++ [']']))
  | array {items : Items} {cs : List Char} (h : items.Spelled cs) :
    Node.Spelled (.array items) ('[' :: (cs ++ [']']))
  | emptyObject {gap : List Char} (hgap : Blank gap) :
    Node.Spelled (.object (.done none)) ('\x7b' :: (gap ++ ['\x7d']))
  | object {members : Members} {cs : List Char} (h : members.Spelled cs) :
    Node.Spelled (.object members) ('\x7b' :: (cs ++ ['\x7d']))

/-- The ways to write one or more items, with the blanks around them. -/
inductive Items.Spelled : Items → List Char → Prop
  | last {node : Node} {before cs after : List Char} (hbefore : Blank before)
      (hnode : node.Spelled cs) (hafter : Blank after) :
    Items.Spelled (.cons node (.done none)) (before ++ (cs ++ after))
  | more {node : Node} {items : Items} {before cs after ds : List Char} (hbefore : Blank before)
      (hnode : node.Spelled cs) (hafter : Blank after) (hrest : items.Spelled ds) :
    Items.Spelled (.cons node items) (before ++ (cs ++ (after ++ ',' :: ds)))

/-- The ways to write one or more members, with the blanks around their parts. -/
inductive Members.Spelled : Members → List Char → Prop
  | last {key : Text} {node : Node} {before ks behind ahead cs after : List Char}
      (hbefore : Blank before) (hkey : key.Spelled ks) (hbehind : Blank behind)
      (hahead : Blank ahead) (hnode : node.Spelled cs) (hafter : Blank after) :
    Members.Spelled (.cons key node (.done none))
      (before ++ (ks ++ (behind ++ ':' :: (ahead ++ (cs ++ after)))))
  | more {key : Text} {node : Node} {members : Members}
      {before ks behind ahead cs after ds : List Char}
      (hbefore : Blank before) (hkey : key.Spelled ks) (hbehind : Blank behind)
      (hahead : Blank ahead) (hnode : node.Spelled cs) (hafter : Blank after)
      (hrest : members.Spelled ds) :
    Members.Spelled (.cons key node members)
      (before ++ (ks ++ (behind ++ ':' :: (ahead ++ (cs ++ (after ++ ',' :: ds))))))

end

/-- The text is a document with the value: blanks may stand around it. -/
inductive Document.Spelled : Node → String → Prop
  | framed {node : Node} {before cs after : List Char} (hbefore : Blank before)
      (hnode : node.Spelled cs) (hafter : Blank after) :
    Spelled node (String.ofList (before ++ (cs ++ after)))

namespace Scan

variable {s : State} {stack : List Frame} {node : Node}

/-- The state behind the characters. -/
def run (s : State) (cs : List Char) : State := cs.foldl step s

@[simp] theorem run_nil (s : State) : run s [] = s := rfl

@[simp] theorem run_cons (s : State) (c : Char) (cs : List Char) :
    run s (c :: cs) = run (step s c) cs := rfl

@[simp] theorem run_append (s : State) (cs ds : List Char) :
    run s (cs ++ ds) = run (run s cs) ds := List.foldl_append

/-! ## Blanks -/

theorem isBlank_of_blank {cs : List Char} (h : Blank cs) {c : Char} (hc : c ∈ cs) :
    isBlank c = true := by
  have := h c hc
  simp only [List.mem_cons, List.not_mem_nil, or_false] at this
  rcases this with rfl | rfl | rfl | rfl <;> rfl

/-- A state in which blanks change nothing. -/
def Idle (s : State) : Prop := ∀ c, isBlank c = true → step s c = s

theorem Idle.run (h : Idle s) {cs : List Char} (hcs : Blank cs) : run s cs = s := by
  induction cs with
  | nil => rfl
  | cons c cs ih =>
    have hc : step s c = s := h c (isBlank_of_blank hcs List.mem_cons_self)
    rw [run_cons, hc]
    exact ih fun x hx => hcs x (List.mem_cons_of_mem c hx)

theorem idle_of_blankOrMark (h : ∀ c, step s c = blankOrMark c s) : Idle s := fun c hc => by
  rw [h, blankOrMark, if_pos hc]

theorem idle_value : Idle ⟨.value, stack⟩ := idle_of_blankOrMark fun _ => rfl

theorem idle_firstItem : Idle ⟨.firstItem, stack⟩ := idle_of_blankOrMark fun _ => rfl

theorem idle_firstKey : Idle ⟨.firstKey, stack⟩ := idle_of_blankOrMark fun _ => rfl

theorem idle_key {members : List (Text × Node)} : Idle ⟨.key members, stack⟩ :=
  idle_of_blankOrMark fun _ => rfl

theorem idle_colon {members : List (Text × Node)} {key : Text} :
    Idle ⟨.colon members key, stack⟩ := idle_of_blankOrMark fun _ => rfl

theorem step_deliver (c : Char) :
    step (deliver node stack) c = blankOrMark c (deliver node stack) := by
  rcases stack with _ | ⟨_ | _, _⟩ <;> rfl

theorem idle_deliver : Idle (deliver node stack) := idle_of_blankOrMark step_deliver

/-! ## Strings -/

theorem hexDigit?_of_hexDigit {c : Char} {value : Nat} (h : HexDigit c value) :
    hexDigit? c = some value ∧ c.utf8Size = 1 := by
  have hlt : value < 16 := by
    rcases h with h | h <;> exact (List.getElem?_eq_some_iff.mp h).1
  rcases h with h | h <;> interval_cases value <;> cases h <;> decide

theorem shortEscape?_of_mem {c letter : Char} (h : (c, letter) ∈ shortEscapes) :
    shortEscape? letter = some c ∧ letter ≠ 'u' := by
  simp only [shortEscapes, List.mem_cons, Prod.mk.injEq, List.not_mem_nil, or_false] at h
  rcases h with ⟨rfl, rfl⟩ | ⟨rfl, rfl⟩ | ⟨rfl, rfl⟩ | ⟨rfl, rfl⟩ | ⟨rfl, rfl⟩ | ⟨rfl, rfl⟩ |
    ⟨rfl, rfl⟩ | ⟨rfl, rfl⟩ <;> decide

/-- A written unit is put behind the units read so far. -/
theorem run_unit {unit : TextUnit} {cs : List Char} (h : unit.Spelled cs) (role : StringRole)
    (units : List TextUnit) :
    run ⟨.string role .plain units, stack⟩ cs = ⟨.string role .plain (unit :: units), stack⟩ := by
  cases h with
  | @plain c hlow hquote hback =>
    have : ¬ c.toNat < 0x20 := by omega
    simp [step, stringStep, hquote, hback, this]
  | short h =>
    obtain ⟨hescape, hne⟩ := shortEscape?_of_mem h
    simp [step, stringStep, hescape, hne]
  | numeric ha hb hc hd =>
    obtain ⟨ha, ha'⟩ := hexDigit?_of_hexDigit ha
    obtain ⟨hb, hb'⟩ := hexDigit?_of_hexDigit hb
    obtain ⟨hc, hc'⟩ := hexDigit?_of_hexDigit hc
    obtain ⟨hd, hd'⟩ := hexDigit?_of_hexDigit hd
    simp [step, stringStep, ha, ha', hb, hb', hc, hc', hd, hd']

theorem run_units {units : List TextUnit} {cs : List Char} (h : UnitsSpelled units cs)
    (role : StringRole) (acc : List TextUnit) :
    run ⟨.string role .plain acc, stack⟩ cs =
      ⟨.string role .plain (units.reverse ++ acc), stack⟩ := by
  induction h generalizing acc with
  | nil => rfl
  | cons hunit _ ih => rw [run_append, run_unit hunit, ih]; simp

/-- Behind the quotation mark that opens a string, its characters complete it. -/
theorem run_text (stack : List Frame) {units : List TextUnit} {cs : List Char} (h : UnitsSpelled units cs)
    (role : StringRole) : run ⟨.string role .plain [], stack⟩ (cs ++ ['"']) =
      closeString role units.reverse stack := by
  rw [run_append, run_units h, List.append_nil]
  rfl

/-! ## Numerals -/

section Numerals

variable (stack)

theorem digit?_digitChar {d : Nat} (hd : d < 10) : digit? d.digitChar = some d := by
  interval_cases d <;> rfl

theorem run_extend {draft draft' : Draft} {c : Char} (h : draft.extend c = .more draft') :
    step ⟨.numeral draft, stack⟩ c = ⟨.numeral draft', stack⟩ := by
  simp only [step, h]

/-- Digits go where the draft puts each of them. -/
theorem run_digits (draft : List Nat → Draft)
    (hmore : ∀ acc d, d < 10 → (draft acc).extend d.digitChar = .more (draft (d :: acc)))
    {ds : List Nat} (h : Digits ds) (acc : List Nat) :
    run ⟨.numeral (draft acc), stack⟩ (digitChars ds) =
      ⟨.numeral (draft (ds.reverse ++ acc)), stack⟩ := by
  induction ds generalizing acc with
  | nil => rfl
  | cons d ds ih =>
    have hd := run_extend stack (hmore acc d (h d List.mem_cons_self))
    have hds : Digits ds := fun x hx => h x (List.mem_cons_of_mem d hx)
    rw [digitChars, List.map_cons, run_cons, hd]
    exact (ih hds (d :: acc)).trans (by simp)

/-- A value that starts with a digit is a numeral without a sign. -/
theorem step_value_digit {d : Nat} (hd : d < 10) :
    step ⟨.value, stack⟩ d.digitChar = step ⟨.numeral { stage := .sign }, stack⟩ d.digitChar := by
  interval_cases d <;> rfl

/-- The drafts that hold a complete whole part. -/
inductive HoldsWhole (negative : Bool) : List Nat → Draft → Prop
  | zero : HoldsWhole negative [0] { stage := .zero, negative, whole := [0] }
  | digits (ds : List Nat) : HoldsWhole negative ds { stage := .whole, negative, whole := ds.reverse }

/-- The drafts that hold a complete whole part and the fraction, if there is one. -/
inductive HoldsFraction (negative : Bool) (whole : List Nat) : List Nat → Draft → Prop
  | absent {draft : Draft} (h : HoldsWhole negative whole draft) :
    HoldsFraction negative whole [] draft
  | point (ds : List Nat) : HoldsFraction negative whole ds
      { stage := .fraction, negative, whole := whole.reverse, fraction := ds.reverse }

theorem run_whole {whole : List Nat} {cs : List Char} (h : WholeSpelled whole cs)
    (negative : Bool) : ∃ draft, HoldsWhole negative whole draft ∧
      run ⟨.numeral { stage := .sign, negative }, stack⟩ cs = ⟨.numeral draft, stack⟩ := by
  cases h with
  | zero => exact ⟨_, .zero, rfl⟩
  | @digits d ds hpos h =>
    refine ⟨_, .digits (d :: ds), ?_⟩
    have hfirst : Draft.extend { stage := .sign, negative } d.digitChar =
        .more { stage := .whole, negative, whole := [d] } := by
      have := h d List.mem_cons_self
      interval_cases d <;> first | rfl | contradiction
    rw [digitChars, List.map_cons, run_cons, run_extend stack hfirst]
    refine (run_digits stack (fun acc => { stage := .whole, negative, whole := acc }) ?_
      (fun x hx => h x (List.mem_cons_of_mem d hx)) [d]).trans (by simp)
    intro acc x hx
    simp [Draft.extend, digit?_digitChar hx]

/-- What the sign and the whole part of a numeral lead to, from where a value may stand. -/
theorem run_sign_whole {whole : List Nat} {cs : List Char} (h : WholeSpelled whole cs)
    (negative : Bool) : ∃ draft, HoldsWhole negative whole draft ∧
      run ⟨.value, stack⟩ ((if negative then ['-'] else []) ++ cs) = ⟨.numeral draft, stack⟩ := by
  obtain ⟨draft, hdraft, hrun⟩ := run_whole stack h negative
  refine ⟨draft, hdraft, ?_⟩
  cases negative with
  | true => exact hrun
  | false =>
    have hstart : ∃ d rest, d < 10 ∧ cs = Nat.digitChar d :: rest := by
      cases h with
      | zero => exact ⟨0, [], by decide, rfl⟩
      | @digits d ds _ h => exact ⟨d, digitChars ds, h d List.mem_cons_self, rfl⟩
    obtain ⟨d, rest, hd, rfl⟩ := hstart
    rw [run_cons] at hrun
    simpa [step_value_digit stack hd] using hrun

theorem HoldsWhole.point {negative : Bool} {whole : List Nat} {draft : Draft}
    (h : HoldsWhole negative whole draft) :
    draft.extend '.' = .more { stage := .point, negative, whole := whole.reverse } := by
  cases h <;> rfl

theorem run_fraction {negative : Bool} {whole fraction : List Nat} {draft : Draft}
    {cs : List Char} (hdraft : HoldsWhole negative whole draft)
    (h : FractionSpelled fraction cs) : ∃ draft', HoldsFraction negative whole fraction draft' ∧
      run ⟨.numeral draft, stack⟩ cs = ⟨.numeral draft', stack⟩ := by
  cases h with
  | absent => exact ⟨draft, .absent hdraft, rfl⟩
  | @point d ds h =>
    refine ⟨_, .point (d :: ds), ?_⟩
    have hfirst : Draft.extend { stage := .point, negative, whole := whole.reverse } d.digitChar =
        .more { stage := .fraction, negative, whole := whole.reverse, fraction := [d] } := by
      simp [Draft.extend, digit?_digitChar (h d List.mem_cons_self)]
    rw [digitChars, List.map_cons, run_cons, run_cons, run_extend stack hdraft.point,
      run_extend stack hfirst]
    refine (run_digits stack (fun acc =>
      { stage := .fraction, negative, whole := whole.reverse, fraction := acc }) ?_
      (fun x hx => h x (List.mem_cons_of_mem d hx)) [d]).trans (by simp)
    intro acc x hx
    simp [Draft.extend, digit?_digitChar hx]

theorem HoldsFraction.mark {negative : Bool} {whole fraction : List Nat} {draft : Draft}
    (h : HoldsFraction negative whole fraction draft) {c : Char} (hc : c = 'e' ∨ c = 'E') :
    draft.extend c = .more
      { stage := .exponentMark, negative, whole := whole.reverse,
        fraction := fraction.reverse } := by
  rcases hc with rfl | rfl <;> rcases h with ⟨_ | _⟩ | _ <;> rfl

theorem HoldsFraction.numeral? {negative : Bool} {whole fraction : List Nat} {draft : Draft}
    (h : HoldsFraction negative whole fraction draft) :
    draft.numeral? = some ⟨negative, whole, fraction, none⟩ := by
  rcases h with ⟨_ | _⟩ | _ <;> simp [Draft.numeral?]

/-- The sign of an exponent and its first digit. -/
theorem run_exponent_sign {d : Nat} (hd : d < 10) {down : Bool} {sign : List Char}
    (h : (down, sign) ∈ [(false, []), (false, ['+']), (true, ['-'])])
    (negative : Bool) (whole fraction : List Nat) :
    run ⟨.numeral { stage := .exponentMark, negative, whole, fraction }, stack⟩
        (sign ++ [d.digitChar]) =
      ⟨.numeral { stage := .exponent, negative, whole, fraction, down, exponent := [d] },
        stack⟩ := by
  simp only [List.mem_cons, Prod.mk.injEq, List.not_mem_nil, or_false] at h
  -- Behind the mark and behind its sign alike, a digit is the first of the exponent.
  have hfirst (stage : NumeralStage) (down : Bool)
      (hstage : stage = .exponentMark ∨ stage = .exponentSign) :
      Draft.extend { stage, negative, whole, fraction, down } d.digitChar =
        .more { stage := .exponent, negative, whole, fraction, down, exponent := [d] } := by
    rcases hstage with rfl | rfl <;> simp [Draft.extend, digit?_digitChar hd]
  rcases h with ⟨rfl, rfl⟩ | ⟨rfl, rfl⟩ | ⟨rfl, rfl⟩
  · exact run_extend stack (hfirst _ false (.inl rfl))
  · exact run_extend stack (hfirst _ false (.inr rfl))
  · exact run_extend stack (hfirst _ true (.inr rfl))

theorem run_exponent {negative : Bool} {whole fraction : List Nat}
    {exponent : Option (Bool × List Nat)} {draft : Draft} {cs : List Char}
    (hdraft : HoldsFraction negative whole fraction draft) (h : ExponentSpelled exponent cs) :
    ∃ draft', draft'.numeral? = some ⟨negative, whole, fraction, exponent⟩ ∧
      run ⟨.numeral draft, stack⟩ cs = ⟨.numeral draft', stack⟩ := by
  cases h with
  | absent => exact ⟨draft, hdraft.numeral?, rfl⟩
  | @marked mark down sign d ds hmark hsign h =>
    let drafted (acc : List Nat) : Draft :=
      { stage := .exponent, negative, whole := whole.reverse, fraction := fraction.reverse,
        down := down, exponent := acc }
    refine ⟨drafted (d :: ds).reverse, by simp [drafted, Draft.numeral?], ?_⟩
    have hdigits := run_digits stack drafted
      (fun acc x hx => by simp [drafted, Draft.extend, digit?_digitChar hx])
      (fun x hx => h x (List.mem_cons_of_mem d hx)) [d]
    rw [run_cons, run_extend stack (hdraft.mark hmark), digitChars, List.map_cons,
      ← List.singleton_append, ← List.append_assoc, run_append,
      run_exponent_sign stack (h d List.mem_cons_self) hsign]
    exact hdigits.trans (by simp)

/-- A written numeral leads to a draft that stands for it. -/
theorem run_numeral {n : Numeral} {cs : List Char} (h : n.Spelled cs) :
    ∃ draft, draft.numeral? = some n ∧ run ⟨.value, stack⟩ cs = ⟨.numeral draft, stack⟩ := by
  cases h with
  | @parts negative _ _ _ _ _ _ hwhole hfraction hexponent =>
    obtain ⟨draft, hdraft, hrun⟩ := run_sign_whole stack hwhole negative
    obtain ⟨draft', hdraft', hrun'⟩ := run_fraction stack hdraft hfraction
    obtain ⟨draft'', hnumeral, hrun''⟩ := run_exponent stack hdraft' hexponent
    refine ⟨draft'', hnumeral, ?_⟩
    rw [← List.append_assoc, run_append, hrun, run_append, hrun', hrun'']

end Numerals

/-! ## Complete values -/

/-- The states behind a complete value. A numeral is complete only for what follows it. -/
inductive Holds (stack : List Frame) : Node → State → Prop
  | delivered (node : Node) : Holds stack node (deliver node stack)
  | numeral {draft : Draft} {n : Numeral} (h : draft.numeral? = some n) :
    Holds stack (.number n) ⟨.numeral draft, stack⟩

/-- A character that no numeral goes on with. -/
def Delimits (c : Char) : Prop := digit? c = none ∧ c ≠ '.' ∧ c ≠ 'e' ∧ c ≠ 'E'

theorem extend_delimiter {draft : Draft} {n : Numeral} (h : draft.numeral? = some n) {c : Char}
    (hc : Delimits c) : draft.extend c = .ended := by
  obtain ⟨hdigit, hpoint, he, hE⟩ := hc
  unfold Draft.numeral? at h
  split at h <;> rename_i hstage
  case h_5 => cases h
  all_goals simp [Draft.extend, Draft.mark, hstage, hdigit, hpoint, he, hE]

theorem Holds.step (h : Holds stack node s) {c : Char} (hc : Delimits c) :
    step s c = step (deliver node stack) c := by
  cases h with
  | delivered => rfl
  | numeral h =>
    rw [step_deliver]
    simp only [Scan.step, extend_delimiter h hc, h]

theorem delimits_of_isBlank {c : Char} (h : isBlank c = true) : Delimits c := by
  simp only [isBlank, Bool.or_eq_true, beq_iff_eq] at h
  rcases h with ((rfl | rfl) | rfl) | rfl <;> exact ⟨rfl, by decide, by decide, by decide⟩

theorem delimits_comma : Delimits ',' := ⟨rfl, by decide, by decide, by decide⟩

theorem delimits_bracket : Delimits ']' := ⟨rfl, by decide, by decide, by decide⟩

theorem delimits_brace : Delimits '\x7d' := ⟨rfl, by decide, by decide, by decide⟩

/-- Blanks behind a value leave it complete. -/
theorem Holds.blanks (h : Holds stack node s) {cs : List Char} (hcs : Blank cs) :
    Holds stack node (run s cs) := by
  cases cs with
  | nil => exact h
  | cons c cs =>
    have hc := isBlank_of_blank hcs List.mem_cons_self
    have hrest : Blank cs := fun x hx => hcs x (List.mem_cons_of_mem c hx)
    rw [run_cons, h.step (delimits_of_isBlank hc), idle_deliver c hc, idle_deliver.run hrest]
    exact .delivered node

theorem Holds.finish (h : Holds [] node s) : finish s = ⟨node, false⟩ := by
  cases h with
  | delivered => rfl
  | numeral h => simp only [Scan.finish, h, deliver]

/-! ## Values -/

/-- No value starts with a blank or with the end of an array. -/
theorem exists_first {cs : List Char} (h : node.Spelled cs) :
    ∃ c rest, cs = c :: rest ∧ isBlank c = false ∧ c ≠ ']' := by
  cases h with
  | null | true | false | emptyArray | array | emptyObject | object =>
    exact ⟨_, _, rfl, by decide, by decide⟩
  | string h =>
    cases h
    exact ⟨_, _, rfl, by decide, by decide⟩
  | number h =>
    cases h with
    | @parts negative _ _ _ _ _ _ hwhole _ _ =>
      cases negative with
      | true => exact ⟨_, _, rfl, by decide, by decide⟩
      | false =>
        cases hwhole with
        | zero => exact ⟨_, _, rfl, by decide, by decide⟩
        | @digits d ds hpos h =>
          have hd := h d List.mem_cons_self
          refine ⟨d.digitChar, _, rfl, ?_, ?_⟩ <;> interval_cases d <;> decide

/-- The first item of an array is read like any other. -/
theorem run_firstItem {items : Items} {cs : List Char} (h : items.Spelled cs) (ds : List Char) :
    run ⟨.firstItem, .array [] :: stack⟩ (cs ++ ds) =
      run ⟨.value, .array [] :: stack⟩ (cs ++ ds) := by
  have hstart : ∃ before rest, Blank before ∧ cs = before ++ rest ∧
      ∃ c more, rest = c :: more ∧ isBlank c = false ∧ c ≠ ']' := by
    cases h with
    | last hbefore hnode hafter =>
      obtain ⟨c, rest, rfl, hc⟩ := exists_first hnode
      exact ⟨_, _, hbefore, rfl, c, _, rfl, hc⟩
    | more hbefore hnode hafter hrest =>
      obtain ⟨c, rest, rfl, hc⟩ := exists_first hnode
      exact ⟨_, _, hbefore, rfl, c, _, rfl, hc⟩
  obtain ⟨before, _, hbefore, rfl, c, more, rfl, hblank, hc⟩ := hstart
  have hstep : step ⟨.firstItem, .array [] :: stack⟩ c = step ⟨.value, .array [] :: stack⟩ c := by
    simp only [step, blankOrMark, hblank, markStep, beq_iff_eq, hc]
    simp only [Bool.false_eq_true, if_false, valueStep]
  simp only [run_append, idle_firstItem.run hbefore, idle_value.run hbefore, run_cons, hstep]

theorem run_key {key : Text} {before ks behind : List Char} (hbefore : Blank before)
    (hkey : key.Spelled ks) (hbehind : Blank behind) (ds : List Char)
    (members : List (Text × Node)) (hidle : Idle s)
    (hopen : step s '"' = ⟨.string (.key members) .plain [], stack⟩) :
    run s (before ++ (ks ++ (behind ++ ':' :: ds))) =
      run ⟨.value, .object members key :: stack⟩ ds := by
  cases hkey with
  | @quoted units cs h =>
    rw [run_append, hidle.run hbefore, run_append, run_cons, hopen, run_text _ h, run_append]
    simp only [closeString, List.reverse_reverse, idle_colon.run hbehind, run_cons]
    rfl

theorem run_firstKey {members : Members} {cs : List Char} (h : members.Spelled cs)
    (ds : List Char) :
    run ⟨.firstKey, stack⟩ (cs ++ ds) = run ⟨.key [], stack⟩ (cs ++ ds) := by
  cases h with
  | last hbefore hkey hbehind _ _ _ | more hbefore hkey hbehind _ _ _ _ =>
    simp only [List.append_assoc, List.cons_append]
    rw [run_key hbefore hkey hbehind _ [] idle_firstKey rfl,
      run_key hbefore hkey hbehind _ [] idle_key rfl]

theorem run_emptyArray {gap : List Char} (hgap : Blank gap) :
    run ⟨.value, stack⟩ ('[' :: (gap ++ [']'])) = deliver (.array (.done none)) stack := by
  have hrun : run ⟨.firstItem, .array [] :: stack⟩ gap = _ := idle_firstItem.run hgap
  rw [run_cons, run_append]
  exact congrArg (step · ']') hrun

theorem run_emptyObject {gap : List Char} (hgap : Blank gap) :
    run ⟨.value, stack⟩ ('\x7b' :: (gap ++ ['\x7d'])) = deliver (.object (.done none)) stack := by
  have hrun : run ⟨.firstKey, stack⟩ gap = _ := idle_firstKey.run hgap
  rw [run_cons, run_append]
  exact congrArg (step · '\x7d') hrun

mutual

/-- The characters of a value complete it, whatever is open. -/
theorem holds_run {node : Node} {cs : List Char} (h : node.Spelled cs) (stack : List Frame) :
    Holds stack node (run ⟨.value, stack⟩ cs) := by
  cases h with
  | null => exact .delivered .null
  | true => exact .delivered (.bool true)
  | false => exact .delivered (.bool false)
  | number h =>
    obtain ⟨draft, hdraft, hrun⟩ := run_numeral stack h
    rw [hrun]
    exact .numeral hdraft
  | string h =>
    cases h with
    | @quoted units cs h =>
      have hrun := run_text stack h .value
      simp only [closeString, List.reverse_reverse] at hrun
      exact hrun ▸ .delivered _
  | emptyArray hgap => exact run_emptyArray hgap ▸ .delivered _
  | array h =>
    have hrun := run_items h [] stack
    rw [← run_firstItem h] at hrun
    exact hrun ▸ .delivered _
  | emptyObject hgap => exact run_emptyObject hgap ▸ .delivered _
  | object h =>
    have hrun := run_members h [] stack
    rw [← run_firstKey h] at hrun
    exact hrun ▸ .delivered _

/-- The characters of the last items of an array complete it. -/
theorem run_items {items : Items} {cs : List Char} (h : items.Spelled cs) (acc : List Node)
    (stack : List Frame) : run ⟨.value, .array acc :: stack⟩ (cs ++ [']']) =
      deliver (.array (acc.reverse.foldr .cons items)) stack := by
  cases h with
  | @last node before cs after hbefore hnode hafter =>
    have hholds := (holds_run hnode (.array acc :: stack)).blanks hafter
    simp only [List.append_assoc, run_append, idle_value.run hbefore, run_cons, run_nil]
    rw [hholds.step delimits_bracket]
    simp [step, blankOrMark, isBlank, markStep, deliver, Items.ofList]
  | @more node items before cs after ds hbefore hnode hafter hrest =>
    have hholds := (holds_run hnode (.array acc :: stack)).blanks hafter
    have hcomma : step (run (run ⟨.value, .array acc :: stack⟩ cs) after) ',' =
        ⟨.value, .array (node :: acc) :: stack⟩ := hholds.step delimits_comma
    have hitems := run_items hrest (node :: acc) stack
    rw [run_append] at hitems
    simp only [List.append_assoc, List.cons_append, run_append, idle_value.run hbefore, run_cons,
      hcomma]
    exact hitems.trans (by simp)

/-- The characters of the last members of an object complete it. -/
theorem run_members {members : Members} {cs : List Char} (h : members.Spelled cs)
    (acc : List (Text × Node)) (stack : List Frame) :
    run ⟨.key acc, stack⟩ (cs ++ ['\x7d']) =
      deliver (.object (acc.reverse.foldr (fun m rest => .cons m.1 m.2 rest) members)) stack := by
  cases h with
  | @last key node before ks behind ahead cs after hbefore hkey hbehind hahead hnode hafter =>
    have hholds := (holds_run hnode (.object acc key :: stack)).blanks hafter
    simp only [List.append_assoc, List.cons_append]
    rw [run_key hbefore hkey hbehind _ acc idle_key rfl]
    simp only [run_append, idle_value.run hahead, run_cons, run_nil]
    rw [hholds.step delimits_brace]
    simp [step, blankOrMark, isBlank, markStep, deliver, Members.ofList]
  | @more key node members before ks behind ahead cs after ds hbefore hkey hbehind hahead hnode
      hafter hrest =>
    have hholds := (holds_run hnode (.object acc key :: stack)).blanks hafter
    have hcomma : step (run (run ⟨.value, .object acc key :: stack⟩ cs) after) ',' =
        ⟨.key ((key, node) :: acc), stack⟩ := hholds.step delimits_comma
    have hmembers := run_members hrest ((key, node) :: acc) stack
    rw [run_append] at hmembers
    simp only [List.append_assoc, List.cons_append]
    rw [run_key hbefore hkey hbehind _ acc idle_key rfl]
    simp only [run_append, idle_value.run hahead, run_cons, hcomma]
    exact hmembers.trans (by simp)

end

end Scan

/-- A text of the grammar is scanned as the value it is written from. -/
theorem Document.scan_of_spelled {node : Node} {text : String} (h : Document.Spelled node text) :
    Document.scan text = ⟨node, false⟩ := by
  cases h with
  | @framed before cs after hbefore hnode hafter =>
    have hholds := (Scan.holds_run hnode []).blanks hafter
    have hrun : Scan.run Scan.start (before ++ (cs ++ after)) =
        Scan.run (Scan.run ⟨.value, []⟩ cs) after := by
      rw [Scan.run_append, Scan.start, Scan.idle_value.run hbefore, Scan.run_append]
    rw [Document.scan, String.toList_ofList]
    exact (congrArg Scan.finish hrun).trans hholds.finish

/-! ## Passing over a value -/

mutual

/-- A written value has no fault a reader could meet that passes over it. -/
theorem Node.Spelled.skip {node : Node} {cs : List Char} (h : node.Spelled cs) :
    node.skip = .ok () := by
  cases h with
  | null | true | false | number | emptyArray | emptyObject => rfl
  | string h =>
    cases h
    rfl
  | array h => exact Items.Spelled.skip h
  | object h => exact Members.Spelled.skip h

theorem Items.Spelled.skip {items : Items} {cs : List Char} (h : items.Spelled cs) :
    items.skip = .ok () := by
  cases h with
  | last _ hnode _ => simp [Items.skip, Node.Spelled.skip hnode, bind, Except.bind]
  | more _ hnode _ hrest =>
    simp [Items.skip, Node.Spelled.skip hnode, Items.Spelled.skip hrest, bind, Except.bind]

theorem Members.Spelled.skip {members : Members} {cs : List Char} (h : members.Spelled cs) :
    members.skip = .ok () := by
  cases h with
  | last _ hkey _ _ hnode _ =>
    cases hkey
    simp [Members.skip, Text.skip, Node.Spelled.skip hnode, bind, Except.bind]
  | more _ hkey _ _ hnode _ hrest =>
    cases hkey
    simp [Members.skip, Text.skip, Node.Spelled.skip hnode, Members.Spelled.skip hrest, bind,
      Except.bind]

end

theorem Document.Spelled.skip {node : Node} {text : String} (h : Document.Spelled node text) :
    node.skip = .ok () := by
  cases h with
  | framed _ hnode _ => exact hnode.skip

end MethodPack.Json

namespace MethodPack.Metadata

/-- Reading a text of the grammar is reading the value it is written from. -/
theorem readText_of_spelled {α : Type} {node : Json.Node} {text : String}
    (h : Json.Document.Spelled node text) (read : Nat → Json.Node → Result α) :
    readText read text = read Json.maxDepth node := by
  simp only [readText, Json.Document.scan_of_spelled h]
  cases read Json.maxDepth node <;> rfl

end MethodPack.Metadata
