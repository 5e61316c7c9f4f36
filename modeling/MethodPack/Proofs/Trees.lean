import MethodPack.Json.Settled

/-!
# Trees

What later modules say about a tree without the scanner: its containers as lists, the values
that are passed over without a fault, how many containers it opens at once (`Node.depth`), and
that no object of it repeats a key (`Node.Distinct`).
-/

namespace MethodPack.Json

/-! ## Containers as lists -/

namespace Items

@[simp] theorem ofList_nil (fault : Option Fault) : ofList [] fault = .done fault := rfl

@[simp] theorem ofList_cons (node : Node) (nodes : List Node) (fault : Option Fault) :
    ofList (node :: nodes) fault = .cons node (ofList nodes fault) := rfl

/-- The items, if no fault stands in place of their end. -/
def toList? : Items → Option (List Node)
  | .done none => some []
  | .done (some _) => none
  | .cons head tail => tail.toList?.map (head :: ·)

@[simp] theorem toList?_ofList (nodes : List Node) : (ofList nodes).toList? = some nodes := by
  induction nodes with
  | nil => rfl
  | cons node nodes ih => rw [ofList_cons, toList?, ih, Option.map_some]

end Items

namespace Members

@[simp] theorem ofList_nil (fault : Option Fault) : ofList [] fault = .done fault := rfl

@[simp] theorem ofList_cons (member : Text × Node) (members : List (Text × Node))
    (fault : Option Fault) :
    ofList (member :: members) fault = .cons member.1 member.2 (ofList members fault) := rfl

/-- The members, if no fault stands in place of their end. -/
def toList? : Members → Option (List (Text × Node))
  | .done none => some []
  | .done (some _) => none
  | .cons key value tail => tail.toList?.map ((key, value) :: ·)

@[simp] theorem toList?_ofList (members : List (Text × Node)) :
    (ofList members).toList? = some members := by
  induction members with
  | nil => rfl
  | cons member members ih => rw [ofList_cons, toList?, ih, Option.map_some]

theorem eq_ofList {ms : Members} {members : List (Text × Node)}
    (h : ms.toList? = some members) : ms = ofList members := by
  match ms with
  | .done none => cases h; rfl
  | .cons key value tail =>
    obtain ⟨rest, hrest, rfl⟩ := Option.map_eq_some_iff.mp h
    rw [ofList_cons, ← eq_ofList hrest]

end Members

/-! ## Keys -/

/-- The string that is written, if there is one. -/
def Text.name? (t : Text) : Option String := t.decode.toOption

theorem Text.name?_eq_some {t : Text} {s : String} : t.name? = some s ↔ t.decode = .ok s := by
  rw [Text.name?]
  cases t.decode <;> simp [Except.toOption]

@[simp] theorem Text.decode_ofString (s : String) : (Text.ofString s).decode = .ok s := by
  have hunits (cs : List Char) : Text.decodeUnits none (cs.map .char) = .ok cs := by
    induction cs with
    | nil => rfl
    | cons c cs ih => rw [List.map_cons, Text.decodeUnits, ih]; rfl
  simp [Text.ofString, Text.decode, hunits, Except.map]

@[simp] theorem Text.name?_ofString (s : String) : (Text.ofString s).name? = some s :=
  name?_eq_some.mpr (decode_ofString s)

/-! ## Values without faults -/

theorem Items.skip_ofList {nodes : List Node} :
    (ofList nodes).skip = .ok () ↔ ∀ node ∈ nodes, node.skip = .ok () := by
  induction nodes with
  | nil => simp [Items.skip]
  | cons node nodes ih =>
    simp only [ofList_cons, Items.skip, List.forall_mem_cons, ← ih]
    cases node.skip <;> simp [bind, Except.bind]

/-- Items that can be passed over have no fault in place of their end. -/
theorem Items.exists_ofList {items : Items} (h : items.skip = .ok ()) :
    ∃ nodes, items = ofList nodes := by
  match items with
  | .done none => exact ⟨[], rfl⟩
  | .cons head tail =>
    rw [Items.skip] at h
    cases hhead : head.skip with
    | error f => simp [hhead, bind, Except.bind] at h
    | ok _ =>
      have htail : tail.skip = .ok () := by simpa [hhead, bind, Except.bind] using h
      obtain ⟨nodes, rfl⟩ := exists_ofList htail
      exact ⟨head :: nodes, rfl⟩

theorem Members.skip_ofList {members : List (Text × Node)} :
    (ofList members).skip = .ok () ↔
      ∀ m ∈ members, m.1.skip = .ok () ∧ m.2.skip = .ok () := by
  induction members with
  | nil => simp [Members.skip]
  | cons m members ih =>
    simp only [ofList_cons, Members.skip, List.forall_mem_cons, ← ih]
    cases m.1.skip <;> cases m.2.skip <;> simp [bind, Except.bind]

theorem Members.exists_ofList {members : Members} (h : members.skip = .ok ()) :
    ∃ list, members = ofList list := by
  match members with
  | .done none => exact ⟨[], rfl⟩
  | .cons key value tail =>
    rw [Members.skip] at h
    cases hkey : key.skip with
    | error f => simp [hkey, bind, Except.bind] at h
    | ok _ =>
      cases hvalue : value.skip with
      | error f => simp [hkey, hvalue, bind, Except.bind] at h
      | ok _ =>
        have htail : tail.skip = .ok () := by simpa [hkey, hvalue, bind, Except.bind] using h
        obtain ⟨list, rfl⟩ := exists_ofList htail
        exact ⟨(key, value) :: list, rfl⟩

/-! ## Depth -/

mutual

/-- How many containers the value opens at once. -/
def Node.depth : Node → Nat
  | .array items => items.depth + 1
  | .object members => members.depth + 1
  | _ => 0

def Items.depth : Items → Nat
  | .done _ => 0
  | .cons head tail => max head.depth tail.depth

def Members.depth : Members → Nat
  | .done _ => 0
  | .cons _ value tail => max value.depth tail.depth

end

theorem Items.depth_ofList_le {nodes : List Node} {room : Nat} :
    (ofList nodes).depth ≤ room ↔ ∀ node ∈ nodes, node.depth ≤ room := by
  induction nodes with
  | nil => simp [Items.depth]
  | cons node nodes ih => simp only [ofList_cons, Items.depth, Nat.max_le, ih, List.forall_mem_cons]

theorem Members.depth_ofList_le {members : List (Text × Node)} {room : Nat} :
    (ofList members).depth ≤ room ↔ ∀ m ∈ members, m.2.depth ≤ room := by
  induction members with
  | nil => simp [Members.depth]
  | cons m members ih =>
    simp only [ofList_cons, Members.depth, Nat.max_le, ih, List.forall_mem_cons]

/-! ## Objects without repeated keys -/

/-- The strings the keys stand for, in order. -/
def Members.names : Members → List String
  | .done _ => []
  | .cons key _ tail => key.name?.toList ++ tail.names

mutual

/-- No object repeats a key, whichever way its keys are written. -/
def Node.Distinct : Node → Prop
  | .array items => items.Distinct
  | .object members => members.names.Nodup ∧ members.Distinct
  | _ => True

def Items.Distinct : Items → Prop
  | .done _ => True
  | .cons head tail => head.Distinct ∧ tail.Distinct

def Members.Distinct : Members → Prop
  | .done _ => True
  | .cons _ value tail => value.Distinct ∧ tail.Distinct

end

theorem Members.names_ofList (members : List (Text × Node)) :
    (ofList members).names = members.filterMap fun m => m.1.name? := by
  induction members with
  | nil => rfl
  | cons m members ih =>
    rw [ofList_cons, names, ih, List.filterMap_cons]
    cases m.1.name? <;> rfl

theorem Items.distinct_ofList {nodes : List Node} :
    (ofList nodes).Distinct ↔ ∀ node ∈ nodes, node.Distinct := by
  induction nodes with
  | nil => simp [Items.Distinct]
  | cons node nodes ih => simp only [ofList_cons, Items.Distinct, ih, List.forall_mem_cons]

theorem Members.distinct_ofList {members : List (Text × Node)} :
    (ofList members).Distinct ↔ ∀ m ∈ members, m.2.Distinct := by
  induction members with
  | nil => simp [Members.Distinct]
  | cons m members ih => simp only [ofList_cons, Members.Distinct, ih, List.forall_mem_cons]

end MethodPack.Json
