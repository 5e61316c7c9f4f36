import MethodPack.Proofs.References
import MethodPack.Proofs.Sessions

/-!
# Type references

Two strings name a type: the namespace of its outermost type, and the path of names from that
type inward. A path falls into its names again where no name holds a slash, so these strings
tell types apart. As an operand a type is a member: a nested type of the type around it, and an
outermost type of itself, with the empty name. Main statement: references to types are equal
exactly when the types have the same names and the same namespace (`ofType_unambiguous`).
-/

namespace MethodPack

open Export (Tables Encoder outcome place)
open Packed (MemberKey Module maxLength)

namespace TypeRef

/-- No name of the type or of a type around it holds a slash. -/
def Unslashed (t : TypeRef) : Prop := ∀ name ∈ t.chain, '/' ∉ name.toList

/-- The names are not empty, that of the outermost type perhaps excepted. -/
def InnerNamed (t : TypeRef) : Prop := ∀ name ∈ t.chain.dropLast, name ≠ ""

/-- The types have the same names and the same namespace of the outermost type. -/
def SameNames (t u : TypeRef) : Prop := t.chain = u.chain ∧ t.rootNs = u.rootNs

instance (t : TypeRef) : Decidable t.Unslashed :=
  inferInstanceAs (Decidable (∀ name ∈ t.chain, _))

instance (t : TypeRef) : Decidable t.InnerNamed :=
  inferInstanceAs (Decidable (∀ name ∈ t.chain.dropLast, _))

instance (t u : TypeRef) : Decidable (t.SameNames u) := inferInstanceAs (Decidable (_ ∧ _))

variable {t u : TypeRef} {ns name : String}

theorem chain_ne_nil (t : TypeRef) : t.chain ≠ [] := by
  cases t with
  | outermost => exact List.cons_ne_nil _ _
  | nested => exact List.cons_ne_nil _ _

theorem Unslashed.declaring (h : (nested ns name t).Unslashed) : t.Unslashed :=
  fun n hn => h n (List.mem_cons_of_mem name hn)

/-- A nested type has a name that is not empty. -/
theorem InnerNamed.name_ne (h : (nested ns name t).InnerNamed) : name ≠ "" := by
  refine h name ?_
  rw [chain, List.dropLast_cons_of_ne_nil t.chain_ne_nil]
  exact List.mem_cons_self

/-! ## Paths -/

/-- The path of a type falls into its names. -/
theorem splitOn_path (h : t.Unslashed) :
    t.qualify.path.toList.splitOn '/' = t.chain.reverse.map String.toList := by
  rw [qualify, String.toList_intercalate]
  apply List.splitOn_intercalate
  · intro cs hcs
    obtain ⟨n, hn, rfl⟩ := List.mem_map.mp hcs
    exact h n (List.mem_reverse.mp hn)
  · simpa using t.chain_ne_nil

/-- The two strings that name a type tell types apart. -/
theorem qualify_eq_iff (ht : t.Unslashed) (hu : u.Unslashed) :
    t.qualify = u.qualify ↔ t.SameNames u := by
  constructor
  · intro h
    obtain ⟨hns, hpath⟩ := QualifiedType.mk.inj h
    have hnames := congrArg (fun path : String => path.toList.splitOn '/') hpath
    rw [show "/".intercalate t.chain.reverse = t.qualify.path from rfl,
      show "/".intercalate u.chain.reverse = u.qualify.path from rfl] at hnames
    simp only [splitOn_path ht, splitOn_path hu] at hnames
    have hchains := List.map_injective_iff.mpr (fun _ _ => String.toList_injective) hnames
    exact ⟨List.reverse_injective hchains, hns⟩
  · rintro ⟨hchain, hns⟩
    rw [qualify, qualify, hchain, hns]

end TypeRef

/-! ## Types as members -/

section OfType

variable {t u : TypeRef}

/-- An outermost type is never referred to by the names of a nested one. -/
theorem names_ofType_ne (huNamed : u.InnerNamed) (ht : t.declaring? = none)
    (hu : u.declaring? ≠ none) : (MemberRef.ofType t).names ≠ (MemberRef.ofType u).names := by
  cases t with
  | nested => cases ht
  | outermost ns name =>
    cases u with
    | outermost => exact absurd rfl hu
    | nested ns' name' declaring' =>
      intro heq
      have hname : "" = name' := congrArg (·.2.2) heq
      exact huNamed.name_ne hname.symm

theorem names_eq_iff {r r' : MemberRef} : r.names = r'.names ↔
    r.declaring.qualify = r'.declaring.qualify ∧ r.name = r'.name := by
  simp only [MemberRef.names, Prod.mk.injEq, TypeRef.qualify, QualifiedType.mk.injEq, and_assoc]

/-- The names that an operand refers to a type by tell types apart. -/
theorem names_ofType_eq_iff (ht : t.Unslashed) (hu : u.Unslashed) (htNamed : t.InnerNamed)
    (huNamed : u.InnerNamed) :
    (MemberRef.ofType t).names = (MemberRef.ofType u).names ↔ t.SameNames u := by
  cases t with
  | outermost ns name =>
    cases u with
    | outermost ns' name' =>
      rw [names_eq_iff, ← TypeRef.qualify_eq_iff ht hu]
      exact and_iff_left rfl
    | nested ns' name' declaring' =>
      -- the chain of a nested type is longer than that of an outermost one
      have hchain : ¬ TypeRef.SameNames (.outermost ns name) (.nested ns' name' declaring') :=
        fun h => declaring'.chain_ne_nil (List.cons.inj h.1).2.symm
      exact iff_of_false (names_ofType_ne huNamed rfl (by simp [TypeRef.declaring?])) hchain
  | nested ns name declaring =>
    cases u with
    | outermost ns' name' =>
      have hchain : ¬ TypeRef.SameNames (.nested ns name declaring) (.outermost ns' name') :=
        fun h => declaring.chain_ne_nil (List.cons.inj h.1).2
      exact iff_of_false (names_ofType_ne htNamed rfl (by simp [TypeRef.declaring?])).symm hchain
    | nested ns' name' declaring' =>
      rw [names_eq_iff]
      show declaring.qualify = declaring'.qualify ∧ name = name' ↔ _
      rw [TypeRef.qualify_eq_iff ht.declaring hu.declaring]
      simp only [TypeRef.SameNames, TypeRef.chain, TypeRef.rootNs, List.cons.injEq]
      tauto

end OfType

/-! ## References in the tables of a session -/

namespace Export

variable {t t' t'' : Tables} {all : List String} {blobs : List (List UInt8)} {key : MemberKey}

/-- A string keeps its place when the tables grow. -/
theorem Tables.Holds.place_entries {s : String} (h : t.Holds all blobs)
    (hgrow : t.snapshot.Begins t'.snapshot) (hs : s ∈ all) :
    place t'.strings.entries.toList s = place all s := by
  have hmem : s ∈ t.strings.entries.toList := by
    rw [h.strings]
    exact List.mem_eraseDups.mpr hs
  have hprefix : t.strings.entries.toList <+: t'.strings.entries.toList := hgrow.strings
  calc place t'.strings.entries.toList s
      = place t.strings.entries.toList s := place_of_isPrefix hprefix hmem
    _ = place all s := by rw [place, place, eraseDups_eq_self t.strings.nodup, h.strings]

/-- A reference that is issued has interned its names, in order. -/
theorem Encoder.holds_memberReference {r : MemberRef}
    (hrun : outcome (Encoder.memberReference r) t = (.ok key, t')) :
    t'.strings.Holds (t.strings.entries.toList ++ [r.names.1, r.names.2.1, r.names.2.2]) :=
  (Encoder.reference_ok t.holds_entries (List.prefix_refl _) hrun).1.strings

/-- A reference word that was issued means its names, however far the tables have grown since. -/
theorem Encoder.means_memberReference {r : MemberRef}
    (hrun : outcome (Encoder.memberReference r) t = (.ok key, t'))
    (hgrow : t'.snapshot.Begins t''.snapshot) :
    t''.snapshot.Means (place t''.strings.entries.toList) key r.names := by
  obtain ⟨ht', _, hkey⟩ := Encoder.reference_ok t.holds_entries (List.prefix_refl _) hrun
  have hplace {s : String} (hs : s ∈ r.declaring.qualify.strings r.name) :=
    ht'.place_entries hgrow (List.mem_append_right t.strings.entries.toList hs)
  refine ⟨?_, hgrow.names (names_reference hrun)⟩
  rw [hkey, MemberRef.names, QualifiedType.key, hplace (by simp [QualifiedType.strings]),
    hplace (by simp [QualifiedType.strings]), hplace (by simp [QualifiedType.strings])]

/-- Reference words are equal exactly when their names are, whatever has been done with the
tables between the two. -/
theorem Encoder.memberReference_eq_iff {s₀ s₁ s₂ s₃ : Tables} {key' : MemberKey}
    {r r' : MemberRef}
    (hrun : outcome (Encoder.memberReference r) s₀ = (.ok key, s₁))
    (hgrow : s₁.snapshot.Begins s₂.snapshot)
    (hrun' : outcome (Encoder.memberReference r') s₂ = (.ok key', s₃)) :
    key = key' ↔ r.names = r'.names := by
  have hlast : s₂.snapshot.Begins (outcome (Encoder.memberReference r') s₂).2.snapshot :=
    Grows.reference _ _ s₂
  rw [hrun'] at hlast
  have hmeans := means_memberReference hrun (hgrow.trans hlast)
  exact hmeans.eq_iff (means_memberReference hrun' (.refl _))

/-- Where there is room for the strings and their places fit, a reference word is issued. -/
theorem Encoder.exists_memberReference (r : MemberRef) (h : t.Holds all blobs)
    (hroom : (all ++ r.declaring.qualify.strings r.name).eraseDups.length ≤ maxLength)
    (hfits : r.declaring.qualify.Fits (place (all ++ r.declaring.qualify.strings r.name))) :
    ∃ key t', outcome (Encoder.memberReference r) t = (.ok key, t') ∧
      t'.Holds (all ++ r.declaring.qualify.strings r.name) blobs := by
  rcases hrun : outcome (Encoder.memberReference r) t with ⟨e | key, t'⟩
  · have hfault := Encoder.reference_error h hroom (List.prefix_refl _) hrun
    rw [hfits.fault?_eq_none] at hfault
    cases hfault
  · exact ⟨key, t', rfl, (Encoder.reference_ok h (List.prefix_refl _) hrun).1⟩

end Export

/-! ## References to types -/

/-- **Type references are unambiguous.** Where no name holds a slash, the two strings that name
types are equal exactly when the types have the same names and the same namespace. A reference
interns three strings. If the names of nested types are not empty, those of references to types
are equal exactly when the types have the same names and the same namespace; so are the words of
the references, whatever has been done with the tables between the two; and an outermost type is
never referred to like a nested one. -/
theorem ofType_unambiguous {t u : TypeRef} (ht : t.Unslashed) (hu : u.Unslashed) :
    (t.qualify = u.qualify ↔ t.SameNames u) ∧
    (∀ (r : MemberRef) (s s' : Tables) (key : MemberKey),
      outcome (Encoder.memberReference r) s = (.ok key, s') →
        s'.strings.Holds (s.strings.entries.toList ++ [r.names.1, r.names.2.1, r.names.2.2])) ∧
    (t.InnerNamed → u.InnerNamed →
      ((MemberRef.ofType t).names = (MemberRef.ofType u).names ↔ t.SameNames u) ∧
      (t.declaring? = none → u.declaring? ≠ none →
        (MemberRef.ofType t).names ≠ (MemberRef.ofType u).names) ∧
      ∀ (s₀ s₁ s₂ s₃ : Tables) (key key' : MemberKey),
        outcome (Encoder.memberReference (.ofType t)) s₀ = (.ok key, s₁) →
        s₁.snapshot.Begins s₂.snapshot →
        outcome (Encoder.memberReference (.ofType u)) s₂ = (.ok key', s₃) →
          (key = key' ↔ t.SameNames u)) := by
  refine ⟨TypeRef.qualify_eq_iff ht hu, fun _ _ _ _ => Encoder.holds_memberReference, ?_⟩
  intro htNamed huNamed
  have hnames := names_ofType_eq_iff ht hu htNamed huNamed
  refine ⟨hnames, names_ofType_ne huNamed, ?_⟩
  intro s₀ s₁ s₂ s₃ key key' hrun hgrow hrun'
  exact (Encoder.memberReference_eq_iff hrun hgrow hrun').trans hnames

theorem ofType_unambiguous_sample :
    let outer : TypeRef := .outermost "App" "Outer"
    let inner : TypeRef := .nestedIn outer "Inner"
    outer.qualify ≠ inner.qualify ∧ (MemberRef.ofType outer).names = ("App", "Outer", "") ∧
      (MemberRef.ofType inner).names = ("App", "Outer", "Inner") ∧
      ∃ key s key' s', outcome (Encoder.memberReference (.ofType outer)) {} = (.ok key, s) ∧
        outcome (Encoder.memberReference (.ofType inner)) s = (.ok key', s') ∧ key ≠ key' := by
  intro outer inner
  have houter : outer.Unslashed := by decide
  have hinner : inner.Unslashed := by decide
  obtain ⟨hqualify, _, hreferences⟩ := ofType_unambiguous houter hinner
  obtain ⟨_, _, hkeys⟩ := hreferences (by decide) (by decide)
  have hsame : ¬ outer.SameNames inner := by decide
  obtain ⟨key, s, hrun, hs⟩ :=
    Encoder.exists_memberReference (.ofType outer) Tables.holds_empty (by decide) (by decide)
  obtain ⟨key', s', hrun', _⟩ :=
    Encoder.exists_memberReference (.ofType inner) hs (by decide) (by decide)
  refine ⟨mt hqualify.mp hsame, by decide, by decide, key, s, key', s', hrun, hrun', ?_⟩
  exact mt (hkeys {} s s s' key key' hrun (.refl _) hrun').mp hsame

end MethodPack
