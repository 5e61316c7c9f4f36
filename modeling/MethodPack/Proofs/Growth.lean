import MethodPack.Proofs.RoundTrip

/-!
# Growth

Whatever a session does, and whether or not it fails, its tables only grow: what stood
at a place stays there (`Module.Begins`). So the tables on the way can be looked up as the
tables of a module, the one that would be read if the export ended there
(`Tables.snapshot`), and whatever leads to an entry in it leads to the same entry in the end.
-/

namespace MethodPack

open Packed (Module MethodRecord StringId BlobId MemberKey maxLength)

/-! ## Tables that begin others -/

namespace Packed.Module

/-- The tables of `m` begin those of `m'`. -/
structure Begins (m m' : Module) : Prop where
  strings : m.strings.toList <+: m'.strings.toList
  blobs : m.blobs.toList <+: m'.blobs.toList

/-- The parts of a reference word lead to the names of the type and of its member. -/
structure Names (m : Module) (key : MemberKey) (q : QualifiedType) (member : String) : Prop where
  ns : key.ns?.bind m.string? = some q.ns
  type : key.type?.bind m.string? = some q.path
  name : key.name?.bind m.string? = some member

namespace Begins

variable {m m' m'' : Module}

theorem refl (m : Module) : m.Begins m := ⟨List.prefix_refl _, List.prefix_refl _⟩

theorem trans (h : m.Begins m') (h' : m'.Begins m'') : m.Begins m'' :=
  ⟨h.strings.trans h'.strings, h.blobs.trans h'.blobs⟩

/-- What stands at a position of a list stands there in every list that it begins. -/
theorem getElem?_of_toList {α : Type} {xs ys : Array α} {n : Nat} {x : α}
    (h : xs.toList <+: ys.toList) (hx : xs[n]? = some x) : ys[n]? = some x := by
  rw [← Array.getElem?_toList] at hx ⊢
  obtain ⟨hn, hget⟩ := List.getElem?_eq_some_iff.mp hx
  rw [List.prefix_iff_getElem?.mp h n hn, hget]

theorem string? {id : StringId} {s : String} (h : m.Begins m') (hs : m.string? id = some s) :
    m'.string? id = some s :=
  getElem?_of_toList h.strings hs

theorem blob? {id : BlobId} {blob : List UInt8} (h : m.Begins m')
    (hblob : m.blob? id = some blob) : m'.blob? id = some blob :=
  getElem?_of_toList h.blobs hblob

theorem part {id? : Option StringId} {s : String} (h : m.Begins m')
    (hs : id?.bind m.string? = some s) : id?.bind m'.string? = some s := by
  obtain ⟨id, hid, hstring⟩ := Option.bind_eq_some_iff.mp hs
  exact Option.bind_eq_some_iff.mpr ⟨id, hid, h.string? hstring⟩

theorem names {key : MemberKey} {q : QualifiedType} {member : String} (h : m.Begins m')
    (hnames : m.Names key q member) : m'.Names key q member :=
  ⟨h.part hnames.ns, h.part hnames.type, h.part hnames.name⟩

theorem describes {d : DeclaredMethod} {r : MethodRecord} (h : m.Begins m')
    (hr : Describes m d r) : Describes m' d r :=
  { hr with
    ns := h.part hr.ns
    type := h.part hr.type
    name := h.part hr.name }

end Begins

end Packed.Module

namespace Export

/-! ## The tables on the way -/

theorem eraseDups_eq_self {l : List String} (h : l.Nodup) : l.eraseDups = l := by
  induction l with
  | nil => rfl
  | cons s rest ih =>
    obtain ⟨hs, hrest⟩ := List.nodup_cons.mp h
    have hothers : rest.filter (fun s' => !s' == s) = rest := by
      refine List.filter_eq_self.mpr fun s' hs' => ?_
      have hne : s' ≠ s := fun heq => hs (heq ▸ hs')
      simpa using hne
    rw [List.eraseDups_cons, hothers, ih hrest]

theorem StringTable.nodup (t : StringTable) : t.entries.toList.Nodup := by
  rw [List.nodup_iff_injective_get]
  intro i j hij
  have hi : t.positions[t.entries.toList.get i]? = some i.val := by
    rw [t.positions_spec, ← Array.getElem?_toList]
    exact List.getElem?_eq_getElem i.isLt
  have hj : t.positions[t.entries.toList.get j]? = some j.val := by
    rw [t.positions_spec, ← Array.getElem?_toList]
    exact List.getElem?_eq_getElem j.isLt
  rw [hij, hj] at hi
  exact Fin.ext (Option.some.inj hi).symm

/-- A table is what interning its own entries leaves. -/
theorem StringTable.holds_entries (t : StringTable) : t.Holds t.entries.toList :=
  (eraseDups_eq_self t.nodup).symm

namespace Tables

variable {t : Tables} {all : List String} {blobs : List (List UInt8)}

theorem holds_entries (t : Tables) :
    t.Holds t.strings.entries.toList t.blobs.entries.toList := ⟨t.strings.holds_entries, rfl⟩

/-- The module that is read when an export ends with these tables, but for its records. -/
def snapshot (t : Tables) : Module := ⟨.little, [], t.strings.entries, t.blobs.entries⟩

theorem Holds.snapshot (h : t.Holds all blobs) : t.snapshot.Holds all blobs where
  order := rfl
  stringCount := by
    rw [← h.strings]
    exact t.strings.size_le
  blobCount := by
    rw [← h.blobs]
    exact t.blobs.size_le
  strings := h.strings
  blobs := h.blobs

/-- Tables begin those that a longer trace and more blobs leave. -/
theorem Holds.begins {t' : Tables} {all' : List String} {blobs' : List (List UInt8)}
    (h : t.Holds all blobs) (h' : t'.Holds all' blobs') (hall : all <+: all')
    (hblobs : blobs <+: blobs') : t.snapshot.Begins t'.snapshot where
  strings := by
    rw [h.snapshot.strings, h'.snapshot.strings]
    exact eraseDups_isPrefix hall
  blobs := by
    rw [h.snapshot.blobs, h'.snapshot.blobs]
    exact hblobs

end Tables

/-- The module that is read when the session ends here, but for its records. -/
abbrev Session.snapshot (s : Session) : Module := s.tables.snapshot

/-! ## Steps under which tables grow -/

/-- The tables before the step begin those behind it, also when it fails. -/
def Grows {ε σ α : Type} (look : σ → Module) (m : ExceptT ε (StateM σ) α) : Prop :=
  ∀ s, (look s).Begins (look (outcome m s).2)

namespace Grows

section General

variable {ε σ α β : Type} {look : σ → Module}

theorem pure (x : α) : Grows look (Pure.pure x : ExceptT ε (StateM σ) α) :=
  fun s => .refl (look s)

theorem throw (e : ε) : Grows look (throw e : ExceptT ε (StateM σ) α) := fun s => .refl (look s)

theorem lift (r : Except ε α) :
    Grows look (MonadLift.monadLift r : ExceptT ε (StateM σ) α) := fun s => .refl (look s)

theorem bind {m : ExceptT ε (StateM σ) α} {f : α → ExceptT ε (StateM σ) β} (hm : Grows look m)
    (hf : ∀ x, Grows look (f x)) : Grows look (m >>= f) := by
  intro s
  have hfirst := hm s
  rw [outcome_bind]
  rcases hrun : outcome m s with ⟨_ | x, t⟩
  · rwa [hrun] at hfirst
  · rw [hrun] at hfirst
    exact hfirst.trans (hf x t)

theorem mapM {f : α → ExceptT ε (StateM σ) β} (hf : ∀ x, Grows look (f x)) (xs : List α) :
    Grows look (xs.mapM f) := by
  induction xs with
  | nil => exact pure []
  | cons x rest ih =>
    rw [List.mapM_cons]
    exact (hf x).bind fun _ => ih.bind fun _ => pure _

theorem forM {f : α → ExceptT ε (StateM σ) Unit} (hf : ∀ x, Grows look (f x)) (xs : List α) :
    Grows look (xs.forM f) := by
  induction xs with
  | nil => exact pure ()
  | cons x rest ih => exact (hf x).bind fun _ => ih

end General

section Encoders

theorem intern (s : String) : Grows Tables.snapshot (Encoder.intern s) := by
  intro t
  rw [Encoder.outcome_intern]
  rcases hintern : t.strings.intern s with ⟨e | id, strings⟩
  · rw [(StringTable.intern_error t.strings.holds_entries hintern).1]
    exact .refl _
  · have hstrings := (StringTable.intern_ok t.strings.holds_entries hintern).1
    exact t.holds_entries.begins ⟨hstrings, rfl⟩ (List.prefix_append _ _) (List.prefix_refl _)

theorem push (blob : List UInt8) : Grows Tables.snapshot (Encoder.push blob) := by
  intro t
  rw [Encoder.outcome_push]
  rcases hpush : t.blobs.push blob with ⟨e | id, blobs⟩
  · rw [(BlobTable.push_error hpush).1]
    exact .refl _
  · have hblobs := (BlobTable.push_ok hpush).1
    exact t.holds_entries.begins ⟨t.strings.holds_entries, hblobs⟩ (List.prefix_refl _)
      (List.prefix_append _ _)

theorem reference (q : QualifiedType) (member : String) :
    Grows Tables.snapshot (Encoder.reference q member) := by
  refine (intern _).bind fun ns => (intern _).bind fun path => (intern _).bind fun name => ?_
  cases MemberKey.pack ns path name with
  | ok key => exact pure key
  | error overflow => exact throw _

variable (method : String) (positions : Positions)

theorem resolve (l : Label) : Grows Tables.snapshot (Encoder.resolve method positions l) := by
  rw [Encoder.resolve]
  cases positions.position? l with
  | some position => exact pure position
  | none => exact throw _

theorem instruction (i : Instruction) :
    Grows Tables.snapshot (Encoder.instruction method positions i) := by
  refine bind ?_ fun _ => pure _
  rw [Encoder.operand]
  cases i.operand with
  | string s => exact (intern s).bind fun _ => pure _
  | target l => exact (resolve method positions l).bind fun _ => pure _
  | targets ls =>
    exact (mapM (resolve method positions) ls).bind fun _ => (push _).bind fun _ => pure _
  | member m => exact (reference _ _).bind fun _ => pure _
  | unsupported shape => exact throw _
  | _ => exact pure _

theorem methodRecord (d : DeclaredMethod) :
    Grows Tables.snapshot (Encoder.methodRecord d) := by
  have hrecord : Grows Tables.snapshot (do
      let positions ← (MonadLift.monadLift (Positions.build d.fullName d.method.instructions) :
        Encoder Positions)
      let key ← Encoder.reference d.type d.method.name
      let body ← d.method.instructions.mapM (Encoder.instruction d.fullName positions)
      return Packed.Section.method key d.signature.pack body) :=
    (lift _).bind fun positions => (reference _ _).bind fun _ =>
      (mapM (instruction d.fullName positions) _).bind fun _ => pure _
  rw [Encoder.methodRecord]
  split
  · exact (throw _).bind fun _ => hrecord
  · exact hrecord

end Encoders

section Sessions

theorem onTables {α : Type} {e : Encoder α} (he : Grows Tables.snapshot e) :
    Grows Session.snapshot (Session.onTables e) := fun s => he s.tables

theorem encodeMethod (d : DeclaredMethod) :
    Grows Session.snapshot (Session.encodeMethod d.type d.method) := by
  have hwrite (chunk : List UInt8) : Grows Session.snapshot (Session.write chunk) :=
    fun _ => .refl _
  have hcount : Grows Session.snapshot (Session.countMethod d) := fun _ => .refl _
  rw [Session.encodeMethod_eq]
  exact (onTables (methodRecord d)).bind fun _ => (hwrite _).bind fun _ => hcount

theorem encodeAll (ds : List DeclaredMethod) : Grows Session.snapshot (Session.encodeAll ds) :=
  forM encodeMethod ds

theorem collectType (t : TypeDef) : Grows Session.snapshot (Session.collectType t) := by
  intro s
  -- collecting does to the tables what encoding the walk does
  obtain ⟨k, hcollect, _⟩ := Session.counts_collect none t s
  rw [Session.collectType, hcollect]
  exact encodeAll _ s

end Sessions

end Grows

end Export
end MethodPack
