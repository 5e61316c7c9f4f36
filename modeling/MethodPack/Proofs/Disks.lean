import MethodPack.Proofs.Steps
import MethodPack.Storage.Access

/-!
# Disks

How a disk changes when files are made, filled, moved and taken away. A disk that has gained
a file (`Disk.Gains`) holds everything else as before; when the file was not there before,
taking it away restores the disk (`Gains.erase`). Paths lead where the directories are, so
files that come and go do not change where a path leads (`follow_of_directories`).
-/

namespace MethodPack.Disk

variable {d d' : Disk} {place : Place} {content : List UInt8}

/-! ## Disks that hold the same -/

/-- Both disks hold the same, and paths start at the same place. -/
structure Same (d d' : Disk) : Prop where
  here : d'.here = d.here
  entries : ∀ place, d'.get? place = d.get? place

/-- The disk `d'` has a file with the content at the place, and else holds what `d` does. -/
structure Gains (d : Disk) (place : Place) (content : List UInt8) (d' : Disk) : Prop where
  here : d'.here = d.here
  file : d'.get? place = some (.file content)
  others : ∀ other, other ≠ place → d'.get? other = d.get? other

theorem Same.refl (d : Disk) : d.Same d := ⟨rfl, fun _ => rfl⟩

/-- There is no file at the root. -/
theorem Gains.ne_root (h : d.Gains place content d') : place ≠ [] := by
  rintro rfl
  cases h.file

theorem gains_put (hplace : place ≠ []) (content : List UInt8) :
    d.Gains place content (d.put place (.file content)) where
  here := rfl
  file := by rw [get?_put d hplace, if_pos rfl]
  others other hother := by rw [get?_put d hplace, if_neg hother]

/-- The content of the file may change afterwards. -/
theorem Gains.put (h : d.Gains place content d') (content' : List UInt8) :
    d.Gains place content' (d'.put place (.file content')) where
  here := h.here
  file := (gains_put h.ne_root content').file
  others other hother := by
    rw [(gains_put h.ne_root content').others other hother, h.others other hother]

/-- A new file that is taken away leaves the disk as it was. -/
theorem Gains.erase (h : d.Gains place content d') (hnew : d.get? place = none) :
    d.Same (d'.erase place) where
  here := h.here
  entries other := by
    rw [get?_erase d' h.ne_root]
    split
    · rename_i heq
      rw [heq, hnew]
    · rename_i hne
      exact h.others other hne

theorem Gains.file? (h : d.Gains place content d') : d'.file? place = some content := by
  rw [Disk.file?, h.file]

section Follow

variable {names more : List String} {start target : Place}

theorem follow_cons {name : String} (h : d.get? start = some .directory) :
    d.follow start (name :: names) =
      if Path.staysPut name then d.follow start names
      else if name = ".." then d.follow start.dropLast names
      else if !Path.fitsName name then .error .nameTooLong
      else if (d.get? (start ++ [name])).isNone then .error .notFound
      else d.follow (start ++ [name]) names := by
  rw [follow, h]

/-- What leads to a directory starts at one. -/
theorem directory_of_follow (h : d.follow start names = .ok target)
    (htarget : d.get? target = some .directory) : d.get? start = some .directory := by
  cases names with
  | nil =>
    cases h
    exact htarget
  | cons name rest =>
    rw [follow] at h
    split at h
    · cases h
    · cases h
    · assumption

/-- Names lead to a directory by way of directories only, so they still lead to it on a disk
that has these. -/
theorem follow_of_directories (h : d.follow start names = .ok target)
    (htarget : d.get? target = some .directory)
    (hdirs : ∀ p, d.get? p = some .directory → d'.get? p = some .directory) :
    d'.follow start names = .ok target := by
  induction names generalizing start with
  | nil => exact h
  | cons name rest ih =>
    have hstart := directory_of_follow h htarget
    rw [follow_cons hstart] at h
    rw [follow_cons (hdirs start hstart)]
    by_cases hstays : Path.staysPut name
    · rw [if_pos hstays] at h ⊢
      exact ih h
    rw [if_neg hstays] at h ⊢
    by_cases hup : name = ".."
    · rw [if_pos hup] at h ⊢
      exact ih h
    rw [if_neg hup] at h ⊢
    by_cases hfits : Path.fitsName name
    · simp only [hfits, Bool.not_true, Bool.false_eq_true, if_false] at h ⊢
      split at h
      · cases h
      · rw [hdirs _ (directory_of_follow h htarget)]
        exact ih h
    · simp [hfits] at h

theorem follow_append : d.follow start (names ++ more) =
    (d.follow start names).bind fun p => d.follow p more := by
  induction names generalizing start with
  | nil => rfl
  | cons name rest ih =>
    rw [List.cons_append, follow, follow]
    cases d.get? start with
    | none => rfl
    | some entry =>
      cases entry with
      | file _ => rfl
      | directory =>
        simp only [ih]
        split
        · rfl
        · split
          · rfl
          · split
            · rfl
            · split <;> rfl

end Follow

/-! ## Destinations -/

/-- The path leads from the directory `parent`, where its first names lead, to a file of the
given name, which is there or may be made. -/
structure LeadsTo (d : Disk) (path : String) (before : List String) (parent : Place)
    (name : String) : Prop where
  checked : check .invalidArgument path = .ok ()
  names : Path.names path = before ++ [name]
  leads : d.follow (d.origin path) before = .ok parent
  directory : d.get? parent = some .directory
  proper : name ≠ "" ∧ name ≠ "." ∧ name ≠ ".." ∧ Path.fitsName name
  free : d.get? (parent ++ [name]) ≠ some .directory

/-- Which paths are refused does not depend on how a zero character is reported. -/
theorem check_of_check {zero zero' : StorageFault} {path : String}
    (h : check zero path = .ok ()) : check zero' path = .ok () := by
  rw [check] at h ⊢
  split at h
  · cases h
  · rename_i hzero
    rw [if_neg hzero]
    exact h

theorem LeadsTo.destination {path name : String} {before : List String} {parent : Place}
    (h : d.LeadsTo path before parent name) : d.destination path = .ok (parent ++ [name]) := by
  obtain ⟨hempty, hdot, hdots, hfits⟩ := h.proper
  have hkept : ((before ++ [name]).reverse.dropWhile (· == "")).reverse = before ++ [name] := by
    simp [hempty]
  rw [Disk.destination, h.checked]
  simp only [h.names, hkept, List.dropLast_concat, List.getLast?_concat]
  show (d.follow (d.origin path) before).bind _ = _
  rw [h.leads]
  simp [Except.bind, h.directory, hdot, hdots, hfits, h.free]
  rfl

theorem leadsTo_of_destination {path : String} (h : d.destination path = .ok place) :
    ∃ before parent name, place = parent ++ [name] ∧ d.LeadsTo path before parent name := by
  rw [destination] at h
  obtain ⟨_, hcheck, h⟩ := bind_ok_iff.mp h
  obtain ⟨parent, hparent, h⟩ := bind_ok_iff.mp h
  split at h
  · cases h
  rename_i name hlast
  split at h
  · cases h
  · cases h
  rename_i hdirectory
  split at h
  · cases h
  rename_i hdots
  split at h
  · cases h
  rename_i hfits
  split at h
  · cases h
  rename_i hlength
  dsimp only at h
  split at h
  · cases h
  rename_i hfree
  cases h
  -- no name at the end is empty, as none was left out
  have hall : (Path.names path).reverse.dropWhile (· == "") = (Path.names path).reverse := by
    refine (List.dropWhile_suffix _).eq_of_length_le ?_
    simpa using hlength
  rw [hall, List.reverse_reverse] at hlast hparent
  obtain ⟨before, hnames⟩ := List.getLast?_eq_some_iff.mp hlast
  rw [hnames, List.dropLast_concat] at hparent
  have hempty : name ≠ "" := by
    rintro rfl
    have := congrArg List.length hall
    have hshort := (List.dropWhile_suffix (l := before.reverse) (· == "")).length_le
    simp only [hnames, List.reverse_append, List.reverse_singleton, List.singleton_append,
      List.dropWhile_cons_of_pos, beq_self_eq_true, List.length_cons] at this
    omega
  rw [not_or] at hdots
  exact ⟨before, parent, name, rfl, hcheck, hnames, hparent, hdirectory,
    ⟨hempty, hdots.1, hdots.2, by simpa using hfits⟩, hfree⟩

/-! ## Temporary files -/

variable {temp : Place} {path : String}

/-- A file that has been put at the destination of a path is read there. -/
theorem Gains.read (h : d.Gains place content d') (hdest : d.destination path = .ok place) :
    d'.read path = .ok content := by
  obtain ⟨before, parent, name, rfl, hleads⟩ := leadsTo_of_destination hdest
  obtain ⟨hempty, hdot, hdots, hfits⟩ := hleads.proper
  have hdirs (p : Place) (hp : d.get? p = some .directory) : d'.get? p = some .directory := by
    rw [h.others p (by rintro rfl; exact hleads.free hp), hp]
  have hlocate : d'.locate path = .ok (parent ++ [name]) := by
    have hchecked : check .zeroInPath path = .ok () := check_of_check hleads.checked
    have horigin : d'.origin path = d.origin path := by rw [origin, origin, h.here]
    rw [locate, hchecked]
    show d'.follow (d'.origin path) (Path.names path) = _
    rw [hleads.names, follow_append, horigin,
      follow_of_directories hleads.leads hleads.directory hdirs]
    show d'.follow parent [name] = _
    rw [follow_cons (hdirs parent hleads.directory)]
    simp [Path.staysPut, hempty, hdot, hdots, hfits, h.file, follow]
  simp only [Disk.read, hlocate, bind, Except.bind, h.file]
  rfl

end MethodPack.Disk
