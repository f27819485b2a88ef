import ScopedQuery.CommandLine.Files

namespace ScopedQuery.CommandLine

/-!
# Files that are read back

Writing puts a file at the end of a path.  No directory is lost by it, so every name leads to where
it led before, and the file that was written is found again under its name.

* `Directory.find?_insert` — what stands under a path once a file has been put somewhere.
* `Directory.Leads`, `Directory.follow_eq_ok` — the steps by which names lead to a path.
* `Directory.Leads.mono` — they lead to the same path as long as the directories stay the same.
* `Directory.read_write` — the content that was written is read back.
* `Directory.locate_write` — every name can still be read and written.
-/

namespace Directory

variable {d d' : Directory} {path path' name : String} {content : ByteArray}

/-! ### What stands under a path -/

/-- The entries with a file in the place of those under a path. -/
def replaced (path : String) (content : ByteArray) (entries : List (String × Entry)) :
    List (String × Entry) :=
  entries.map fun entry => if entry.1 == path then (path, .file content) else entry

/-- To replace one entry leaves all others as they are. -/
theorem lookup_replaced_of_ne (h : path' ≠ path) (entries : List (String × Entry)) :
    (replaced path content entries).lookup path' = entries.lookup path' := by
  induction entries with
  | nil => rfl
  | cons entry entries ih =>
    rw [replaced, List.map_cons, ← replaced]
    by_cases hhere : entry.1 = path
    · have hother : (path' == entry.1) = false := beq_false_of_ne fun heq => h (heq.trans hhere)
      rw [if_pos (by simp [hhere]), List.lookup_cons, List.lookup_cons, hother, ih,
        beq_false_of_ne h]
    · rw [if_neg (by simp [hhere]), List.lookup_cons, List.lookup_cons, ih]

/-- The entry itself has the new content, if it was there. -/
theorem lookup_replaced_self {entries : List (String × Entry)}
    (h : (entries.lookup path).isSome = true) :
    (replaced path content entries).lookup path = some (.file content) := by
  induction entries with
  | nil => cases h
  | cons entry entries ih =>
    rw [replaced, List.map_cons, ← replaced]
    by_cases hhere : entry.1 = path
    · rw [if_pos (by simp [hhere]), List.lookup_cons_self]
    · have hother : (path == entry.1) = false := beq_false_of_ne fun heq => hhere heq.symm
      rw [List.lookup_cons, hother] at h
      rw [if_neg (by simp [hhere]), List.lookup_cons, hother, ih h]

/-- A file that was put under a path stands there, and nothing else has changed. -/
theorem find?_insert (d : Directory) (path path' : String) (content : ByteArray) :
    (d.insert path content).find? path'
      = if path' = path then some (.file content) else d.find? path' := by
  unfold insert
  -- an entry that exists keeps its place in the list, a new one goes behind the others
  by_cases hfound : (d.find? path).isSome = true
  · rw [if_pos hfound]
    show (replaced path content d.entries).lookup path' = _
    by_cases hpath : path' = path
    · rw [if_pos hpath, hpath, lookup_replaced_self hfound]
    · rw [if_neg hpath, lookup_replaced_of_ne hpath, find?]
  · have hnone : d.find? path = none := Option.not_isSome_iff_eq_none.mp hfound
    rw [if_neg hfound]
    show (d.entries ++ [(path, Entry.file content)]).lookup path' = _
    rw [List.lookup_append, ← find?]
    by_cases hpath : path' = path
    · rw [if_pos hpath, hpath, hnone, List.lookup_cons_self]
      rfl
    · rw [if_neg hpath, List.lookup_cons, beq_false_of_ne hpath]
      simp

/-! ### Where names lead -/

/-- A name on the way along a path that stands for itself: it may be followed for this access, since
    it is not too long and is not the directory that a slash at the end asks for. -/
def IsStep (access : Access) (name : List Char) (rest : List (List Char)) : Prop :=
  isIdle name = false ∧ name ≠ ['.', '.'] ∧
    ¬ (access = .writing ∧ rest ≠ [] ∧ rest.all (· == []) = true) ∧
    ¬ (String.ofList name).utf8ByteSize > maxNameBytes

/-- The names lead from a place to a path: over names that lead nowhere, up, and down through
    directories, to a name that is none. -/
inductive Leads (d : Directory) (access : Access) : Place → List (List Char) → String → Prop
  | idle {place : Place} {name : List Char} {rest : List (List Char)} {path : String} :
    isIdle name = true → Leads d access place rest path → Leads d access place (name :: rest) path
  | up {place : Place} {rest : List (List Char)} {path : String} :
    Leads d access place.up rest path → Leads d access place (['.', '.'] :: rest) path
  | down {place : Place} {name : List Char} {rest : List (List Char)} {path : String} :
    IsStep access name rest → d.find? (place.path name) = some .directory →
    Leads d access (place.down name) rest path → Leads d access place (name :: rest) path
  | here {place : Place} {name : List Char} :
    IsStep access name [] → d.find? (place.path name) ≠ some .directory →
    Leads d access place [name] (place.path name)

/-- The walk along a name finds a path exactly if the relation leads there.  The walk has one branch
    for each thing that may be in the way, and the relation says only where each step goes, so both
    directions go through the names one by one. -/
theorem follow_eq_ok {access : Access} {place : Place} {names : List (List Char)} :
    d.follow access place names = .ok path ↔ d.Leads access place names path := by
  constructor
  · intro h
    -- each branch of the walk that is not refused is a case of the relation
    induction names generalizing place with
    | nil => cases h
    | cons name rest ih =>
      unfold follow at h
      by_cases hidle : isIdle name = true
      · rw [if_pos hidle] at h
        exact .idle hidle (ih h)
      by_cases hup : name = ['.', '.']
      · rw [if_neg hidle, if_pos hup] at h
        exact hup ▸ .up (ih h)
      rw [if_neg hidle, if_neg hup] at h
      split at h
      · cases h
      split at h
      · cases h
      -- a step to an entry: a directory is walked on from, and only a last name may be no directory
      next hslash hlong =>
        have hstep : IsStep access name rest := ⟨Bool.eq_false_iff.mpr hidle, hup, hslash, hlong⟩
        split at h
        · next hfound => exact .down hstep hfound (ih h)
        · next hfound =>
          cases h
          exact .here hstep hfound
        · cases h
        · cases h
  · intro h
    -- each case of the relation holds the tests that lead the walk into its branch
    induction h with
    | idle hidle _ ih =>
      unfold follow
      rw [if_pos hidle, ih]
    | up _ ih =>
      unfold follow
      rw [if_neg (by decide), if_pos rfl, ih]
    | @down place name rest path hstep hfound _ ih =>
      obtain ⟨hidle, hup, hslash, hlong⟩ := hstep
      unfold follow
      rw [if_neg (by simp [hidle]), if_neg hup, if_neg hslash, if_neg hlong, hfound]
      exact ih
    | @here place name hstep hfound =>
      obtain ⟨hidle, hup, hslash, hlong⟩ := hstep
      unfold follow
      rw [if_neg (by simp [hidle]), if_neg hup, if_neg hslash, if_neg hlong]
      split
      -- a directory is excluded by the case, and no name is left for the last two
      · next hdirectory => exact absurd hdirectory hfound
      · rfl
      · next hrest => cases hrest
      · next hrest => cases hrest

/-- The end of a path is no directory. -/
theorem Leads.find?_ne {access : Access} {place : Place} {names : List (List Char)}
    (h : d.Leads access place names path) : d.find? path ≠ some .directory := by
  induction h with
  | idle _ _ ih => exact ih
  | up _ ih => exact ih
  | down _ _ _ ih => exact ih
  | here _ hfound => exact hfound

/-- As long as the directories stay the same, names lead to the same end. -/
theorem Leads.mono {access : Access} {place : Place} {names : List (List Char)}
    (hsame : ∀ path, d'.find? path = some .directory ↔ d.find? path = some .directory)
    (h : d.Leads access place names path) : d'.Leads access place names path := by
  induction h with
  | idle hidle _ ih => exact .idle hidle ih
  | up _ ih => exact .up ih
  | down hstep hfound _ ih => exact .down hstep ((hsame _).mpr hfound) ih
  | here hstep hfound => exact .here hstep (mt (hsame _).mp hfound)

/-- Where a file can be written it can be read. -/
theorem Leads.reading {place : Place} {names : List (List Char)}
    (h : d.Leads .writing place names path) : d.Leads .reading place names path := by
  have hstep {name : List Char} {rest : List (List Char)} (h : IsStep .writing name rest) :
      IsStep .reading name rest := by
    obtain ⟨hidle, hup, -, hlong⟩ := h
    have hslash : ¬ (Access.reading = .writing ∧ rest ≠ [] ∧ rest.all (· == []) = true) := by simp
    exact ⟨hidle, hup, hslash, hlong⟩
  induction h with
  | idle hidle _ ih => exact .idle hidle ih
  | up _ ih => exact .up ih
  | down hname hfound _ ih => exact .down (hstep hname) hfound ih
  | here hname hfound => exact .here (hstep hname) hfound

/-- A file name leads to a path if it leads to it from where it starts. -/
theorem locate_mono {access access' : Access}
    (hleads : ∀ place names, d.Leads access place names path → d'.Leads access' place names path)
    (h : d.locate access name = .ok path) : d'.locate access' name = .ok path := by
  -- the tests of the name itself do not depend on the directory
  unfold locate at h ⊢
  dsimp only at h ⊢
  split at h
  · cases h
  next hnul =>
    split at h
    · cases h
    next hempty =>
      split at h
      · cases h
      next hlong =>
        rw [if_neg hnul, if_neg hempty, if_neg hlong]
        exact follow_eq_ok.mpr (hleads _ _ (follow_eq_ok.mp h))

/-- What can be opened is no directory. -/
theorem find?_of_locate {access : Access} (h : d.locate access name = .ok path) :
    d.find? path ≠ some .directory := by
  unfold locate at h
  dsimp only at h
  split at h
  · cases h
  split at h
  · cases h
  split at h
  · cases h
  exact (follow_eq_ok.mp h).find?_ne

/-! ### Files that are written -/

/-- Writing loses no directory and makes none. -/
theorem find?_write (h : d.write name content = .ok d') (path : String) :
    d'.find? path = some .directory ↔ d.find? path = some .directory := by
  unfold write at h
  split at h
  · cases h
  next path' hlocate =>
    cases h
    rw [find?_insert]
    by_cases hpath : path = path'
    · rw [if_pos hpath, hpath]
      simp [find?_of_locate hlocate]
    · rw [if_neg hpath]

/-- A name that can be written can be written once more. -/
theorem locate_write {access : Access} {other : String} (h : d.write name content = .ok d')
    (hother : d.locate access other = .ok path) : d'.locate access other = .ok path :=
  locate_mono (fun _ _ hleads => hleads.mono (find?_write h)) hother

/-- What was written to a file is read from it. -/
theorem read_write (h : d.write name content = .ok d') : d'.read name = .ok content := by
  have hsame := find?_write h
  unfold write at h
  split at h
  · cases h
  next path hlocate =>
    cases h
    have hreading : (d.insert path content).locate .reading name = .ok path :=
      locate_mono (fun _ _ hleads => (hleads.mono hsame).reading) hlocate
    unfold read
    rw [hreading]
    simp [find?_insert]

end Directory

end ScopedQuery.CommandLine
