/-
What access to a tree of files comes to.

Where a text leads to is decided by the text alone, once it can be gone there.  A file that is written or copied is
therefore a file at a known path, and every other file stays.

* `FileTree.file?` — what is in a file;
* `locate_eq_ok`, `write_eq_ok`, `copy_eq_ok` — what access that succeeds has found and left;
* `locate_put` — what can be gone to can be gone to with one more file;
* `file?_createDirectories` — directories that are created hide no file;
* `FileTree.Tidy`, `Tidy.mem_filesBelow` — trees in which every path has one entry, and the files under a directory.
-/
import Graft.Project.FileTree
import Graft.Proofs.Project.Path
import Mathlib.Data.List.Nodup

namespace Graft

theorem except_bind_eq_ok {ε α β : Type} {x : Except ε α} {f : α → Except ε β} {b : β} :
    (x >>= f) = .ok b ↔ ∃ a, x = .ok a ∧ f a = .ok b := by
  cases x with
  | error e => simp [bind, Except.bind]
  | ok a => simp [bind, Except.bind]

/-- Two actions one after the other are done when both are, whatever their errors are. -/
theorem FileAction.bind_eq_ok {ε α β : Type} {x : ExceptT ε (StateM FileTree) α} {f : α → ExceptT ε (StateM FileTree) β}
    {t t' : FileTree} {b : β} :
    (x >>= f).run.run t = (.ok b, t') ↔
      ∃ a t₁, x.run.run t = (.ok a, t₁) ∧ (f a).run.run t₁ = (.ok b, t') := by
  rw [ExceptT.run_bind, StateT.run_bind]
  cases x.run.run t with
  | mk result t₁ =>
    cases result with
    | error e =>
      constructor
      · intro h
        cases h
      · rintro ⟨a, t₂, h, -⟩
        cases h
    | ok a =>
      constructor
      · exact fun h => ⟨a, t₁, rfl, h⟩
      · rintro ⟨a', t₂, h, h'⟩
        cases h
        exact h'

/-- What is in a file, and whether it can be executed. -/
def Entry.file? : Entry → Option (Content × Bool)
  | directory => none
  | file c x => some (c, x)

namespace FileTree

variable {t t' : FileTree} {p q : Path} {path source target : Text} {c : Content} {x : Bool}

/-! ### Files -/

/-- What is in the file at a path. -/
def file? (t : FileTree) (p : Path) : Option (Content × Bool) := (t.get? p).bind Entry.file?

theorem file?_eq_some : t.file? p = some (c, x) ↔ t.get? p = some (.file c x) := by
  rw [file?]
  rcases t.get? p with _ | _ | ⟨d, y⟩ <;> simp [Entry.file?]

theorem isAbove_eq_false (h : t.get? p ≠ some .directory) : p.isAbove = false :=
  Bool.eq_false_iff.2 fun habove => h (by rw [get?, if_pos habove])

theorem file?_put_self (h : t.get? p ≠ some .directory) (c : Content) (x : Bool) :
    (t.put p (.file c x)).file? p = some (c, x) :=
  file?_eq_some.2 (get?_put_self (isAbove_eq_false h) _ t)

theorem file?_put_of_ne (h : q ≠ p) (e : Entry) : (t.put p e).file? q = t.file? q := by
  rw [file?, get?_put_of_ne h, file?]

theorem file?_put_directory (h : t.get? p = none) (q : Path) : (t.put p .directory).file? q = t.file? q := by
  by_cases hq : q = p
  · subst hq
    have habove : q.isAbove = false := isAbove_eq_false fun hdir => by rw [h] at hdir; cases hdir
    rw [file?, file?, get?_put_self habove, h]
    rfl
  · exact file?_put_of_ne hq _

/-! ### Places -/

theorem step_eq_ok {dir : Path} {part : Text} (h : t.step dir part = .ok p) :
    t.get? dir = some .directory ∧ p = dir.push part := by
  rw [step] at h
  split at h
  · rename_i hdir
    rw [extend] at h
    split at h
    · cases h
    · cases h
      exact ⟨hdir, rfl⟩
  · cases h
  · cases h

theorem foldlM_step_eq_ok {dir : Path} {parts : List Text} (h : parts.foldlM t.step dir = .ok p) :
    p = parts.foldl Path.push dir := by
  induction parts generalizing dir with
  | nil => exact (Except.ok.inj h).symm
  | cons part parts ih =>
    rw [List.foldlM_cons, except_bind_eq_ok] at h
    obtain ⟨next, hstep, hrest⟩ := h
    rw [List.foldl_cons, ← (step_eq_ok hstep).2]
    exact ih hrest

/-- A text that leads somewhere leads where it says. -/
theorem locate_eq_ok (h : t.locate path = .ok p) : p = Path.ofText path := by
  rw [locate, locateFrom] at h
  split at h
  · cases h
  · obtain ⟨parts, hparts, hfold⟩ := except_bind_eq_ok.1 h
    rw [FileTree.parts] at hparts
    split at hparts
    · cases hparts
    · cases hparts
      exact foldlM_step_eq_ok hfold

/-- A path that leads somewhere leads there when something is put where no directory is. -/
theorem foldlM_step_put (hp : t.get? p ≠ some .directory) (e : Entry) {dir : Path} {parts : List Text}
    (h : parts.foldlM t.step dir = .ok q) : parts.foldlM (t.put p e).step dir = .ok q := by
  induction parts generalizing dir with
  | nil => exact h
  | cons part parts ih =>
    rw [List.foldlM_cons, except_bind_eq_ok] at h ⊢
    obtain ⟨next, hstep, hrest⟩ := h
    have hdir : dir ≠ p := by
      rintro rfl
      exact hp (step_eq_ok hstep).1
    refine ⟨next, ?_, ih hrest⟩
    rw [step, get?_put_of_ne hdir]
    exact hstep

theorem locate_put (hp : t.get? p ≠ some .directory) (e : Entry) (h : t.locate path = .ok q) :
    (t.put p e).locate path = .ok q := by
  rw [locate, locateFrom] at h ⊢
  split at h
  · cases h
  · rename_i hempty
    obtain ⟨parts, hparts, hfold⟩ := except_bind_eq_ok.1 h
    rw [if_neg hempty]
    exact except_bind_eq_ok.2 ⟨parts, hparts, foldlM_step_put hp e hfold⟩

theorem find_eq_ok {e : Entry} (h : t.find path = .ok e) : t.get? (Path.ofText path) = some e := by
  rw [find, except_bind_eq_ok] at h
  obtain ⟨p, hp, h⟩ := h
  obtain rfl := locate_eq_ok hp
  split at h
  · rename_i hget
    cases h
    exact hget
  · cases h

/-! ### Writing and copying -/

theorem withoutSlashes_of_not_endsInSlash (h : Path.endsInSlash path = false) : Path.withoutSlashes path = path := by
  rw [Path.endsInSlash, decide_eq_false_iff_not] at h
  have hdrop : path.reverse.dropWhile (· == '/') = path.reverse := by
    cases hr : path.reverse with
    | nil => rfl
    | cons c cs =>
      have hc : path.getLast? = some c := by
        rw [List.getLast?_eq_head?_reverse, hr]
        rfl
      exact List.dropWhile_cons_of_neg fun h' => h (hc.trans (congrArg some (beq_iff_eq.1 h')))
  rw [Path.withoutSlashes, hdrop, List.reverse_reverse]

/-- A file is written where no directory is. -/
theorem write_eq_ok (h : t.write path c = .ok t') :
    ∃ p x, t.locate path = .ok p ∧ t.get? p ≠ some .directory ∧ t' = t.put p (.file c x) := by
  rw [write, except_bind_eq_ok] at h
  obtain ⟨p, hlocate, h⟩ := h
  have hslash : ∀ x err, (if Path.endsInSlash path then throw err else return t.put p (.file c x) :
      Except IoError FileTree) = .ok t' → t.locate path = .ok p ∧ t' = t.put p (.file c x) := by
    intro x err h
    split at h
    · cases h
    · rename_i hslash
      cases h
      rw [withoutSlashes_of_not_endsInSlash (Bool.eq_false_iff.2 hslash)] at hlocate
      exact ⟨hlocate, rfl⟩
  split at h
  · cases h
  · rename_i d x hget
    obtain ⟨hp, ht⟩ := hslash x .notDirectory h
    exact ⟨p, x, hp, by simp [hget], ht⟩
  · rename_i hget
    obtain ⟨hp, ht⟩ := hslash false .isDirectory h
    exact ⟨p, false, hp, by simp [hget], ht⟩

/-- A file that is made executable or not holds what it held. -/
theorem file?_setExecutable (h : t.file? p = some (c, x)) (y : Bool) :
    (t.setExecutable p y).file? p = some (c, y) ∧ ∀ q ≠ p, (t.setExecutable p y).file? q = t.file? q := by
  have hget := file?_eq_some.1 h
  rw [setExecutable, hget]
  exact ⟨file?_put_self (by simp [hget]) c y, fun q hq => file?_put_of_ne hq _⟩

/-- The file at `p` has been copied to `q`.  Copied to where it is, it is empty. -/
structure Copied (t t' : FileTree) (p q : Path) : Prop where
  isSome : (t.file? p).isSome
  target : t'.file? q = (t.file? p).map fun f => if q = p then (.text [], f.2) else f
  keeps : ∀ r, r ≠ q → t'.file? r = t.file? r

theorem copy_eq_ok (h : t.copy source target = .ok t') : t.Copied t' (Path.ofText source) (Path.ofText target) := by
  rw [copy, except_bind_eq_ok] at h
  obtain ⟨e, hfind, h⟩ := h
  have hget := find_eq_ok hfind
  cases e with
  | directory => cases h
  | file c x =>
    obtain ⟨p, hp, h⟩ := except_bind_eq_ok.1 h
    obtain rfl := locate_eq_ok hp
    obtain ⟨t₁, hwrite, h⟩ := except_bind_eq_ok.1 h
    obtain ⟨q, hq, h⟩ := except_bind_eq_ok.1 h
    cases h
    obtain ⟨q', y, hq', hfree, rfl⟩ := write_eq_ok hwrite
    obtain rfl := locate_eq_ok hq
    obtain rfl := locate_eq_ok hq'
    have honto : ((t.locate target).toOption == some (Path.ofText source)) =
        decide (Path.ofText target = Path.ofText source) := by
      rw [hq']
      exact Bool.eq_iff_iff.2 (by simp [Except.toOption])
    have hfile := file?_eq_some.2 hget
    obtain ⟨hself, hothers⟩ := file?_setExecutable (file?_put_self hfree _ y) x
    refine ⟨by rw [hfile]; rfl, ?_, fun r hr => (hothers r hr).trans (file?_put_of_ne hr _)⟩
    rw [hself, honto, hfile]
    by_cases h : Path.ofText target = Path.ofText source <;> simp [h]

/-! ### Directories -/

theorem file?_descend (t : FileTree) (dir : Path) (parts : List Text) (q : Path) :
    (t.descend dir parts).1.file? q = t.file? q := by
  fun_induction descend t dir parts with
  | case1 => rfl
  | case2 => rfl
  | case3 t dir part parts p hp hget ih => exact ih
  | case4 => rfl
  | case5 t dir part parts p hp hget ih => exact ih.trans (file?_put_directory hget q)

/-- Directories that are created hide no file. -/
theorem file?_createDirectories (t : FileTree) (path : Text) (q : Path) :
    (t.createDirectories path).1.file? q = t.file? q := by
  rw [createDirectories]
  split
  · rfl
  · exact file?_descend t _ _ q

/-! ### Files under a directory -/

/-- Every path has one entry, and none that is a directory anyway; what lies below `dir` is called by names. -/
structure Tidy (t : FileTree) (dir : Path) : Prop where
  nodup : (t.map Prod.fst).Nodup
  isAbove : ∀ e ∈ t, e.1.isAbove = false
  isName : ∀ e ∈ t, ∀ r ∈ dir.below? e.1, ∀ part ∈ r, Path.IsName part

/-- The paths of the files below a directory, as they stand in the tree. -/
def filesBelow (t : FileTree) (dir : Path) : List Path := t.filterMap fun (p, e) =>
  match e with
  | .file .. => dir.below? p
  | .directory => none

theorem filesUnder_eq_ok {rs : List Path} (h : t.filesUnder path = .ok rs) :
    t.get? (Path.ofText path) = some .directory ∧ rs = sortBy Path.le (t.filesBelow (Path.ofText path)) := by
  rw [filesUnder, except_bind_eq_ok] at h
  obtain ⟨p, hp, h⟩ := h
  obtain rfl := locate_eq_ok hp
  split at h
  · rename_i hdir
    cases h
    exact ⟨hdir, rfl⟩
  · cases h
  · cases h

namespace Tidy

variable {dir r : Path}

theorem mem_iff (ht : t.Tidy dir) : (p, .file c x) ∈ t ↔ t.file? p = some (c, x) := by
  rw [file?_eq_some]
  constructor
  · intro h
    rw [get?, if_neg (by simp [ht.isAbove _ h])]
    cases hfind : t.find? fun e => e.1 == p with
    | none => simpa using List.find?_eq_none.1 hfind _ h
    | some d =>
      -- The first entry at the path is the only one.
      have hd : d = (p, .file c x) :=
        List.inj_on_of_nodup_map ht.nodup (List.mem_of_find?_eq_some hfind) h (by simpa using List.find?_some hfind)
      rw [hd]
      rfl
  · intro h
    have hp : t.get? p ≠ some .directory := by simp [h]
    rw [get?, if_neg (by simp [isAbove_eq_false hp])] at h
    obtain ⟨⟨q, e⟩, hfind, rfl⟩ := Option.map_eq_some_iff.1 h
    obtain rfl : q = p := by simpa using List.find?_some hfind
    exact List.mem_of_find?_eq_some hfind

theorem mem_filesBelow (ht : t.Tidy dir) : r ∈ t.filesBelow dir ↔ (t.file? (dir ++ r)).isSome := by
  rw [filesBelow, List.mem_filterMap]
  constructor
  · rintro ⟨⟨p, _ | ⟨c, x⟩⟩, hmem, hr⟩
    · cases hr
    · rw [← Path.below?_eq_some.1 hr, ht.mem_iff.1 hmem]
      rfl
  · intro h
    obtain ⟨⟨c, x⟩, hfile⟩ := Option.isSome_iff_exists.1 h
    exact ⟨_, ht.mem_iff.2 hfile, Path.below?_append dir r⟩

theorem nodup_filesBelow (ht : t.Tidy dir) : (t.filesBelow dir).Nodup := by
  refine List.Pairwise.filterMap _ (fun d e hne r hr s hs => ?_) (List.pairwise_map.1 ht.nodup)
  rintro rfl
  obtain ⟨p, _ | ⟨c, x⟩⟩ := d
  · cases hr
  obtain ⟨q, _ | ⟨c', x'⟩⟩ := e
  · cases hs
  · exact hne ((Path.below?_eq_some.1 hr).trans (Path.below?_eq_some.1 hs).symm)

/-- A file is not the directory that it is under, and its path is made of names. -/
theorem isName_of_mem_filesBelow (ht : t.Tidy dir) (hdir : t.get? dir = some .directory) (h : r ∈ t.filesBelow dir) :
    r ≠ [] ∧ ∀ part ∈ r, Path.IsName part := by
  have hfile := ht.mem_filesBelow.1 h
  obtain ⟨⟨c, x⟩, hfile⟩ := Option.isSome_iff_exists.1 hfile
  constructor
  · rintro rfl
    rw [List.append_nil, file?, hdir] at hfile
    cases hfile
  · exact ht.isName _ (ht.mem_iff.2 hfile) r (Path.below?_append dir r)

end Tidy

end FileTree

end Graft
