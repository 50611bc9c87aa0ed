/-
Publishing a directory.

The files under a directory are copied to their places one after the other, in the order of their paths, and every
copy reads the tree that the copies before it have left.  A place may itself be a file that is still to be copied: it
then comes to its own place with what was copied over it.

* `FileTree.CopiedInTurn` — files that have been copied one after the other;
* `FileTree.Published` — what publishing leaves of every file, at its place and elsewhere.
-/
import Graft.Project.Files
import Graft.Proofs.Project.FileTree

namespace Graft

variable {t t₁ t' : FileTree} {dir root p r : Path} {rs : List Path} {source target : Text}

/-! ### Actions on files -/

theorem attempt_eq_ok {path : Text} {change : FileTree → Except IoError FileTree}
    (h : (attempt path change).run.run t = (.ok (), t')) : change t = .ok t' := by
  have h : attempt path change t = (.ok (), t') := h
  rw [attempt] at h
  split at h
  · rename_i t₁ hchange
    cases h
    exact hchange
  · cases h

theorem copyFile_eq_ok (h : (copyFile source target).run.run t = (.ok (), t')) :
    t.Copied t' (Path.ofText source) (Path.ofText target) := by
  obtain ⟨⟨⟩, t₁, hcreate, hcopy⟩ := FileAction.bind_eq_ok.1 h
  have hfile : ∀ p, t₁.file? p = t.file? p := by
    have ht : (t.createDirectories (Path.parent target)).1 = t₁ := congrArg Prod.snd hcreate
    exact fun p => ht ▸ t.file?_createDirectories _ p
  obtain ⟨hsome, htarget, hkeeps⟩ := FileTree.copy_eq_ok (attempt_eq_ok hcopy)
  exact ⟨hfile _ ▸ hsome, hfile _ ▸ htarget, fun r hr => (hkeeps r hr).trans (hfile r)⟩

/-! ### Copies in turn -/

namespace FileTree

/-- The files have been copied from `dir` to `root` one after the other. -/
inductive CopiedInTurn (dir root : Path) : List Path → FileTree → FileTree → Prop
  | nil (t : FileTree) : CopiedInTurn dir root [] t t
  | cons {r : Path} {rs : List Path} {t t₁ t' : FileTree} : t.Copied t₁ (dir ++ r) (root ++ r) →
      CopiedInTurn dir root rs t₁ t' → CopiedInTurn dir root (r :: rs) t t'

namespace CopiedInTurn

/-- What is no place of a file stays. -/
theorem keeps (h : CopiedInTurn dir root rs t t') (hp : ∀ r ∈ rs, p ≠ root ++ r) : t'.file? p = t.file? p := by
  induction h with
  | nil => rfl
  | cons hfirst _ ih =>
    obtain ⟨hr, hrs⟩ := List.forall_mem_cons.1 hp
    rw [ih hrs, hfirst.keeps _ hr]

/-- Before the copies of some files are those of the files before them. -/
theorem split {pre post : List Path} (h : CopiedInTurn dir root (pre ++ post) t t') :
    ∃ t₁, CopiedInTurn dir root pre t t₁ ∧ CopiedInTurn dir root post t₁ t' := by
  induction pre generalizing t with
  | nil => exact ⟨t, .nil t, h⟩
  | cons r pre ih =>
    obtain _ | ⟨hfirst, hrest⟩ := h
    obtain ⟨t₁, hpre, hpost⟩ := ih hrest
    exact ⟨t₁, .cons hfirst hpre, hpost⟩

/-- What is at the place of the first file in the end is what it was copied from. -/
theorem file?_first (h : CopiedInTurn dir root (r :: rs) t t') (hnodup : (r :: rs).Nodup) :
    t'.file? (root ++ r) = (t.file? (dir ++ r)).map fun f => if root ++ r = dir ++ r then (.text [], f.2) else f := by
  obtain _ | ⟨hcopied, hrest⟩ := h
  rw [← hcopied.target]
  refine hrest.keeps fun s hs hplace => ?_
  obtain rfl : r = s := List.append_cancel_left hplace
  exact (List.nodup_cons.1 hnodup).1 hs

end CopiedInTurn

end FileTree

theorem copiedInTurn_of_forM (hrs : ∀ r ∈ rs, r ≠ [] ∧ ∀ part ∈ r, Path.IsName part)
    (h : (rs.forM fun r => copyFile (Path.join source r.toText) (Path.join target r.toText)).run.run t =
      (.ok (), t')) : FileTree.CopiedInTurn (Path.ofText source) (Path.ofText target) rs t t' := by
  induction rs generalizing t with
  | nil =>
    obtain rfl : t = t' := congrArg Prod.snd h
    exact .nil t
  | cons r rs ih =>
    obtain ⟨⟨hne, hnames⟩, hrs⟩ := List.forall_mem_cons.1 hrs
    obtain ⟨⟨⟩, t₁, hfirst, hrest⟩ := FileAction.bind_eq_ok.1 h
    have hcopied := copyFile_eq_ok hfirst
    rw [Path.ofText_join source hne hnames, Path.ofText_join target hne hnames] at hcopied
    exact .cons hcopied (ih hrs hrest)

/-! ### Publishing -/

/-- What is left when the files under `dir` have been published to `root`. -/
structure FileTree.Published (t t' : FileTree) (dir root : Path) : Prop where
  /-- A file is at its place as it was, unless a file that is copied no later than it has its place there. -/
  copies : ∀ r, (t.file? (dir ++ r)).isSome →
    (∀ s, (t.file? (dir ++ s)).isSome → root ++ s = dir ++ r → s.le r = false) →
    t'.file? (root ++ r) = t.file? (dir ++ r)
  /-- A file that another one has been copied over before is at its place as that one is. -/
  follows : ∀ r s, (t.file? (dir ++ r)).isSome → (t.file? (dir ++ s)).isSome → root ++ s = dir ++ r →
    s.le r = true → s ≠ r → t'.file? (root ++ r) = t'.file? (dir ++ r)
  /-- A file that is copied to where it is is empty. -/
  empties : ∀ r, (t.file? (dir ++ r)).isSome → root ++ r = dir ++ r →
    t'.file? (root ++ r) = (t.file? (dir ++ r)).map fun f => (.text [], f.2)
  /-- Every other file stays. -/
  keeps : ∀ p, (∀ r, (t.file? (dir ++ r)).isSome → p ≠ root ++ r) → t'.file? p = t.file? p

/-- The files in front of one are those that are less than it. -/
theorem Path.mem_front_iff {pre post : List Path} {s : Path} (hnodup : (pre ++ r :: post).Nodup)
    (hsorted : (pre ++ r :: post).Pairwise fun r s => r.le s = true) :
    s ∈ pre ↔ s ∈ pre ++ r :: post ∧ s.le r = true ∧ s ≠ r := by
  obtain ⟨-, hpost, hfront⟩ := List.pairwise_append.1 hsorted
  constructor
  · intro hs
    refine ⟨List.mem_append_left _ hs, hfront s hs r List.mem_cons_self, ?_⟩
    rintro rfl
    exact (List.nodup_append.1 hnodup).2.2 s hs s List.mem_cons_self rfl
  · rintro ⟨hs, hle, hne⟩
    rcases List.mem_append.1 hs with hs | hs
    · exact hs
    rcases List.mem_cons.1 hs with rfl | hs
    · exact absurd rfl hne
    · exact absurd (Path.orders_le.antisymm s r hle ((List.pairwise_cons.1 hpost).1 s hs)) hne

/-- A file is read from a tree `t₁` that the files in front of it leave: what is no place of theirs is as it was, and what
they brought to their places stays there. -/
theorem FileTree.CopiedInTurn.exists_read (h : CopiedInTurn dir root rs t t') (hnodup : rs.Nodup)
    (hsorted : rs.Pairwise fun r s => r.le s = true) (hr : r ∈ rs) : ∃ t₁ : FileTree,
      ((∀ s ∈ rs, s.le r = true → s ≠ r → root ++ s ≠ dir ++ r) → t₁.file? (dir ++ r) = t.file? (dir ++ r)) ∧
      (∀ s ∈ rs, s.le r = true → s ≠ r → t'.file? (root ++ s) = t₁.file? (root ++ s)) ∧
      t'.file? (root ++ r) =
        (t₁.file? (dir ++ r)).map fun f => if root ++ r = dir ++ r then (.text [], f.2) else f := by
  obtain ⟨pre, post, rfl⟩ := List.append_of_mem hr
  obtain ⟨t₁, hpre, hpost⟩ := h.split
  refine ⟨t₁, fun hfree => hpre.keeps fun s hs => ?_, fun s hs hle hne => hpost.keeps fun u hu hplace => ?_,
    hpost.file?_first (List.nodup_append.1 hnodup).2.1⟩
  · obtain ⟨hs, hle, hne⟩ := (Path.mem_front_iff hnodup hsorted).1 hs
    exact (hfree s hs hle hne).symm
  · obtain rfl : s = u := List.append_cancel_left hplace
    have hs : s ∈ pre := (Path.mem_front_iff hnodup hsorted).2 ⟨hs, hle, hne⟩
    exact (List.nodup_append.1 hnodup).2.2 s hs s hu rfl

/-- Files that have been copied in the order of their paths are published. -/
theorem FileTree.CopiedInTurn.published (h : CopiedInTurn dir root rs t t') (hnodup : rs.Nodup)
    (hsorted : rs.Pairwise fun r s => r.le s = true) (hmem : ∀ r, r ∈ rs ↔ (t.file? (dir ++ r)).isSome) :
    t.Published t' dir root := by
  constructor
  case copies =>
    intro r hr hfree
    obtain ⟨t₁, hsame, -, htarget⟩ := h.exists_read hnodup hsorted ((hmem r).2 hr)
    have hself : root ++ r ≠ dir ++ r := by
      intro hself
      have hrefl : r.le r = true := (Path.orders_le.total r r).elim id id
      rw [hfree r hr hself] at hrefl
      cases hrefl
    have hsame := hsame fun s hs hle _ hplace => by
      rw [hfree s ((hmem s).1 hs) hplace] at hle
      cases hle
    simpa only [hself, if_false, Option.map_id', hsame] using htarget
  case follows =>
    intro r s hr hs hplace hle hne
    obtain ⟨t₁, -, hafter, htarget⟩ := h.exists_read hnodup hsorted ((hmem r).2 hr)
    have hself : root ++ r ≠ dir ++ r := fun hself => hne (List.append_cancel_left (hplace.trans hself.symm))
    have hafter := hafter s ((hmem s).2 hs) hle hne
    rw [hplace] at hafter
    simpa only [hself, if_false, Option.map_id', hafter] using htarget
  case empties =>
    intro r hr hself
    obtain ⟨t₁, hsame, -, htarget⟩ := h.exists_read hnodup hsorted ((hmem r).2 hr)
    have hsame := hsame fun s _ _ hne hplace => hne (List.append_cancel_left (hplace.trans hself.symm))
    simpa only [hself, if_true, hsame] using htarget
  case keeps => exact fun p hp => h.keeps fun r hr => hp r ((hmem r).1 hr)

/-- What a publication that succeeds leaves, wherever the directories are: also when one is in the other. -/
theorem published_of_publish (ht : t.Tidy (Path.ofText source))
    (h : (publish source target).run.run t = (.ok (), t')) :
    t.Published t' (Path.ofText source) (Path.ofText target) := by
  obtain ⟨_, t₁, hget, h⟩ := FileAction.bind_eq_ok.1 h
  cases hget
  split at h
  · cases h
  · rename_i rs hunder
    obtain ⟨hdir, rfl⟩ := FileTree.filesUnder_eq_ok hunder
    have hmem : ∀ r, r ∈ sortBy Path.le (t.filesBelow (Path.ofText source)) ↔
        (t.file? (Path.ofText source ++ r)).isSome := fun r => mem_sortBy.trans ht.mem_filesBelow
    have hturn := copiedInTurn_of_forM (fun r hr => ht.isName_of_mem_filesBelow hdir (mem_sortBy.1 hr)) h
    exact hturn.published ((sortBy_perm _ _).nodup_iff.2 ht.nodup_filesBelow)
      (pairwise_sortBy Path.orders_le.total Path.orders_le.trans _) hmem

/-- In a directory with one of its own name, the file that is written over is copied before. -/
theorem published_of_publish_within :
    let t : FileTree := [(["z".toList], .directory), (["z".toList, "a".toList], .file (.text "1".toList) false),
      (["z".toList, "z".toList], .directory), (["z".toList, "z".toList, "a".toList], .file (.text "2".toList) true)]
    ∃ t', (publish "./z".toList ".".toList).run.run t = (.ok (), t') ∧
      t'.file? ["a".toList] = some (.text "1".toList, false) ∧
      t'.file? ["z".toList, "a".toList] = some (.text "2".toList, true) ∧
      t'.file? ["z".toList, "z".toList, "a".toList] = some (.text "2".toList, true) := by
  intro t
  obtain ⟨t', h⟩ : ∃ t', (publish "./z".toList ".".toList).run.run t = (.ok (), t') := ⟨_, rfl⟩
  have ht : t.Tidy ["z".toList] := ⟨by decide, by decide, by decide⟩
  have hpublished : t.Published t' ["z".toList] [] := published_of_publish ht h
  refine ⟨t', h, hpublished.copies ["a".toList] rfl ?_, hpublished.copies ["z".toList, "a".toList] rfl ?_,
    hpublished.keeps _ ?_⟩
  · rintro s - rfl
    rfl
  · rintro s - rfl
    rfl
  · rintro r hr rfl
    cases hr

/-- In a directory with one of its own name, a file that is written over before it is copied is lost. -/
theorem publish_loses :
    let t : FileTree := [(["a".toList], .directory), (["a".toList, "x".toList], .file (.text "1".toList) false),
      (["a".toList, "a".toList], .directory), (["a".toList, "a".toList, "x".toList], .file (.text "2".toList) false)]
    ∃ t', (publish "./a".toList ".".toList).run.run t = (.ok (), t') ∧
      t.file? ["a".toList, "x".toList] = some (.text "1".toList, false) ∧
      t'.file? ["x".toList] = some (.text "2".toList, false) :=
  ⟨_, rfl, rfl, rfl⟩

end Graft
