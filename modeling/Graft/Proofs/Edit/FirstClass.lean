/-
The class that edits of a class meet.

All edits of a class change the first class of the file, which stays the first one while they run.  Its place in the
file is the file with a hole for the class (`File.Holds`).  An edit that has not met its class yet changes the first class,
or the file as a whole.

* `File.exists_hole` — the place of the first class, and what an update of the class does there;
* `Edit.onClass?_frame` — an edit of a class changes nothing but its interfaces and its members;
* `runAll_of_firstClass?` — a queue of such edits changes the first class and nothing else;
* `File.onClass_onClass` — two changes of the first class are one;
* `Edit.act`, `PreparedEdit.run_of_unspent` — what an edit does, without its state.
-/
import Graft.Edit
import Graft.Proofs.Tree.First

namespace Graft

/-! ### The place of a class -/

/-- The statement holds the class `c`; with another class in its place it is what `k` makes of that. -/
inductive TopStmt.Holds : TopStmt → ClassLike → (ClassLike → TopStmt) → Prop where
  | plain (c : ClassLike) : Holds (.plain (.classLike c)) c fun c' => .plain (.classLike c')
  | inside (n : Namespace) (l r : List Stmt) (c : ClassLike) (h : n.stmts = l ++ .classLike c :: r) :
    Holds (.inside n) c fun c' => .inside { n with stmts := l ++ .classLike c' :: r }

/-- The file holds the class `c`; with another class in its place it is what `k` makes of that. -/
def File.Holds (f : File) (c : ClassLike) (k : ClassLike → File) : Prop :=
  ∃ l s r top, f.stmts = l ++ s :: r ∧ s.Holds c top ∧ k = fun c' => { f with stmts := l ++ top c' :: r }

theorem TopStmt.Holds.eq {s : TopStmt} {c : ClassLike} {k : ClassLike → TopStmt} (h : s.Holds c k) : k c = s := by
  cases h with
  | plain c => rfl
  | inside n l r c h => simp only [← h]

theorem File.Holds.eq {f : File} {c : ClassLike} {k : ClassLike → File} (h : f.Holds c k) : k c = f := by
  obtain ⟨l, s, r, top, hstmts, hs, rfl⟩ := h
  simp only [hs.eq, ← hstmts]

/-! ### Updates of the first class -/

/-- The class that the statement is, if it is one. -/
def Stmt.class? (s : Stmt) : Option ClassLike := s.classLike?.filter (·.kind == .cls)

/-- The first class in the statement. -/
def TopStmt.class? (s : TopStmt) : Option ClassLike := s.flat.findSome? Stmt.class?

theorem Stmt.class?_eq_some {s : Stmt} {c : ClassLike} (h : s.class? = some c) :
    s = .classLike c ∧ c.kind = .cls := by
  obtain ⟨hc, hk⟩ := Option.filter_eq_some_iff.1 h
  cases s with
  | classLike d =>
    cases hc
    exact ⟨rfl, by simpa using hk⟩
  | imports _ => cases hc
  | ret _ => cases hc
  | declare _ => cases hc
  | other _ => cases hc

theorem Stmt.updateClass?_eq_none {s : Stmt} (h : s.class? = none) (g : ClassLike → ClassLike) :
    s.updateClass? g = none := by
  cases s with
  | classLike c =>
    have hk : ¬c.kind = .cls := by simpa [Stmt.class?, Stmt.classLike?] using h
    simp [Stmt.updateClass?, hk]
  | imports _ => rfl
  | ret _ => rfl
  | declare _ => rfl
  | other _ => rfl

theorem TopStmt.updateClass?_eq_none {s : TopStmt} (h : s.class? = none) (g : ClassLike → ClassLike) :
    s.updateClass? g = none := by
  cases s with
  | inside n =>
    have hnone : ∀ a ∈ n.stmts, a.class? = none := List.findSome?_eq_none_iff.1 h
    simp [TopStmt.updateClass?, updateFirst?_eq_none fun a ha => Stmt.updateClass?_eq_none (hnone a ha) g]
  | plain s =>
    have hnone : s.class? = none := by simpa [TopStmt.class?, TopStmt.flat] using h
    simp [TopStmt.updateClass?, Stmt.updateClass?_eq_none hnone]

theorem find?_classLike?_eq (ss : List Stmt) :
    (ss.filterMap Stmt.classLike?).find? (fun c => c.kind == .cls) = ss.findSome? Stmt.class? := by
  induction ss with
  | nil => rfl
  | cons s ss ih =>
    cases s with
    | classLike c =>
      by_cases hk : c.kind = .cls
      · simp [Stmt.class?, Stmt.classLike?, hk, Option.filter]
      · simpa [Stmt.class?, Stmt.classLike?, hk] using ih
    | imports _ => exact ih
    | ret _ => exact ih
    | declare _ => exact ih
    | other _ => exact ih

theorem File.firstClass?_eq (f : File) : f.firstClass? = f.stmts.findSome? TopStmt.class? := by
  unfold firstClass?
  rw [List.filterMap_flatMap, List.find?_flatMap]
  exact congrArg (f.stmts.findSome? ·) (funext fun s => find?_classLike?_eq s.flat)

/-- A file without a class is not changed. -/
theorem File.updateClass?_eq_none {f : File} (h : f.firstClass? = none) (g : ClassLike → ClassLike) :
    f.updateClass? g = none := by
  rw [f.firstClass?_eq] at h
  have hnone : ∀ s ∈ f.stmts, s.class? = none := List.findSome?_eq_none_iff.1 h
  simp [updateClass?, updateFirst?_eq_none fun s hs => TopStmt.updateClass?_eq_none (hnone s hs) g]

theorem TopStmt.exists_hole {s : TopStmt} {c : ClassLike} (h : s.class? = some c) :
    ∃ k, s.Holds c k ∧ ∀ c' : ClassLike, c'.kind = .cls → ∀ g, (k c').updateClass? g = some (k (g c')) := by
  cases s with
  | inside n =>
    obtain ⟨l, a, r, hstmts, ha, hl⟩ := List.findSome?_eq_some_iff.1 h
    obtain ⟨rfl, -⟩ := Stmt.class?_eq_some ha
    refine ⟨_, .inside n l r c hstmts, fun c' hk g => ?_⟩
    have hfirst := updateFirst?_append (f := Stmt.updateClass? g) (l := l) (r := r) (a := .classLike c')
      (b := .classLike (g c')) (fun a ha => Stmt.updateClass?_eq_none (hl a ha) g) (by simp [Stmt.updateClass?, hk])
    simp [updateClass?, hfirst]
  | plain s =>
    obtain ⟨rfl, -⟩ := Stmt.class?_eq_some (s := s) (by simpa [class?, flat] using h)
    exact ⟨_, .plain c, fun c' hk g => by simp [updateClass?, Stmt.updateClass?, hk]⟩

/-- The place of the first class, and what an update of the class does there. -/
theorem File.exists_hole {f : File} {c : ClassLike} (h : f.firstClass? = some c) :
    c.kind = .cls ∧ ∃ k, f.Holds c k ∧
      ∀ c' : ClassLike, c'.kind = .cls → ∀ g, (k c').updateClass? g = some (k (g c')) := by
  rw [f.firstClass?_eq] at h
  obtain ⟨l, s, r, hstmts, hs, hl⟩ := List.findSome?_eq_some_iff.1 h
  obtain ⟨top, htop, hupdate⟩ := TopStmt.exists_hole hs
  have hkind : c.kind = .cls := by
    obtain ⟨l', a, r', -, ha, -⟩ := List.findSome?_eq_some_iff.1 hs
    exact (Stmt.class?_eq_some ha).2
  refine ⟨hkind, _, ⟨l, s, r, top, hstmts, htop, rfl⟩, fun c' hk g => ?_⟩
  have hfirst := updateFirst?_append (f := TopStmt.updateClass? g) (l := l) (r := r)
    (fun a ha => TopStmt.updateClass?_eq_none (hl a ha) g) (hupdate c' hk g)
  simp [updateClass?, hfirst]

/-! ### Queues of edits of a class -/

/-- An edit of a class changes nothing but its interfaces and its members. -/
theorem Edit.onClass?_frame {e : Edit} {m : Option Method} {g : ClassLike → ClassLike} (h : e.onClass? m = some g)
    (c : ClassLike) : g c = { c with interfaces := (g c).interfaces, members := (g c).members } := by
  cases e with
  | addTrait name =>
    cases h
    simp only [ClassLike.addTrait]
    split <;> rfl
  | removeTrait name =>
    cases h
    rfl
  | addInterface name =>
    cases h
    simp only [ClassLike.addInterface]
    split <;> rfl
  | removeInterface name =>
    cases h
    rfl
  | addMethod code =>
    cases h
    cases m with
    | none => rfl
    | some m =>
      simp only [Option.map_some, Option.getD_some, ClassLike.addMethod]
      split <;> rfl
  | removeMethod name =>
    cases h
    rfl
  | addToArray target key value =>
    cases h
    rfl
  | removeFromArray target search =>
    cases h
    rfl
  | addImport name => cases h
  | removeImport name => cases h
  | setConfig path value => cases h

/-- The edit is one of a class: of its traits, interfaces, methods or arrays. -/
def Edit.isClassEdit : Edit → Bool
  | addImport _ | removeImport _ | setConfig .. => false
  | _ => true

theorem Edit.isSome_onClass? {e : Edit} (h : e.isClassEdit = true) (m : Option Method) : (e.onClass? m).isSome := by
  cases e <;> first | rfl | cases h

/-- A prepared edit that has not met its class yet. -/
def PreparedEdit.IsFresh (p : PreparedEdit) : Prop := p.edit.isClassEdit = true ∧ p.spent = false

theorem PreparedEdit.run_of_isFresh {p : PreparedEdit} (h : p.IsFresh) (f : File) :
    ∃ g, p.edit.onClass? p.method = some g ∧ (p.run f).2 = (f.updateClass? g).getD f := by
  obtain ⟨g, hg⟩ := Option.isSome_iff_exists.1 (p.edit.isSome_onClass? h.1 p.method)
  refine ⟨g, hg, ?_⟩
  simp only [run, hg, h.2, Bool.false_eq_true, if_false]
  cases f.updateClass? g with
  | none => rfl
  | some f' => rfl

/-- A queue of edits of a class does not change a file without one. -/
theorem runAll_of_firstClass?_none {f : File} (hf : f.firstClass? = none) {ps : List PreparedEdit}
    (hps : ∀ p ∈ ps, p.IsFresh) : runAll ps f = f := by
  induction ps with
  | nil => rfl
  | cons p ps ih =>
    obtain ⟨g, -, hrun⟩ := PreparedEdit.run_of_isFresh (hps p (by simp)) f
    have hstep : (p.run f).2 = f := by rw [hrun, File.updateClass?_eq_none hf g, Option.getD_none]
    show runAll ps (p.run f).2 = f
    rw [hstep]
    exact ih fun q hq => hps q (by simp [hq])

/-- A queue of edits of a class changes the interfaces and the members of the first class, and nothing else. -/
theorem runAll_of_firstClass? {f : File} {c : ClassLike} (hf : f.firstClass? = some c) {ps : List PreparedEdit}
    (hps : ∀ p ∈ ps, p.IsFresh) : ∃ k is ms, f.Holds c k ∧
      runAll ps f = k { c with interfaces := is, members := ms } := by
  obtain ⟨hkind, k, hk, hupdate⟩ := File.exists_hole hf
  have hrun : ∀ is ms, ∃ is' ms', runAll ps (k { c with interfaces := is, members := ms }) =
      k { c with interfaces := is', members := ms' } := by
    induction ps with
    | nil => exact fun is ms => ⟨is, ms, rfl⟩
    | cons p ps ih =>
      intro is ms
      obtain ⟨g, hg, hrun⟩ := PreparedEdit.run_of_isFresh (hps p (by simp)) (k { c with interfaces := is, members := ms })
      rw [hupdate { c with interfaces := is, members := ms } hkind, Option.getD_some, Edit.onClass?_frame hg] at hrun
      show ∃ is' ms', runAll ps (p.run _).2 = _
      rw [hrun]
      exact ih (fun q hq => hps q (by simp [hq])) _ _
  obtain ⟨is, ms, h⟩ := hrun c.interfaces c.members
  refine ⟨k, is, ms, hk, ?_⟩
  rw [← h]
  exact congrArg (runAll ps) hk.eq.symm

/-! ### Changes of the first class -/

/-- The file with its first class changed, if it has one. -/
def File.onClass (g : ClassLike → ClassLike) (f : File) : File := (f.updateClass? g).getD f

/-- Two changes of the first class are one, if the first of them leaves it a class. -/
theorem File.onClass_onClass {h : ClassLike → ClassLike} (hkind : ∀ c, (h c).kind = c.kind) (g : ClassLike → ClassLike)
    (f : File) : (f.onClass h).onClass g = f.onClass (g ∘ h) := by
  cases hc : f.firstClass? with
  | none =>
    have hnone : ∀ k : ClassLike → ClassLike, f.onClass k = f := by
      intro k
      rw [onClass, updateClass?_eq_none hc, Option.getD_none]
    rw [hnone h, hnone g, hnone (g ∘ h)]
  | some c =>
    obtain ⟨hcls, k, hk, hupdate⟩ := exists_hole hc
    have hon : ∀ (c' : ClassLike) (j : ClassLike → ClassLike), c'.kind = .cls → (k c').onClass j = k (j c') := by
      intro c' j hc'
      rw [onClass, hupdate c' hc', Option.getD_some]
    rw [← hk.eq, hon c h hcls, hon (h c) g ((hkind c).trans hcls), hon c (g ∘ h) hcls, Function.comp_apply]

/-- A change that leaves the first class alone leaves the file alone. -/
theorem File.onClass_eq_self {g : ClassLike → ClassLike} {f : File} (h : ∀ c, f.firstClass? = some c → g c = c) :
    f.onClass g = f := by
  cases hc : f.firstClass? with
  | none => rw [onClass, updateClass?_eq_none hc, Option.getD_none]
  | some c =>
    obtain ⟨hcls, k, hk, hupdate⟩ := exists_hole hc
    have hself : f.updateClass? g = some f := by
      rw [← hk.eq, hupdate c hcls, h c hc]
    rw [onClass, hself, Option.getD_some]

/-- Edits of a class leave it a class. -/
theorem Edit.onClass?_kind {e : Edit} {m : Option Method} {g : ClassLike → ClassLike} (h : e.onClass? m = some g)
    (c : ClassLike) : (g c).kind = c.kind := by
  rw [onClass?_frame h c]

/-! ### Edits -/

/-- What the edit does to a file; `m` is the method that its code declares. -/
def Edit.act (m : Option Method) (e : Edit) (f : File) : File :=
  match e.onClass? m with
  | some g => f.onClass g
  | none => e.onFile f

theorem Edit.act_of_onClass? {e : Edit} {m : Option Method} {g : ClassLike → ClassLike} (h : e.onClass? m = some g)
    (f : File) : e.act m f = f.onClass g := by
  rw [act, h]

theorem Edit.act_of_onClass?_none {e : Edit} {m : Option Method} (h : e.onClass? m = none) (f : File) :
    e.act m f = e.onFile f := by
  rw [act, h]

/-- An edit that has not met its class does what it does. -/
theorem PreparedEdit.run_of_unspent {p : PreparedEdit} (h : p.spent = false) (f : File) :
    (p.run f).2 = p.edit.act p.method f := by
  unfold run Edit.act
  cases p.edit.onClass? p.method with
  | none => rfl
  | some g =>
    simp only [h, Bool.false_eq_true, if_false, File.onClass]
    cases f.updateClass? g <;> rfl

end Graft
