/-
The class of the declaration unit.

Edits of a class change the first class of the file in the order of its text.  Where that is the first class of the
declaration unit, they change nothing outside of the unit and no other class in it, and they leave a file alone whose
unit has no class.  But a class that stands before the unit comes first, and so does one behind a unit that has none.

* `File.unitClass?` — the first class of the declaration unit;
* `File.updateClass?_of_unitClass?` — an update of the first class, where that is the one of the unit;
* `run_onUnitClass` — an edit of a class and the class of the unit;
* `run_outsideUnit` — an edit that changes a class outside of the unit.
-/
import Graft.Proofs.Edit.FirstClass
import Graft.Proofs.Edit.Prepared
import Graft.Proofs.Print.Frame
import Graft.Proofs.Tree.First

namespace Graft

/-! ### Classes before the unit -/

/-- The first class of the declaration unit. -/
def File.unitClass? (f : File) : Option ClassLike := f.declarations.find? fun c => c.kind == .cls

theorem File.unitClass?_eq (f : File) : f.unitClass? = f.unit.findSome? Stmt.class? := find?_classLike?_eq f.unit

/-- The statements before the unit. -/
def UnitHole.before : UnitHole → List Stmt
  | whole => []
  | inside l _ _ => l

/-- A list of statements with its first class in place. -/
theorem exists_of_findSome?_class? {ss : List Stmt} {c : ClassLike} (h : ss.findSome? Stmt.class? = some c) :
    ∃ l r, ss = l ++ .classLike c :: r ∧ (∀ s ∈ l, s.class? = none) ∧ c.kind = .cls := by
  obtain ⟨l, s, r, rfl, hs, hl⟩ := List.findSome?_eq_some_iff.1 h
  obtain ⟨rfl, hkind⟩ := Stmt.class?_eq_some hs
  exact ⟨l, r, rfl, hl, hkind⟩

/-- No id is that of a statement before the unit and of one in it. -/
theorem UnitHole.origin_ne {h : UnitHole} {ss : List Stmt} (hids : ((h.fill ss).flatMap TopStmt.origins).Nodup)
    {s s' : Stmt} (hs : s ∈ h.before) (hs' : s' ∈ ss) : s.origin ≠ s'.origin := by
  cases h with
  | whole => cases hs
  | inside l n r =>
    rw [fill, List.flatMap_append, List.nodup_append] at hids
    have hbefore : Placed.origin s ∈ (l.map TopStmt.plain).flatMap TopStmt.origins :=
      List.mem_flatMap.2 ⟨.plain s, List.mem_map_of_mem hs, s.origin_mem_origins⟩
    have hunit : Placed.origin s' ∈ (TopStmt.inside { n with stmts := ss }).origins :=
      List.mem_append_right _ (List.mem_flatMap.2 ⟨s', hs', s'.origin_mem_origins⟩)
    exact hids.2.2 _ hbefore _ (List.mem_flatMap.2 ⟨_, List.mem_cons_self, hunit⟩)

/-- Where the first class of the file is the one of the unit, no class stands before the unit. -/
theorem File.class?_before_eq_none {f : File} {h : UnitHole} (hf : f.stmts = h.fill f.unit)
    (hids : (f.stmts.flatMap TopStmt.origins).Nodup)
    (hfirst : f.firstClass?.map ClassLike.origin = f.unitClass?.map ClassLike.origin) :
    ∀ s ∈ h.before, s.class? = none := by
  cases h with
  | whole => nofun
  | inside l n r =>
    have hclass : (l.map TopStmt.plain).findSome? TopStmt.class? = l.findSome? Stmt.class? := by
      rw [List.findSome?_map]
      refine congrArg (l.findSome? ·) (funext fun s => ?_)
      simp [TopStmt.class?, TopStmt.flat]
    rw [← List.findSome?_eq_none_iff, Option.eq_none_iff_forall_ne_some]
    intro c hc
    have hfc : f.firstClass? = some c := by
      have hl : l.findSome? Stmt.class? = some c := hc
      rw [firstClass?_eq, hf, UnitHole.fill, List.findSome?_append, hclass, hl, Option.some_or]
    rw [hfc, Option.map_some] at hfirst
    obtain ⟨d, hd, horigin⟩ := Option.map_eq_some_iff.1 hfirst.symm
    obtain ⟨l₁, r₁, hl, -⟩ := exists_of_findSome?_class? hc
    obtain ⟨l₂, r₂, hunit, -⟩ := exists_of_findSome?_class? (f.unitClass?_eq ▸ hd)
    have hbefore : Stmt.classLike c ∈ (UnitHole.inside l n r).before := by rw [hl]; simp
    have hinside : Stmt.classLike d ∈ f.unit := by simp [hunit]
    exact UnitHole.origin_ne (hf ▸ hids) hbefore hinside horigin.symm

/-! ### Updates of the class of the unit -/

/-- An update of the first class, where that is the one of the unit: the class is changed in its place in the unit. -/
theorem File.updateClass?_of_unitClass? {f : File} {c : ClassLike} (hids : (f.stmts.flatMap TopStmt.origins).Nodup)
    (hfirst : f.firstClass?.map ClassLike.origin = f.unitClass?.map ClassLike.origin) (hc : f.unitClass? = some c) :
    ∃ l r, f.unit = l ++ .classLike c :: r ∧ (∀ s ∈ l, s.class? = none) ∧
      ∀ g, f.updateClass? g = some (f.updateUnit fun _ => l ++ .classLike (g c) :: r) := by
  obtain ⟨h, hf⟩ := f.exists_fill
  obtain ⟨l, r, hunit, hl, hkind⟩ := exists_of_findSome?_class? (f.unitClass?_eq ▸ hc)
  refine ⟨l, r, hunit, hl, fun g => ?_⟩
  have hbefore := class?_before_eq_none hf hids hfirst
  have hupdate : updateFirst? (Stmt.updateClass? g) f.unit = some (l ++ .classLike (g c) :: r) := by
    rw [hunit]
    exact updateFirst?_append (fun s hs => Stmt.updateClass?_eq_none (hl s hs) g) (by simp [Stmt.updateClass?, hkind])
  rw [UnitHole.updateUnit_fill hf, updateClass?, hf]
  cases h with
  | whole =>
    have hplain : ∀ ss : List Stmt, updateFirst? (TopStmt.updateClass? g) (ss.map .plain) =
        (updateFirst? (Stmt.updateClass? g) ss).map (List.map .plain) := updateFirst?_map fun s => rfl
    rw [UnitHole.fill, hplain, hupdate]
    rfl
  | inside l' n r' =>
    have hplain : ∀ s ∈ l'.map TopStmt.plain, s.updateClass? g = none := by
      intro s hs
      obtain ⟨s, hmem, rfl⟩ := List.mem_map.1 hs
      simp [TopStmt.updateClass?, Stmt.updateClass?_eq_none (hbefore s hmem) g]
    rw [UnitHole.fill, updateFirst?_append hplain (by rw [TopStmt.updateClass?, hupdate]; rfl)]
    rfl

/-! ### Edits -/

/-- An edit of a class changes the interfaces and the members of the first class of the file, and nothing else.  Where
that is the first class of the declaration unit, the class is changed in its place in the unit, and a file whose unit
has no class is left alone. -/
theorem run_onUnitClass {a a' a'' : Arena} {t : Text} {f : File} {e : Edit} {p : PreparedEdit}
    (hf : a.parseFile t = (.ok f, a')) (he : e.isClassEdit = true)
    (hp : (PreparedEdit.ofEdit e).prepare f a' = (.ok p, a'')) :
    (match f.firstClass? with
      | none => (p.run f).2 = f
      | some c => ∃ k is ms, f.Holds c k ∧ (p.run f).2 = k { c with interfaces := is, members := ms }) ∧
    (f.firstClass?.map ClassLike.origin = f.unitClass?.map ClassLike.origin →
      match f.unitClass? with
      | none => (p.run f).2 = f
      | some c => ∃ l r is ms, f.unit = l ++ .classLike c :: r ∧ (∀ s ∈ l, s.class? = none) ∧
          (p.run f).2 = f.updateUnit fun _ => l ++ .classLike { c with interfaces := is, members := ms } :: r) := by
  obtain ⟨hedit, hspent, -⟩ := PreparedEdit.prepare_eq_ok hp
  have hfresh : p.IsFresh := ⟨by rw [hedit]; exact he, hspent⟩
  have hall : ∀ q ∈ [p], q.IsFresh := by simpa using hfresh
  have hnone : f.firstClass? = none → (p.run f).2 = f := fun hc => runAll_of_firstClass?_none hc hall
  refine ⟨?_, fun hfirst => ?_⟩
  · split
    · exact hnone ‹_›
    · rename_i c hc
      exact runAll_of_firstClass? hc hall
  · split
    · rename_i hc
      rw [hc, Option.map_none] at hfirst
      exact hnone (Option.map_eq_none_iff.1 hfirst)
    · rename_i c hc
      obtain ⟨-, -, hids⟩ := Arena.laid_of_parseFile hf
      have hnodup : (f.stmts.flatMap TopStmt.origins).Nodup := (List.nodup_append.1 hids.1).2.1
      obtain ⟨l, r, hunit, hl, hupdate⟩ := File.updateClass?_of_unitClass? hnodup hfirst hc
      obtain ⟨g, hg, hrun⟩ := PreparedEdit.run_of_isFresh hfresh f
      refine ⟨l, r, (g c).interfaces, (g c).members, hunit, hl, ?_⟩
      rw [hrun, hupdate, Option.getD_some, ← Edit.onClass?_frame hg c]

/-- The class of a namespace, which stands behind an interface, has a trait less; nothing else is changed. -/
theorem run_onUnitClass_namespace :
    ∃ f a p c l r is ms,
      Arena.empty.parseFile "<?php\nnamespace N;\ninterface I \x7b\x7d\nclass A \x7b use T; \x7d".toList =
        (.ok f, a) ∧
      (PreparedEdit.ofEdit (.removeTrait "T".toList)).prepare f a = (.ok p, a) ∧
      f.firstClass?.map ClassLike.origin = f.unitClass?.map ClassLike.origin ∧ f.unitClass? = some c ∧
      f.unit = l ++ .classLike c :: r ∧ (∀ s ∈ l, s.class? = none) ∧
      (p.run f).2 = f.updateUnit fun _ => l ++ .classLike { c with interfaces := is, members := ms } :: r := by
  have hcheck : (Arena.empty.parseFile
      "<?php\nnamespace N;\ninterface I \x7b\x7d\nclass A \x7b use T; \x7d".toList).1.toOption.map (fun f =>
        (f.unitClass?.isSome, decide (f.firstClass?.map ClassLike.origin = f.unitClass?.map ClassLike.origin))) =
      some (true, true) := by
    decide +kernel
  cases hf : Arena.empty.parseFile "<?php\nnamespace N;\ninterface I \x7b\x7d\nclass A \x7b use T; \x7d".toList with
  | mk result a =>
    rw [hf] at hcheck
    cases result with
    | error err => cases hcheck
    | ok f =>
      obtain ⟨hsome, hfirst⟩ := Prod.mk.inj (Option.some.inj hcheck)
      rw [decide_eq_true_eq] at hfirst
      obtain ⟨c, hc⟩ := Option.isSome_iff_exists.1 hsome
      have h := (run_onUnitClass (e := .removeTrait "T".toList) hf rfl rfl).2 hfirst
      simp only [hc] at h
      obtain ⟨l, r, is, ms, hunit, hl, hrun⟩ := h
      exact ⟨f, a, _, c, l, r, is, ms, rfl, rfl, hfirst, hc, hunit, hl, hrun⟩

/-- The unit has no class here, but a class of the next namespace has a trait less. -/
theorem run_outsideUnit :
    ((Arena.empty.parseFile
          "<?php\nnamespace M \x7b interface I \x7b\x7d \x7d\nnamespace N \x7b class A \x7b use T; \x7d \x7d".toList
        ).1.toOption.map fun f => (f.unitClass?.isSome, f.firstClass?.map (·.members.length),
        ((PreparedEdit.ofEdit (.removeTrait "T".toList)).run f).2.firstClass?.map (·.members.length))) =
      some (false, some 1, some 0) ∧
    (applyEdits
        "<?php\nnamespace M \x7b interface I \x7b\x7d \x7d\nnamespace N \x7b class A \x7b use T; \x7d \x7d".toList
        [.removeTrait "T".toList]).toOption =
      some "<?php\nnamespace M \x7b interface I \x7b\x7d \x7d\nnamespace N \x7b class A \x7b \x7d \x7d".toList := by
  constructor <;> decide +kernel

end Graft
