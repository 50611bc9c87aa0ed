/-
Imports that are added to a list of statements and removed from it.

Where a new import stands is told by which statements are imports or declare something.  A removal looks at the
statements one by one and takes with it what the addition has put there.

* `StaysIn.keepsFirst_addImport` — additions and updates of other statements;
* `removeImport_fill` — what a removal makes of the declaration unit and of what stands around it;
* `removeImport_eq_self_iff` — when a removal leaves a file alone;
* `removeImport_addImport` — a removal behind the addition is the removal alone.
-/
import Mathlib.Data.List.DropRight
import Graft.Edit.Import
import Graft.Proofs.Tree.First

namespace Graft

/-! ### The place of a new import -/

theorem behindLast?_map {α β : Type} {p : β → Bool} {g : α → β} (as : List α) :
    behindLast? p (as.map g) = behindLast? (fun a => p (g a)) as := by
  induction as with
  | nil => rfl
  | cons a as ih => simp only [List.map_cons, behindLast?, ih]

/-- The place is told by which statements are imports and which ones declare something. -/
theorem importIndex_congr {ss ts : List Stmt} (himport : ts.map (·.import?.isSome) = ss.map (·.import?.isSome))
    (hdeclare : ts.map Stmt.isDeclare = ss.map Stmt.isDeclare) : importIndex ts = importIndex ss := by
  have hlast : ∀ us : List Stmt, behindLast? (fun s => s.import?.isSome) us = behindLast? id (us.map (·.import?.isSome)) :=
    fun us => (behindLast?_map (p := id) us).symm
  have hwhile : ∀ us : List Stmt, (us.takeWhile Stmt.isDeclare).length = ((us.map Stmt.isDeclare).takeWhile id).length := by
    intro us
    rw [List.takeWhile_map, List.length_map]
    rfl
  rw [importIndex, importIndex, hlast, hlast, hwhile, hwhile, himport, hdeclare]

/-- An update of other statements may be run before a new import is added or behind that. -/
theorem StaysIn.keepsFirst_addImport {f : Stmt → Option Stmt}
    (hf : StaysIn f fun s => s.import? = none ∧ s.isDeclare = false) (name : Text) : KeepsFirst f (addImport name) := by
  refine keepsFirst_of_forall fun ss => ?_
  -- The update changes neither the imports nor what declares something.
  have himport : ∀ ts, updateFirst? f ss = some ts → ts.map Stmt.import? = ss.map Stmt.import? := by
    refine fun ts => map_of_updateFirst? fun s t hst => ?_
    rw [(hf s t hst).1.1, (hf s t hst).2.1]
  have hdeclare : ∀ ts, updateFirst? f ss = some ts → ts.map Stmt.isDeclare = ss.map Stmt.isDeclare := by
    refine fun ts => map_of_updateFirst? fun s t hst => ?_
    rw [(hf s t hst).1.2, (hf s t hst).2.2]
  by_cases hpresent : (ss.filterMap Stmt.import?).any (fun d => d.classNames.contains name) = true
  · refine ⟨id, keepsFirst_id, if_pos hpresent, fun ts hts => if_pos ?_⟩
    rwa [filterMap_eq_of_map_eq (himport ts hts)]
  · have hfresh : f (.imports (.fresh name)) = none := hf.eq_none fun h => nomatch h.1
    refine ⟨_, keepsFirst_insertAt hfresh (importIndex ss), if_neg hpresent, fun ts hts => ?_⟩
    have hindex : importIndex ts = importIndex ss := by
      refine importIndex_congr ?_ (hdeclare ts hts)
      have := congrArg (List.map Option.isSome) (himport ts hts)
      rwa [List.map_map, List.map_map] at this
    rw [addImport, if_neg (by rwa [filterMap_eq_of_map_eq (himport ts hts)]), hindex]

/-! ### Removals and the declaration unit -/

/-- What stands around a unit, without the imports of a class. -/
def UnitHole.withoutImport (name : Text) : UnitHole → UnitHole
  | whole => whole
  | inside l n r => inside (l.filterMap (Stmt.withoutImport? name)) n (r.filterMap (TopStmt.withoutImport? name))

theorem filterMap_withoutImport?_plain (name : Text) (ss : List Stmt) :
    (ss.map TopStmt.plain).filterMap (TopStmt.withoutImport? name) =
      (ss.filterMap (Stmt.withoutImport? name)).map .plain := by
  rw [List.filterMap_map, List.map_filterMap]
  rfl

/-- The imports of a class are removed from the unit and from what stands around it. -/
theorem removeImport_fill {h : UnitHole} {f : File} {ss : List Stmt} (hf : f.stmts = h.fill ss) (name : Text) :
    removeImport name f =
      { f with stmts := (h.withoutImport name).fill (ss.filterMap (Stmt.withoutImport? name)) } := by
  rw [removeImport, hf]
  cases h with
  | whole => simp only [UnitHole.fill, UnitHole.withoutImport, filterMap_withoutImport?_plain]
  | inside l n r =>
    simp only [UnitHole.fill, UnitHole.withoutImport, List.filterMap_append, filterMap_withoutImport?_plain]
    rfl

/-- What goes well with a removal in the unit goes well with it in the file. -/
theorem removeImport_updateUnit {name : Text} {g : List Stmt → List Stmt}
    (hg : Function.Commute (List.filterMap (Stmt.withoutImport? name)) g) (f : File) :
    removeImport name (f.updateUnit g) = (removeImport name f).updateUnit g := by
  obtain ⟨h, hf⟩ := f.exists_fill
  rw [UnitHole.updateUnit_fill hf, removeImport_fill rfl, removeImport_fill hf, UnitHole.updateUnit_fill rfl]
  exact congrArg (fun ss => File.mk f.origin f.span f.body ((h.withoutImport name).fill ss)) (hg f.unit)

/-! ### Removals that find nothing -/

/-- The import statements of a file, in the order of its text. -/
def File.imports (f : File) : List Import := (f.stmts.flatMap TopStmt.flat).filterMap Stmt.import?

/-- Nothing is dropped when no class is accepted that is imported. -/
theorem Import.dropClasses_eq_self_iff {p : Text → Bool} {d : Import} :
    d.dropClasses p = d ↔ ∀ q ∈ d.classNames, p q = false := by
  unfold dropClasses classNames
  by_cases hclasses : d.importsClasses = true
  · have hitems : (∀ q ∈ (d.items.filter fun i => d.importsClasses && i.isClass).map d.qualified, p q = false) ↔
        d.items.filter (fun i => !(i.isClass && p (d.qualified i))) = d.items := by
      rw [List.filter_eq_self, List.forall_mem_map]
      constructor
      · intro h i hi
        by_cases hclass : i.isClass = true
        · rw [h i (List.mem_filter.2 ⟨hi, by rw [hclasses, hclass]; rfl⟩), Bool.and_false]
          rfl
        · rw [Bool.not_eq_true] at hclass
          rw [hclass, Bool.false_and]
          rfl
      · intro h i hi
        obtain ⟨hi, hclass⟩ := List.mem_filter.1 hi
        have hkept := h i hi
        rw [hclasses, Bool.true_and] at hclass
        rwa [hclass, Bool.true_and, Bool.not_eq_true'] at hkept
    rw [if_pos hclasses, hitems]
    constructor
    · exact congrArg Import.items
    · intro h
      rw [h]
  · rw [if_neg hclasses]
    simp [hclasses]

theorem Stmt.withoutImport?_eq_self_iff {name : Text} {s : Stmt} : s.withoutImport? name = some s ↔
    ∀ d, s.import? = some d → d.items ≠ [] ∧ ∀ q ∈ d.classNames, isMeantBy name q = false := by
  cases s with
  | imports d =>
    have hvalue : (∀ d', (Stmt.imports d).import? = some d' → d'.items ≠ [] ∧ ∀ q ∈ d'.classNames, isMeantBy name q = false) ↔
        d.items ≠ [] ∧ d.dropClasses (isMeantBy name) = d := by
      rw [Import.dropClasses_eq_self_iff]
      refine ⟨fun h => h d rfl, fun h d' hd' => ?_⟩
      obtain rfl : d = d' := Option.some.inj hd'
      exact h
    rw [hvalue, withoutImport?]
    by_cases hempty : (d.dropClasses (isMeantBy name)).items.isEmpty = true
    · rw [if_pos hempty]
      refine ⟨nofun, fun ⟨hitems, hsame⟩ => absurd ?_ hitems⟩
      rwa [hsame, List.isEmpty_iff] at hempty
    · rw [if_neg hempty, Option.some.injEq, Stmt.imports.injEq]
      refine ⟨fun hsame => ⟨?_, hsame⟩, And.right⟩
      rwa [hsame, List.isEmpty_iff] at hempty
  | classLike _ => exact ⟨fun _ => nofun, fun _ => rfl⟩
  | ret _ => exact ⟨fun _ => nofun, fun _ => rfl⟩
  | declare _ => exact ⟨fun _ => nofun, fun _ => rfl⟩
  | other _ => exact ⟨fun _ => nofun, fun _ => rfl⟩

theorem TopStmt.withoutImport?_eq_self_iff {name : Text} {s : TopStmt} :
    s.withoutImport? name = some s ↔ ∀ t ∈ s.flat, t.withoutImport? name = some t := by
  cases s with
  | inside n =>
    rw [flat, ← filterMap_eq_self_iff, withoutImport?, Option.some.injEq, TopStmt.inside.injEq]
    constructor
    · exact congrArg Namespace.stmts
    · intro h
      rw [h]
  | plain t =>
    rw [flat, List.forall_mem_singleton, withoutImport?]
    constructor
    · intro h
      obtain ⟨u, hu, hut⟩ := Option.map_eq_some_iff.1 h
      rwa [TopStmt.plain.inj hut] at hu
    · intro h
      rw [h, Option.map_some]

/-- A removal of imports leaves a file alone when no import is without items and no class of the name is imported. -/
theorem removeImport_eq_self_iff {name : Text} {f : File} : removeImport name f = f ↔
    ∀ d ∈ f.imports, d.items ≠ [] ∧ ∀ q ∈ d.classNames, isMeantBy name q = false := by
  have hstmts : removeImport name f = f ↔ f.stmts.filterMap (TopStmt.withoutImport? name) = f.stmts := by
    constructor
    · exact congrArg File.stmts
    · intro h
      rw [removeImport, h]
  have himports : ∀ P : Import → Prop, (∀ d ∈ f.imports, P d) ↔
      ∀ s ∈ f.stmts, ∀ t ∈ s.flat, ∀ d, t.import? = some d → P d := by
    intro P
    simp only [File.imports, List.mem_filterMap, List.mem_flatMap]
    constructor
    · intro h s hs t ht d hd
      exact h d ⟨t, ⟨s, hs, ht⟩, hd⟩
    · rintro h d ⟨t, ⟨s, hs, ht⟩, hd⟩
      exact h s hs t ht d hd
  rw [hstmts, filterMap_eq_self_iff, himports]
  simp only [TopStmt.withoutImport?_eq_self_iff, Stmt.withoutImport?_eq_self_iff]

/-! ### A removal behind the addition -/

theorem normalizedName_normalizedName (name : Text) : normalizedName (normalizedName name) = normalizedName name :=
  List.dropWhile_idempotent (p := fun c => decide (c = '\\')) name

/-- The new import goes with the removal. -/
theorem withoutImport?_fresh (name : Text) :
    (Stmt.imports (.fresh (normalizedName name))).withoutImport? (normalizedName name) = none := by
  simp [Stmt.withoutImport?, Import.dropClasses, Import.qualified, Import.importsClasses, Import.fresh,
    ImportItem.isClass, Name.normalized, Name.fresh, normalizedName_normalizedName, isMeantBy]

theorem filterMap_withoutImport?_addImport (name : Text) (ss : List Stmt) :
    (addImport (normalizedName name) ss).filterMap (Stmt.withoutImport? (normalizedName name)) =
      ss.filterMap (Stmt.withoutImport? (normalizedName name)) := by
  unfold addImport
  split
  · rfl
  · rw [insertAt, List.filterMap_append, List.filterMap_cons_none (withoutImport?_fresh name), ← List.filterMap_append,
      List.take_append_drop]

/-- A removal behind the addition is the removal alone. -/
theorem removeImport_addImport (name : Text) (f : File) :
    removeImport (normalizedName name) (f.updateUnit (addImport (normalizedName name))) =
      removeImport (normalizedName name) f := by
  obtain ⟨h, hf⟩ := f.exists_fill
  rw [UnitHole.updateUnit_fill hf, removeImport_fill rfl, removeImport_fill hf, filterMap_withoutImport?_addImport]

end Graft
