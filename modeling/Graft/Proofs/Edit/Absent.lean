/-
Removals of what is not there.

A removal that finds nothing to remove leaves the file alone, and a queue of such removals leaves the text alone.  The
one exception is a removal of imports: it takes every import with it that has no items, be it one that imports nothing
from the start.

* `removeTrait_eq_self`, `removeFromArray_eq_self`, … — removals that leave a class alone;
* `Edit.IsAbsent` — what a removal would remove is not there;
* `applyEdits_absent` — queues of removals of what is not there.
-/
import Graft.Proofs.Edit.Array
import Graft.Proofs.Edit.Import
import Graft.Proofs.Edit.Members
import Graft.Proofs.Edit.Frame
import Graft.Proofs.Tree.Target

namespace Graft

/-! ### Classes -/

namespace ClassLike

variable {c : ClassLike}

theorem removeTrait_eq_self {name : Text} (hnames : ∀ clause, Member.traitUse clause ∈ c.members → clause.names ≠ [])
    (h : c.usesTrait (simpleName name) = false) : c.removeTrait name = c := by
  have hmembers : c.members.filterMap (withoutTrait? (simpleName name)) = c.members := by
    rw [filterMap_eq_self_iff]
    intro m hm
    cases m with
    | traitUse clause =>
      have hclause : clause.names.any (·.simple == simpleName name) = false := by
        rw [← Bool.not_eq_true]
        exact List.any_eq_false.1 h clause (List.mem_filterMap.2 ⟨_, hm, rfl⟩)
      have hfilter : clause.names.filter (·.simple != simpleName name) = clause.names := by
        rw [List.filter_eq_self]
        intro n hn
        rw [bne, Bool.not_eq_true', ← Bool.not_eq_true]
        exact List.any_eq_false.1 hclause n hn
      have hempty : ¬clause.names.isEmpty = true := fun he => hnames clause hm (List.isEmpty_iff.1 he)
      simp only [withoutTrait?, hfilter, if_neg hempty]
    | property _ => rfl
    | method _ => rfl
    | other _ => rfl
  rw [removeTrait, hmembers]

theorem removeInterface_eq_self {name : Text} (h : c.implementsInterface (simpleName name) = false) :
    c.removeInterface name = c := by
  have hnames : c.interfaces.filter (·.simple != simpleName name) = c.interfaces := by
    rw [List.filter_eq_self]
    intro n hn
    rw [bne, Bool.not_eq_true', ← Bool.not_eq_true]
    exact List.any_eq_false.1 h n hn
  rw [removeInterface, hnames]

theorem removeMethod_eq_self {name : Text} (h : c.hasMethod name = false) : c.removeMethod name = c := by
  have hmembers : c.members.filter (fun m => !m.isMethod name) = c.members := by
    rw [List.filter_eq_self]
    intro m hm
    rw [Bool.not_eq_true', ← Bool.not_eq_true]
    intro hname
    obtain ⟨f, hf, hname⟩ := (Option.any_eq_true ..).1 hname
    exact List.any_eq_false.1 h f (List.mem_filterMap.2 ⟨m, hm, hf⟩) hname
  rw [removeMethod_eq, onMembers, hmembers]

theorem removeFromArray_eq_self {target search : Text} (h : ∀ a, c.targetArray? target = some a →
    a.entry? search = none ∧ a.containsValue search = false) : c.removeFromArray target search = c :=
  updateTarget_eq_self fun a ha => ArrayLit.dropEntries_eq_self (h a ha).1 (h a ha).2

end ClassLike

/-! ### Edits -/

/-- The edit is a removal, and what it would remove is not in the file. -/
def Edit.IsAbsent (f : File) : Edit → Prop
  | removeImport name => ∀ d ∈ f.imports, ∀ q ∈ d.classNames, isMeantBy (normalizedName name) q = false
  | removeTrait name => ∀ c, f.firstClass? = some c → c.usesTrait (simpleName name) = false
  | removeInterface name => ∀ c, f.firstClass? = some c → c.implementsInterface (simpleName name) = false
  | removeMethod name => ∀ c, f.firstClass? = some c → c.hasMethod name = false
  | removeFromArray target search => ∀ c a, f.firstClass? = some c → c.targetArray? target = some a →
    a.entry? search = none ∧ a.containsValue search = false
  | addImport _ | addTrait _ | addInterface _ | addMethod _ | addToArray .. | setConfig .. => False

variable {f : File} {G : Ground}

theorem File.Laid.stmt (h : f.Laid G) {s : Stmt} (hs : s ∈ f.stmts.flatMap TopStmt.flat) : s.Laid G := by
  obtain ⟨t, ht, hs⟩ := List.mem_flatMap.1 hs
  have hlaid := h.stmts t ht
  cases t with
  | inside n => exact hlaid.stmts s hs
  | plain u =>
    obtain rfl := List.mem_singleton.1 hs
    exact hlaid

theorem File.Laid.firstClass (h : f.Laid G) {c : ClassLike} (hc : f.firstClass? = some c) : c.Laid G := by
  obtain ⟨s, hs, hsc⟩ := List.mem_filterMap.1 (List.mem_of_find?_eq_some hc)
  have hlaid := h.stmt hs
  cases s with
  | classLike d =>
    cases hsc
    exact hlaid
  | _ => cases hsc

/-- A removal of what is not there leaves the file alone, if it is not for imports without items. -/
theorem Edit.IsAbsent.act_eq_self {e : Edit} (h : e.IsAbsent f) (hlaid : f.Laid G)
    (hgroups : ∀ name, e = .removeImport name → ∀ d ∈ f.imports, d.items ≠ []) : e.act none f = f := by
  cases e with
  | removeImport name => exact removeImport_eq_self_iff.2 fun d hd => ⟨hgroups name rfl d hd, h d hd⟩
  | removeTrait name =>
    refine File.onClass_eq_self fun c hc => ClassLike.removeTrait_eq_self (fun clause hclause => ?_) (h c hc)
    have hclause' : clause.Laid G := (hlaid.firstClass hc).members _ hclause
    exact hclause'.2.2.1
  | removeInterface name => exact File.onClass_eq_self fun c hc => ClassLike.removeInterface_eq_self (h c hc)
  | removeMethod name => exact File.onClass_eq_self fun c hc => ClassLike.removeMethod_eq_self (h c hc)
  | removeFromArray target search =>
    exact File.onClass_eq_self fun c hc => ClassLike.removeFromArray_eq_self fun a => h c a hc
  | _ => cases h

/-- A queue of removals of what is not there leaves the text alone.  If imports are to be removed, none of the file may
be without items. -/
theorem applyEdits_absent {source : Text} {edits : List Edit} (hf : (Arena.empty.parseFile source).1 = .ok f)
    (habsent : ∀ e ∈ edits, e.IsAbsent f)
    (hgroups : ∀ name, .removeImport name ∈ edits → ∀ d ∈ f.imports, d.items ≠ []) :
    applyEdits source edits = .ok source := by
  obtain ⟨a, hparse⟩ : ∃ a, Arena.empty.parseFile source = (.ok f, a) := ⟨_, Prod.ext hf rfl⟩
  obtain ⟨hlaid, -⟩ := Arena.laid_of_parseFile hparse
  refine applyEdits_of_require hf (fun e he => ?_) (fun e he => ?_) fun e he => ?_
  · rintro code rfl
    exact habsent _ he
  · have h := habsent e he
    cases e with
    | removeImport _ => rfl
    | removeTrait _ => rfl
    | removeInterface _ => rfl
    | removeMethod _ => rfl
    | removeFromArray _ _ => rfl
    | _ => cases h
  · refine (habsent e he).act_eq_self hlaid ?_
    rintro name rfl
    exact hgroups name he

/-- Nothing is removed where there is no import and no trait of the name. -/
theorem applyEdits_absent_names :
    ∃ f, (Arena.empty.parseFile "<?php\nuse B;\nclass A \x7b use T; \x7d".toList).1 = .ok f ∧
      (∀ e ∈ [Edit.removeImport "X".toList, .removeTrait "X".toList], e.IsAbsent f) ∧
      (∀ name, Edit.removeImport name ∈ [Edit.removeImport "X".toList, .removeTrait "X".toList] →
        ∀ d ∈ f.imports, d.items ≠ []) ∧
      applyEdits "<?php\nuse B;\nclass A \x7b use T; \x7d".toList [.removeImport "X".toList, .removeTrait "X".toList] =
        .ok "<?php\nuse B;\nclass A \x7b use T; \x7d".toList := by
  have hcheck : (Arena.empty.parseFile "<?php\nuse B;\nclass A \x7b use T; \x7d".toList).1.toOption.map (fun f =>
      (decide (∀ d ∈ f.imports, d.items ≠ [] ∧ ∀ q ∈ d.classNames, isMeantBy "X".toList q = false),
        f.firstClass?.map (·.usesTrait "X".toList))) = some (true, some false) := by
    decide +kernel
  cases hf : (Arena.empty.parseFile "<?php\nuse B;\nclass A \x7b use T; \x7d".toList).1 with
  | error err =>
    rw [hf] at hcheck
    cases hcheck
  | ok f =>
    rw [hf] at hcheck
    obtain ⟨himports, hclass⟩ := Prod.mk.inj (Option.some.inj hcheck)
    rw [decide_eq_true_eq] at himports
    have habsent : ∀ e ∈ [Edit.removeImport "X".toList, .removeTrait "X".toList], e.IsAbsent f := by
      refine List.forall_mem_cons.2 ⟨fun d hd => (himports d hd).2, List.forall_mem_singleton.2 fun c hc => ?_⟩
      rw [hc] at hclass
      exact Option.some.inj hclass
    have hgroups : ∀ name, Edit.removeImport name ∈ [Edit.removeImport "X".toList, .removeTrait "X".toList] →
        ∀ d ∈ f.imports, d.items ≠ [] := fun _ _ d hd => (himports d hd).1
    exact ⟨f, rfl, habsent, hgroups, applyEdits_absent hf habsent hgroups⟩

/-- An import that has no items from the start goes with a removal that has nothing to remove. -/
theorem applyEdits_absent_group :
    ∃ f, (Arena.empty.parseFile "<?php\nuse A\\\x7b\x7d;\nclass B \x7b\x7d".toList).1 = .ok f ∧
      (Edit.removeImport "X".toList).IsAbsent f ∧
      applyEdits "<?php\nuse A\\\x7b\x7d;\nclass B \x7b\x7d".toList [.removeImport "X".toList] =
        .ok "<?php\nclass B \x7b\x7d".toList := by
  refine ⟨_, rfl, ?_, ?_⟩
  · show ∀ d ∈ _, _
    decide
  · decide +kernel

end Graft
