/-
Edits of arrays.

An entry is appended unless the array holds it, and all entries of a key or a value are dropped.  A value is set in the
first entry of its key or in a new one.  What the new entry holds depends on the old one alone, so of two changes of one
entry the second sees what the first has made.

* `ArrayLit.appendEntry_appendEntry`, `ArrayLit.setPath_setPath` — additions that are run twice;
* `ArrayLit.dropEntries_appendEntry`, `ArrayLit.dropEntries_eq_self` — removals behind an addition, and of nothing;
* `ArrayLit.setEntry_setEntry` — two changes of one entry.
-/
import Graft.Edit.Class
import Graft.Edit.Config
import Graft.Proofs.Tree.First

namespace Graft

/-! ### Entries -/

/-- The entry with its value changed, if it has the key. -/
def ArrayItem.withValue? (key : Text) (f : Option Expr → Expr) (i : ArrayItem Expr) : Option (ArrayItem Expr) :=
  if i.hasKey key then some { i with value := f (some i.value) } else none

theorem ArrayItem.hasKey_fresh (key : Text) (value : Expr) :
    (ArrayItem.fresh (some (Expr.freshString key)) value).hasKey key = true := by
  simp [ArrayItem.hasKey, ArrayItem.fresh, Expr.freshString, Expr.string?]

/-- A change of the value leaves the key alone. -/
theorem ArrayItem.composes_withValue? (key : Text) (f g : Option Expr → Expr) :
    Composes (withValue? key f) (withValue? key g) (withValue? key fun e => g (some (f e))) where
  none {i} hi := by
    have hkey : ¬i.hasKey key = true := fun hkey => by simp [withValue?, hkey] at hi
    exact ⟨if_neg hkey, if_neg hkey⟩
  some {i j} hij := by
    by_cases hkey : i.hasKey key = true
    · rw [withValue?, if_pos hkey] at hij
      cases hij
      exact ⟨_, if_pos hkey, if_pos hkey⟩
    · rw [withValue?, if_neg hkey] at hij
      cases hij

namespace ArrayLit

/-! ### Entries that are set -/

theorem setEntry_eq (key : Text) (f : Option Expr → Expr) (a : ArrayLit Expr) : a.setEntry key f =
    { a with
      items := (updateFirst? (ArrayItem.withValue? key f) a.items).getD
        (a.items ++ [.fresh (some (.freshString key)) (f none)]) } := rfl

/-- Two changes of one entry are one. -/
theorem setEntry_setEntry (key : Text) (f g : Option Expr → Expr) (a : ArrayLit Expr) :
    (a.setEntry key f).setEntry key g = a.setEntry key fun e => g (some (f e)) := by
  have hcomposes := ArrayItem.composes_withValue? key f g
  simp only [setEntry_eq]
  cases h : updateFirst? (ArrayItem.withValue? key f) a.items with
  | some items =>
    obtain ⟨items', hg, hgf⟩ := hcomposes.updateFirst?.some h
    rw [Option.getD_some, hg, hgf]
    rfl
  | none =>
    -- No entry has the key but the new one, which is the last.
    have hnone : ∀ i ∈ a.items, ArrayItem.withValue? key g i = none := fun i hi =>
      (hcomposes.none (forall_of_updateFirst?_eq_none h i hi)).1
    have hfresh : ArrayItem.withValue? key g (.fresh (some (.freshString key)) (f none)) =
        some (.fresh (some (.freshString key)) (g (some (f none)))) := if_pos (ArrayItem.hasKey_fresh key (f none))
    rw [Option.getD_none, updateFirst?_append hnone hfresh, (hcomposes.updateFirst?.none h).2]
    rfl

theorem overwrite_overwrite (value : Scalar) (e : Option Expr) :
    overwrite value (some (overwrite value e)) = overwrite value e := by
  have hheld : value.isHeldBy (overwrite value e) = true := by
    cases e with
    | none => exact value.isHeldBy_toExpr
    | some e =>
      simp only [overwrite]
      split
      · assumption
      · exact value.isHeldBy_toExpr
  exact if_pos hheld

/-- Setting a value at a path again changes nothing. -/
theorem setPath_setPath (path : List Text) (value : Scalar) (a : ArrayLit Expr) :
    setPath path value (setPath path value a) = setPath path value a := by
  induction path generalizing a with
  | nil => rfl
  | cons key rest ih =>
    cases rest with
    | nil =>
      refine (setEntry_setEntry key _ _ a).trans ?_
      exact congrArg (a.setEntry key) (funext (overwrite_overwrite value))
    | cons k ks =>
      refine (setEntry_setEntry key _ _ a).trans (congrArg (a.setEntry key) (funext fun e => ?_))
      simp only [Option.bind_some, Expr.array?, Option.getD_some, ih]

/-! ### Entries that are appended and dropped -/

/-- What is dropped may have been appended before. -/
theorem dropEntries_appendEntry {key : Option Text} {value : Scalar} {search : Text}
    (h : (ArrayItem.fresh (key.map Expr.freshString) value.toExpr).hasKey search = true ∨
      (ArrayItem.fresh (key.map Expr.freshString) value.toExpr).hasValue search = true) (a : ArrayLit Expr) :
    dropEntries search (appendEntry key value a) = dropEntries search a := by
  unfold appendEntry
  split
  · rfl
  · have hdropped : (!((ArrayItem.fresh (key.map Expr.freshString) value.toExpr).hasKey search ||
        (ArrayItem.fresh (key.map Expr.freshString) value.toExpr).hasValue search)) = false := by
      rw [Bool.not_eq_false', Bool.or_eq_true]
      exact h
    rw [dropEntries, List.filter_append, List.filter_cons_of_neg (by rw [hdropped]; exact Bool.false_ne_true),
      List.filter_nil, List.append_nil]
    rfl

theorem dropEntries_eq_self {search : Text} {a : ArrayLit Expr} (hkey : a.entry? search = none)
    (hvalue : a.containsValue search = false) : dropEntries search a = a := by
  have hitems : a.items.filter (fun i => !(i.hasKey search || i.hasValue search)) = a.items := by
    rw [List.filter_eq_self]
    intro i hi
    have hkey' : ¬i.hasKey search = true := List.find?_eq_none.1 hkey i hi
    have hvalue' : ¬i.hasValue search = true := List.any_eq_false.1 hvalue i hi
    rw [Bool.not_eq_true', ← Bool.not_eq_true, Bool.or_eq_true]
    exact not_or.2 ⟨hkey', hvalue'⟩
  rw [dropEntries, hitems]

end ArrayLit

end Graft
