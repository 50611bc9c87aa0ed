/-
Lists whose elements are addressed by their index.

Main statements: `insertAt_perm`, `moveTo_perm` (moving an element keeps all of them).
-/

namespace Graft

variable {α : Type}

/-- The list with `a` put before the element of the index, or at the end. -/
def insertAt (i : Nat) (a : α) (as : List α) : List α := as.take i ++ a :: as.drop i

/-- The list with an element taken out and put before the element of the index in what is left. -/
def moveTo (source target : Nat) (as : List α) : List α :=
  match as[source]? with
  | some a => insertAt target a (as.eraseIdx source)
  | none => as

theorem insertAt_perm (i : Nat) (a : α) (as : List α) : (insertAt i a as).Perm (a :: as) := by
  have h : (as.take i ++ a :: as.drop i).Perm (a :: (as.take i ++ as.drop i)) := List.perm_middle
  rwa [List.take_append_drop] at h

theorem moveTo_perm (source target : Nat) (as : List α) : (moveTo source target as).Perm as := by
  unfold moveTo
  split
  · rename_i a h
    refine (insertAt_perm ..).trans ?_
    obtain ⟨hlt, rfl⟩ := List.getElem?_eq_some_iff.1 h
    have hsplit := List.take_append_drop source as
    rw [List.drop_eq_getElem_cons hlt] at hsplit
    rw [List.eraseIdx_eq_take_drop_succ]
    exact List.perm_middle.symm.trans (.of_eq hsplit)
  · exact .refl _

end Graft
