/-
Stable sorting by insertion.

Main statements: `sortBy_perm` (nothing is lost), `mem_sortBy`, `pairwise_sortBy` (what is sorted stands in order).
-/

namespace Graft

variable {α : Type}

/-- Puts an element behind all that `le` allows before it. -/
def insertBy (le : α → α → Bool) (a : α) : List α → List α
  | [] => [a]
  | b :: bs => if le b a then b :: insertBy le a bs else a :: b :: bs

/-- The elements in the order of `le`; equal ones stay in the order in which they were. -/
def sortBy (le : α → α → Bool) (as : List α) : List α := as.foldl (fun sorted a => insertBy le a sorted) []

theorem insertBy_perm (le : α → α → Bool) (a : α) (bs : List α) : (insertBy le a bs).Perm (a :: bs) := by
  induction bs with
  | nil => exact .refl _
  | cons b bs ih =>
    simp only [insertBy]
    split
    · exact (ih.cons b).trans (.swap a b bs)
    · exact .refl _

/-- No element is lost by sorting. -/
theorem sortBy_perm (le : α → α → Bool) (as : List α) : (sortBy le as).Perm as := by
  suffices h : ∀ acc, (as.foldl (fun sorted a => insertBy le a sorted) acc).Perm (acc ++ as) by
    simpa [sortBy] using h []
  induction as with
  | nil => simp
  | cons a as ih =>
    intro acc
    refine (ih _).trans ?_
    exact ((insertBy_perm le a acc).append_right as).trans List.perm_middle.symm

theorem mem_sortBy {le : α → α → Bool} {as : List α} {a : α} : a ∈ sortBy le as ↔ a ∈ as :=
  (sortBy_perm le as).mem_iff

theorem pairwise_insertBy {le : α → α → Bool} (htotal : ∀ a b, le a b = true ∨ le b a = true)
    (htrans : ∀ a b c, le a b = true → le b c = true → le a c = true) {bs : List α}
    (h : bs.Pairwise fun a b => le a b = true) (a : α) : (insertBy le a bs).Pairwise fun a b => le a b = true := by
  induction bs with
  | nil => exact List.pairwise_singleton _ a
  | cons b bs ih =>
    obtain ⟨hb, hbs⟩ := List.pairwise_cons.1 h
    rw [insertBy]
    split
    · rename_i hba
      refine List.pairwise_cons.2 ⟨fun c hc => ?_, ih hbs⟩
      rcases List.mem_cons.1 ((insertBy_perm le a bs).mem_iff.1 hc) with rfl | hc
      · exact hba
      · exact hb c hc
    · rename_i hba
      have hab : le a b = true := (htotal a b).resolve_right hba
      exact List.pairwise_cons.2 ⟨List.forall_mem_cons.2 ⟨hab, fun c hc => htrans a b c hab (hb c hc)⟩, h⟩

/-- Elements that are sorted by a total order stand in it. -/
theorem pairwise_sortBy {le : α → α → Bool} (htotal : ∀ a b, le a b = true ∨ le b a = true)
    (htrans : ∀ a b c, le a b = true → le b c = true → le a c = true) (as : List α) :
    (sortBy le as).Pairwise fun a b => le a b = true := by
  suffices h : ∀ acc : List α, (acc.Pairwise fun a b => le a b = true) →
      (as.foldl (fun sorted a => insertBy le a sorted) acc).Pairwise fun a b => le a b = true from h [] .nil
  induction as with
  | nil => exact fun acc hacc => hacc
  | cons a as ih => exact fun acc hacc => ih _ (pairwise_insertBy htotal htrans hacc a)

end Graft
