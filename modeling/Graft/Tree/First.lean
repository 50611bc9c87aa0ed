/-
Changing the first element of a list that a partial function accepts.

Main statements: `updateFirst?_eq_some_iff` (what the changed list is made of).
-/

/-! ### The first accepted element -/

namespace Graft

variable {α : Type}

/-- The list with its first element that `f` answers replaced by the answer; nothing when there is none. -/
def updateFirst? (f : α → Option α) : List α → Option (List α)
  | [] => none
  | a :: as => match f a with
    | some b => some (b :: as)
    | none => (updateFirst? f as).map (a :: ·)

/-- The list with its first element that `f` answers replaced by the answer. -/
def updateFirst (f : α → Option α) (as : List α) : List α := (updateFirst? f as).getD as

theorem updateFirst?_eq_some_iff {f : α → Option α} {as bs : List α} :
    updateFirst? f as = some bs ↔
      ∃ l a b r, as = l ++ a :: r ∧ bs = l ++ b :: r ∧ f a = some b ∧ ∀ x ∈ l, f x = none := by
  induction as generalizing bs with
  | nil => simp [updateFirst?]
  | cons a as ih =>
    simp only [updateFirst?]
    split
    · rename_i b hb
      constructor
      · intro h
        simp only [Option.some.injEq] at h
        exact ⟨[], a, b, as, rfl, h.symm, hb, nofun⟩
      · rintro ⟨l, a', b', r, h₁, rfl, hf, hl⟩
        cases l with
        | nil =>
          simp only [List.nil_append, List.cons.injEq] at h₁
          obtain ⟨rfl, rfl⟩ := h₁
          simp_all
        | cons x l =>
          simp only [List.cons_append, List.cons.injEq] at h₁
          have := hl a (by simp [h₁.1])
          simp_all
    · rename_i hn
      simp only [Option.map_eq_some_iff, ih]
      constructor
      · rintro ⟨_, ⟨l, a', b', r, rfl, rfl, hf, hl⟩, rfl⟩
        exact ⟨a :: l, a', b', r, rfl, rfl, hf, by simpa [hn] using hl⟩
      · rintro ⟨l, a', b', r, h₁, rfl, hf, hl⟩
        cases l with
        | nil =>
          simp only [List.nil_append, List.cons.injEq] at h₁
          obtain ⟨rfl, rfl⟩ := h₁
          simp_all
        | cons x l =>
          simp only [List.cons_append, List.cons.injEq] at h₁
          obtain ⟨rfl, rfl⟩ := h₁
          exact ⟨_, ⟨l, a', b', r, rfl, rfl, hf, fun y hy => hl y (by simp [hy])⟩, rfl⟩

end Graft
