/-
Regular patterns over characters, matched by derivatives.

A pattern denotes a set of texts (`Pattern.Matches`).  `Pattern.step c` is the pattern of what may follow `c`, so that
the longest matching prefix of a text is found in one pass that ends as soon as nothing can follow
(`Pattern.longest?`).

Main statements: `nullable_iff` and `matches_step` (the derivative is right), `longest?_eq_some_iff` (the answer is
the length of the longest prefix that matches).
-/
import Graft.Text

/-! ### Patterns and the texts they match -/

namespace Graft

inductive Pattern where
  /-- Matches nothing. -/
  | fail
  /-- Matches the empty text. -/
  | empty
  /-- Matches one character of a class. -/
  | one (p : Char → Bool)
  | seq (a b : Pattern)
  | alt (a b : Pattern)
  /-- Matches any number of repetitions. -/
  | star (a : Pattern)

namespace Pattern

/-- `Matches p t`: the whole text `t` is one that `p` stands for. -/
inductive Matches : Pattern → Text → Prop where
  | empty : Matches .empty []
  | one {p : Char → Bool} {c : Char} (h : p c = true) : Matches (.one p) [c]
  | seq {a b : Pattern} {s t : Text} (hs : Matches a s) (ht : Matches b t) : Matches (.seq a b) (s ++ t)
  | left {a b : Pattern} {t : Text} (h : Matches a t) : Matches (.alt a b) t
  | right {a b : Pattern} {t : Text} (h : Matches b t) : Matches (.alt a b) t
  | stop {a : Pattern} : Matches (.star a) []
  | more {a : Pattern} {s t : Text} (hs : Matches a s) (ht : Matches (.star a) t) : Matches (.star a) (s ++ t)

/-! ### Building patterns -/

/-- The given text and no other. -/
def lit : Text → Pattern
  | [] => .empty
  | c :: t => .seq (.one (· == c)) (lit t)

/-- One or more repetitions. -/
def plus (a : Pattern) : Pattern := .seq a (.star a)

/-- The pattern or nothing. -/
def opt (a : Pattern) : Pattern := .alt a .empty

/-- Any one of the patterns. -/
def any : List Pattern → Pattern
  | [] => .fail
  | [a] => a
  | a :: as => .alt a (any as)

/-- The patterns one after the other. -/
def all : List Pattern → Pattern
  | [] => .empty
  | [a] => a
  | a :: as => .seq a (all as)

/-! ### Derivatives -/

/-- The pattern matches the empty text. -/
def nullable : Pattern → Bool
  | .fail => false
  | .empty => true
  | .one _ => false
  | .seq a b => a.nullable && b.nullable
  | .alt a b => a.nullable || b.nullable
  | .star _ => true

/-- `seq`, kept small. -/
def andThen : Pattern → Pattern → Pattern
  | .fail, _ => .fail
  | .empty, b => b
  | a, b => .seq a b

/-- `alt`, kept small. -/
def orElse : Pattern → Pattern → Pattern
  | .fail, b => b
  | a, .fail => a
  | a, b => .alt a b

/-- The pattern of what may follow the character `c`. -/
def step (c : Char) : Pattern → Pattern
  | .fail => .fail
  | .empty => .fail
  | .one p => if p c then .empty else .fail
  | .seq a b => if a.nullable then ((a.step c).andThen b).orElse (b.step c) else (a.step c).andThen b
  | .alt a b => (a.step c).orElse (b.step c)
  | .star a => (a.step c).andThen (.star a)

/-- No text is left to match. -/
def isFail : Pattern → Bool
  | .fail => true
  | _ => false

/-- The number of characters of the longest prefix that the pattern matches. -/
def longest? (p : Pattern) : Text → Option Nat
  | [] => if p.nullable then some 0 else none
  | c :: t =>
    if p.isFail then none
    else match (p.step c).longest? t with
      | some n => some (n + 1)
      | none => if p.nullable then some 0 else none

/-! ### The derivative is right -/

theorem nullable_iff (p : Pattern) : p.nullable = true ↔ Matches p [] := by
  induction p with
  | fail => exact ⟨fun h => by simp [nullable] at h, nofun⟩
  | empty => exact ⟨fun _ => .empty, fun _ => rfl⟩
  | one p => exact ⟨fun h => by simp [nullable] at h, nofun⟩
  | seq a b iha ihb =>
    simp only [nullable, Bool.and_eq_true, iha, ihb]
    constructor
    · rintro ⟨h₁, h₂⟩; exact Matches.seq h₁ h₂
    · intro h
      generalize ht : ([] : Text) = t at h
      cases h with
      | seq hs ht' =>
        obtain ⟨rfl, rfl⟩ := List.append_eq_nil_iff.1 ht.symm
        exact ⟨hs, ht'⟩
  | alt a b iha ihb =>
    simp only [nullable, Bool.or_eq_true, iha, ihb]
    constructor
    · rintro (h | h)
      · exact .left h
      · exact .right h
    · intro h
      cases h with
      | left h => exact .inl h
      | right h => exact .inr h
  | star a _ => exact ⟨fun _ => .stop, fun _ => rfl⟩

theorem matches_fail {t : Text} : ¬ Matches .fail t := nofun

theorem matches_seq {a b : Pattern} {t : Text} :
    Matches (.seq a b) t ↔ ∃ s u, t = s ++ u ∧ Matches a s ∧ Matches b u :=
  ⟨fun h => by cases h with | seq hs hu => exact ⟨_, _, rfl, hs, hu⟩, fun ⟨_, _, e, hs, hu⟩ => e ▸ .seq hs hu⟩

theorem matches_alt {a b : Pattern} {t : Text} : Matches (.alt a b) t ↔ Matches a t ∨ Matches b t :=
  ⟨fun h => by cases h with | left h => exact .inl h | right h => exact .inr h,
    fun h => h.elim .left .right⟩

theorem matches_andThen {a b : Pattern} {t : Text} : Matches (a.andThen b) t ↔ Matches (.seq a b) t := by
  cases a with
  | fail => simp [andThen, matches_seq, matches_fail]
  | empty =>
    simp only [andThen, matches_seq]
    constructor
    · intro h; exact ⟨[], t, rfl, .empty, h⟩
    · rintro ⟨s, u, rfl, hs, hu⟩; cases hs; exact hu
  | one p => rfl
  | seq a b => rfl
  | alt a b => rfl
  | star a => rfl

theorem matches_orElse {a b : Pattern} {t : Text} : Matches (a.orElse b) t ↔ Matches a t ∨ Matches b t := by
  cases a <;> cases b <;> simp [orElse, matches_alt, matches_fail]

/-- A repetition that begins with `c` begins with a repeated text that does. -/
theorem matches_star_cons {a : Pattern} {c : Char} {t : Text} :
    Matches (.star a) (c :: t) ↔ ∃ s u, t = s ++ u ∧ Matches a (c :: s) ∧ Matches (.star a) u := by
  constructor
  · intro h
    generalize hp : Pattern.star a = p at h
    generalize ht : c :: t = w at h
    induction h with
    | stop => simp at ht
    | @more a' s u hs hu _ ihu =>
      cases hp
      cases s with
      | nil => exact ihu rfl ht
      | cons d s =>
        obtain ⟨rfl, rfl⟩ := List.cons.inj ht
        exact ⟨s, u, rfl, hs, hu⟩
    | empty => cases hp
    | one _ => cases hp
    | seq _ _ => cases hp
    | left _ => cases hp
    | right _ => cases hp
  · rintro ⟨s, u, rfl, hs, hu⟩
    exact Matches.more hs hu

/-- The derivative matches exactly what may follow `c`. -/
theorem matches_step (c : Char) (p : Pattern) : ∀ t, Matches (p.step c) t ↔ Matches p (c :: t) := by
  induction p with
  | fail => intro t; exact ⟨nofun, nofun⟩
  | empty => intro t; exact ⟨nofun, nofun⟩
  | one p =>
    intro t
    simp only [step]
    split
    · rename_i h
      constructor
      · intro ht; cases ht; exact .one h
      · intro ht; cases ht; exact .empty
    · rename_i h
      constructor
      · exact nofun
      · intro ht; cases ht; contradiction
  | seq a b iha ihb =>
    intro t
    have key : Matches (.seq (a.step c) b) t ↔ ∃ s u, t = s ++ u ∧ Matches a (c :: s) ∧ Matches b u := by
      rw [matches_seq]
      constructor <;> rintro ⟨s, u, e, hs, hu⟩
      · exact ⟨s, u, e, (iha s).1 hs, hu⟩
      · exact ⟨s, u, e, (iha s).2 hs, hu⟩
    have split_cons : Matches (.seq a b) (c :: t) ↔
        (∃ s u, t = s ++ u ∧ Matches a (c :: s) ∧ Matches b u) ∨ (Matches a [] ∧ Matches b (c :: t)) := by
      rw [matches_seq]
      constructor
      · rintro ⟨s, u, e, hs, hu⟩
        cases s with
        | nil => exact .inr ⟨hs, by simpa [e] using hu⟩
        | cons d s =>
          obtain ⟨rfl, rfl⟩ := List.cons.inj e
          exact .inl ⟨s, u, rfl, hs, hu⟩
      · rintro (⟨s, u, rfl, hs, hu⟩ | ⟨hs, hu⟩)
        · exact ⟨c :: s, u, rfl, hs, hu⟩
        · exact ⟨[], c :: t, rfl, hs, hu⟩
    rw [split_cons]
    simp only [step]
    split
    · rename_i hn
      rw [matches_orElse, matches_andThen, key, ihb, ← nullable_iff]
      simp [hn]
    · rename_i hn
      rw [matches_andThen, key, ← nullable_iff]
      simp [hn]
  | alt a b iha ihb =>
    intro t
    simp only [step, matches_orElse, matches_alt, iha, ihb]
  | star a iha =>
    intro t
    simp only [step, matches_andThen, matches_seq, matches_star_cons, iha]

/-! ### The longest match -/

theorem longest?_le {p : Pattern} {t : Text} {n : Nat} (h : p.longest? t = some n) : n ≤ t.length := by
  induction t generalizing p n with
  | nil =>
    simp only [longest?] at h
    split at h <;> simp_all
  | cons c t ih =>
    simp only [longest?] at h
    split at h
    · simp at h
    · split at h
      · rename_i m hm
        have := ih hm
        simp at h; simp; omega
      · split at h
        · simp only [Option.some.injEq] at h; omega
        · simp at h

theorem longest?_eq_none_iff {p : Pattern} {t : Text} :
    p.longest? t = none ↔ ∀ n, ¬ Matches p (t.take n) := by
  induction t generalizing p with
  | nil =>
    simp only [longest?, List.take_nil, forall_const, ← nullable_iff]
    split <;> simp_all
  | cons c t ih =>
    simp only [longest?]
    have tail : (∀ n, ¬ Matches p ((c :: t).take n)) ↔
        p.nullable = false ∧ ∀ n, ¬ Matches (p.step c) (t.take n) := by
      constructor
      · intro h
        refine ⟨?_, fun n => ?_⟩
        · rw [← Bool.not_eq_true, nullable_iff]
          exact h 0
        · rw [matches_step]
          exact h (n + 1)
      · rintro ⟨h₀, h⟩ n
        cases n with
        | zero => simpa [← nullable_iff] using h₀
        | succ n => simpa [matches_step] using h n
    rw [tail, ← ih]
    split
    · rename_i hf
      have : p = .fail := by cases p <;> simp_all [isFail]
      subst this
      cases t <;> simp [longest?, nullable, isFail, step]
    · split
      · rename_i m hm
        simp [hm]
      · rename_i hm
        simp [hm]

/-- The answer is the length of a matching prefix, and no longer prefix matches. -/
theorem longest?_eq_some_iff {p : Pattern} {t : Text} {n : Nat} :
    p.longest? t = some n ↔
      n ≤ t.length ∧ Matches p (t.take n) ∧ ∀ m, n < m → m ≤ t.length → ¬ Matches p (t.take m) := by
  induction t generalizing p n with
  | nil =>
    simp only [longest?, List.length_nil, List.take_nil, Nat.le_zero, ← nullable_iff]
    split
    · rename_i h
      simp only [Option.some.injEq]
      constructor
      · intro e; exact ⟨e.symm, h, fun m h₁ h₂ => by omega⟩
      · intro e; exact e.1.symm
    · rename_i h
      simp [h]
  | cons c t ih =>
    simp only [longest?]
    split
    · rename_i hf
      have : ∀ w, ¬ Matches p w := by cases p <;> simp_all [isFail, matches_fail]
      simp [this]
    · split
      · rename_i m hm
        simp only [Option.some.injEq]
        have hm' := ih.1 hm
        constructor
        · rintro rfl
          refine ⟨by simpa using hm'.1, by simpa [matches_step] using hm'.2.1, fun k hk hk' => ?_⟩
          obtain ⟨k, rfl⟩ : ∃ j, k = j + 1 := ⟨k - 1, by omega⟩
          have := hm'.2.2 k (by omega) (by simpa using hk')
          simpa [matches_step] using this
        · rintro ⟨hn, hmatch, hmax⟩
          cases n with
          | zero =>
            have := hmax (m + 1) (by omega) (by simpa using hm'.1)
            exact absurd (by simpa [matches_step] using hm'.2.1) this
          | succ n =>
            have : (p.step c).longest? t = some n := by
              rw [ih]
              refine ⟨by simpa using hn, by simpa [matches_step] using hmatch, fun k hk hk' => ?_⟩
              have := hmax (k + 1) (by omega) (by simpa using hk')
              simpa [matches_step] using this
            rw [this] at hm
            simp at hm
            omega
      · rename_i hm
        rw [longest?_eq_none_iff] at hm
        have none_longer : ∀ k, ¬ Matches p ((c :: t).take (k + 1)) := fun k => by
          simpa [matches_step] using hm k
        split
        · rename_i hnull
          simp only [Option.some.injEq]
          constructor
          · rintro rfl
            refine ⟨by simp, by simpa [← nullable_iff] using hnull, fun k hk _ => ?_⟩
            obtain ⟨k, rfl⟩ : ∃ j, k = j + 1 := ⟨k - 1, by omega⟩
            exact none_longer k
          · rintro ⟨_, hmatch, _⟩
            cases n with
            | zero => rfl
            | succ n => exact absurd hmatch (none_longer n)
        · rename_i hnull
          constructor
          · simp
          · rintro ⟨_, hmatch, _⟩
            cases n with
            | zero => simp [← nullable_iff] at hmatch; exact absurd hmatch hnull
            | succ n => exact absurd hmatch (none_longer n)

end Pattern

end Graft
