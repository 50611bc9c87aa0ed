/-
Brackets that are nested and matched.

A list of brackets is nested when every bracket in it is closed by its own closing bracket, with a nested list in
between.  Reading it from left to right with a stack of what is still to be closed decides this, and that is how the
cursor consumes a group.

* `nested_iff` — nested brackets are those that leave the stack empty;
* `nested_of_closeGroup` — the brackets of a group that the cursor consumes are nested.
-/
import Graft.Parse.Cursor

namespace Graft

open Cursor (closerOf? isOpener isCloser nest? closeGroup)

/-! ### Brackets -/

def TokenKind.isBracket (k : TokenKind) : Bool := isOpener k || isCloser k

/-- The brackets among tokens. -/
def brackets (ts : List Token) : List TokenKind := (ts.map Token.kind).filter TokenKind.isBracket

theorem brackets_append (ts us : List Token) : brackets (ts ++ us) = brackets ts ++ brackets us := by
  simp [brackets]

theorem brackets_cons (t : Token) (ts : List Token) : brackets (t :: ts) = brackets [t] ++ brackets ts :=
  brackets_append [t] ts

theorem brackets_singleton_of_isBracket {t : Token} (h : t.kind.isBracket = true) : brackets [t] = [t.kind] := by
  simp [brackets, h]

theorem brackets_eq_nil {ts : List Token} (h : ∀ t ∈ ts, t.kind.isBracket = false) : brackets ts = [] := by
  simpa [brackets] using h

/-- A skipped token is no bracket. -/
theorem TokenKind.isBracket_of_isSkipped {k : TokenKind} (h : k.isSkipped = true) : k.isBracket = false := by
  cases k <;> first | rfl | cases h

theorem closerOf?_of_isCloser {k : TokenKind} (h : isCloser k = true) : closerOf? k = none := by
  cases k <;> first | rfl | cases h

theorem isCloser_of_closerOf? {o c : TokenKind} (h : closerOf? o = some c) : isCloser c = true := by
  cases o <;> cases h <;> rfl

/-! ### Nested brackets -/

/-- Brackets that are properly nested and fully matched. -/
inductive Nested : List TokenKind → Prop where
  | nil : Nested []
  | group {o c : TokenKind} {inner rest : List TokenKind} (hc : closerOf? o = some c) (hinner : Nested inner)
      (hrest : Nested rest) : Nested (o :: (inner ++ c :: rest))

theorem Nested.append {ks ls : List TokenKind} (hk : Nested ks) (hl : Nested ls) : Nested (ks ++ ls) := by
  induction hk with
  | nil => exact hl
  | group hc hinner hrest _ ih =>
    rw [List.cons_append, List.append_assoc, List.cons_append]
    exact .group hc hinner ih

/-- Brackets close everything that is pending, the innermost first, and everything that they open. -/
def closesAll : List TokenKind → List TokenKind → Bool
  | pending, [] => pending.isEmpty
  | pending, k :: ks =>
    match closerOf? k with
    | some closer => closesAll (closer :: pending) ks
    | none =>
      match pending with
      | closer :: rest => closer == k && closesAll rest ks
      | [] => false

section Step

variable {k c : TokenKind} {pending ks : List TokenKind}

@[simp] theorem closesAll_nil : closesAll pending [] = pending.isEmpty := by rw [closesAll]

theorem closesAll_cons_opener (h : closerOf? k = some c) : closesAll pending (k :: ks) = closesAll (c :: pending) ks := by
  rw [closesAll.eq_def]
  simp only [h]

theorem closesAll_cons (h : closerOf? k = none) : closesAll (c :: pending) (k :: ks) = (c == k && closesAll pending ks) := by
  rw [closesAll.eq_def]
  simp only [h]

/-- A bracket that nothing opened closes nothing. -/
theorem closesAll_nil_cons (h : closerOf? k = none) : closesAll [] (k :: ks) = false := by
  rw [closesAll.eq_def]
  simp only [h]

end Step

/-- Nested brackets leave what is pending as it is. -/
theorem Nested.closesAll_append {ks : List TokenKind} (h : Nested ks) (pending ls : List TokenKind) :
    closesAll pending (ks ++ ls) = closesAll pending ls := by
  induction h generalizing pending ls with
  | nil => rfl
  | @group o c inner rest hc hinner hrest ihinner ihrest =>
    have hnone := closerOf?_of_isCloser (isCloser_of_closerOf? hc)
    calc closesAll pending (o :: (inner ++ c :: rest) ++ ls)
        = closesAll (c :: pending) (inner ++ c :: (rest ++ ls)) := by
          rw [List.cons_append, List.append_assoc, List.cons_append, closesAll_cons_opener hc]
      _ = closesAll (c :: pending) (c :: (rest ++ ls)) := ihinner ..
      _ = closesAll pending (rest ++ ls) := by rw [closesAll_cons hnone, BEq.rfl, Bool.true_and]
      _ = closesAll pending ls := ihrest ..

/-- Nested brackets, then the first pending bracket, and so on until nothing is pending. -/
def Closes : List TokenKind → List TokenKind → Prop
  | [], ks => Nested ks
  | c :: pending, ks => ∃ inner rest, Nested inner ∧ ks = inner ++ c :: rest ∧ Closes pending rest

theorem closes_of_closesAll {pending ks : List TokenKind} (h : closesAll pending ks = true) : Closes pending ks := by
  induction ks generalizing pending with
  | nil =>
    cases pending with
    | nil => exact .nil
    | cons c pending => cases h
  | cons k ks ih =>
    cases hcloser : closerOf? k with
    | some closer =>
      rw [closesAll_cons_opener hcloser] at h
      obtain ⟨inner, rest, hinner, rfl, hrest⟩ := ih h
      -- The new group comes before what closes the next pending bracket.
      cases pending with
      | nil => exact .group hcloser hinner hrest
      | cons c pending =>
        obtain ⟨inner', rest', hinner', rfl, hrest'⟩ := hrest
        refine ⟨k :: (inner ++ closer :: inner'), rest', .group hcloser hinner hinner', ?_, hrest'⟩
        simp
    | none =>
      cases pending with
      | nil =>
        rw [closesAll_nil_cons hcloser] at h
        cases h
      | cons c pending =>
        rw [closesAll_cons hcloser, Bool.and_eq_true, beq_iff_eq] at h
        obtain ⟨rfl, h⟩ := h
        exact ⟨[], ks, .nil, rfl, ih h⟩

theorem nested_iff {ks : List TokenKind} : Nested ks ↔ closesAll [] ks = true := by
  constructor
  · intro h
    simpa using h.closesAll_append [] []
  · exact closes_of_closesAll

instance : DecidablePred Nested := fun _ => decidable_of_iff' _ nested_iff

/-! ### Groups -/

/-- The stack of the cursor after one more token. -/
theorem closesAll_of_nest? {pending pending' : List (TokenKind × Span)} {t : Token}
    (h : nest? pending t = some pending') (ks : List TokenKind) :
    closesAll (pending.map Prod.fst) (brackets [t] ++ ks) = closesAll (pending'.map Prod.fst) ks := by
  unfold nest? at h
  split at h
  · rename_i closer hcloser
    cases h
    rw [brackets_singleton_of_isBracket (by simp [TokenKind.isBracket, isOpener, hcloser])]
    exact closesAll_cons_opener hcloser
  · rename_i hnone
    split at h
    · rename_i hcloser
      rw [brackets_singleton_of_isBracket (by simp [TokenKind.isBracket, hcloser])]
      split at h
      · split at h
        · rename_i heq
          cases h
          rw [List.singleton_append, List.map_cons, closesAll_cons hnone, heq, BEq.rfl, Bool.true_and]
        · cases h
      · cases h
    · rename_i hcloser
      cases h
      rw [brackets_eq_nil (by simp [TokenKind.isBracket, isOpener, hnone, hcloser])]
      rfl

theorem closesAll_of_closeGroup {eof n : Nat} {pending : List (TokenKind × Span)} {ms : List Mark}
    (h : closeGroup eof pending ms = (n, none)) :
    closesAll (pending.map Prod.fst) (brackets ((ms.take n).map Mark.token)) = true := by
  induction ms generalizing pending n with
  | nil => cases pending <;> cases h
  | cons m ms ih =>
    simp only [closeGroup] at h
    split at h
    · cases h
    · rename_i hnest
      cases h
      simpa using closesAll_of_nest? hnest []
    · rename_i b bs hnest
      cases hrest : closeGroup eof (b :: bs) ms with
      | mk n' e =>
        rw [hrest] at h
        cases h
        rw [List.take_succ_cons, List.map_cons, brackets_cons, closesAll_of_nest? hnest]
        exact ih hrest

/-- The brackets of a group that is consumed are nested. -/
theorem nested_of_closeGroup {eof n : Nat} {ms : List Mark} (h : closeGroup eof [] ms = (n, none)) :
    Nested (brackets ((ms.take n).map Mark.token)) :=
  nested_iff.2 (closesAll_of_closeGroup h)

end Graft
