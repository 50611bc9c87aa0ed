/-
Rules for expressions.

What holds of every answer of a parser of expressions follows from what holds on each way to an answer.  The ways are set
out once: a name or a literal with its sign, an array in either form, and an expression that is skipped to its end.

* `Yields.literal`, `Yields.arrayLit` — literals and arrays, which may be given up;
* `Yields.structured`, `Yields.exprWithin` — expressions.
-/
import Graft.Parse.Expr
import Graft.Proofs.Reading.Ground

namespace Graft.Parser

variable {s : ParseState} {ctx : ExprContext} {expr : ExprContext → Parser Expr}

theorem yields_true {α : Type} (p : Parser α) : p.Yields s fun _ _ => True := fun _ _ _ => True.intro

theorem yields_atExprEnd {Q : Bool → ParseState → Prop} :
    (atExprEnd ctx).Yields s Q ↔ Q (s.cursor.kind?.all ctx.isEnd) s := by
  simp only [atExprEnd, yields_bind, yields_kind?, yields_pure]

@[simp] theorem yields_giveUp {saved : Cursor} {Q : Option Expr → ParseState → Prop} :
    (giveUp saved).Yields s Q ↔ Q none { s with cursor := saved } := by
  simp only [giveUp, yields_bind, yields_moveTo, yields_pure]

/-- What is ahead of the current token is the current token behind it. -/
theorem check_next {k : TokenKind} (h : s.cursor.peek? 1 = some k) : s.next.cursor.check k = true := by
  cases hm : s.cursor.ahead with
  | nil => simp [Cursor.peek?, hm] at h
  | cons m ms =>
    have hhead : ms.head?.map (fun n => n.token.kind) = some k := by
      simpa [Cursor.peek?, hm, List.head?_eq_getElem?] using h
    cases ms with
    | nil => cases hhead
    | cons n ns => simpa [Cursor.check, Cursor.kind?, Cursor.current?, ParseState.next, Cursor.advance, hm] using hhead

/-! ### Literals -/

/-- Whether a token is a literal does not depend on its place. -/
theorem isSome_literalOf? (kind : TokenKind) (text : Text) (negative : Bool) (id id' : NodeId) (sp sp' : Span) :
    (literalOf? kind text negative id sp).isSome = (literalOf? kind text negative id' sp').isSome := by
  cases kind <;> simp [literalOf?]

/-- What stands before a literal: nothing, or a minus before a number. -/
inductive Sign (s : ParseState) : Bool → ParseState → Prop where
  | none : Sign s false s
  | minus (hop : s.cursor.check .op = true) (htext : s.cursor.text = ['-'])
      (hnumber : s.next.cursor.check .int = true ∨ s.next.cursor.check .float = true) : Sign s true s.next

theorem Sign.passes {negative : Bool} {u : ParseState} (h : Sign s negative u) : Passes s u := by
  cases h with
  | none => exact .refl s
  | minus => exact .next s

/-- A name or a literal that ends the expression is kept; in all other cases the cursor goes back. -/
theorem Yields.literal {Q : Option Expr → ParseState → Prop}
    (hgive : ∀ t, Passes s t → Q none { t with cursor := s.cursor })
    (hconst : name.Yields s fun n t => Q none { t with cursor := s.cursor } ∧
      (t.cursor.kind?.all ctx.isEnd = true → Q (some (.const n)) { t with nextId := t.nextId + 1 }))
    (hliteral : ∀ negative u m ms e, Sign s negative u → u.cursor.ahead = m :: ms →
      literalOf? m.token.kind m.token.text negative u.nextId ⟨s.cursor.span.start, m.token.stop⟩ = some e →
      u.next.cursor.kind?.all ctx.isEnd = true → Q (some e) { u.next with nextId := u.nextId + 1 }) :
    (Parser.literal ctx).Yields s Q := by
  have behind : ∀ negative u, Sign s negative u →
      (literalBehindSign ctx s.cursor s.cursor.span.start negative).Yields u Q := by
    intro negative u hsign
    have hu := hsign.passes
    simp only [literalBehindSign, yields_bind, yields_cursor]
    cases hm : u.cursor.ahead with
    | nil =>
      have hc : u.cursor.current? = none := by simp [Cursor.current?, hm]
      simp only [hc, yields_giveUp]
      exact hgive u hu
    | cons m ms =>
      have hc : u.cursor.current? = some m.token := Cursor.current?_of_ahead hm
      simp only [hc]
      refine .ite (fun hname => ?_) fun _ => .ite (fun hsome => ?_) fun _ => yields_giveUp.2 (hgive u hu)
      · -- No name stands behind a minus.
        cases hsign with
        | minus => simp at hname
        | none =>
          simp only [yields_bind]
          refine hconst.mono fun n t ht => ?_
          rw [yields_atExprEnd]
          refine .ite (fun hend => ?_) fun _ => yields_giveUp.2 ht.1
          simpa only [yields_bind, yields_discard, yields_fresh, yields_pure] using ht.2 hend
      · simp only [yields_bind, yields_advance, yields_atExprEnd]
        refine .ite (fun hend => ?_) fun _ => yields_giveUp.2 (hgive _ (hu.trans (.next u)))
        simp only [yields_bind, yields_fresh, yields_pure]
        rw [isSome_literalOf? _ _ _ 0 u.nextId _ ⟨s.cursor.span.start, m.token.stop⟩] at hsome
        obtain ⟨e, he⟩ := Option.isSome_iff_exists.1 hsome
        exact he ▸ hliteral negative u m ms e hsign hm he hend
  simp only [Parser.literal, yields_bind, yields_cursor, yields_here, yields_peek?]
  refine .ite (fun hneg => ?_) fun hneg => ?_
  · rw [hneg, yields_bind, yields_advance]
    simp only [Bool.and_eq_true, Bool.or_eq_true, beq_iff_eq] at hneg
    obtain ⟨⟨hop, htext⟩, hnumber⟩ := hneg
    exact behind true s.next (.minus hop htext (hnumber.imp check_next check_next))
  · rw [Bool.eq_false_iff.2 hneg]
    exact behind false s .none

/-! ### Arrays -/

/-- An array begins at the current token. -/
def AtArray (s : ParseState) : Prop :=
  s.cursor.check .lBracket = true ∨ s.cursor.checkWord "array" = true ∧ s.cursor.peek? 1 = some .lParen

/-- The state behind the bracket that opens an array, by whether the array is in its short form. -/
inductive Opened (s : ParseState) : Bool → ParseState → Prop where
  | short (hbracket : s.cursor.check .lBracket = true) : Opened s true s.next
  | long (hword : s.cursor.checkWord "array" = true) (hparen : s.next.cursor.check .lParen = true) :
      Opened s false s.next.next

theorem Opened.passes {short : Bool} {p : ParseState} (h : Opened s short p) : Passes s p := by
  cases h with
  | short => exact .next s
  | long => exact (Passes.next s).trans (.next _)

/-- Behind the opening bracket both forms of an array are read in the same way. -/
theorem Yields.arrayLit {Q : Option (ArrayLit Expr) → ParseState → Prop} (hat : AtArray s)
    (h : ∀ short p, Opened s short p → (arrayItems expr (if short then .rBracket else .rParen)).Yields p fun r u =>
      match r with
      | none => Q none { u with cursor := s.cursor }
      | some items => (expect (if short then .rBracket else .rParen) "array end").Yields u fun close v =>
          Q (some ⟨some v.nextId, ⟨s.cursor.span.start, close.stop⟩, short, ⟨p.cursor.prevEnd, close.start⟩, items⟩)
            { v with nextId := v.nextId + 1 }) :
    (Parser.arrayLit expr).Yields s Q := by
  simp only [Parser.arrayLit, yields_bind, yields_cursor, yields_here, yields_eat]
  split
  · rename_i hbracket
    simp only [if_true, yields_bind, yields_prevEnd]
    refine (h true s.next (.short hbracket)).mono fun r u hr => ?_
    cases r with
    | none => simpa only [yields_bind, yields_moveTo, yields_pure] using hr
    | some items => simpa only [if_true, yields_bind, yields_fresh, yields_pure] using hr
  · rename_i hbracket
    obtain ⟨hword, hparen⟩ := hat.resolve_left hbracket
    simp only [Bool.false_eq_true, if_false, yields_bind, yields_advance, yields_prevEnd]
    refine (h false s.next.next (.long hword (check_next hparen))).mono fun r u hr => ?_
    cases r with
    | none => simpa only [yields_bind, yields_moveTo, yields_pure] using hr
    | some items =>
      simpa only [Bool.false_eq_true, if_false, yields_bind, yields_fresh, yields_pure] using hr

/-! ### Expressions -/

/-- An array that is read is the expression where it ends there; a literal is read only if it does. -/
theorem Yields.structured {Q : Option Expr → ParseState → Prop}
    (harray : AtArray s → (Parser.arrayLit expr).Yields s fun r t => Q none t ∧
      (t.cursor.kind?.all ctx.isEnd = true → ∀ a, r = some a → Q (some (.array a)) t))
    (hliteral : (Parser.literal ctx).Yields s Q) : (Parser.structured expr ctx).Yields s Q := by
  have array : ∀ k : Option (ArrayLit Expr) → Parser (Option Expr), k none = pure none →
      (∀ a, k (some a) = do
        if ← atExprEnd ctx then return some (.array a)
        return none) →
      AtArray s → (Parser.arrayLit expr >>= k).Yields s Q := by
    intro k hnone hsome hat
    rw [yields_bind]
    refine (harray hat).mono fun r t hr => ?_
    cases r with
    | none =>
      rw [hnone, yields_pure]
      exact hr.1
    | some a =>
      simp only [hsome, yields_bind, yields_atExprEnd]
      exact .ite (fun hend => yields_pure.2 (hr.2 hend a rfl)) fun _ => yields_pure.2 hr.1
  simp only [Parser.structured, atArray, yields_bind, yields_check]
  refine .ite (fun hbracket => ?_) fun _ => ?_
  · simp only [yields_pure, if_true]
    exact array _ rfl (fun _ => rfl) (.inl hbracket)
  · simp only [yields_bind, yields_checkWord, yields_peek?, yields_pure]
    refine .ite (fun hword => ?_) fun _ => hliteral
    rw [Bool.and_eq_true, beq_iff_eq] at hword
    exact array _ rfl (fun _ => rfl) (.inr hword)

/-- What is not structured is skipped to its end. -/
theorem Yields.exprWithin {depth : Nat} {Q : Expr → ParseState → Prop}
    (h : ¬s.cursor.kind?.all ctx.isEnd = true → (Parser.structured (exprWithin depth) ctx).Yields s fun r t =>
      match r with
      | some e => Q e t
      | none => (skipUntil (atExprEnd ctx) skipOne).Yields t fun _ u =>
          Q (.other ⟨some u.nextId, ⟨s.cursor.span.start, u.cursor.prevEnd⟩⟩) { u with nextId := u.nextId + 1 }) :
    (Parser.exprWithin (depth + 1) ctx).Yields s Q := by
  simp only [Parser.exprWithin, yields_bind, yields_atExprEnd]
  refine .ite (fun _ => yields_unexpected) fun hbegin => ?_
  simp only [yields_bind, yields_here]
  refine (h hbegin).mono fun r t hr => ?_
  cases r with
  | some e => exact yields_pure.2 hr
  | none => simpa only [yields_bind, yields_fresh, yields_spanFrom, yields_pure] using hr

end Graft.Parser
