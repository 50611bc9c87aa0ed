/-
Steps over an expression.

Whatever is not understood of an expression is stepped over: one token after the other, with a jump over each group in
brackets, up to a token that ends the expression.  Which tokens these are does not hang on the way they are read.

* `Steps` — tokens that are stepped over;
* `Extent` — the tokens up to the first that ends the expression outside of brackets, which is where steps lead;
* `yields_skipToEnd`, `answers_skipToEnd` — the parser that steps consumes such tokens, and all of them.
-/
import Graft.Proofs.Reading.Even
import Graft.Proofs.Reading.Literal

namespace Graft

open Cursor (closerOf? isOpener isCloser nest? closeGroup)

/-- The brackets among the tokens of marks. -/
abbrev bracketsOf (ms : List Mark) : List TokenKind := brackets (ms.map Mark.token)

/-! ### Brackets that are closed -/

/-- Brackets that are nested together with others are no longer nested behind a bracket that opens. -/
theorem not_nested_cons {o c : TokenKind} (hc : closerOf? o = some c) {ks ls : List TokenKind} (h : Nested (ks ++ ls)) :
    ¬Nested (o :: ks) := by
  intro hopen
  rw [nested_iff, closesAll_cons_opener hc] at hopen
  obtain ⟨inner, rest, hinner, rfl, -⟩ := closes_of_closesAll hopen
  have hcloser : closerOf? c = none := closerOf?_of_isCloser (isCloser_of_closerOf? hc)
  rw [nested_iff, List.append_assoc, hinner.closesAll_append, List.cons_append, closesAll_nil_cons hcloser] at h
  cases h

/-- Behind a group the brackets are nested as they are without it. -/
theorem Nested.of_group {o c : TokenKind} (hc : closerOf? o = some c) {inner rest : List TokenKind}
    (hinner : Nested inner) (h : Nested (o :: (inner ++ c :: rest))) : Nested rest := by
  have hcloser : closerOf? c = none := closerOf?_of_isCloser (isCloser_of_closerOf? hc)
  rw [nested_iff, closesAll_cons_opener hc, hinner.closesAll_append, closesAll_cons hcloser, BEq.rfl, Bool.true_and]
    at h
  exact nested_iff.2 h

theorem bracketsOf_cons {m : Mark} (h : m.token.kind.isBracket = false) (ms : List Mark) :
    bracketsOf (m :: ms) = bracketsOf ms := by
  simp [brackets, h]

theorem bracketsOf_opener {o c : Mark} (hc : closerOf? o.token.kind = some c.token.kind) (ms : List Mark) :
    bracketsOf (o :: ms) = o.token.kind :: bracketsOf ms := by
  simp [brackets, TokenKind.isBracket, isOpener, hc]

theorem bracketsOf_group {o c : Mark} (hc : closerOf? o.token.kind = some c.token.kind) (inner ms : List Mark) :
    bracketsOf (o :: (inner ++ c :: ms)) = o.token.kind :: (bracketsOf inner ++ c.token.kind :: bracketsOf ms) := by
  simp [brackets, TokenKind.isBracket, isOpener, hc, isCloser_of_closerOf? hc]

/-! ### The stack of a group -/

section Stack

variable {eof n : Nat} {pending pending' more : List (TokenKind × Span)} {b : TokenKind × Span} {t : Token}

theorem nest?_opener {c : TokenKind} (hc : closerOf? t.kind = some c) (pending : List (TokenKind × Span)) :
    nest? pending t = some ((c, t.span) :: pending) := by
  simp only [nest?, hc]

theorem nest?_plain (h : t.kind.isBracket = false) (pending : List (TokenKind × Span)) :
    nest? pending t = some pending := by
  simp only [TokenKind.isBracket, isOpener, Bool.or_eq_false_iff, Option.isSome_eq_false_iff, Option.isNone_iff_eq_none]
    at h
  simp only [nest?, h.1, h.2, Bool.false_eq_true, if_false]

theorem nest?_closer (h : isCloser t.kind = true) (b : TokenKind × Span) (pending : List (TokenKind × Span)) :
    nest? (b :: pending) t = if b.1 = t.kind then some pending else none := by
  simp only [nest?, closerOf?_of_isCloser h, h, if_true]

theorem nest?_nil_closer (h : isCloser t.kind = true) : nest? [] t = none := by
  simp only [nest?, closerOf?_of_isCloser h, h, if_true]

/-- What is further down the stack stays there. -/
theorem nest?_append (h : nest? pending t = some pending') (more : List (TokenKind × Span)) :
    nest? (pending ++ more) t = some (pending' ++ more) := by
  cases hopen : closerOf? t.kind with
  | some c =>
    rw [nest?_opener hopen] at h ⊢
    rw [← Option.some.inj h, List.cons_append]
  | none =>
    cases hclose : isCloser t.kind with
    | true =>
      cases pending with
      | nil =>
        rw [nest?_nil_closer hclose] at h
        cases h
      | cons b pending =>
        rw [nest?_closer hclose, Option.ite_none_right_eq_some] at h
        rw [List.cons_append, nest?_closer hclose, if_pos h.1, Option.some.inj h.2]
    | false =>
      have hplain : t.kind.isBracket = false := by simp [TokenKind.isBracket, isOpener, hopen, hclose]
      rw [nest?_plain hplain] at h ⊢
      rw [Option.some.inj h]

/-- A token closes the lowest bracket of the stack, or the rest of the stack takes it. -/
theorem nest?_append_singleton (h : nest? (pending ++ [b]) t = some pending') :
    (∃ rest, nest? pending t = some rest ∧ pending' = rest ++ [b]) ∨ pending = [] ∧ pending' = [] ∧ b.1 = t.kind := by
  cases hrest : nest? pending t with
  | some rest =>
    rw [nest?_append hrest] at h
    exact .inl ⟨rest, rfl, (Option.some.inj h).symm⟩
  | none =>
    have hclose : isCloser t.kind = true := by
      cases hopen : closerOf? t.kind with
      | some c =>
        rw [nest?_opener hopen] at hrest
        cases hrest
      | none =>
        cases hclose : isCloser t.kind with
        | true => rfl
        | false =>
          rw [nest?_plain (by simp [TokenKind.isBracket, isOpener, hopen, hclose])] at hrest
          cases hrest
    cases pending with
    | nil =>
      rw [List.nil_append, nest?_closer hclose, Option.ite_none_right_eq_some] at h
      exact .inr ⟨rfl, (Option.some.inj h.2).symm, h.1⟩
    | cons c pending =>
      rw [List.cons_append, nest?_closer hclose, Option.ite_none_right_eq_some] at h
      rw [nest?_closer hclose, if_pos h.1] at hrest
      cases hrest

theorem exists_nest? {ks : List TokenKind} (h : closesAll (pending.map Prod.fst) (brackets [t] ++ ks) = true) :
    ∃ rest, nest? pending t = some rest := by
  cases hopen : closerOf? t.kind with
  | some c => exact ⟨_, nest?_opener hopen pending⟩
  | none =>
    cases hclose : isCloser t.kind with
    | true =>
      rw [brackets_singleton_of_isBracket (by simp [TokenKind.isBracket, hclose]), List.singleton_append] at h
      cases pending with
      | nil =>
        rw [List.map_nil, closesAll_nil_cons hopen] at h
        cases h
      | cons b pending =>
        rw [List.map_cons, closesAll_cons hopen, Bool.and_eq_true, beq_iff_eq] at h
        exact ⟨pending, by rw [nest?_closer hclose, if_pos h.1]⟩
    | false => exact ⟨pending, nest?_plain (by simp [TokenKind.isBracket, isOpener, hopen, hclose]) pending⟩

/-- Marks that close what is on top of the stack are consumed, and then it goes on with the rest of the stack. -/
theorem closeGroup_append {ms : List Mark} (h : closesAll (pending.map Prod.fst) (bracketsOf ms) = true)
    (b : TokenKind × Span) (more : List (TokenKind × Span)) (rest : List Mark) :
    closeGroup eof (pending ++ b :: more) (ms ++ rest) =
      ((closeGroup eof (b :: more) rest).1 + ms.length, (closeGroup eof (b :: more) rest).2) := by
  induction ms generalizing pending with
  | nil =>
    have hnil : pending = [] := by simpa [brackets] using h
    subst hnil
    rfl
  | cons m ms ih =>
    rw [bracketsOf, List.map_cons, brackets_cons] at h
    obtain ⟨pending', hnest⟩ := exists_nest? h
    rw [closesAll_of_nest? hnest] at h
    have hstack := nest?_append hnest (b :: more)
    have hgo := ih h
    obtain ⟨c, cs, hcs⟩ : ∃ c cs, pending' ++ b :: more = c :: cs := by
      cases pending' with
      | nil => exact ⟨_, _, rfl⟩
      | cons c pending' => exact ⟨_, _, rfl⟩
    rw [hcs] at hstack hgo
    simp only [List.cons_append, closeGroup, hstack, hgo, List.length_cons]
    rw [Nat.add_assoc]

/-- What closes the lowest bracket of the stack is the last mark that is consumed. -/
theorem exists_of_closeGroup {ms : List Mark} (h : closeGroup eof (pending ++ [b]) ms = (n, none)) :
    ∃ inner c rest, ms = inner ++ c :: rest ∧ n = inner.length + 1 ∧ c.token.kind = b.1 ∧
      closesAll (pending.map Prod.fst) (bracketsOf inner) = true := by
  induction ms generalizing pending n with
  | nil =>
    cases pending <;> cases h
  | cons m ms ih =>
    cases hnest : nest? (pending ++ [b]) m.token with
    | none => simp [closeGroup, hnest] at h
    | some pending' =>
      rcases nest?_append_singleton hnest with ⟨rest, hrest, rfl⟩ | ⟨rfl, rfl, hb⟩
      · obtain ⟨c, cs, hcs⟩ : ∃ c cs, rest ++ [b] = c :: cs := by
          cases rest with
          | nil => exact ⟨_, _, rfl⟩
          | cons c rest => exact ⟨_, _, rfl⟩
        rw [hcs] at hnest
        cases hgo : closeGroup eof (c :: cs) ms with
        | mk n' e =>
          simp only [closeGroup, hnest, hgo, Prod.mk.injEq] at h
          obtain ⟨rfl, rfl⟩ := h
          rw [← hcs] at hgo
          obtain ⟨inner, c, ns, rfl, rfl, hc, hinner⟩ := ih hgo
          refine ⟨m :: inner, c, ns, rfl, rfl, hc, ?_⟩
          rw [bracketsOf, List.map_cons, brackets_cons, closesAll_of_nest? hrest]
          exact hinner
      · simp only [closeGroup, hnest, Prod.mk.injEq] at h
        exact ⟨[], m, ms, rfl, h.1.symm, hb.symm, rfl⟩

end Stack

/-! ### Steps -/

/-- Marks that are stepped over on the way to the end of an expression: tokens that do not end it, and groups. -/
inductive Steps (ctx : ExprContext) : List Mark → Prop where
  | nil : Steps ctx []
  | token {m : Mark} {ms : List Mark} (hbracket : m.token.kind.isBracket = false) (hend : ctx.isEnd m.token.kind = false)
      (hms : Steps ctx ms) : Steps ctx (m :: ms)
  | group {o c : Mark} {inner ms : List Mark} (hc : closerOf? o.token.kind = some c.token.kind)
      (hinner : Nested (bracketsOf inner)) (hms : Steps ctx ms) : Steps ctx (o :: (inner ++ c :: ms))

/-- A bracket that opens ends no expression. -/
theorem ExprContext.isEnd_of_closerOf? (ctx : ExprContext) {o c : TokenKind} (h : closerOf? o = some c) :
    ctx.isEnd o = false := by
  cases o <;> first | rfl | cases h

/-- A bracket that closes ends every expression. -/
theorem ExprContext.isCloser_eq_false {ctx : ExprContext} {k : TokenKind} (h : ctx.isEnd k = false) :
    isCloser k = false := by
  cases k <;> first | rfl | cases h

namespace Steps

variable {ctx : ExprContext} {ms ns : List Mark}

theorem append (h : Steps ctx ms) (h' : Steps ctx ns) : Steps ctx (ms ++ ns) := by
  induction h with
  | nil => exact h'
  | token hbracket hend _ ih => exact .token hbracket hend ih
  | group hc hinner _ ih =>
    rw [List.cons_append, List.append_assoc, List.cons_append]
    exact .group hc hinner ih

theorem nested (h : Steps ctx ms) : Nested (bracketsOf ms) := by
  induction h with
  | nil => exact .nil
  | token hbracket _ _ ih => rwa [bracketsOf_cons hbracket]
  | group hc hinner _ ih =>
    rw [bracketsOf_group hc]
    exact .group hc hinner ih

/-- A token behind which and before which all brackets are closed does not end the expression. -/
theorem isEnd_eq_false (h : Steps ctx ms) {p q : List Mark} {m : Mark} (hms : ms = p ++ m :: q)
    (hp : Nested (bracketsOf p)) : ctx.isEnd m.token.kind = false := by
  induction h generalizing p with
  | nil => cases p <;> cases hms
  | token hbracket hend _ ih =>
    cases p with
    | nil =>
      cases hms
      exact hend
    | cons x p =>
      obtain ⟨rfl, hrest⟩ := List.cons.inj hms
      rw [bracketsOf_cons hbracket] at hp
      exact ih hrest hp
  | @group o c inner ms hc hinner _ ih =>
    cases p with
    | nil =>
      cases hms
      exact ctx.isEnd_of_closerOf? hc
    | cons x p =>
      obtain ⟨rfl, hrest⟩ := List.cons.inj hms
      -- Inside of the group its bracket is still open.
      have inside : ∀ l, inner = p ++ l → False := by
        rintro l rfl
        rw [bracketsOf, List.map_append, brackets_append] at hinner
        rw [bracketsOf_opener hc] at hp
        exact not_nested_cons hc hinner hp
      rcases List.append_eq_append_iff.1 hrest with ⟨l, hl, hbehind⟩ | ⟨l, hl, -⟩
      · cases l with
        | nil => exact (inside [] (by rw [hl, List.append_nil, List.append_nil])).elim
        | cons y l =>
          obtain ⟨rfl, hms⟩ := List.cons.inj hbehind
          rw [hl, bracketsOf_group hc] at hp
          exact ih hms (.of_group hc hinner hp)
      · exact (inside l hl).elim

end Steps

/-! ### Extents -/

variable {ctx : ExprContext} {ms rest : List Mark}

/-- The marks that are read and those behind them are the extent of an expression and what follows it: something is
read, with all its brackets closed, up to a token that ends the expression; and no token before that one which stands
outside of the brackets that were opened ends it. -/
structure Extent (ctx : ExprContext) (ms rest : List Mark) : Prop where
  ne_nil : ms ≠ []
  nested : Nested (bracketsOf ms)
  ends : Parser.Ends ctx rest
  inside : ∀ p m q, ms = p ++ m :: q → Nested (bracketsOf p) → ctx.isEnd m.token.kind = false

/-- Marks have one extent of an expression in front at most. -/
theorem Extent.unique {ns rest' : List Mark} (h : Extent ctx ms rest) (h' : Extent ctx ns rest')
    (hahead : ms ++ rest = ns ++ rest') : ms = ns := by
  rcases List.append_eq_append_iff.1 hahead with ⟨l, rfl, hl⟩ | ⟨l, rfl, hl⟩
  · cases l with
    | nil => rw [List.append_nil]
    | cons m l =>
      have hnot := h'.inside ms m l rfl h.nested
      rw [h.ends m (by rw [hl]; rfl)] at hnot
      cases hnot
  · cases l with
    | nil => rw [List.append_nil]
    | cons m l =>
      have hnot := h.inside ns m l rfl h'.nested
      rw [h'.ends m (by rw [hl]; rfl)] at hnot
      cases hnot

/-- What is stepped over up to a token that ends the expression is its extent. -/
theorem Steps.extent (h : Steps ctx ms) (hne : ms ≠ []) (hends : Parser.Ends ctx rest) : Extent ctx ms rest :=
  ⟨hne, h.nested, hends, fun _ _ _ hms hp => h.isEnd_eq_false hms hp⟩

/-! ### The parser that steps -/

variable {s t u : ParseState}

namespace Parser

/-- The current token of a state that is not at the end of an expression. -/
theorem exists_of_not_atEnd (h : ¬s.cursor.kind?.all ctx.isEnd = true) :
    ∃ m ms, s.cursor.ahead = m :: ms ∧ s.cursor.kind? = some m.token.kind ∧ ctx.isEnd m.token.kind = false := by
  cases hm : s.cursor.ahead with
  | nil => simp [Cursor.kind?, Cursor.current?, hm] at h
  | cons m ms =>
    have hkind := Cursor.kind?_of_ahead hm
    exact ⟨m, ms, rfl, hkind, by simpa [hkind] using h⟩

/-- The marks of a group that is followed by others. -/
theorem take_group (o c : Mark) (inner rest : List Mark) :
    (o :: (inner ++ c :: rest)).take (inner.length + 1 + 1) = o :: (inner ++ [c]) := by
  rw [List.take_succ_cons, List.take_length_add_append]
  rfl

/-- A group that is skipped is the current bracket, nested brackets and what closes it. -/
theorem yields_skipGroup_group {o : Mark} {ms : List Mark} (hm : s.cursor.ahead = o :: ms) {k : TokenKind}
    (hk : closerOf? o.token.kind = some k) : Parser.skipGroup.Yields s fun _ t => ∃ inner c,
      Consumes (o :: (inner ++ [c])) s t ∧ closerOf? o.token.kind = some c.token.kind ∧ Nested (bracketsOf inner) := by
  simp only [Parser.skipGroup, yields_bind, yields_cursor, Cursor.skipGroup]
  cases hclose : closeGroup s.cursor.eof [] s.cursor.ahead with
  | mk n e =>
    cases e with
    | some e => simp only [yields_moveTo, yields_throw]
    | none =>
      simp only [yields_moveTo, yields_pure]
      have hskip := consumes_skip n s
      cases hgo : closeGroup s.cursor.eof [(k, o.token.span)] ms with
      | mk n' e =>
        rw [hm] at hclose
        simp only [closeGroup, nest?_opener hk, hgo, Prod.mk.injEq] at hclose
        obtain ⟨rfl, rfl⟩ := hclose
        have hgo : closeGroup s.cursor.eof ([] ++ [(k, o.token.span)]) ms = (n', none) := hgo
        obtain ⟨inner, c, rest, rfl, rfl, hc, hinner⟩ := exists_of_closeGroup hgo
        refine ⟨inner, c, ?_, by rw [hk, hc], nested_iff.2 hinner⟩
        rwa [hm, take_group] at hskip

/-- One step goes over a group or over a token that does not end the expression. -/
theorem yields_steps_skipOne (hend : ¬s.cursor.kind?.all ctx.isEnd = true) :
    skipOne.Yields s fun _ t => ∃ ms, Consumes ms s t ∧ Steps ctx ms := by
  obtain ⟨m, ms, hm, hkind, hnot⟩ := exists_of_not_atEnd hend
  simp only [skipOne, yields_bind, yields_kind?, hkind, Option.any_some]
  refine .ite (fun hopen => ?_) fun hopen => ?_
  · obtain ⟨k, hk⟩ := Option.isSome_iff_exists.1 hopen
    rw [yields_discard]
    refine (yields_skipGroup_group hm hk).mono fun _ t ht => ?_
    obtain ⟨inner, c, hconsumes, hc, hinner⟩ := ht
    exact ⟨_, hconsumes, .group hc hinner .nil⟩
  · rw [yields_advance]
    have hbracket : m.token.kind.isBracket = false := by
      simp [TokenKind.isBracket, hopen, ExprContext.isCloser_eq_false hnot]
    exact ⟨[m], .next hm, .token hbracket hnot .nil⟩

/-- Stepping on from where an expression was stepped over leads to its end. -/
theorem yields_skipToEnd (h : Consumes ms s u) (hsteps : Steps ctx ms) :
    (skipUntil (atExprEnd ctx) skipOne).Yields u fun _ t =>
      ∃ ns, Consumes ns s t ∧ Steps ctx ns ∧ Ends ctx t.cursor.ahead := by
  refine Yields.loop (I := fun _ t => ∃ ns, Consumes ns s t ∧ Steps ctx ns) (fun _ t ht => ?_) ⟨ms, h, hsteps⟩
  obtain ⟨ns, hns, hsteps⟩ := ht
  simp only [yields_bind, yields_atExprEnd]
  refine .ite (fun hend => ?_) fun hend => ?_
  · rw [yields_pure]
    exact ⟨ns, hns, hsteps, ends_iff.2 hend⟩
  · simp only [yields_bind, yields_pure]
    refine (yields_steps_skipOne hend).mono fun _ v hv => ?_
    obtain ⟨piece, hpiece, hstep⟩ := hv
    exact ⟨ns ++ piece, hns.trans hpiece, hsteps.append hstep⟩

/-- A group that is there is skipped. -/
theorem answers_skipGroup {o c : Mark} {inner rest : List Mark} (hm : s.cursor.ahead = o :: (inner ++ c :: rest))
    (hc : closerOf? o.token.kind = some c.token.kind) (hinner : Nested (bracketsOf inner)) :
    Parser.skipGroup.Answers s fun _ t => Consumes (o :: (inner ++ [c])) s t := by
  have hclosed : closesAll (([] : List (TokenKind × Span)).map Prod.fst) (bracketsOf inner) = true :=
    nested_iff.1 hinner
  have hinside : closeGroup s.cursor.eof [(c.token.kind, o.token.span)] (inner ++ c :: rest) = _ :=
    closeGroup_append hclosed _ [] (c :: rest)
  have hclose : closeGroup s.cursor.eof [] s.cursor.ahead = (inner.length + 1 + 1, none) := by
    rw [hm]
    simp only [closeGroup, nest?_opener hc, hinside, nest?_closer (isCloser_of_closerOf? hc), if_true]
    rw [Nat.add_comm 1]
  have hskip := consumes_skip (inner.length + 1 + 1) s
  rw [hm, take_group] at hskip
  simp only [Parser.skipGroup, answers_bind, answers_cursor, Cursor.skipGroup, hclose, answers_moveTo, answers_pure]
  exact hskip

/-- What can be stepped over up to a token that ends the expression is stepped over. -/
theorem answers_skipToEnd (h : Steps ctx ms) (hm : s.cursor.ahead = ms ++ rest) (hends : Ends ctx rest) :
    (skipUntil (atExprEnd ctx) skipOne).Answers s fun _ t => Consumes ms s t := by
  refine Answers.loop (I := fun _ t => ∃ ns ns', ms = ns ++ ns' ∧ Consumes ns s t ∧ Steps ctx ns')
    (fun _ t ht => ?_) ⟨[], ms, rfl, .refl s, h⟩
  obtain ⟨ns, ns', rfl, hns, hsteps⟩ := ht
  have ht : t.cursor.ahead = ns' ++ rest := by
    have hahead := hns.ahead
    rw [hm, List.append_assoc] at hahead
    exact (List.append_cancel_left hahead).symm
  have hshorter : ∀ {piece v}, Consumes piece t v → piece ≠ [] → v.cursor.ahead.length < t.cursor.ahead.length := by
    intro piece v hpiece hne
    rw [hpiece.ahead, List.length_append]
    have := List.length_pos_iff.2 hne
    omega
  simp only [answers_bind, answers_atExprEnd]
  cases hsteps with
  | nil =>
    refine .ite (fun _ => ?_) fun hend => absurd (ends_iff.1 (by rwa [ht])) hend
    rw [answers_pure, List.append_nil]
    exact hns
  | @token m ms hbracket hend hms =>
    have hkind : t.cursor.kind? = some m.token.kind := Cursor.kind?_of_ahead ht
    have hopen : ¬isOpener m.token.kind = true := by
      intro hopen
      simp [TokenKind.isBracket, hopen] at hbracket
    refine .ite (fun h => ?_) fun _ => ?_
    · rw [hkind, Option.all_some, hend] at h
      cases h
    · simp only [skipOne, answers_bind, answers_kind?, hkind, Option.any_some, if_neg hopen, answers_advance, answers_pure]
      have hnext : Consumes [m] t t.next := .next ht
      exact ⟨⟨ns ++ [m], ms, by simp, hns.trans hnext, hms⟩, hshorter hnext (List.cons_ne_nil _ _)⟩
  | @group o c inner ms hc hinner hms =>
    have hkind : t.cursor.kind? = some o.token.kind := Cursor.kind?_of_ahead ht
    have hopen : isOpener o.token.kind = true := by simp [isOpener, hc]
    refine .ite (fun h => ?_) fun _ => ?_
    · rw [hkind, Option.all_some, ctx.isEnd_of_closerOf? hc] at h
      cases h
    · have hgroup : t.cursor.ahead = o :: (inner ++ c :: (ms ++ rest)) := by simp [ht]
      simp only [skipOne, answers_bind, answers_kind?, hkind, Option.any_some, if_pos hopen, answers_discard,
        answers_pure]
      refine (answers_skipGroup hgroup hc hinner).mono fun _ v hv => ?_
      exact ⟨⟨ns ++ (o :: (inner ++ [c])), ms, by simp, hns.trans hv, hms⟩, hshorter hv (List.cons_ne_nil _ _)⟩

end Parser

end Graft
