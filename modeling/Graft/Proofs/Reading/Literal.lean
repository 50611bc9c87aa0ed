/-
What single tokens are read as.

An expression ends before a token that ends it.  So where one token stands before such a place, or a minus and a
number, the expression is the literal or the constant that these stand for.

* `yields_exprWithin_atEnd` — where the cursor rests behind an expression;
* `yields_exprWithin_isOf` — an expression is what its tokens stand for.
-/
import Graft.Proofs.Reading.Yields
import Graft.Proofs.Reading.Extent
import Graft.Proofs.Reading.Rule

namespace Graft.Parser

variable {G : Ground} {s t : ParseState} {ctx : ExprContext} {expr : ExprContext → Parser Expr}

theorem answers_atExprEnd {Q : Bool → ParseState → Prop} :
    (atExprEnd ctx).Answers s Q ↔ Q (s.cursor.kind?.all ctx.isEnd) s := answers_of_run rfl

theorem literalOf?_span {kind : TokenKind} {text : Text} {negative : Bool} {id : NodeId} {sp : Span} {e : Expr}
    (h : literalOf? kind text negative id sp = some e) : e.span = sp := by
  cases kind <;> simp only [literalOf?, Option.map_eq_some_iff, reduceCtorEq] at h
  all_goals
    obtain ⟨value, -, rfl⟩ := h
    rfl

/-- A literal has the id and the span that it is given. -/
theorem literalOf?_eq_some {kind : TokenKind} {text : Text} {negative : Bool} {id : NodeId} {sp : Span} {e : Expr}
    (h : literalOf? kind text negative id sp = some e) : e.span = sp ∧ e.origins = [some id] ∧ e.Arranged G := by
  unfold literalOf? at h
  split at h
  · obtain ⟨value, -, rfl⟩ := Option.map_eq_some_iff.1 h
    exact ⟨rfl, rfl, trivial⟩
  · obtain ⟨value, -, rfl⟩ := Option.map_eq_some_iff.1 h
    exact ⟨rfl, rfl, trivial⟩
  · obtain ⟨value, hvalue, rfl⟩ := Option.map_eq_some_iff.1 h
    exact ⟨rfl, rfl, Literal.beq_self_of_float? hvalue⟩
  · cases h

theorem kind_of_isSome_literalOf? {kind : TokenKind} {text : Text} {negative : Bool} {id : NodeId} {sp : Span}
    (h : (literalOf? kind text negative id sp).isSome = true) : kind ∈ [.string, .int, .float] := by
  cases kind <;> first | decide | cases h

/-! ### Where expressions end -/

/-- What holds under an assumption. -/
theorem Yields.of_imp {α : Type} {p : Parser α} {A : Prop} {Q : α → ParseState → Prop} (h : A → p.Yields s Q) :
    p.Yields s fun a t => A → Q a t :=
  fun a t hrun hA => h hA a t hrun

/-- What holds for each index holds for all of them. -/
theorem Yields.all {α ι : Type} {p : Parser α} {Q : ι → α → ParseState → Prop} (h : ∀ i, p.Yields s (Q i)) :
    p.Yields s fun a t => ∀ i, Q i a t :=
  fun a t hrun i => h i a t hrun

theorem yields_literal_atEnd :
    (literal ctx).Yields s fun r t => r.isSome = true → t.cursor.kind?.all ctx.isEnd = true :=
  .literal (fun _ _ => nofun) ((yields_true name).mono fun _ _ _ => ⟨nofun, fun hend _ => hend⟩)
    fun _ _ _ _ _ _ _ _ hend _ => hend

theorem yields_structured_atEnd :
    (structured expr ctx).Yields s fun r t => r.isSome = true → t.cursor.kind?.all ctx.isEnd = true :=
  .structured (fun _ => (yields_true _).mono fun _ _ _ => ⟨nofun, fun hend _ _ _ => hend⟩) yields_literal_atEnd

/-- Behind an expression the cursor rests before a token that ends it. -/
theorem yields_exprWithin_atEnd (depth : Nat) :
    (exprWithin depth ctx).Yields s fun _ t => t.cursor.kind?.all ctx.isEnd = true := by
  cases depth with
  | zero => exact yields_unexpected
  | succ depth =>
    refine .exprWithin fun _ => yields_structured_atEnd.mono fun r t hr => ?_
    cases r with
    | some e => exact hr rfl
    | none =>
      refine (Yields.skipUntil (P := fun u => u.cursor.kind?.all ctx.isEnd = true) (fun u => ?_)
        yields_skipOne).mono fun _ u hu => hu.2
      rw [yields_atExprEnd]
      exact ⟨rfl, id⟩

/-! ### Single tokens -/

section Tokens

variable {m m' : Mark} {ms : List Mark}

/-- A token that ends an expression is the next one, or none is left. -/
def Ends (ctx : ExprContext) (ms : List Mark) : Prop := ∀ m, ms.head? = some m → ctx.isEnd m.token.kind = true

theorem ends_iff : Ends ctx s.cursor.ahead ↔ s.cursor.kind?.all ctx.isEnd = true := by
  cases hm : s.cursor.ahead with
  | nil => simp [Ends, Cursor.kind?, Cursor.current?, hm]
  | cons m ms => simp [Ends, Cursor.kind?_of_ahead hm]

/-- No array begins at a token unless it is a bracket, or a word with a parenthesis behind it. -/
theorem answers_structured_of_ends (hm : s.cursor.ahead = m :: ms) (hk : m.token.kind ≠ .lBracket)
    (hnext : m.token.kind = .ident → Ends ctx ms) {Q : Option Expr → ParseState → Prop}
    (h : (literal ctx).Answers s Q) : (structured expr ctx).Answers s Q := by
  have hbracket : s.cursor.check .lBracket = false := by
    simpa [Cursor.check, Cursor.kind?_of_ahead hm] using hk
  have hword : (s.cursor.checkWord "array" && s.cursor.peek? 1 == some .lParen) = false := by
    cases hident : s.cursor.check .ident with
    | false => simp [Cursor.checkWord, hident]
    | true =>
      have hkind := (Cursor.check_of_ahead hm).1 hident
      cases ms with
      | nil => simp [Cursor.peek?, hm]
      | cons n ns =>
        have hend := hnext hkind n rfl
        have hparen : n.token.kind ≠ .lParen := by
          intro h
          rw [h] at hend
          cases hend
        simp [Cursor.peek?, hm, hparen]
  simp only [structured, atArray, answers_bind, answers_check, hbracket, Bool.false_eq_true, if_false, answers_checkWord,
    answers_peek?, answers_pure, hword]
  exact h

/-- A literal before the end of an expression is read as what it stands for. -/
theorem answers_literalBehindSign {saved : Cursor} {start : Nat} {negative : Bool} (hm : s.cursor.ahead = m :: ms)
    (hends : Ends ctx ms) (hliteral : (literalOf? m.token.kind m.token.text negative 0 .dummy).isSome = true) :
    (literalBehindSign ctx saved start negative).Answers s fun r t =>
      (∃ e, r = some e ∧ ∃ id, literalOf? m.token.kind m.token.text negative id e.span = some e) ∧
        t.cursor.ahead = ms := by
  have hc : s.cursor.current? = some m.token := Cursor.current?_of_ahead hm
  have hkind := kind_of_isSome_literalOf? hliteral
  have hname : ¬((m.token.kind == .ident || m.token.kind == .backslash) && !negative) = true := by
    intro h
    simp only [Bool.and_eq_true, Bool.or_eq_true, beq_iff_eq] at h
    rcases h.1 with h | h <;> simp [h] at hkind
  have hahead : s.next.cursor.ahead = ms := ParseState.ahead_next hm
  simp only [literalBehindSign, answers_bind, answers_cursor, hc]
  refine .ite (fun h => absurd h hname) fun _ => .ite (fun _ => ?_) fun h => absurd hliteral h
  simp only [answers_bind, answers_advance, answers_atExprEnd]
  refine .ite (fun _ => ?_) fun h => absurd (ends_iff.1 (by rwa [hahead])) h
  simp only [answers_bind, answers_fresh, answers_pure]
  rw [isSome_literalOf? _ _ _ 0 s.next.nextId _ ⟨start, m.token.stop⟩] at hliteral
  obtain ⟨e, he⟩ := Option.isSome_iff_exists.1 hliteral
  exact ⟨⟨e, he, s.next.nextId, by rw [literalOf?_span he]; exact he⟩, hahead⟩

/-- No segment of a name follows before the end of an expression. -/
theorem answers_segments_of_ends (hends : Ends ctx s.cursor.ahead) :
    segments.Answers s fun text t => text = [] ∧ t.cursor.ahead = s.cursor.ahead := by
  have hbackslash : ∀ u : ParseState, u.cursor.ahead = s.cursor.ahead → u.cursor.check .backslash = false := by
    intro u hu
    rw [← hu] at hends
    have hend := ends_iff.1 hends
    cases hk : u.cursor.kind? with
    | none => simp [Cursor.check, hk]
    | some k =>
      rw [hk] at hend
      have hne : k ≠ .backslash := by
        rintro rfl
        cases hend
      simpa [Cursor.check, hk] using hne
  refine Answers.loop (I := fun text u => text = [] ∧ u.cursor.ahead = s.cursor.ahead) (fun text u hu => ?_) ⟨rfl, rfl⟩
  simp only [answers_bind, answers_check, answers_peek?, hbackslash u hu.2, Bool.false_and]
  refine .ite (fun h => by cases h) fun _ => ?_
  simpa only [answers_pure] using hu

/-- A word before the end of an expression is read as a constant. -/
theorem answers_literal_const (hm : s.cursor.ahead = m :: ms) (hends : Ends ctx ms) (hk : m.token.kind = .ident) :
    (literal ctx).Answers s fun r t =>
      (∃ e, r = some e ∧ ∃ n : Name, e = .const n ∧ n.text = m.token.text) ∧ t.cursor.ahead = ms := by
  have hc : s.cursor.current? = some m.token := Cursor.current?_of_ahead hm
  have hop : s.cursor.check .op = false := by simp [Cursor.check, Cursor.kind?, hc, hk]
  simp only [literal, answers_bind, answers_cursor, answers_here, answers_peek?, hop, Bool.false_and]
  refine .ite (fun h => by cases h) fun _ => ?_
  simp only [literalBehindSign, answers_bind, answers_cursor, hc]
  refine .ite (fun _ => ?_) fun h => absurd (by simp [hk]) h
  have hbackslash : s.cursor.check .backslash = false := by simp [Cursor.check, Cursor.kind?, hc, hk]
  simp only [name, answers_bind, answers_fresh, answers_here, answers_eat, hbackslash, Bool.false_eq_true, if_false]
  have hbehind : (ParseState.next { s with nextId := s.nextId + 1 }).cursor.ahead = ms := by
    simp [ParseState.next, Cursor.advance, hm]
  refine (answers_expect (m := m) (by exact hm) hk).2 ((answers_segments_of_ends (by rwa [hbehind])).mono fun more u hmore => ?_)
  rw [hbehind] at hmore
  simp only [answers_spanFrom, answers_pure, answers_atExprEnd]
  refine .ite (fun _ => ?_) fun h => absurd (ends_iff.1 (by rwa [hmore.2])) h
  simp [hmore.1, hmore.2]

/-- A number behind a minus, before the end of an expression, is read as what it stands for. -/
theorem answers_literal_signed (hm : s.cursor.ahead = m :: m' :: ms) (hends : Ends ctx ms) (hk : m.token.kind = .op)
    (htext : m.token.text = ['-']) (hk' : m'.token.kind ∈ [.int, .float])
    (hliteral : (literalOf? m'.token.kind m'.token.text true 0 .dummy).isSome = true) :
    (literal ctx).Answers s fun r t =>
      (∃ e, r = some e ∧ ∃ id, literalOf? m'.token.kind m'.token.text true id e.span = some e) ∧
        t.cursor.ahead = ms := by
  have hc : s.cursor.current? = some m.token := Cursor.current?_of_ahead hm
  have hop : s.cursor.check .op = true := (Cursor.check_of_ahead hm).2 hk
  have hminus : s.cursor.text = ['-'] := (Cursor.text_of_ahead hm).trans htext
  have hnumber : (s.cursor.peek? 1 == some .int || s.cursor.peek? 1 == some .float) = true := by
    simpa [Cursor.peek?, hm] using hk'
  have hnext : s.next.cursor.ahead = m' :: ms := ParseState.ahead_next hm
  simp only [literal, answers_bind, answers_cursor, answers_here, answers_peek?, hop, hminus, hnumber, beq_self_eq_true,
    Bool.and_true, if_true, answers_advance]
  exact answers_literalBehindSign hnext hends hliteral

/-- A literal before the end of an expression, without a sign. -/
theorem answers_literal_unsigned (hm : s.cursor.ahead = m :: ms) (hends : Ends ctx ms)
    (hliteral : (literalOf? m.token.kind m.token.text false 0 .dummy).isSome = true) :
    (literal ctx).Answers s fun r t =>
      (∃ e, r = some e ∧ ∃ id, literalOf? m.token.kind m.token.text false id e.span = some e) ∧
        t.cursor.ahead = ms := by
  have hkind := kind_of_isSome_literalOf? hliteral
  have hop : s.cursor.check .op = false := by
    have hne : m.token.kind ≠ .op := by
      intro h
      simp [h] at hkind
    simpa [Cursor.check, Cursor.kind?_of_ahead hm] using hne
  simp only [literal, answers_bind, answers_cursor, answers_here, answers_peek?, hop, Bool.false_and, Bool.false_eq_true,
    if_false]
  exact answers_literalBehindSign hm hends hliteral

/-- The expression before a token that ends it is what the literal at the current token tells. -/
theorem answers_exprWithin {P : Expr → Prop} (hm : s.cursor.ahead = m :: ms) {ns : List Mark}
    (hk : m.token.kind ∈ [.string, .int, .float, .ident, .op]) (hident : m.token.kind = .ident → Ends ctx ms) (depth : Nat)
    (h : (literal ctx).Answers s fun r t => (∃ e, r = some e ∧ P e) ∧ t.cursor.ahead = ns) :
    (exprWithin (depth + 1) ctx).Answers s fun e t => P e ∧ t.cursor.ahead = ns := by
  have hstart := Cursor.kind?_of_ahead hm
  have hkinds : ∀ k ∈ [TokenKind.string, .int, .float, .ident, .op], ctx.isEnd k = false ∧ k ≠ .lBracket := by
    cases ctx <;> decide
  obtain ⟨hend, hbracket⟩ := hkinds _ hk
  simp only [exprWithin, answers_bind, answers_atExprEnd]
  refine .ite (fun h => ?_) fun _ => ?_
  · rw [hstart, Option.all_some, hend] at h
    cases h
  · simp only [answers_bind, answers_here]
    refine answers_structured_of_ends hm hbracket hident (h.mono fun r t hr => ?_)
    obtain ⟨⟨e, rfl, he⟩, ht⟩ := hr
    simpa only [answers_pure] using ⟨he, ht⟩

theorem answers_exprWithin_unsigned (hm : s.cursor.ahead = m :: ms) (hends : Ends ctx ms) (depth : Nat)
    (hliteral : (literalOf? m.token.kind m.token.text false 0 .dummy).isSome = true) :
    (exprWithin (depth + 1) ctx).Answers s fun e t =>
      (∃ id, literalOf? m.token.kind m.token.text false id e.span = some e) ∧ t.cursor.ahead = ms := by
  have hkind := kind_of_isSome_literalOf? hliteral
  refine answers_exprWithin hm ?_ (fun _ => hends) depth (answers_literal_unsigned hm hends hliteral)
  revert hkind
  cases m.token.kind <;> decide

theorem answers_exprWithin_const (hm : s.cursor.ahead = m :: ms) (hends : Ends ctx ms) (depth : Nat)
    (hk : m.token.kind = .ident) : (exprWithin (depth + 1) ctx).Answers s fun e t =>
      (∃ n : Name, e = .const n ∧ n.text = m.token.text) ∧ t.cursor.ahead = ms :=
  answers_exprWithin hm (by simp [hk]) (fun _ => hends) depth (answers_literal_const hm hends hk)

theorem answers_exprWithin_signed (hm : s.cursor.ahead = m :: m' :: ms) (hends : Ends ctx ms) (depth : Nat)
    (hk : m.token.kind = .op) (htext : m.token.text = ['-']) (hk' : m'.token.kind ∈ [.int, .float])
    (hliteral : (literalOf? m'.token.kind m'.token.text true 0 .dummy).isSome = true) :
    (exprWithin (depth + 1) ctx).Answers s fun e t =>
      (∃ id, literalOf? m'.token.kind m'.token.text true id e.span = some e) ∧ t.cursor.ahead = ms :=
  answers_exprWithin hm (by simp [hk]) (fun h => by simp [hk] at h) depth
    (answers_literal_signed hm hends hk htext hk' hliteral)

/-- The tokens of an expression tell what it is. -/
theorem yields_exprWithin_isOf {ns : List Mark} (hm : s.cursor.ahead = m :: ms ++ ns) (hends : Ends ctx ns)
    (depth : Nat) : (exprWithin depth ctx).Yields s fun e _ => e.IsOf ((m :: ms).map Mark.token) := by
  cases depth with
  | zero => exact yields_unexpected
  | succ depth =>
    rcases ms with _ | ⟨m', _ | ⟨m'', ms⟩⟩
    · refine .and (.of_imp fun hliteral => ?_) (.of_imp fun hk => ?_)
      · exact (answers_exprWithin_unsigned hm hends depth hliteral).yields.mono fun _ _ h => h.1
      · exact (answers_exprWithin_const hm hends depth hk).yields.mono fun _ _ h => h.1
    · refine .of_imp fun hk => .of_imp fun htext => .of_imp fun hk' => .of_imp fun hliteral => ?_
      exact (answers_exprWithin_signed hm hends depth hk htext hk' hliteral).yields.mono fun _ _ h => h.1
    · exact yields_true _

end Tokens

end Graft.Parser
