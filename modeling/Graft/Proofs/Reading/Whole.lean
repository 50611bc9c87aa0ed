/-
An expression is read to its end.

An expression is read in one of three ways: as an array, as a literal, or stepped over.  An attempt at an array may read
far and be taken back, or leave the cursor behind an array that is only the front of the expression.  Whichever way it
went, the tokens that were consumed are those that are stepped over up to the first end of the expression.

* `Expr.Fills` — the tokens are all of one array or literal, or those of an expression that is kept verbatim;
* `yields_literal_fills`, `yields_arrayLit_fills`, `yields_exprWithin_fills` — the three ways;
* `expr_extent` — which tokens an expression consumes, and what they are to it.
-/
import Graft.Proofs.Reading.Steps

namespace Graft

open Cursor (closerOf?)

variable {s t u : ParseState} {ctx : ExprContext} {ms : List Mark}

/-! ### Tokens of whole expressions -/

/-- Separators with the words behind them, and the text that they have together. -/
inductive SegmentTokens : List Token → Text → Prop where
  | nil : SegmentTokens [] []
  | cons {b i : Token} {ts : List Token} {text : Text} (hb : b.kind = .backslash) (hi : i.kind = .ident)
      (h : SegmentTokens ts text) : SegmentTokens (b :: i :: ts) ('\\' :: (i.text ++ text))

/-- The tokens of a name, with its text. -/
inductive NameTokens : List Token → Text → Prop where
  | plain {i : Token} {ts : List Token} {text : Text} (hi : i.kind = .ident) (h : SegmentTokens ts text) :
      NameTokens (i :: ts) (i.text ++ text)
  | rooted {b i : Token} {ts : List Token} {text : Text} (hb : b.kind = .backslash) (hi : i.kind = .ident)
      (h : SegmentTokens ts text) : NameTokens (b :: i :: ts) ('\\' :: (i.text ++ text))

/-- The tokens are the whole of what the expression is: one array from its opening bracket to the bracket that closes
it, one literal, perhaps behind a minus, or the name of one constant.  Of a verbatim expression nothing is said. -/
inductive Expr.Fills : Expr → List Token → Prop where
  | short {a : ArrayLit Expr} {o c : Token} {inner : List Token} (ho : o.kind = .lBracket) (hc : c.kind = .rBracket)
      (hinner : Nested (brackets inner)) (hshort : a.short = true) (hregion : a.itemsRegion = ⟨o.stop, c.start⟩) :
      Fills (.array a) (o :: (inner ++ [c]))
  | long {a : ArrayLit Expr} {w o c : Token} {inner : List Token} (hw : w.kind = .ident)
      (hword : w.text.sameIgnoringCase "array".toList = true) (ho : o.kind = .lParen) (hc : c.kind = .rParen)
      (hinner : Nested (brackets inner)) (hshort : a.short = false) (hregion : a.itemsRegion = ⟨o.stop, c.start⟩) :
      Fills (.array a) (w :: o :: (inner ++ [c]))
  | literal {e : Expr} {t : Token} {id : NodeId} (h : Parser.literalOf? t.kind t.text false id e.span = some e) :
      Fills e [t]
  | signed {e : Expr} {sign t : Token} {id : NodeId} (hsign : sign.kind = .op) (htext : sign.text = ['-'])
      (hk : t.kind = .int ∨ t.kind = .float) (h : Parser.literalOf? t.kind t.text true id e.span = some e) :
      Fills e [sign, t]
  | const {n : Name} {ts : List Token} (h : NameTokens ts n.text) : Fills (.const n) ts
  | other {v : Verbatim} {ts : List Token} : Fills (.other v) ts

theorem SegmentTokens.append {ts us : List Token} {text more : Text} (h : SegmentTokens ts text)
    (h' : SegmentTokens us more) : SegmentTokens (ts ++ us) (text ++ more) := by
  induction h with
  | nil => exact h'
  | cons hb hi _ ih =>
    rw [List.cons_append, List.cons_append, List.cons_append, List.append_assoc]
    exact .cons hb hi ih

theorem SegmentTokens.kind {ts : List Token} {text : Text} (h : SegmentTokens ts text) :
    ∀ t ∈ ts, t.kind ∈ [TokenKind.ident, .backslash] := by
  induction h with
  | nil => exact nofun
  | cons hb hi _ ih => simpa [hb, hi] using ih

theorem NameTokens.kind {ts : List Token} {text : Text} (h : NameTokens ts text) :
    ∀ t ∈ ts, t.kind ∈ [TokenKind.ident, .backslash] := by
  cases h with
  | plain hi h => simpa [hi] using h.kind
  | rooted hb hi h => simpa [hb, hi] using h.kind

/-- Tokens of literals and names are stepped over one by one. -/
theorem Steps.of_kinds
    (h : ∀ m ∈ ms, m.token.kind ∈ [TokenKind.string, .int, .float, .op, .ident, .backslash]) : Steps ctx ms := by
  have hplain : ∀ k ∈ [TokenKind.string, .int, .float, .op, .ident, .backslash],
      k.isBracket = false ∧ ctx.isEnd k = false := by
    cases ctx <;> decide
  induction ms with
  | nil => exact .nil
  | cons m ms ih =>
    obtain ⟨hm, hms⟩ := List.forall_mem_cons.1 h
    exact .token (hplain _ hm).1 (hplain _ hm).2 (ih hms)

theorem endOf_of_getLast? {e : Nat} {m : Mark} (h : ms.getLast? = some m) : endOf e ms = m.token.stop := by
  obtain ⟨l, rfl⟩ := List.getLast?_eq_some_iff.1 h
  rw [endOf_append]
  rfl

namespace Parser

/-! ### What is read -/

/-- An expression was read from the marks that lead from `s` to `t`. -/
structure Fills (ctx : ExprContext) (s t : ParseState) (ms : List Mark) (e : Expr) : Prop where
  consumes : Consumes ms s t
  steps : Steps ctx ms
  fills : e.Fills (ms.map Mark.token)
  span : e.span = ⟨s.cursor.span.start, t.cursor.prevEnd⟩

theorem Fills.even {e : Expr} (h : Fills ctx s t ms e) : Even s t := ⟨ms, h.consumes, h.steps.nested⟩

/-- What an attempt leaves: an expression, or a part of one that was stepped over. -/
def MayFill (ctx : ExprContext) (s t : ParseState) : Option Expr → Prop
  | none => ∃ ms, Consumes ms s t ∧ Steps ctx ms
  | some e => ∃ ms, Fills ctx s t ms e

/-- An attempt that is taken back leaves nothing. -/
theorem MayFill.restore (h : Passes s t) : MayFill ctx s { t with cursor := s.cursor } none := by
  obtain ⟨ms, hms⟩ := h
  exact ⟨[], hms.restore, .nil⟩

/-! ### Names and literals -/

theorem yields_segments_tokens :
    segments.Yields s fun text t => ∃ ms, Consumes ms s t ∧ SegmentTokens (ms.map Mark.token) text := by
  refine Yields.loop (I := fun text t => ∃ ms, Consumes ms s t ∧ SegmentTokens (ms.map Mark.token) text)
    (fun text t ht => ?_) ⟨[], .refl s, .nil⟩
  obtain ⟨ms, hms, htokens⟩ := ht
  simp only [yields_bind, yields_check, yields_peek?]
  refine .ite (fun h => ?_) fun _ => yields_pure.2 ⟨ms, hms, htokens⟩
  rw [Bool.and_eq_true, beq_iff_eq] at h
  obtain ⟨b, hb, hbkind⟩ := ParseState.exists_of_check h.1
  obtain ⟨i, hi, hikind⟩ := ParseState.exists_of_check (check_next h.2)
  have htext : t.next.cursor.text = i.token.text := Cursor.text_of_ahead hi.ahead
  simp only [yields_bind, yields_advance, yields_cursor, yields_pure, htext]
  refine ⟨ms ++ [b] ++ [i], (hms.trans hb).trans hi, ?_⟩
  have hmore := htokens.append (.cons hbkind hikind .nil)
  simpa using hmore

theorem yields_name_tokens : name.Yields s fun n t =>
    ∃ ms, Consumes ms s t ∧ NameTokens (ms.map Mark.token) n.text ∧ n.span = ⟨s.cursor.span.start, t.cursor.prevEnd⟩ := by
  simp only [name, yields_bind, yields_fresh, yields_here, yields_eat, yields_spanFrom, yields_pure, and_true]
  have hfresh : Consumes [] s { s with nextId := s.nextId + 1 } := (Consumes.refl s).later (Nat.le_succ _)
  -- Behind the first separator, if there is one, stand the words.
  have rest : ∀ (front : List Mark) v (root : Text), Consumes front s v →
      (∀ i ts text, i.kind = .ident → SegmentTokens ts text →
        NameTokens (front.map Mark.token ++ i :: ts) (root ++ i.text ++ text)) →
      (expect .ident "name").Yields v fun first w => segments.Yields w fun more t => ∃ ms, Consumes ms s t ∧
        NameTokens (ms.map Mark.token) (root ++ first.text ++ more) := by
    intro front v root hv hroot
    refine yields_expect fun m ns hm hk => yields_segments_tokens.mono fun more t ht => ?_
    obtain ⟨ms, hms, htokens⟩ := ht
    refine ⟨front ++ [m] ++ ms, (hv.trans (.next hm)).trans hms, ?_⟩
    simpa using hroot m.token _ _ hk htokens
  split
  · rename_i hrooted
    obtain ⟨b, hb, hbkind⟩ := ParseState.exists_of_check (s := { s with nextId := s.nextId + 1 }) hrooted
    simp only [if_true]
    exact rest [b] _ _ (hfresh.trans hb) fun i ts text hi h => .rooted hbkind hi h
  · simp only [Bool.false_eq_true, if_false]
    exact rest [] _ _ hfresh fun i ts text hi h => .plain hi h

theorem yields_literal_fills : (literal ctx).Yields s fun r t => MayFill ctx s t r := by
  refine .literal (fun t ht => .restore ht) (yields_name_tokens.mono fun n t hn => ?_)
    fun negative u m ms e hsign hm hl _ => ?_
  · obtain ⟨ms, hms, htokens, hspan⟩ := hn
    refine ⟨.restore ⟨ms, hms⟩, fun _ => ⟨ms, hms.later (Nat.le_succ _), .of_kinds fun m hm => ?_, .const htokens, hspan⟩⟩
    have hk := htokens.kind m.token (List.mem_map_of_mem hm)
    simp only [List.mem_cons, List.not_mem_nil, or_false] at hk
    rcases hk with h | h <;> simp [h]
  · have hspan := literalOf?_span hl
    have hstop : u.next.cursor.prevEnd = m.token.stop := ParseState.prevEnd_next hm
    have hkind : m.token.kind ∈ [.string, .int, .float] := kind_of_isSome_literalOf? (Option.isSome_of_eq_some hl)
    -- A sign in front is stepped over like the literal.
    have hstep : ∀ front : List Mark, (∀ x ∈ front, x.token.kind = .op) → Steps ctx (front ++ [m]) := by
      intro front hfront
      refine .of_kinds fun x hx => ?_
      rcases List.mem_append.1 hx with hx | hx
      · simp [hfront x hx]
      · rw [List.mem_singleton.1 hx]
        simp only [List.mem_cons, List.not_mem_nil, or_false] at hkind
        rcases hkind with h | h | h <;> simp [h]
    rw [← hspan] at hl
    cases hsign with
    | none =>
      exact ⟨[m], (Consumes.next hm).later (Nat.le_succ _), hstep [] (by simp), .literal hl, by rw [hspan, hstop]⟩
    | minus hop htext hnumber =>
      obtain ⟨sign, hsign, hk⟩ := ParseState.exists_of_check hop
      have hsigntext : sign.token.text = ['-'] := (Cursor.text_of_ahead hsign.ahead).symm.trans htext
      have hnumber : m.token.kind = .int ∨ m.token.kind = .float :=
        hnumber.imp (Cursor.check_of_ahead hm).1 (Cursor.check_of_ahead hm).1
      refine ⟨[sign] ++ [m], (hsign.trans (.next hm)).later (Nat.le_succ _), hstep [sign] (by simpa using hk),
        .signed hk hsigntext hnumber hl, by rw [hspan, hstop]⟩

/-! ### Arrays -/

section Arrays

variable {expr : ExprContext → Parser Expr} (hexpr : ∀ ctx, (expr ctx).Evens)

include hexpr

theorem evens_arrayItem : (arrayItem expr).Evens :=
  .bind .fresh fun _ => .bind (.look _) fun _ => .bind (.eat rfl) fun _ => .bind (.eat rfl) fun _ =>
    .bind (hexpr _) fun _ => .bind (.eat rfl) fun _ => .ite
      (.bind (.eat rfl) fun _ => .bind (hexpr _) fun _ => .bind (.spanFrom _) fun _ => .pure _)
      (.bind (.spanFrom _) fun _ => .pure _)

theorem evens_arrayItems (closer : TokenKind) : (arrayItems expr closer).Evens := by
  refine .loop (fun items => .bind (.look _) fun _ => .ite (.pure _) ?_) _
  refine .bind (.look _) fun _ => .bind (.bind (.look _) fun _ => .pure _) fun _ => .ite (.pure _) ?_
  refine .bind (evens_arrayItem hexpr) fun _ => .bind (.eat rfl) fun _ => .ite (.pure _) ?_
  exact .bind (.look _) fun _ => .ite (.pure _) (.pure _)

theorem yields_arrayLit_fills (hat : AtArray s) :
    (arrayLit expr).Yields s fun r t => MayFill ctx s t (r.map .array) := by
  refine .arrayLit hat fun short p hopened => (evens_arrayItems hexpr _ p).mono fun r u hr => ?_
  cases r with
  | none => exact .restore (hopened.passes.trans hr.passes)
  | some items =>
    refine yields_expect fun c ns hc hk => ?_
    obtain ⟨inner, hinner, hnested⟩ := hr
    have hclose : Consumes (inner ++ [c]) p u.next := hinner.trans (.next hc)
    have hstop : u.next.cursor.prevEnd = c.token.stop := ParseState.prevEnd_next hc
    cases hopened with
    | short hbracket =>
      obtain ⟨o, ho, hok⟩ := ParseState.exists_of_check hbracket
      refine ⟨o :: (inner ++ [c]), (ho.trans hclose).later (Nat.le_succ _),
        .group (by rw [hok, hk]; rfl) hnested .nil, ?_, by rw [hstop]; rfl⟩
      simpa using Expr.Fills.short hok hk hnested rfl (by rw [ho.prevEnd]; rfl)
    | long hword hparen =>
      rw [Cursor.checkWord, Bool.and_eq_true] at hword
      obtain ⟨w, hw, hwk⟩ := ParseState.exists_of_check hword.1
      obtain ⟨o, ho, hok⟩ := ParseState.exists_of_check hparen
      have hwtext : w.token.text.sameIgnoringCase "array".toList = true := by
        rw [← Cursor.text_of_ahead hw.ahead]
        exact hword.2
      have hwstep : Steps ctx [w] := .of_kinds (by simp [hwk])
      refine ⟨[w] ++ o :: (inner ++ [c]), (hw.trans (ho.trans hclose)).later (Nat.le_succ _),
        hwstep.append (.group (by rw [hok, hk]; rfl) hnested .nil), ?_, by rw [hstop]; rfl⟩
      simpa using Expr.Fills.long hwk hwtext hok hk hnested rfl (by rw [ho.prevEnd]; rfl)

theorem yields_structured_fills : (structured expr ctx).Yields s fun r t => MayFill ctx s t r := by
  refine .structured (fun hat => ?_) yields_literal_fills
  have harray : (arrayLit expr).Yields s fun r t => MayFill ctx s t (r.map .array) := yields_arrayLit_fills hexpr hat
  refine harray.mono fun r t hr => ?_
  cases r with
  | none => exact ⟨hr, fun _ => nofun⟩
  | some a =>
    obtain ⟨ms, hms⟩ := hr
    -- The array may be only the front of the expression.
    exact ⟨⟨ms, hms.consumes, hms.steps⟩, fun _ => fun | _, rfl => ⟨ms, hms⟩⟩

end Arrays

/-! ### Expressions -/

theorem yields_exprWithin_fills (depth : Nat) (ctx : ExprContext) (s : ParseState) :
    (exprWithin depth ctx).Yields s fun e t => ∃ ms, Fills ctx s t ms e := by
  induction depth generalizing ctx s with
  | zero => exact yields_unexpected
  | succ depth ih =>
    -- Of the entries of an array it only matters that their brackets are nested.
    have hevens : ∀ ctx, (exprWithin depth ctx).Evens := fun ctx s => (ih ctx s).mono fun _ _ ⟨_, h⟩ => h.even
    refine .exprWithin fun _ => (yields_structured_fills hevens).mono fun r t hr => ?_
    cases r with
    | some e => exact hr
    | none =>
      obtain ⟨ms, hms, hsteps⟩ := hr
      -- What the attempt has left behind it was stepped over, and so is the rest.
      refine (yields_skipToEnd hms hsteps).mono fun _ u hu => ?_
      obtain ⟨ns, hns, hsteps, -⟩ := hu
      exact ⟨ns, hns.later (Nat.le_succ _), hsteps, .other, rfl⟩

/-- An expression that is read does not begin where one would end. -/
theorem yields_exprWithin_not_atEnd (depth : Nat) :
    (exprWithin depth ctx).Yields s fun _ _ => ¬s.cursor.kind?.all ctx.isEnd = true := by
  cases depth with
  | zero => exact yields_unexpected
  | succ depth =>
    refine .exprWithin fun hbegin => (yields_true _).mono fun r t _ => ?_
    cases r with
    | some e => exact hbegin
    | none => exact (yields_true _).mono fun _ _ _ => hbegin

/-- What fills an expression is its extent. -/
theorem Fills.extent {e : Expr} (h : Fills ctx s t ms e) (hbegin : ¬s.cursor.kind?.all ctx.isEnd = true)
    (hend : t.cursor.kind?.all ctx.isEnd = true) : Extent ctx ms t.cursor.ahead := by
  refine h.steps.extent ?_ (ends_iff.2 hend)
  rintro rfl
  have hahead : s.cursor.ahead = t.cursor.ahead := h.consumes.ahead
  rw [← ends_iff, ← hahead, ends_iff] at hend
  exact hbegin hend

theorem yields_expr_fills (ctx : ExprContext) (s : ParseState) :
    (Parser.expr ctx).Yields s fun e t => ∃ ms, Fills ctx s t ms e ∧ Extent ctx ms t.cursor.ahead := by
  simp only [Parser.expr, yields_bind, yields_cursor]
  intro e t hrun
  obtain ⟨ms, hfills⟩ := yields_exprWithin_fills _ ctx s e t hrun
  exact ⟨ms, hfills, hfills.extent (yields_exprWithin_not_atEnd _ e t hrun) (yields_exprWithin_atEnd _ e t hrun)⟩

/-- Expressions consume nested brackets. -/
theorem evens_expr (ctx : ExprContext) : (Parser.expr ctx).Evens :=
  fun s => (yields_expr_fills ctx s).mono fun _ _ ⟨_, h, _⟩ => h.even

/-- An expression that is read extends up to the first token that ends it outside of the brackets that it opens; what is
stepped over from where it begins extends as far.  Its span begins with the first of these tokens and ends with the
last, and where it is an array, a literal or a constant, that is all they are. -/
theorem expr_extent {e : Expr} (h : (Parser.expr ctx).run s = .ok e t) :
    ∃ ms, s.cursor.ahead = ms ++ t.cursor.ahead ∧ Extent ctx ms t.cursor.ahead ∧
      (∀ ns rest, s.cursor.ahead = ns ++ rest → Extent ctx ns rest → ns = ms) ∧
      (∃ u, (skipUntil (atExprEnd ctx) skipOne).run s = .ok () u ∧ u.cursor = t.cursor) ∧
      ms.head?.map (fun m => m.token.start) = some e.span.start ∧
      ms.getLast?.map (fun m => m.token.stop) = some e.span.stop ∧ e.Fills (ms.map Mark.token) := by
  obtain ⟨ms, hfills, hextent⟩ := yields_expr_fills ctx s e t h
  have hms := hfills.consumes
  refine ⟨ms, hms.ahead, hextent, fun ns rest hns h' => h'.unique hextent (hns.symm.trans hms.ahead), ?_, ?_, ?_,
    hfills.fills⟩
  · obtain ⟨_, u, hskip, hu⟩ := answers_skipToEnd hfills.steps hms.ahead hextent.ends
    exact ⟨u, hskip, hu.cursor_eq hms⟩
  · obtain ⟨m, ns, rfl⟩ := List.exists_cons_of_ne_nil hextent.ne_nil
    rw [hfills.span, hms.start]
    rfl
  · obtain ⟨m, hm⟩ := Option.ne_none_iff_exists'.1 (mt List.getLast?_eq_none_iff.1 hextent.ne_nil)
    rw [hfills.span, hms.prevEnd, endOf_of_getLast? hm, hm]
    rfl

/-- An array with an array inside that is only the front of its entry. -/
theorem expr_extent_nested_array : ∃ text s a t,
    text = "<?php ['k' => [1, -2][0] . f(4, 5), array(3)]; [6];".toList ∧
    s = ⟨Cursor.ofTokens (Lexer.lex text) 1 (Lexer.lex text).length text.length, 0⟩ ∧
    (Parser.expr .statement).run s = .ok (.array a) t ∧ a.span = ⟨6, 45⟩ ∧
    a.items.map (fun i => i.value.span) = [⟨14, 34⟩, ⟨36, 44⟩] ∧
    ∃ ms, s.cursor.ahead = ms ++ t.cursor.ahead ∧ Extent .statement ms t.cursor.ahead ∧
      (∀ ns rest, s.cursor.ahead = ns ++ rest → Extent .statement ns rest → ns = ms) ∧
      (∃ u, (skipUntil (atExprEnd .statement) skipOne).run s = .ok () u ∧ u.cursor = t.cursor) ∧
      ms.head?.map (fun m => m.token.start) = some 6 ∧ ms.getLast?.map (fun m => m.token.stop) = some 45 ∧
      (Expr.array a).Fills (ms.map Mark.token) := by
  obtain ⟨text, htext, s, hs, hcheck⟩ : ∃ text, text = "<?php ['k' => [1, -2][0] . f(4, 5), array(3)]; [6];".toList ∧
      ∃ s, s = (⟨Cursor.ofTokens (Lexer.lex text) 1 (Lexer.lex text).length text.length, 0⟩ : ParseState) ∧
        (((Parser.expr .statement).run' s).bind Expr.array?).map (fun a => (a.span, a.items.map fun i => i.value.span)) =
          some (⟨6, 45⟩, [⟨14, 34⟩, ⟨36, 44⟩]) :=
    ⟨_, rfl, _, rfl, by decide +kernel⟩
  delta EStateM.run' at hcheck
  cases hrun : (Parser.expr .statement).run s with
  | error err t =>
    rw [hrun] at hcheck
    cases hcheck
  | ok e t =>
    rw [hrun] at hcheck
    cases e with
    | array a =>
      obtain ⟨hspan, hitems⟩ := Prod.mk.inj (Option.some.inj hcheck)
      have hextent := expr_extent hrun
      rw [show (Expr.array a).span = ⟨6, 45⟩ from hspan] at hextent
      exact ⟨text, s, a, t, htext, hs, hrun, hspan, hitems, hextent⟩
    | _ => cases hcheck

end Parser

end Graft
