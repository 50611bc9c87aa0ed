/-
The layout of expressions that were read.

An expression is read from the current token on, whether it becomes an array, a literal or stays verbatim, and an
array that was read is laid out with commas between its entries.

* `yields_arrayItems` — the entries, with the comma that may stand behind the last one;
* `yields_expr` — the layout of an expression.
-/
import Graft.Proofs.Reading.Literal

namespace Graft.Parser

variable {G : Ground} {s t : ParseState}

/-! ### Code that goes on -/

/-- Code goes on behind a token that may stand before an expression. -/
theorem resumes_of_check (hs : G.On s) {k : TokenKind} (hk : k ∉ [.closeTag, .inlineHtml])
    (h : s.cursor.check k = true) : G.Resumes s.next.cursor.prevEnd := by
  obtain ⟨tok, htok, rfl, hstop⟩ := exists_eaten hs h
  exact ⟨tok, htok, hk, hstop⟩

/-- A token that is perhaps eaten, where code goes on before it and behind it. -/
theorem Yields.eatResuming (hs : G.On s) (hr : G.Resumes s.cursor.prevEnd) {k : TokenKind}
    (hk : k ∉ [.closeTag, .inlineHtml]) {Q : Bool → ParseState → Prop}
    (h : ∀ b t, Passes s t → G.Resumes t.cursor.prevEnd → Q b t) : Yields (Parser.eat k) s Q :=
  Yields.eat (fun hcheck hm => h true _ hm.passes (resumes_of_check hs hk hcheck)) (h false s (.refl s) hr)

/-! ### Literals -/

/-- An expression was read from `s` on to `t`. -/
structure ReadsExpr (G : Ground) (s t : ParseState) (e : Expr) : Prop where
  reads : Reads G s t e.span e.origins
  start : e.span.start = s.cursor.span.start
  arranged : e.Arranged G

/-- What a parser that may give up leaves: an expression, or the cursor somewhere behind. -/
def MayRead (G : Ground) (s t : ParseState) : Option Expr → Prop
  | none => Passes s t
  | some e => ReadsExpr G s t e

theorem yields_literal (hs : G.On s) (ctx : ExprContext) :
    (literal ctx).Yields s fun r t => MayRead G s t r := by
  refine .literal (fun t ht => ht.restore) ((yields_name hs).mono fun n t hn => ?_)
    fun negative u m ms e hsign hm hl _ => ?_
  · exact ⟨hn.1.moves.passes.restore, fun _ => ⟨hn.1.later (Nat.le_succ _), hn.2, trivial⟩⟩
  · have hnext : Moves s u.next := hsign.passes.trans_moves (.next hm)
    obtain ⟨hspan, hids, hlaid⟩ := literalOf?_eq_some (G := G) hl
    have hfresh : Fresh s.nextId (u.nextId + 1) [some u.nextId] :=
      (Fresh.cons .nil (Nat.lt_succ_self u.nextId)).mono hsign.passes.nextId_le (Nat.le_refl _)
    refine ⟨⟨hnext.trans_passes (.fresh _), ?_, ?_, ?_, by rw [hids]; exact hfresh⟩, by rw [hspan], hlaid⟩
    · rw [hspan]
      exact hs.blank_here
    · exact Nat.le_of_eq (by rw [hspan])
    · rw [hspan]
      exact (ParseState.prevEnd_next hm).symm

/-! ### Arrays -/

/-- The parser reads expressions wherever code goes on. -/
def ReadsExprs (G : Ground) (expr : ExprContext → Parser Expr) : Prop :=
  ∀ ctx s, G.On s → G.Resumes s.cursor.prevEnd → (expr ctx).Yields s fun e t => ReadsExpr G s t e ∧ G.Tells e

/-- An expression that was read lies behind the place where reading began, and ends where the cursor rests. -/
theorem ReadsExpr.within {e : Expr} {start stop : Nat} (hs : G.On s) (h : ReadsExpr G s t e)
    (hstart : start ≤ s.cursor.span.start) (hstop : t.cursor.prevEnd ≤ stop) : e.span.Within ⟨start, stop⟩ := by
  have hlt := h.reads.start_lt_stop hs
  have hend := h.reads.stop
  have hbegin := h.start
  refine ⟨?_, Nat.le_of_lt hlt, ?_⟩
  · show start ≤ e.span.start
    omega
  · show e.span.stop ≤ stop
    omega

theorem yields_arrayItem {expr : ExprContext → Parser Expr} (hexpr : ReadsExprs G expr) (hs : G.On s)
    (hr : G.Resumes s.cursor.prevEnd) :
    (arrayItem expr).Yields s fun i t => Reads G s t i.span i.origins ∧ i.Laid G := by
  simp only [arrayItem, yields_bind, yields_fresh, yields_here]
  have hs₀ : G.On { s with nextId := s.nextId + 1 } := hs
  refine Yields.eatResuming hs₀ hr (by decide) fun unpack s₁ h₁ hr₁ => ?_
  refine Yields.eatResuming (hs₀.passes h₁) hr₁ (by decide) fun byRef s₂ h₂ hr₂ => ?_
  have h₀₂ : Passes { s with nextId := s.nextId + 1 } s₂ := h₁.trans h₂
  have h₂ : Passes s s₂ := (Passes.fresh s).trans h₀₂
  have hs₂ := hs.passes h₂
  refine (hexpr .key s₂ hs₂ hr₂).mono fun first s₃ hread => ?_
  obtain ⟨hfirst, hfirstTells⟩ := hread
  have h₃ : Moves s s₃ := h₂.trans_moves hfirst.reads.moves
  have hs₃ := hs.moves h₃
  have hids : Fresh (s.nextId + 1) s₃.nextId first.origins := hfirst.reads.fresh.mono h₀₂.nextId_le (Nat.le_refl _)
  have hle₃ : s.nextId + 1 ≤ s₃.nextId := Nat.le_trans h₀₂.nextId_le hfirst.reads.moves.nextId_le
  refine Yields.eat (fun harrow h₄ => ?_) ?_
  · simp only [if_true, yields_bind]
    have hr₄ := resumes_of_check hs₃ (by decide) harrow
    refine Yields.eatResuming (hs₃.moves h₄) hr₄ (by decide) fun byRef s₅ h₅ hr₅ => ?_
    have h₃₅ : Moves s₃ s₅ := h₄.trans_passes h₅
    have hs₅ := hs₃.moves h₃₅
    refine (hexpr .value s₅ hs₅ hr₅).mono fun value s₆ hread => ?_
    obtain ⟨hvalue, hvalueTells⟩ := hread
    simp only [yields_spanFrom, yields_pure]
    have h₆ : Moves s₃ s₆ := h₃₅.trans hvalue.reads.moves
    have hkey := hfirst.within hs₂ (hs.here_le_here h₂) (hs₃.prevEnd_le h₆.passes)
    have hval := hvalue.within hs₅ (hs.here_le_here (h₃.passes.trans h₃₅.passes)) (Nat.le_refl s₆.cursor.prevEnd)
    have hvids : Fresh s₃.nextId s₆.nextId value.origins :=
      hvalue.reads.fresh.mono h₃₅.nextId_le (Nat.le_refl _)
    refine ⟨⟨h₃.trans h₆, hs.opens_here.1, hs.opens_here.2, rfl, ?_⟩, ⟨hkey, hfirstTells, hfirst.arranged⟩, hval,
      hvalueTells, hvalue.arranged⟩
    exact Fresh.cons (hids.append hvids hle₃ h₆.nextId_le) (Nat.lt_of_lt_of_le hle₃ h₆.nextId_le)
  · simp only [Bool.false_eq_true, if_false, yields_bind, yields_spanFrom, yields_pure]
    have hval := hfirst.within hs₂ (hs.here_le_here h₂) (Nat.le_refl s₃.cursor.prevEnd)
    exact ⟨⟨h₃, hs.opens_here.1, hs.opens_here.2, rfl, Fresh.cons hids hle₃⟩, trivial, hval, hfirstTells,
      hfirst.arranged⟩

theorem yields_arrayItems {expr : ExprContext → Parser Expr} (hexpr : ReadsExprs G expr) (hs : G.On s)
    (hr : G.Resumes s.cursor.prevEnd) (closer : TokenKind) : (arrayItems expr closer).Yields s fun r t =>
      Passes s t ∧ ∀ items, r = some items → ReadsItems G (ArrayItem.Laid G) ArrayItem.origins s t items := by
  refine Yields.loop
    (I := fun items t => OpenItems G (ArrayItem.Laid G) ArrayItem.origins s t items ∧ G.Resumes t.cursor.prevEnd)
    (fun items t hinv => ?_) ⟨.nil hs, hr⟩
  obtain ⟨h, hopen⟩ := hinv
  have ht := hs.passes h.reads.passes
  simp only [yields_bind, yields_check]
  refine .ite (fun _ => ?_) fun _ => .ite (fun _ => ?_) fun _ => ?_
  · simp only [yields_pure]
    exact ⟨h.reads.passes, fun _ hr => by cases hr; exact h.reads⟩
  · simp only [yields_pure]
    exact ⟨h.reads.passes, fun _ hr => by cases hr⟩
  · simp only [yields_bind]
    refine (yields_arrayItem hexpr ht hopen).mono fun i u hi => ?_
    obtain ⟨hreads, hspread⟩ := h.snoc hs hi.1 hi.2
    refine Yields.eat (fun hcomma _ => ?_) ?_
    · simp only [if_true, yields_pure]
      exact ⟨.of_comma hs hreads hspread (by simp) hcomma,
        resumes_of_check (hs.passes hreads.passes) (by decide) hcomma⟩
    · simp only [Bool.false_eq_true, if_false, yields_bind, yields_check]
      refine .ite (fun _ => ?_) fun _ => ?_
      · simp only [yields_pure]
        exact ⟨hreads.passes, fun _ hr => by cases hr; exact hreads⟩
      · simp only [yields_pure]
        exact ⟨hreads.passes, fun _ hr => by cases hr⟩

/-- Code goes on behind the bracket that opens an array. -/
theorem Opened.resumes {short : Bool} {p : ParseState} (hs : G.On s) (h : Opened s short p) :
    Moves s p ∧ G.Resumes p.cursor.prevEnd := by
  cases h with
  | short hbracket => exact ⟨.of_check hbracket, resumes_of_check hs (by decide) hbracket⟩
  | long _ hparen =>
    exact ⟨(Passes.next s).trans_moves (.of_check hparen), resumes_of_check (hs.passes (.next s)) (by decide) hparen⟩

theorem yields_arrayLit {expr : ExprContext → Parser Expr} (hexpr : ReadsExprs G expr) (hs : G.On s)
    (hat : AtArray s) : (arrayLit expr).Yields s fun r t => MayRead G s t (r.map .array) := by
  refine .arrayLit hat fun short p hopened => ?_
  obtain ⟨hp, hresumes⟩ := hopened.resumes hs
  have hs₁ := hs.moves hp
  refine (yields_arrayItems hexpr hs₁ hresumes _).mono fun r u hr => ?_
  have hu : Moves s u := hp.trans_passes hr.1
  cases r with
  | none => exact hu.passes.restore
  | some items =>
    have hitems := hr.2 items rfl
    refine Yields.expect (hs.moves hu) fun close v hv => ?_
    have huv : Moves s v := hu.trans hv.moves
    have hblank : G.blank u.cursor.prevEnd close.start := by
      rw [hv.start]
      exact (hs.moves hu).blank_here
    refine ⟨⟨huv.trans_passes (.fresh v), hs.opens_here.1, hs.opens_here.2, hv.stop, ?_⟩, rfl, ?_, ?_, ?_⟩
    · refine Fresh.append (m := v.nextId) ?_ (.cons .nil (Nat.lt_succ_self _)) huv.nextId_le (Nat.le_succ _)
      rw [ArrayItem.originsAll_eq, hv.nextId]
      exact hitems.fresh.mono hp.nextId_le (Nat.le_refl _)
    · have := hs.here_lt hp
      have := hs₁.prevEnd_le hr.1
      have := G.le_of_blank hblank
      have := G.start_lt_stop hv.token
      exact ⟨by simp only; omega, by simp only; omega, by simp only; omega⟩
    · exact hitems.commas.extend hblank
    · exact ArrayItem.laidAll_iff.2 hitems.each

/-! ### Expressions -/

theorem yields_structured {expr : ExprContext → Parser Expr} (hexpr : ReadsExprs G expr) (hs : G.On s)
    (ctx : ExprContext) : (structured expr ctx).Yields s fun r t => MayRead G s t r := by
  refine .structured (fun hat => (yields_arrayLit hexpr hs hat).mono fun r t hr => ?_) (yields_literal hs ctx)
  cases r with
  | none => exact ⟨hr, fun _ => nofun⟩
  | some a =>
    have ha : ReadsExpr G s t (.array a) := hr
    exact ⟨ha.reads.moves.passes, fun _ => fun | _, rfl => ha⟩

/-- An expression lies on the tokens that were consumed for it. -/
theorem tells_of_reads {ctx : ExprContext} {e : Expr} (hs : G.On s) (hr : G.Resumes s.cursor.prevEnd)
    (h : ReadsExpr G s t e) (hend : t.cursor.kind?.all ctx.isEnd = true)
    (hisOf : ∀ m ms, s.cursor.ahead = m :: ms ++ t.cursor.ahead → Ends ctx t.cursor.ahead →
      e.IsOf ((m :: ms).map Mark.token)) : G.Tells e := by
  obtain ⟨m, ms, hms⟩ := h.reads.moves
  have hon : G.Ahead s.cursor.eof s.cursor.prevEnd (m :: ms ++ t.cursor.ahead) := by
    rw [← hms.ahead]
    exact hs
  refine ⟨_, m.token, ms.map Mark.token, hr, ?_, ?_, hisOf m ms hms.ahead (ends_iff.2 hend)⟩
  · exact (h.start.trans hms.start).symm
  · rw [h.reads.stop, hms.prevEnd]
    exact hon.row

theorem yields_exprWithin (depth : Nat) : ReadsExprs G (exprWithin depth) := by
  induction depth with
  | zero => exact fun _ _ _ _ => yields_unexpected
  | succ depth ih =>
    intro ctx s hs hr
    have hreads : (exprWithin (depth + 1) ctx).Yields s fun e t => ReadsExpr G s t e := by
      refine .exprWithin fun hbegin => (yields_structured ih hs ctx).mono fun r t hr => ?_
      cases r with
      | some e => exact hr
      | none =>
        have ht : Passes s t := hr
        refine (Yields.skipUntil (P := fun u => u.cursor.kind?.all ctx.isEnd = true) (fun u => ?_)
          yields_skipOne).mono fun _ u hu => ?_
        · rw [yields_atExprEnd]
          exact ⟨rfl, id⟩
        · obtain ⟨ms, hms⟩ := ht.trans hu.1
          cases ms with
          | nil =>
            -- Nothing was consumed, so the expression would have ended where it began.
            have hkind : s.cursor.kind? = u.cursor.kind? := by
              simp [Cursor.kind?, Cursor.current?, hms.ahead]
            rw [hkind] at hbegin
            exact absurd hu.2 hbegin
          | cons m ms =>
            have hm : Moves s u := ⟨m, ms, hms⟩
            refine ⟨⟨hm.trans_passes (.fresh u), hs.opens_here.1, hs.opens_here.2, rfl, ?_⟩, rfl, trivial⟩
            exact (Fresh.cons .nil (Nat.lt_succ_self u.nextId)).mono hm.nextId_le (Nat.le_refl _)
    have hisOf : (exprWithin (depth + 1) ctx).Yields s fun e _ => ∀ m ms ns, s.cursor.ahead = m :: ms ++ ns →
        Ends ctx ns → e.IsOf ((m :: ms).map Mark.token) :=
      .all fun m => .all fun ms => .all fun ns => .of_imp fun hm => .of_imp fun hends =>
        yields_exprWithin_isOf hm hends (depth + 1)
    refine ((hreads.and (yields_exprWithin_atEnd (depth + 1))).and hisOf).mono fun e t h => ⟨h.1.1, ?_⟩
    exact tells_of_reads hs hr h.1.1 h.1.2 fun m ms hm hends => h.2 m ms _ hm hends

/-- Expressions are laid out on the ground that they are read from. -/
theorem yields_expr : ReadsExprs G Parser.expr := by
  intro ctx s hs hr
  simp only [Parser.expr, yields_bind, yields_cursor]
  exact yields_exprWithin _ ctx s hs hr

end Graft.Parser
