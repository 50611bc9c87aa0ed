/-
Parsers that consume nested brackets.

A parser is even when whatever it consumes on the way to an answer has nested brackets.  Even parsers are closed under
the rules of the monad and under loops; a token that is no bracket may be consumed at any place, a bracket only with
what closes it.

* `Even.wrap` — brackets around what is even;
* `Evens.bind`, `Evens.loop` — parsers that are composed of even ones;
* `Evens.skipGroup`, `evens_name`, `evens_verbatim` — groups, names and verbatim statements.
-/
import Graft.Proofs.Reading.Extent
import Graft.Proofs.Reading.Nested
import Graft.Proofs.Reading.Rule

namespace Graft

variable {s t u : ParseState}

/-! ### States -/

/-- From `s` to `t` nested brackets are consumed. -/
def Even (s t : ParseState) : Prop := ∃ ms, Consumes ms s t ∧ Nested (brackets (ms.map Mark.token))

namespace Even

theorem passes (h : Even s t) : Passes s t := by
  obtain ⟨ms, hms, -⟩ := h
  exact ⟨ms, hms⟩

/-- Where the cursor stays nothing is consumed; ids may have been drawn. -/
theorem of_cursor_eq (hc : t.cursor = s.cursor) (hn : s.nextId ≤ t.nextId) : Even s t :=
  ⟨[], ⟨by rw [hc]; rfl, by rw [hc]; rfl, by rw [hc], hn⟩, .nil⟩

theorem refl (s : ParseState) : Even s s := of_cursor_eq rfl (Nat.le_refl _)

theorem fresh (s : ParseState) : Even s { s with nextId := s.nextId + 1 } := of_cursor_eq rfl (Nat.le_succ _)

theorem trans (h₁ : Even s t) (h₂ : Even t u) : Even s u := by
  obtain ⟨ms, hms, hm⟩ := h₁
  obtain ⟨ns, hns, hn⟩ := h₂
  exact ⟨ms ++ ns, hms.trans hns, by rw [List.map_append, brackets_append]; exact hm.append hn⟩

/-- A token that is no bracket is consumed. -/
theorem of_check {k : TokenKind} (h : s.cursor.check k = true) (hk : k.isBracket = false) : Even s s.next := by
  obtain ⟨m, hm, rfl⟩ := ParseState.exists_of_check h
  refine ⟨[m], hm, ?_⟩
  rw [show brackets ([m].map Mark.token) = [] from brackets_eq_nil (by simpa using hk)]
  exact .nil

theorem of_checkWord {w : String} (h : s.cursor.checkWord w = true) : Even s s.next := by
  rw [Cursor.checkWord, Bool.and_eq_true] at h
  exact of_check h.1 rfl

/-- Brackets around what is even. -/
theorem wrap {o c : TokenKind} (hc : Cursor.closerOf? o = some c) (hs : s.cursor.check o = true) (h : Even s.next t)
    (ht : t.cursor.check c = true) : Even s t.next := by
  obtain ⟨m, hm, rfl⟩ := ParseState.exists_of_check hs
  obtain ⟨ms, hms, hnested⟩ := h
  obtain ⟨n, hn, rfl⟩ := ParseState.exists_of_check ht
  refine ⟨[m] ++ ms ++ [n], (hm.trans hms).trans hn, ?_⟩
  have ho : m.token.kind.isBracket = true := by simp [TokenKind.isBracket, Cursor.isOpener, hc]
  have hc' : n.token.kind.isBracket = true := by simp [TokenKind.isBracket, isCloser_of_closerOf? hc]
  rw [List.map_append, List.map_append, brackets_append, brackets_append, List.map_singleton, List.map_singleton,
    brackets_singleton_of_isBracket ho, brackets_singleton_of_isBracket hc']
  simpa using Nested.group hc hnested .nil

end Even

namespace Parser

variable {α β σ : Type}

/-! ### Parsers -/

/-- Whatever the parser consumes on the way to an answer has nested brackets. -/
def Evens (p : Parser α) : Prop := ∀ s, p.Yields s fun _ t => Even s t

/-- An even parser goes on from where nested brackets were consumed. -/
theorem Evens.from {p : Parser α} (hp : p.Evens) (h : Even s t) : p.Yields t fun _ u => Even s u :=
  (hp t).mono fun _ _ hu => h.trans hu

namespace Evens

theorem pure (a : α) : Evens (Pure.pure a : Parser α) := fun s => yields_pure.2 (.refl s)

theorem throw (e : ParseError) : Evens (MonadExcept.throw e : Parser α) := fun _ => yields_throw

theorem unexpected (expected : String) : Evens (Parser.unexpected expected : Parser α) := fun _ => yields_unexpected

theorem bind {p : Parser α} {f : α → Parser β} (hp : p.Evens) (hf : ∀ a, (f a).Evens) : (p >>= f).Evens :=
  fun s => yields_bind.2 ((hp s).mono fun a _ h => (hf a).from h)

theorem map {p : Parser α} (f : α → β) (hp : p.Evens) : (f <$> p).Evens :=
  fun s => yields_map.2 (hp s)

theorem discard {p : Parser α} (hp : p.Evens) : Evens (Functor.discard p) := fun s => yields_discard.2 (hp s)

theorem ite {c : Prop} [Decidable c] {p q : Parser α} (hp : p.Evens) (hq : q.Evens) : Evens (if c then p else q) :=
  fun s => .ite (fun _ => hp s) fun _ => hq s

/-- Looking at the cursor consumes nothing. -/
theorem look (f : Cursor → α) : Evens (do return f (← cursor)) := by
  intro s
  simp only [yields_bind, yields_cursor, yields_pure]
  exact .refl s

theorem fresh : Parser.fresh.Evens := fun s => yields_fresh.2 (.fresh s)

theorem spanFrom (start : Nat) : (Parser.spanFrom start).Evens := (look Cursor.prevEnd).bind fun _ => pure _

/-- A branch for which the current token has the kind `k`. -/
theorem check {k : TokenKind} {f : Bool → Parser α}
    (htrue : ∀ s, s.cursor.check k = true → (f true).Yields s fun _ t => Even s t) (hfalse : (f false).Evens) :
    (Parser.check k >>= f).Evens := by
  intro s
  rw [yields_bind, yields_check]
  cases h : s.cursor.check k with
  | true => exact htrue s h
  | false => exact hfalse s

theorem eat {k : TokenKind} (hk : k.isBracket = false) : (Parser.eat k).Evens := by
  intro s
  rw [yields_eat]
  split
  · exact .of_check ‹_› hk
  · exact .refl s

theorem eatWord (w : String) : (Parser.eatWord w).Evens := by
  intro s
  rw [yields_eatWord]
  split
  · exact .of_checkWord ‹_›
  · exact .refl s

theorem expect {k : TokenKind} (hk : k.isBracket = false) (expected : String) : (Parser.expect k expected).Evens :=
  fun _ => yields_expect fun _ _ hm hmk =>
    .of_check ((Cursor.check_of_ahead hm).2 hmk) hk

/-- The brackets of a group are nested. -/
theorem skipGroup : Parser.skipGroup.Evens := by
  intro s
  simp only [Parser.skipGroup, yields_bind, yields_cursor, Cursor.skipGroup]
  cases hc : Cursor.closeGroup s.cursor.eof [] s.cursor.ahead with
  | mk n e =>
    cases e with
    | some e => simp only [yields_moveTo, yields_throw]
    | none =>
      simp only [yields_moveTo, yields_pure]
      exact ⟨_, consumes_skip n s, nested_of_closeGroup hc⟩

/-! ### Loops -/

theorem loop {step : σ → Parser (Round σ β)} (hstep : ∀ x, (step x).Evens) (x : σ) : (Parser.loop step x).Evens := by
  intro s
  refine Yields.loop (I := fun _ t => Even s t) (fun y t ht => ?_) (.refl s)
  refine ((hstep y).from ht).mono fun r u hu => ?_
  cases r with
  | again y => exact hu
  | done b => exact hu

theorem manyUntil {finished : Parser Bool} {item : Parser α} (hf : finished.Evens) (hi : item.Evens) :
    (Parser.manyUntil finished item).Evens :=
  loop (fun _ => hf.bind fun _ => ite (pure _) (hi.bind fun _ => pure _)) _

theorem skipUntil {finished : Parser Bool} {step : Parser Unit} (hf : finished.Evens) (hi : step.Evens) :
    (Parser.skipUntil finished step).Evens :=
  loop (fun _ => hf.bind fun _ => ite (pure _) (hi.bind fun _ => pure _)) _

theorem sepByComma {item : Parser α} (hi : item.Evens) : (Parser.sepByComma item).Evens :=
  hi.bind fun _ => loop (fun _ => (eat rfl).bind fun _ => ite (hi.bind fun _ => pure _) (pure _)) _

end Evens

/-! ### Names, terminators and attributes -/

theorem evens_segments : segments.Evens := by
  refine .loop (fun text s => ?_) _
  simp only [yields_bind, yields_check, yields_peek?]
  refine .ite (fun h => ?_) fun _ => Evens.pure _ s
  rw [Bool.and_eq_true, beq_iff_eq] at h
  simp only [yields_bind, yields_advance, yields_cursor, yields_pure]
  exact (Even.of_check h.1 rfl).trans (.of_check (check_next h.2) rfl)

theorem evens_name : name.Evens :=
  .bind .fresh fun _ => .bind (.look _) fun _ => .bind (.eat rfl) fun _ => .bind (.expect rfl _) fun _ =>
    .bind evens_segments fun _ => .bind (.spanFrom _) fun _ => .pure _

theorem evens_ident (expected : String) : (ident expected).Evens := .bind (.expect rfl _) fun _ => .pure _

theorem evens_nameList : nameList.Evens := .sepByComma evens_name

theorem evens_terminator : terminator.Evens :=
  .bind (.eat rfl) fun _ => .ite (.pure _) (.bind (.eat rfl) fun _ => .ite (.pure _) (.unexpected _))

theorem evens_skipAttributes : skipAttributes.Evens :=
  .skipUntil (.bind (.look _) fun _ => .pure _) (.discard .skipGroup)

/-! ### Verbatim statements -/

theorem check_of_kind?_eq_some {k : TokenKind} (h : s.cursor.kind? = some k) : s.cursor.check k = true := by
  simp [Cursor.check, h]

theorem evens_verbatimRound (begun : Bool) : (verbatimRound begun).Evens := by
  intro s
  simp only [verbatimRound, yields_bind, yields_kind?]
  split
  · exact Evens.pure _ s
  · simp only [yields_bind, yields_advance, yields_pure]
    exact .of_check (check_of_kind?_eq_some ‹_›) rfl
  · simp only [yields_bind, yields_advance, yields_pure]
    exact .of_check (check_of_kind?_eq_some ‹_›) rfl
  · refine Evens.bind (.discard .skipGroup) (fun _ => .bind (.look id) fun c => ?_) s
    exact .ite (.pure _) (.bind (.discard (.eat rfl)) fun _ => .pure _)
  · rename_i k _ _ _ hk
    refine .ite (fun _ => Evens.bind (.discard .skipGroup) (fun _ => .pure _) s) fun hopen => ?_
    refine .ite (fun _ => Evens.ite (.pure _) (.unexpected _) s) fun hclose => ?_
    -- No bracket is left.
    simp only [yields_bind, yields_advance, yields_pure]
    exact .of_check (check_of_kind?_eq_some hk) (by simp [TokenKind.isBracket, hopen, hclose])

theorem evens_verbatim : verbatim.Evens :=
  .bind .fresh fun _ => .bind (.look _) fun _ => .bind (.loop evens_verbatimRound _) fun _ =>
    .bind (.spanFrom _) fun _ => .pure _

end Parser

end Graft
