/-
What a parser answers, as a predicate on its runs.

`Parser.Yields p s Q` says that every answer which `p` gives from the state `s` satisfies `Q`; errors are not spoken
about.  The rules for `pure`, `>>=` and the looks at the cursor are equivalences, so that a grammar rule unfolds into
a statement about states in which only the rules that it calls are left:

* `yields_bind`, `yields_pure`, `yields_throw` — the monad;
* `yields_check`, `yields_fresh`, `yields_advance`, … — looking and consuming;
* `Yields.loop` — a loop keeps an invariant that every round keeps.

`Parser.Answers p s Q` says that `p` answers from the state `s`, with an answer that satisfies `Q`.  Parsers are
deterministic, so this is more than `Yields`, which says nothing when there is no answer.  It has the same rules, and

* `Answers.loop` — a loop of which every round but the last consumes something ends.
-/
import Graft.Parse.Parser

namespace Graft

/-- The state with the current token consumed. -/
def ParseState.next (s : ParseState) : ParseState := { s with cursor := s.cursor.advance }

namespace Parser

variable {α β σ : Type}

/-- Every answer of `p` from the state `s` satisfies `Q`. -/
def Yields (p : Parser α) (s : ParseState) (Q : α → ParseState → Prop) : Prop :=
  ∀ a t, p.run s = .ok a t → Q a t

theorem Yields.mono {p : Parser α} {s : ParseState} {Q R : α → ParseState → Prop} (h : p.Yields s Q)
    (hQR : ∀ a t, Q a t → R a t) : p.Yields s R :=
  fun a t hrun => hQR a t (h a t hrun)

theorem Yields.and {p : Parser α} {s : ParseState} {Q R : α → ParseState → Prop} (hQ : p.Yields s Q)
    (hR : p.Yields s R) : p.Yields s fun a t => Q a t ∧ R a t :=
  fun a t hrun => ⟨hQ a t hrun, hR a t hrun⟩

/-! ### The monad -/

@[simp] theorem yields_pure {a : α} {s : ParseState} {Q : α → ParseState → Prop} :
    Yields (pure a) s Q ↔ Q a s := by
  constructor
  · intro h
    exact h a s rfl
  · intro h b t hrun
    cases hrun
    exact h

@[simp] theorem yields_bind {p : Parser α} {f : α → Parser β} {s : ParseState} {Q : β → ParseState → Prop} :
    Yields (p >>= f) s Q ↔ p.Yields s fun a t => (f a).Yields t Q := by
  constructor
  · intro h a t hp b u hf
    refine h b u ?_
    rw [EStateM.run_bind, hp]
    exact hf
  · intro h b u hrun
    rw [EStateM.run_bind] at hrun
    cases hp : p.run s with
    | error e t => rw [hp] at hrun; cases hrun
    | ok a t =>
      rw [hp] at hrun
      exact h a t hp b u hrun

@[simp] theorem yields_map {p : Parser α} {f : α → β} {s : ParseState} {Q : β → ParseState → Prop} :
    Yields (f <$> p) s Q ↔ p.Yields s fun a t => Q (f a) t := by
  rw [map_eq_pure_bind, yields_bind]
  simp only [yields_pure]

@[simp] theorem yields_discard {p : Parser α} {s : ParseState} {Q : Unit → ParseState → Prop} :
    Yields (discard p) s Q ↔ p.Yields s fun _ t => Q () t := by
  simp only [discard, Functor.discard, Functor.mapConst, Function.comp_apply]
  exact yields_map (f := Function.const α ())

@[simp] theorem yields_throw {e : ParseError} {s : ParseState} {Q : α → ParseState → Prop} :
    Yields (throw e) s Q :=
  fun _ _ h => by cases h

theorem Yields.ite {c : Prop} [Decidable c] {p q : Parser α} {s : ParseState} {Q : α → ParseState → Prop}
    (hp : c → p.Yields s Q) (hq : ¬c → q.Yields s Q) : (if c then p else q).Yields s Q := by
  split
  · exact hp ‹_›
  · exact hq ‹_›

/-! ### Branches that meet again -/

section Branches

variable {c : Prop} [Decidable c] {p q : Parser α} {k : α → Parser β} {s : ParseState} {R : α → ParseState → Prop}
  {Q : β → ParseState → Prop}

theorem Yields.join (hp : c → p.Yields s R) (hq : ¬c → q.Yields s R) (hk : ∀ a t, R a t → (k a).Yields t Q) :
    (if c then p >>= k else q >>= k).Yields s Q := by
  split
  · rw [yields_bind]
    exact (hp ‹_›).mono hk
  · rw [yields_bind]
    exact (hq ‹_›).mono hk

theorem Yields.join_bind {γ : Type} {q : Parser γ} {r : γ → Parser α} (hp : c → p.Yields s R)
    (hq : ¬c → q.Yields s fun x t => (r x).Yields t R) (hk : ∀ a t, R a t → (k a).Yields t Q) :
    (if c then p >>= k else q >>= fun x => r x >>= k).Yields s Q := by
  split
  · rw [yields_bind]
    exact (hp ‹_›).mono hk
  · simp only [yields_bind]
    exact (hq ‹_›).mono fun x t h => h.mono hk

theorem Yields.join_pure {a : α} (hp : c → p.Yields s R) (hq : ¬c → R a s) (hk : ∀ a t, R a t → (k a).Yields t Q) :
    (if c then p >>= k else k a).Yields s Q := by
  split
  · rw [yields_bind]
    exact (hp ‹_›).mono hk
  · exact hk a s (hq ‹_›)

theorem Yields.pure_join {a : α} (hp : c → R a s) (hq : ¬c → q.Yields s R) (hk : ∀ a t, R a t → (k a).Yields t Q) :
    (if c then k a else q >>= k).Yields s Q := by
  split
  · exact hk a s (hp ‹_›)
  · rw [yields_bind]
    exact (hq ‹_›).mono hk

end Branches

/-! ### Looking -/

@[simp] theorem yields_cursor {s : ParseState} {Q : Cursor → ParseState → Prop} :
    Yields cursor s Q ↔ Q s.cursor s := by
  constructor
  · intro h
    exact h s.cursor s rfl
  · intro h c t hrun
    cases hrun
    exact h

@[simp] theorem yields_moveTo {c : Cursor} {s : ParseState} {Q : Unit → ParseState → Prop} :
    Yields (moveTo c) s Q ↔ Q () { s with cursor := c } := by
  constructor
  · intro h
    exact h () _ rfl
  · intro h u t hrun
    cases hrun
    exact h

@[simp] theorem yields_fresh {s : ParseState} {Q : NodeId → ParseState → Prop} :
    Yields fresh s Q ↔ Q s.nextId { s with nextId := s.nextId + 1 } := by
  constructor
  · intro h
    exact h s.nextId _ rfl
  · intro h i t hrun
    cases hrun
    exact h

@[simp] theorem yields_check {k : TokenKind} {s : ParseState} {Q : Bool → ParseState → Prop} :
    Yields (check k) s Q ↔ Q (s.cursor.check k) s := by
  simp only [check, yields_bind, yields_cursor, yields_pure]

@[simp] theorem yields_checkWord {w : String} {s : ParseState} {Q : Bool → ParseState → Prop} :
    Yields (checkWord w) s Q ↔ Q (s.cursor.checkWord w) s := by
  simp only [checkWord, yields_bind, yields_cursor, yields_pure]

@[simp] theorem yields_atEnd {s : ParseState} {Q : Bool → ParseState → Prop} :
    Yields atEnd s Q ↔ Q s.cursor.atEnd s := by
  simp only [atEnd, yields_bind, yields_cursor, yields_pure]

@[simp] theorem yields_kind? {s : ParseState} {Q : Option TokenKind → ParseState → Prop} :
    Yields kind? s Q ↔ Q s.cursor.kind? s := by
  simp only [kind?, yields_bind, yields_cursor, yields_pure]

@[simp] theorem yields_peek? {n : Nat} {s : ParseState} {Q : Option TokenKind → ParseState → Prop} :
    Yields (peek? n) s Q ↔ Q (s.cursor.peek? n) s := by
  simp only [peek?, yields_bind, yields_cursor, yields_pure]

@[simp] theorem yields_here {s : ParseState} {Q : Nat → ParseState → Prop} :
    Yields here s Q ↔ Q s.cursor.span.start s := by
  simp only [here, yields_bind, yields_cursor, yields_pure]

@[simp] theorem yields_leadStart {s : ParseState} {Q : Nat → ParseState → Prop} :
    Yields leadStart s Q ↔ Q s.cursor.leadStart s := by
  simp only [leadStart, yields_bind, yields_cursor, yields_pure]

@[simp] theorem yields_prevEnd {s : ParseState} {Q : Nat → ParseState → Prop} :
    Yields prevEnd s Q ↔ Q s.cursor.prevEnd s := by
  simp only [prevEnd, yields_bind, yields_cursor, yields_pure]

@[simp] theorem yields_spanFrom {start : Nat} {s : ParseState} {Q : Span → ParseState → Prop} :
    Yields (spanFrom start) s Q ↔ Q ⟨start, s.cursor.prevEnd⟩ s := by
  simp only [spanFrom, yields_bind, yields_prevEnd, yields_pure]

@[simp] theorem yields_unexpected {expected : String} {s : ParseState} {Q : α → ParseState → Prop} :
    Yields (unexpected expected) s Q := by
  simp only [unexpected, yields_bind, yields_cursor, yields_throw]

/-! ### Consuming -/

@[simp] theorem yields_advance {s : ParseState} {Q : Unit → ParseState → Prop} :
    Yields advance s Q ↔ Q () s.next := by
  simp only [advance, yields_bind, yields_cursor, yields_moveTo]
  rfl

/-- A token that is eaten is there; where none is, nothing is consumed. -/
theorem yields_eat {k : TokenKind} {s : ParseState} {Q : Bool → ParseState → Prop} :
    Yields (eat k) s Q ↔ if s.cursor.check k then Q true s.next else Q false s := by
  simp only [eat, yields_bind, yields_check]
  by_cases h : s.cursor.check k = true
  · simp only [h, if_true, yields_bind, yields_advance, yields_pure]
  · simp only [h, Bool.false_eq_true, if_false, yields_pure]

theorem yields_eatWord {w : String} {s : ParseState} {Q : Bool → ParseState → Prop} :
    Yields (eatWord w) s Q ↔ if s.cursor.checkWord w then Q true s.next else Q false s := by
  simp only [eatWord, yields_bind, yields_checkWord]
  by_cases h : s.cursor.checkWord w = true
  · simp only [h, if_true, yields_bind, yields_advance, yields_pure]
  · simp only [h, Bool.false_eq_true, if_false, yields_pure]

/-- The token that is expected is the current one. -/
theorem yields_expect {k : TokenKind} {expected : String} {s : ParseState} {Q : Token → ParseState → Prop}
    (h : ∀ m ms, s.cursor.ahead = m :: ms → m.token.kind = k → Q m.token s.next) :
    Yields (expect k expected) s Q := by
  simp only [expect, yields_bind, yields_cursor]
  cases hs : s.cursor.ahead with
  | nil => simp [Cursor.expect, Cursor.current?, hs]
  | cons m ms =>
    by_cases hk : m.token.kind = k
    · simpa [Cursor.expect, Cursor.current?, hs, hk] using h m ms hs hk
    · simp [Cursor.expect, Cursor.current?, hs, hk]

/-! ### Loops -/

/-- A loop keeps an invariant that each of its rounds keeps, and its answer is that of a last round. -/
theorem Yields.rounds {step : σ → Parser (Round σ β)} {I : σ → ParseState → Prop} {Q : β → ParseState → Prop}
    (hstep : ∀ x s, I x s → (step x).Yields s fun r t =>
      match r with
      | .again y => I y t
      | .done b => Q b t)
    (budget : Nat) (x : σ) (s : ParseState) (hx : I x s) : (rounds step budget x).Yields s Q := by
  induction budget generalizing x s with
  | zero => simp only [Parser.rounds, yields_bind, yields_cursor, yields_throw]
  | succ budget ih =>
    simp only [Parser.rounds, yields_bind]
    refine (hstep x s hx).mono fun r t hr => ?_
    cases r with
    | again y => exact ih y t hr
    | done b => simpa using hr

theorem Yields.loop {step : σ → Parser (Round σ β)} {I : σ → ParseState → Prop} {Q : β → ParseState → Prop}
    (hstep : ∀ x s, I x s → (step x).Yields s fun r t =>
      match r with
      | .again y => I y t
      | .done b => Q b t)
    {x : σ} {s : ParseState} (hx : I x s) : (Parser.loop step x).Yields s Q := by
  simp only [Parser.loop, yields_bind, yields_cursor]
  exact Yields.rounds hstep _ x s hx

end Parser

/-! ### Parsers that answer -/

namespace Parser

variable {α β σ : Type} {p : Parser α} {s : ParseState} {Q R : α → ParseState → Prop}

/-- The parser answers from the state `s`, and its answer satisfies `Q`. -/
def Answers (p : Parser α) (s : ParseState) (Q : α → ParseState → Prop) : Prop := ∃ a t, p.run s = .ok a t ∧ Q a t

theorem Answers.mono (h : p.Answers s Q) (hQR : ∀ a t, Q a t → R a t) : p.Answers s R := by
  obtain ⟨a, t, hrun, hQ⟩ := h
  exact ⟨a, t, hrun, hQR a t hQ⟩

/-- There is no other answer. -/
theorem Answers.yields (h : p.Answers s Q) : p.Yields s Q := by
  obtain ⟨a, t, hrun, hQ⟩ := h
  intro b u hb
  obtain ⟨rfl, rfl⟩ := EStateM.Result.ok.inj (hrun.symm.trans hb)
  exact hQ

theorem Answers.and_yields (h : p.Answers s Q) (h' : p.Yields s R) : p.Answers s fun a t => Q a t ∧ R a t := by
  obtain ⟨a, t, hrun, hQ⟩ := h
  exact ⟨a, t, hrun, hQ, h' a t hrun⟩

/-! ### The monad -/

theorem answers_of_run {a : α} {t : ParseState} (h : p.run s = .ok a t) : p.Answers s Q ↔ Q a t := by
  constructor
  · exact fun hp => hp.yields a t h
  · exact fun hQ => ⟨a, t, h, hQ⟩

@[simp] theorem answers_pure {a : α} : Answers (pure a) s Q ↔ Q a s := answers_of_run rfl

@[simp] theorem answers_bind {f : α → Parser β} {Q : β → ParseState → Prop} :
    Answers (p >>= f) s Q ↔ p.Answers s fun a t => (f a).Answers t Q := by
  constructor
  · rintro ⟨b, u, hrun, hQ⟩
    rw [EStateM.run_bind] at hrun
    cases hp : p.run s with
    | error e t =>
      rw [hp] at hrun
      cases hrun
    | ok a t =>
      rw [hp] at hrun
      exact ⟨a, t, hp, b, u, hrun, hQ⟩
  · rintro ⟨a, t, hp, b, u, hf, hQ⟩
    refine ⟨b, u, ?_, hQ⟩
    rw [EStateM.run_bind, hp]
    exact hf

@[simp] theorem answers_map {f : α → β} {Q : β → ParseState → Prop} :
    Answers (f <$> p) s Q ↔ p.Answers s fun a t => Q (f a) t := by
  rw [map_eq_pure_bind, answers_bind]
  simp only [answers_pure]

@[simp] theorem answers_discard {Q : Unit → ParseState → Prop} :
    Answers (discard p) s Q ↔ p.Answers s fun _ t => Q () t := by
  simp only [discard, Functor.discard, Functor.mapConst, Function.comp_apply]
  exact answers_map (f := Function.const α ())

theorem Answers.ite {c : Prop} [Decidable c] {q : Parser α} (hp : c → p.Answers s Q) (hq : ¬c → q.Answers s Q) :
    (if c then p else q).Answers s Q := by
  split
  · exact hp ‹_›
  · exact hq ‹_›

/-! ### Looking -/

@[simp] theorem answers_cursor {Q : Cursor → ParseState → Prop} : Answers cursor s Q ↔ Q s.cursor s := answers_of_run rfl

@[simp] theorem answers_moveTo {c : Cursor} {Q : Unit → ParseState → Prop} :
    Answers (moveTo c) s Q ↔ Q () { s with cursor := c } := answers_of_run rfl

@[simp] theorem answers_fresh {Q : NodeId → ParseState → Prop} :
    Answers fresh s Q ↔ Q s.nextId { s with nextId := s.nextId + 1 } := answers_of_run rfl

@[simp] theorem answers_check {k : TokenKind} {Q : Bool → ParseState → Prop} :
    Answers (check k) s Q ↔ Q (s.cursor.check k) s := answers_of_run rfl

@[simp] theorem answers_checkWord {w : String} {Q : Bool → ParseState → Prop} :
    Answers (checkWord w) s Q ↔ Q (s.cursor.checkWord w) s := answers_of_run rfl

@[simp] theorem answers_atEnd {Q : Bool → ParseState → Prop} : Answers atEnd s Q ↔ Q s.cursor.atEnd s :=
  answers_of_run rfl

@[simp] theorem answers_kind? {Q : Option TokenKind → ParseState → Prop} :
    Answers kind? s Q ↔ Q s.cursor.kind? s := answers_of_run rfl

@[simp] theorem answers_peek? {n : Nat} {Q : Option TokenKind → ParseState → Prop} :
    Answers (peek? n) s Q ↔ Q (s.cursor.peek? n) s := answers_of_run rfl

@[simp] theorem answers_here {Q : Nat → ParseState → Prop} : Answers here s Q ↔ Q s.cursor.span.start s :=
  answers_of_run rfl

@[simp] theorem answers_leadStart {Q : Nat → ParseState → Prop} : Answers leadStart s Q ↔ Q s.cursor.leadStart s :=
  answers_of_run rfl

@[simp] theorem answers_prevEnd {Q : Nat → ParseState → Prop} : Answers prevEnd s Q ↔ Q s.cursor.prevEnd s :=
  answers_of_run rfl

@[simp] theorem answers_spanFrom {start : Nat} {Q : Span → ParseState → Prop} :
    Answers (spanFrom start) s Q ↔ Q ⟨start, s.cursor.prevEnd⟩ s := answers_of_run rfl

/-! ### Consuming -/

@[simp] theorem answers_advance {Q : Unit → ParseState → Prop} : Answers advance s Q ↔ Q () s.next := answers_of_run rfl

/-- A token that is there is eaten. -/
theorem answers_eat {k : TokenKind} {Q : Bool → ParseState → Prop} :
    Answers (eat k) s Q ↔ if s.cursor.check k then Q true s.next else Q false s := by
  simp only [eat, answers_bind, answers_check]
  by_cases h : s.cursor.check k = true
  · simp only [h, if_true, answers_bind, answers_advance, answers_pure]
  · simp only [h, Bool.false_eq_true, if_false, answers_pure]

theorem answers_expect {k : TokenKind} {expected : String} {m : Mark} {ms : List Mark} (h : s.cursor.ahead = m :: ms)
    (hk : m.token.kind = k) {Q : Token → ParseState → Prop} : Answers (expect k expected) s Q ↔ Q m.token s.next := by
  have hexpect : s.cursor.expect k expected = .ok m.token := by simp [Cursor.expect, Cursor.current?, h, hk]
  simp only [expect, answers_bind, answers_cursor, hexpect, answers_advance, answers_pure]

/-! ### Loops -/

/-- A loop ends with an answer when every round but the last consumes something. -/
theorem Answers.rounds {step : σ → Parser (Round σ β)} {I : σ → ParseState → Prop} {Q : β → ParseState → Prop}
    (hstep : ∀ x s, I x s → (step x).Answers s fun r t =>
      match r with
      | .again y => I y t ∧ t.cursor.ahead.length < s.cursor.ahead.length
      | .done b => Q b t)
    {budget : Nat} {x : σ} {s : ParseState} (hx : I x s) (hbudget : s.cursor.ahead.length < budget) :
    (rounds step budget x).Answers s Q := by
  induction budget generalizing x s with
  | zero => exact absurd hbudget (Nat.not_lt_zero _)
  | succ budget ih =>
    simp only [Parser.rounds, answers_bind]
    refine (hstep x s hx).mono fun r t hr => ?_
    cases r with
    | again y => exact ih hr.1 (Nat.lt_of_lt_of_le hr.2 (Nat.le_of_lt_succ hbudget))
    | done b => simpa using hr

theorem Answers.loop {step : σ → Parser (Round σ β)} {I : σ → ParseState → Prop} {Q : β → ParseState → Prop}
    (hstep : ∀ x s, I x s → (step x).Answers s fun r t =>
      match r with
      | .again y => I y t ∧ t.cursor.ahead.length < s.cursor.ahead.length
      | .done b => Q b t)
    {x : σ} {s : ParseState} (hx : I x s) : (Parser.loop step x).Answers s Q := by
  simp only [Parser.loop, answers_bind, answers_cursor]
  exact Answers.rounds hstep hx (Nat.lt_succ_self _)

end Parser

end Graft
