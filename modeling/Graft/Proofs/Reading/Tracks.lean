/-
Two runs of a parser, on one text in two places.

A transport says how the offsets and the ids that a parser sees are relocated from the first place to the second.  A
parser tracks another one when, from states that the transport links, both answer or both fail in one way, and their answers
and the states behind them are linked again.

* `Tracks.bind`, `Tracks.ite` — the monad;
* `Tracks.fresh`, `Tracks.expect`, `Tracks.skipGroup`, … — looking and consuming;
* `Tracks.loop`, `Sends.manyUntil`, `Tracks.sepByComma` — loops.
-/
import Graft.Parse.Parser
import Graft.Proofs.Tree.Relocation

namespace Graft

/-! ### Transports -/

/-- How what a parser sees is relocated. -/
structure Transport where
  map : Relocation
  offset : Nat → Nat
  /-- The offsets that are seen. -/
  Seen : Nat → Prop
  /-- The spans that errors point at. -/
  Spot : Span → Prop
  /-- The first id that may be drawn. -/
  base : NodeId
  span_eq {x y : Nat} : Seen x → Seen y → map.span ⟨x, y⟩ = ⟨offset x, offset y⟩
  id_succ {i : NodeId} : base ≤ i → map.id (i + 1) = map.id i + 1

namespace Transport

/-- An offset that is seen, in both places. -/
def At (T : Transport) (x y : Nat) : Prop := T.Seen x ∧ y = T.offset x

theorem At.span {T : Transport} {x x' y y' : Nat} (h : T.At x y) (h' : T.At x' y') :
    (⟨y, y'⟩ : Span) = T.map.span ⟨x, x'⟩ := by
  rw [T.span_eq h.1 h'.1, h.2, h'.2]

/-- The token in the second place. -/
def token (T : Transport) (t : Token) : Token := { t with start := T.offset t.start }

/-- The error in the second place. -/
def error (T : Transport) (e : ParseError) : ParseError := ⟨e.kind, T.map.span e.span⟩

/-- The ends of the token are seen, and so is where the name of a variable begins; errors may point at it. -/
structure Sees (T : Transport) (t : Token) : Prop where
  start : T.Seen t.start
  stop : T.At t.stop (T.token t).stop
  name : t.kind = .varName → T.At (t.start + 1) (T.offset t.start + 1)
  spot : T.Spot t.span

theorem Sees.span {T : Transport} {t : Token} (h : T.Sees t) : (T.token t).span = T.map.span t.span :=
  At.span ⟨h.start, rfl⟩ h.stop

/-- The mark in the second place. -/
def mark (T : Transport) (m : Mark) : Mark := ⟨T.token m.token, T.offset m.lead⟩

/-- One cursor in both places. -/
structure Cursors (T : Transport) (c d : Cursor) : Prop where
  ahead : d.ahead = c.ahead.map T.mark
  sees : ∀ m ∈ c.ahead, T.Sees m.token ∧ T.Seen m.lead
  prevEnd : T.At c.prevEnd d.prevEnd
  eof : T.At c.eof d.eof
  spot : T.Spot (.point c.eof)

namespace Cursors

variable {T : Transport} {c d : Cursor}

theorem current? (h : T.Cursors c d) : d.current? = c.current?.map T.token := by
  simp only [Cursor.current?, h.ahead, List.head?_map, Option.map_map]
  rfl

theorem kind? (h : T.Cursors c d) : d.kind? = c.kind? := by
  simp only [Cursor.kind?, h.current?, Option.map_map]
  rfl

theorem text (h : T.Cursors c d) : d.text = c.text := by
  simp only [Cursor.text, h.current?, Option.map_map]
  rfl

theorem atEnd (h : T.Cursors c d) : d.atEnd = c.atEnd := by
  simp only [Cursor.atEnd, h.ahead, List.isEmpty_map]

theorem check (h : T.Cursors c d) (k : TokenKind) : d.check k = c.check k := by
  simp only [Cursor.check, h.kind?]

theorem checkWord (h : T.Cursors c d) (w : String) : d.checkWord w = c.checkWord w := by
  simp only [Cursor.checkWord, h.check, h.text]

theorem peek? (h : T.Cursors c d) (n : Nat) : d.peek? n = c.peek? n := by
  simp only [Cursor.peek?, h.ahead, List.getElem?_map, Option.map_map]
  rfl

theorem length (h : T.Cursors c d) : d.ahead.length = c.ahead.length := by
  rw [h.ahead, List.length_map]

theorem here (h : T.Cursors c d) : T.At c.span.start d.span.start := by
  simp only [Cursor.span, h.current?]
  cases hc : c.ahead with
  | nil =>
    simp only [Cursor.current?, hc, List.head?_nil, Option.map_none, Option.getD_none]
    exact h.eof
  | cons m ms =>
    simp only [Cursor.current?, hc, List.head?_cons, Option.map_some, Option.getD_some]
    exact ⟨(h.sees m (by simp [hc])).1.start, rfl⟩

/-- The span of the current token is relocated, and an error may point at it. -/
theorem span_spot (h : T.Cursors c d) : d.span = T.map.span c.span ∧ T.Spot c.span := by
  simp only [Cursor.span, h.current?]
  cases hc : c.ahead with
  | nil =>
    simp only [Cursor.current?, hc, List.head?_nil, Option.map_none, Option.getD_none]
    exact ⟨h.eof.span h.eof, h.spot⟩
  | cons m ms =>
    have hm := (h.sees m (by simp [hc])).1
    simp only [Cursor.current?, hc, List.head?_cons, Option.map_some, Option.getD_some]
    exact ⟨hm.span, hm.spot⟩

theorem span (h : T.Cursors c d) : d.span = T.map.span c.span := h.span_spot.1

/-- A token that does not fit is reported at its span. -/
theorem unexpected (h : T.Cursors c d) (expected : String) :
    d.unexpected expected = T.error (c.unexpected expected) ∧ T.Spot (c.unexpected expected).span := by
  have hspan : ∀ c : Cursor, (c.unexpected expected).span = c.span := by
    intro c
    rw [Cursor.unexpected, Cursor.span]
    cases c.current? <;> rfl
  have hkind : (d.unexpected expected).kind = (c.unexpected expected).kind := by
    rw [Cursor.unexpected, Cursor.unexpected, h.current?]
    cases c.current? <;> rfl
  refine ⟨?_, by rw [hspan]; exact h.span_spot.2⟩
  calc d.unexpected expected
      = ⟨(d.unexpected expected).kind, (d.unexpected expected).span⟩ := rfl
    _ = T.error (c.unexpected expected) := by rw [hkind, hspan, h.span, error, hspan]

theorem leadStart (h : T.Cursors c d) : T.At c.leadStart d.leadStart := by
  simp only [Cursor.leadStart, h.ahead]
  cases hc : c.ahead with
  | nil => exact h.eof
  | cons m ms => exact ⟨(h.sees m (by simp [hc])).2, rfl⟩

theorem advance (h : T.Cursors c d) : T.Cursors c.advance d.advance := by
  cases hc : c.ahead with
  | nil =>
    have hd : d.ahead = [] := by rw [h.ahead, hc, List.map_nil]
    simpa only [Cursor.advance, hc, hd] using h
  | cons m ms =>
    have hd : d.ahead = T.mark m :: ms.map T.mark := by rw [h.ahead, hc, List.map_cons]
    simp only [Cursor.advance, hc, hd]
    exact ⟨rfl, fun n hn => h.sees n (by simp [hc, hn]), (h.sees m (by simp [hc])).1.stop, h.eof, h.spot⟩

theorem skip (h : T.Cursors c d) (n : Nat) : T.Cursors (Cursor.skip n c) (Cursor.skip n d) := by
  induction n generalizing c d with
  | zero => exact h
  | succ n ih => exact ih h.advance

end Cursors

/-! ### Bracketed groups -/

variable {T : Transport}

/-- The open brackets in the second place. -/
def pending (T : Transport) (ps : List (TokenKind × Span)) : List (TokenKind × Span) :=
  ps.map fun p => (p.1, T.map.span p.2)

/-- The same brackets are open in both places. -/
theorem nest?_token {t : Token} (ht : T.Sees t) (ps : List (TokenKind × Span)) :
    Cursor.nest? (T.pending ps) (T.token t) = (Cursor.nest? ps t).map T.pending := by
  have hkind : (T.token t).kind = t.kind := rfl
  simp only [Cursor.nest?, hkind]
  cases Cursor.closerOf? t.kind with
  | some closer => simp [pending, ht.span]
  | none =>
    by_cases hc : Cursor.isCloser t.kind = true
    · simp only [hc, if_true]
      cases ps with
      | nil => rfl
      | cons p ps =>
        simp only [pending, List.map_cons]
        split <;> rfl
    · simp [hc]

/-- Errors may point at the brackets that are open. -/
theorem spot_nest? {t : Token} (ht : T.Sees t) {ps qs : List (TokenKind × Span)} (hps : ∀ p ∈ ps, T.Spot p.2)
    (h : Cursor.nest? ps t = some qs) : ∀ q ∈ qs, T.Spot q.2 := by
  unfold Cursor.nest? at h
  split at h
  · cases h
    exact List.forall_mem_cons.2 ⟨ht.spot, hps⟩
  · split at h
    · split at h
      · split at h
        · cases h
          exact (List.forall_mem_cons.1 hps).2
        · cases h
      · cases h
    · cases h
      exact hps

/-- A group ends behind as many tokens in both places, or is broken at one of them. -/
theorem closeGroup_mark {eof eof' : Nat} (heof : T.At eof eof') (ps : List (TokenKind × Span)) {ms : List Mark}
    (hms : ∀ m ∈ ms, T.Sees m.token) : Cursor.closeGroup eof' (T.pending ps) (ms.map T.mark) =
      ((Cursor.closeGroup eof ps ms).1, (Cursor.closeGroup eof ps ms).2.map T.error) := by
  induction ms generalizing ps with
  | nil =>
    cases ps with
    | nil => exact congrArg (fun s => (0, some (ParseError.mk (.unclosed .lParen) s))) (heof.span heof)
    | cons p ps => rfl
  | cons m ms ih =>
    obtain ⟨hm, hms⟩ := List.forall_mem_cons.1 hms
    have htoken : (T.mark m).token = T.token m.token := rfl
    have hkind : (T.token m.token).kind = m.token.kind := rfl
    simp only [List.map_cons, Cursor.closeGroup, htoken, nest?_token hm, hkind]
    cases Cursor.nest? ps m.token with
    | none => simp [error, hm.span]
    | some qs =>
      cases qs with
      | nil => rfl
      | cons q qs =>
        have h := ih (q :: qs) hms
        simp only [Option.map_some, pending, List.map_cons] at h ⊢
        rw [h]

/-- An error of a group points at one of its brackets or at the end. -/
theorem spot_closeGroup {eof : Nat} (heof : T.Spot (.point eof)) {ps : List (TokenKind × Span)}
    (hps : ∀ p ∈ ps, T.Spot p.2) {ms : List Mark} (hms : ∀ m ∈ ms, T.Sees m.token) {e : ParseError}
    (h : (Cursor.closeGroup eof ps ms).2 = some e) : T.Spot e.span := by
  induction ms generalizing ps with
  | nil =>
    cases ps with
    | nil => cases h; exact heof
    | cons p ps => cases h; exact hps p List.mem_cons_self
  | cons m ms ih =>
    obtain ⟨hm, hms⟩ := List.forall_mem_cons.1 hms
    simp only [Cursor.closeGroup] at h
    split at h
    · cases h
      exact hm.spot
    · cases h
    · rename_i q qs hnest
      exact ih (spot_nest? hm hps hnest) hms h

/-! ### States and answers -/

/-- One state in both places. -/
structure States (T : Transport) (s t : ParseState) : Prop where
  cursor : T.Cursors s.cursor t.cursor
  base_le : T.base ≤ s.nextId
  nextId : t.nextId = T.map.id s.nextId

/-- Two answers that are linked, or one error in both places. -/
inductive Answers {α β : Type} (T : Transport) (R : α → β → Prop) :
    EStateM.Result ParseError ParseState α → EStateM.Result ParseError ParseState β → Prop where
  | ok {a : α} {b : β} {s t : ParseState} (h : R a b) (hst : T.States s t) : Answers T R (.ok a s) (.ok b t)
  | error {e : ParseError} {s t : ParseState} (h : T.Spot e.span) (hst : T.States s t) :
    Answers T R (.error e s) (.error (T.error e) t)

end Transport

namespace Parser

variable {T : Transport} {α β γ δ : Type}

/-- From linked states, `p` and `q` both answer or fail with one error, and their answers are linked by `R`. -/
def Tracks (T : Transport) (R : α → β → Prop) (p : Parser α) (q : Parser β) : Prop :=
  ∀ s t, T.States s t → T.Answers R (p.run s) (q.run t)

/-- From linked states, `p` answers alike, up to `f`. -/
abbrev Sends (T : Transport) (f : α → α) (p : Parser α) : Prop := Tracks T (fun a b => b = f a) p p

namespace Tracks

variable {R : α → β → Prop} {Q : γ → δ → Prop} {p p' : Parser α} {q q' : Parser β}

/-! ### The monad -/

theorem mono {R' : α → β → Prop} (h : Tracks T R p q) (hR : ∀ a b, R a b → R' a b) : Tracks T R' p q := by
  intro s t hst
  have h := h s t hst
  generalize p.run s = r at h
  generalize q.run t = r' at h
  cases h with
  | ok hab hst => exact .ok (hR _ _ hab) hst
  | error he hst => exact .error he hst

theorem pure {a : α} {b : β} (h : R a b) : Tracks T R (pure a) (pure b) := fun _ _ hst => .ok h hst

theorem bind {f : α → Parser γ} {g : β → Parser δ} (h : Tracks T R p q) (hfg : ∀ a b, R a b → Tracks T Q (f a) (g b)) :
    Tracks T Q (p >>= f) (q >>= g) := by
  intro s t hst
  have h := h s t hst
  rw [EStateM.run_bind, EStateM.run_bind]
  generalize p.run s = r at h
  generalize q.run t = r' at h
  cases h with
  | ok hab hst => exact hfg _ _ hab _ _ hst
  | error he hst => exact .error he hst

theorem map {f : α → γ} {g : β → δ} (h : Tracks T R p q) (hfg : ∀ a b, R a b → Q (f a) (g b)) :
    Tracks T Q (f <$> p) (g <$> q) := by
  rw [map_eq_pure_bind, map_eq_pure_bind]
  exact h.bind fun a b hab => .pure (hfg a b hab)

theorem discard (h : Tracks T R p q) : Tracks T Eq (discard p) (discard q) :=
  h.map fun _ _ _ => rfl

theorem throw {e e' : ParseError} (he : e' = T.error e) (hspot : T.Spot e.span) :
    Tracks T R (throw e) (throw e') := by
  subst he
  exact fun _ _ hst => .error hspot hst

theorem ite {c : Prop} [Decidable c] (hp : c → Tracks T R p q) (hq : ¬c → Tracks T R p' q') :
    Tracks T R (if c then p else p') (if c then q else q') := by
  split
  · exact hp ‹_›
  · exact hq ‹_›

/-! ### Branches that meet again -/

section Branches

variable {c : Prop} [Decidable c] {k : α → Parser γ} {k' : β → Parser δ}

theorem join (hp : c → Tracks T R p q) (hq : ¬c → Tracks T R p' q') (hk : ∀ a b, R a b → Tracks T Q (k a) (k' b)) :
    Tracks T Q (if c then p >>= k else p' >>= k) (if c then q >>= k' else q' >>= k') :=
  .ite (fun h => (hp h).bind hk) fun h => (hq h).bind hk

theorem join_bind {ε : Type} {l : Parser ε} {r : ε → Parser α} {r' : ε → Parser β} (hp : c → Tracks T R p q)
    (hq : ¬c → Tracks T Eq l l) (hr : ∀ x, Tracks T R (r x) (r' x)) (hk : ∀ a b, R a b → Tracks T Q (k a) (k' b)) :
    Tracks T Q (if c then p >>= k else l >>= fun x => r x >>= k)
      (if c then q >>= k' else l >>= fun x => r' x >>= k') := by
  refine .ite (fun h => (hp h).bind hk) fun h => (hq h).bind ?_
  rintro x _ rfl
  exact (hr x).bind hk

theorem join_pure {a : α} {b : β} (hp : c → Tracks T R p q) (hab : R a b)
    (hk : ∀ a b, R a b → Tracks T Q (k a) (k' b)) :
    Tracks T Q (if c then p >>= k else k a) (if c then q >>= k' else k' b) :=
  .ite (fun h => (hp h).bind hk) fun _ => hk a b hab

theorem pure_join {a : α} {b : β} (hab : R a b) (hq : ¬c → Tracks T R p q)
    (hk : ∀ a b, R a b → Tracks T Q (k a) (k' b)) :
    Tracks T Q (if c then k a else p >>= k) (if c then k' b else q >>= k') :=
  .ite (fun _ => hk a b hab) fun h => (hq h).bind hk

end Branches

/-! ### Looking -/

theorem cursor : Tracks T T.Cursors cursor cursor := fun _ _ hst => .ok hst.cursor hst

theorem moveTo {c d : Cursor} (h : T.Cursors c d) : Tracks T Eq (moveTo c) (moveTo d) :=
  fun _ _ hst => .ok rfl ⟨h, hst.base_le, hst.nextId⟩

theorem fresh : Tracks T (fun i j => j = T.map.id i) fresh fresh :=
  fun _ _ hst => .ok hst.nextId
    ⟨hst.cursor, Nat.le_succ_of_le hst.base_le, by rw [T.id_succ hst.base_le, hst.nextId]⟩

theorem check (k : TokenKind) : Tracks T Eq (check k) (check k) :=
  cursor.bind fun _ _ h => .pure (h.check k).symm

theorem checkWord (w : String) : Tracks T Eq (checkWord w) (checkWord w) :=
  cursor.bind fun _ _ h => .pure (h.checkWord w).symm

theorem atEnd : Tracks T Eq atEnd atEnd := cursor.bind fun _ _ h => .pure h.atEnd.symm

theorem kind? : Tracks T Eq kind? kind? := cursor.bind fun _ _ h => .pure h.kind?.symm

theorem peek? (n : Nat) : Tracks T Eq (peek? n) (peek? n) := cursor.bind fun _ _ h => .pure (h.peek? n).symm

theorem here : Tracks T T.At here here := cursor.bind fun _ _ h => .pure h.here

theorem leadStart : Tracks T T.At leadStart leadStart := cursor.bind fun _ _ h => .pure h.leadStart

theorem prevEnd : Tracks T T.At prevEnd prevEnd := cursor.bind fun _ _ h => .pure h.prevEnd

/-- The span ends where the last token did. -/
theorem spanFrom {x y : Nat} (h : T.At x y) :
    Tracks T (fun s t => t = T.map.span s ∧ T.At s.start t.start ∧ T.At s.stop t.stop) (spanFrom x) (spanFrom y) :=
  prevEnd.bind fun _ _ h' => .pure ⟨h.span h', h, h'⟩

theorem unexpected (expected : String) : Tracks T R (unexpected expected) (unexpected expected) :=
  cursor.bind fun _ _ h => .throw (h.unexpected expected).1 (h.unexpected expected).2

/-! ### Consuming -/

theorem advance : Tracks T Eq advance advance := cursor.bind fun _ _ h => moveTo h.advance

theorem eat (k : TokenKind) : Tracks T Eq (eat k) (eat k) := by
  refine (check k).bind ?_
  rintro found _ rfl
  refine .ite (fun _ => advance.bind fun _ _ _ => .pure rfl) fun _ => .pure rfl

theorem eatWord (w : String) : Tracks T Eq (eatWord w) (eatWord w) := by
  refine (checkWord w).bind ?_
  rintro found _ rfl
  refine .ite (fun _ => advance.bind fun _ _ _ => .pure rfl) fun _ => .pure rfl

/-- The token that is expected is the same in both places. -/
theorem expect (k : TokenKind) (expected : String) :
    Tracks T (fun t u => u = T.token t ∧ T.Sees t ∧ t.kind = k) (expect k expected) (expect k expected) := by
  refine cursor.bind fun c d h => ?_
  obtain ⟨herror, hspot⟩ := h.unexpected expected
  simp only [Cursor.expect, h.current?]
  cases hc : c.ahead with
  | nil =>
    simp only [Cursor.current?, hc, List.head?_nil, Option.map_none]
    exact .throw herror hspot
  | cons m ms =>
    have hkind : (T.token m.token).kind = m.token.kind := rfl
    simp only [Cursor.current?, hc, List.head?_cons, Option.map_some, hkind]
    by_cases hk : m.token.kind = k
    · simp only [hk, if_true]
      exact advance.bind fun _ _ _ => .pure ⟨rfl, (h.sees m (by simp [hc])).1, hk⟩
    · simp only [hk, if_false]
      exact .throw herror hspot

theorem skipGroup : Tracks T (fun s t => t = T.map.span s) skipGroup skipGroup := by
  refine cursor.bind fun c d h => ?_
  have hsees : ∀ m ∈ c.ahead, T.Sees m.token := fun m hm => (h.sees m hm).1
  have hgroup : Cursor.closeGroup d.eof [] d.ahead = _ := h.ahead ▸ T.closeGroup_mark h.eof [] hsees
  have hspot : ∀ e, (Cursor.closeGroup c.eof [] c.ahead).2 = some e → T.Spot e.span :=
    fun _ => T.spot_closeGroup h.spot (List.forall_mem_nil _) hsees
  simp only [Cursor.skipGroup, hgroup]
  generalize Cursor.closeGroup c.eof [] c.ahead = r at hspot
  obtain ⟨n, e⟩ := r
  have hskip := h.skip n
  cases e with
  | none => exact (moveTo hskip).bind fun _ _ _ => .pure (h.here.span hskip.prevEnd)
  | some e => exact (moveTo hskip).bind fun _ _ _ => .throw rfl (hspot e rfl)

/-! ### Loops -/

/-- Two rounds that end alike. -/
inductive Rounds {σ τ : Type} (I : σ → τ → Prop) (R : α → β → Prop) : Round σ α → Round τ β → Prop where
  | again {x : σ} {y : τ} (h : I x y) : Rounds I R (.again x) (.again y)
  | done {a : α} {b : β} (h : R a b) : Rounds I R (.done a) (.done b)

/-- Loops whose rounds end alike answer alike. -/
theorem loop {σ τ : Type} {I : σ → τ → Prop} {step : σ → Parser (Round σ α)} {step' : τ → Parser (Round τ β)}
    (hstep : ∀ x y, I x y → Tracks T (Rounds I R) (step x) (step' y)) {x : σ} {y : τ} (hxy : I x y) :
    Tracks T R (loop step x) (loop step' y) := by
  refine cursor.bind fun c d h => ?_
  rw [h.length]
  generalize c.ahead.length + 1 = budget
  induction budget generalizing x y with
  | zero => exact cursor.bind fun _ _ h => .throw (congrArg _ h.span_spot.1) h.span_spot.2
  | succ budget ih =>
    refine (hstep x y hxy).bind fun r r' hr => ?_
    cases hr with
    | again h => exact ih h
    | done h => exact .pure h

theorem skipUntil {b : Parser Bool} {step : Parser Unit} (hb : Tracks T Eq b b)
    (hstep : Tracks T Eq step step) : Tracks T Eq (skipUntil b step) (skipUntil b step) := by
  refine loop (I := fun _ _ => True) (fun _ _ _ => hb.bind ?_) trivial
  rintro done _ rfl
  exact .ite (fun _ => .pure (.done rfl)) fun _ => hstep.bind fun _ _ _ => .pure (.again trivial)

/-- More results behind commas, of each of which `P` holds. -/
theorem moreByComma {f : α → α} {p : Parser α} {P : α → Prop} (h : Tracks T (fun a b => b = f a ∧ P a) p p)
    {as bs : List α} (hbs : bs = as.map f ∧ ∀ a ∈ as, P a) :
    Tracks T (fun as bs => bs = as.map f ∧ ∀ a ∈ as, P a)
      (Parser.loop (fun found => do
        if ← Parser.eat .comma then return .again (found ++ [← p])
        return .done found) as)
      (Parser.loop (fun found => do
        if ← Parser.eat .comma then return .again (found ++ [← p])
        return .done found) bs) := by
  refine loop (I := fun as bs => bs = as.map f ∧ ∀ a ∈ as, P a) (fun as bs hbs => (eat .comma).bind ?_) hbs
  rintro comma _ rfl
  refine .ite (fun _ => h.bind fun a b hb => .pure (.again ⟨?_, ?_⟩)) fun _ => .pure (.done hbs)
  · rw [hbs.1, hb.1, List.map_append, List.map_singleton]
  · intro c hc
    rcases List.mem_append.1 hc with hc | hc
    · exact hbs.2 c hc
    · rw [List.mem_singleton.1 hc]
      exact hb.2

theorem sepByComma {f : α → α} {p : Parser α} {P : α → Prop} (h : Tracks T (fun a b => b = f a ∧ P a) p p) :
    Tracks T (fun as bs => bs = as.map f ∧ ∀ a ∈ as, P a) (Parser.sepByComma p) (Parser.sepByComma p) := by
  refine h.bind fun a b hb => moreByComma h ⟨?_, fun c hc => ?_⟩
  · rw [hb.1, List.map_singleton]
  · rw [List.mem_singleton.1 hc]
    exact hb.2

end Tracks

namespace Sends

variable {f : α → α} {p : Parser α}

theorem some (h : Sends T f p) : Sends T (Option.map f) (Option.some <$> p : Parser (Option α)) :=
  h.map fun _ _ hab => congrArg Option.some hab

theorem manyUntil {finished : Parser Bool} (hfinished : Tracks T Eq finished finished) (h : Sends T f p) :
    Sends T (List.map f) (manyUntil finished p) := by
  refine Tracks.loop (I := fun as bs => bs = as.map f) (fun as bs hbs => hfinished.bind ?_) rfl
  rintro done _ rfl
  refine .ite (fun _ => .pure (.done hbs)) fun _ => h.bind fun a b hb => .pure (.again ?_)
  rw [hbs, hb, List.map_append, List.map_singleton]

theorem sepByComma (h : Sends T f p) : Sends T (List.map f) (sepByComma p) :=
  (Tracks.sepByComma (P := fun _ => True) (h.mono fun _ _ hb => ⟨hb, trivial⟩)).mono fun _ _ hb => hb.1

end Sends

end Parser

end Graft
