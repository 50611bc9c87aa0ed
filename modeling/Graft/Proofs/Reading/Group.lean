/-
The group that a bracket opens.

Whether a group is closed, where it ends and what is wrong with one that is not are said of the tokens alone here,
without a stack: by the prefixes whose brackets are nested, and by the innermost bracket that is open, behind which
everything that opens is closed again.  The stack of the cursor is what connects the two: it is there as long as no
bracket was closed that is not the innermost one, and then its top is the innermost bracket.

* `Innermost`, `StrayAt` — the innermost open bracket, and a closing bracket that does not match it;
* `opened?` — the stack behind tokens, with `nested_iff_opened?`, `exists_innermost` and `strayAt_iff`;
* `closeGroup_cases` — the three ways a group is consumed;
* `Cursor.skipGroup_spec` — a cursor on an opening bracket consumes the shortest nested prefix, or reports the first
  stray bracket, or else the innermost one that is open at the end.
-/
import Graft.Proofs.Reading.Steps
import Graft.Proofs.Reading.Source
import Mathlib.Data.List.Induction
import Mathlib.Order.Bounds.Basic
import Mathlib.Order.Nat

namespace Graft

open Cursor (closerOf? isOpener isCloser openerOf nest? closeGroup)

/-! ### Groups among tokens -/

/-- The first `n` tokens, at least one, have nested brackets. -/
def ClosedAt (ts : List Token) (n : Nat) : Prop := 0 < n ∧ n ≤ ts.length ∧ Nested (brackets (ts.take n))

/-- The innermost bracket that is open behind `ts` is `o`: what opens behind it is closed. -/
def Innermost (ts : List Token) (o : Token) : Prop :=
  ∃ before inner, ts = before ++ o :: inner ∧ isOpener o.kind = true ∧ Nested (brackets inner)

/-- The token at `n` closes a bracket that does not match the innermost open one, or there is none that is open. -/
def StrayAt (ts : List Token) (n : Nat) : Prop :=
  ∃ t, ts[n]? = some t ∧ isCloser t.kind = true ∧ ∀ o, Innermost (ts.take n) o → closerOf? o.kind ≠ some t.kind

/-! ### The stack behind tokens -/

/-- The brackets that are open behind tokens, the innermost first; nothing when one was closed that is not innermost. -/
def opened? (ts : List Token) : Option (List (TokenKind × Span)) := ts.foldlM nest? []

section Stack

variable {pending p q : List (TokenKind × Span)} {b : TokenKind × Span} {ts us : List Token} {t o : Token} {n : Nat}

theorem opened?_append (ts us : List Token) : opened? (ts ++ us) = (opened? ts).bind fun p => us.foldlM nest? p :=
  List.foldlM_append

theorem opened?_snoc (ts : List Token) (t : Token) : opened? (ts ++ [t]) = (opened? ts).bind fun p => nest? p t := by
  rw [opened?_append]
  congr 1
  funext p
  exact List.foldlM_cons.trans (by simp)

/-- Tokens that close the top of a stack leave the rest of it. -/
theorem foldlM_nest?_of_closesAll (h : closesAll (p.map Prod.fst) (brackets ts) = true) (q : List (TokenKind × Span)) :
    ts.foldlM nest? (p ++ q) = some q := by
  induction ts generalizing p with
  | nil =>
    have hnil : p = [] := by simpa [brackets] using h
    rw [hnil]
    rfl
  | cons t ts ih =>
    rw [brackets_cons] at h
    obtain ⟨p', hnest⟩ := exists_nest? h
    rw [closesAll_of_nest? hnest] at h
    rw [List.foldlM_cons, nest?_append hnest]
    exact ih h

theorem closesAll_of_foldlM_nest? (h : ts.foldlM nest? p = some q) (ks : List TokenKind) :
    closesAll (p.map Prod.fst) (brackets ts ++ ks) = closesAll (q.map Prod.fst) ks := by
  induction ts generalizing p with
  | nil =>
    cases h
    rfl
  | cons t ts ih =>
    rw [List.foldlM_cons, Option.bind_eq_bind, Option.bind_eq_some_iff] at h
    obtain ⟨p', hnest, hrest⟩ := h
    rw [brackets_cons, List.append_assoc, closesAll_of_nest? hnest]
    exact ih hrest

/-- Nested brackets are those that leave nothing open. -/
theorem nested_iff_opened? : Nested (brackets ts) ↔ opened? ts = some [] := by
  constructor
  · intro h
    exact foldlM_nest?_of_closesAll (p := []) (nested_iff.1 h) []
  · intro h
    have hclosed := closesAll_of_foldlM_nest? h []
    rw [List.append_nil] at hclosed
    exact nested_iff.2 hclosed

/-- Each entry of the stack is a bracket that was opened; what is above it was opened behind it. -/
theorem exists_of_opened? (h : opened? ts = some (p ++ b :: q)) : ∃ before o inner, ts = before ++ o :: inner ∧
    closerOf? o.kind = some b.1 ∧ o.span = b.2 ∧ opened? inner = some p := by
  induction ts using List.reverseRecOn generalizing p with
  | nil =>
    have hnil : [] = p ++ b :: q := Option.some.inj h
    cases p <;> cases hnil
  | append_singleton ts t ih =>
    rw [opened?_snoc, Option.bind_eq_some_iff] at h
    obtain ⟨r, hr, hnest⟩ := h
    -- Whatever the last token does to the stack, it does to what is above the entry.
    have behind : ∀ {p'}, r = p' ++ b :: q → nest? p' t = some p → ∃ before o inner, ts ++ [t] = before ++ o :: inner ∧
        closerOf? o.kind = some b.1 ∧ o.span = b.2 ∧ opened? inner = some p := by
      rintro p' rfl hp'
      obtain ⟨before, o, inner, rfl, hc, hspan, hinner⟩ := ih hr
      refine ⟨before, o, inner ++ [t], by simp, hc, hspan, ?_⟩
      rw [opened?_snoc, hinner]
      exact hp'
    cases hopen : closerOf? t.kind with
    | some c =>
      rw [nest?_opener hopen, Option.some.injEq] at hnest
      cases p with
      | nil =>
        obtain ⟨rfl, rfl⟩ := List.cons.inj hnest
        exact ⟨ts, t, [], rfl, hopen, rfl, rfl⟩
      | cons a p =>
        obtain ⟨rfl, hr'⟩ := List.cons.inj hnest
        exact behind hr' (nest?_opener hopen p)
    | none =>
      cases hclose : isCloser t.kind with
      | true =>
        cases r with
        | nil =>
          rw [nest?_nil_closer hclose] at hnest
          cases hnest
        | cons a r =>
          rw [nest?_closer hclose, Option.ite_none_right_eq_some, Option.some.injEq] at hnest
          have hstack : a :: r = (a :: p) ++ b :: q := by rw [hnest.2, List.cons_append]
          refine behind hstack ?_
          rw [nest?_closer hclose, if_pos hnest.1]
      | false =>
        have hplain : t.kind.isBracket = false := by simp [TokenKind.isBracket, isOpener, hopen, hclose]
        rw [nest?_plain hplain, Option.some.injEq] at hnest
        exact behind hnest (nest?_plain hplain p)

/-- The innermost open bracket is on top of the stack. -/
theorem Innermost.top (ho : Innermost ts o) (h : opened? ts = some q) :
    ∃ c p, closerOf? o.kind = some c ∧ q = (c, o.span) :: p := by
  obtain ⟨before, inner, rfl, hopen, hinner⟩ := ho
  obtain ⟨c, hc⟩ := Option.isSome_iff_exists.1 hopen
  rw [opened?_append, Option.bind_eq_some_iff] at h
  obtain ⟨p, hp, hrest⟩ := h
  rw [List.foldlM_cons, nest?_opener hc] at hrest
  have htop := foldlM_nest?_of_closesAll (p := []) (nested_iff.1 hinner) ((c, o.span) :: p)
  exact ⟨c, p, hc, Option.some.inj (hrest.symm.trans htop)⟩

/-- What is on top of the stack is the innermost open bracket. -/
theorem exists_innermost (h : opened? ts = some (b :: q)) :
    ∃ o, Innermost ts o ∧ closerOf? o.kind = some b.1 ∧ o.span = b.2 := by
  obtain ⟨before, o, inner, rfl, hc, hspan, hinner⟩ := exists_of_opened? (p := []) h
  exact ⟨o, ⟨before, inner, rfl, by rw [isOpener, hc]; rfl, nested_iff_opened?.2 hinner⟩, hc, hspan⟩

/-- As long as there is a stack, a stray token is one that the stack does not take. -/
theorem strayAt_iff (h : opened? (ts.take n) = some q) :
    StrayAt ts n ↔ ∃ t, ts[n]? = some t ∧ nest? q t = none := by
  refine exists_congr fun t => and_congr_right fun _ => ?_
  constructor
  · rintro ⟨hclose, hne⟩
    cases q with
    | nil => exact nest?_nil_closer hclose
    | cons b q =>
      obtain ⟨o, ho, hc, -⟩ := exists_innermost h
      have hb : b.1 ≠ t.kind := fun heq => hne o ho (by rw [hc, heq])
      rw [nest?_closer hclose, if_neg hb]
  · intro hnest
    have hopen : closerOf? t.kind = none := by
      cases hopen : closerOf? t.kind with
      | none => rfl
      | some c =>
        rw [nest?_opener hopen] at hnest
        cases hnest
    have hclose : isCloser t.kind = true := by
      cases hclose : isCloser t.kind with
      | true => rfl
      | false =>
        rw [nest?_plain (by simp [TokenKind.isBracket, isOpener, hopen, hclose])] at hnest
        cases hnest
    refine ⟨hclose, fun o ho hc => ?_⟩
    obtain ⟨c, p, hc', rfl⟩ := ho.top h
    obtain rfl : c = t.kind := Option.some.inj (hc'.symm.trans hc)
    rw [nest?_closer hclose, if_pos rfl] at hnest
    cases hnest

/-- Where there is a stack, nothing before is stray. -/
theorem not_strayAt_of_opened? (h : opened? (ts.take n) = some q) {m : Nat} (hm : m < n) : ¬StrayAt ts m := by
  intro hstray
  have ⟨t, ht, _⟩ := hstray
  have hsplit : ts.take n = ts.take m ++ t :: (ts.take n).drop (m + 1) := by
    have hlt : m < (ts.take n).length := by
      have := (List.getElem?_eq_some_iff.1 ht).1
      rw [List.length_take]
      omega
    have hget : (ts.take n)[m] = t := by
      rw [List.getElem_take]
      exact (List.getElem?_eq_some_iff.1 ht).2
    rw [← hget, ← List.drop_eq_getElem_cons hlt]
    have htake : ts.take m = (ts.take n).take m := by rw [List.take_take, Nat.min_eq_left (Nat.le_of_lt hm)]
    rw [htake, List.take_append_drop]
  rw [hsplit, opened?_append, Option.bind_eq_some_iff] at h
  obtain ⟨p, hp, hrest⟩ := h
  obtain ⟨u, hu, hnone⟩ := (strayAt_iff hp).1 hstray
  obtain rfl : t = u := Option.some.inj (ht.symm.trans hu)
  rw [List.foldlM_cons, hnone] at hrest
  cases hrest

end Stack

/-! ### The three ways a group is consumed -/

/-- What the tokens of marks do to a stack of open brackets tells how the group that is on the stack is consumed: up to
where the stack is empty for the first time, up to the first token that the stack does not take, or to the end. -/
theorem closeGroup_cases (eof : Nat) (b : TokenKind × Span) (p : List (TokenKind × Span)) (ms : List Mark) :
    let stack n := ((ms.take n).map Mark.token).foldlM nest? (b :: p)
    (∃ n ≤ ms.length, closeGroup eof (b :: p) ms = (n, none) ∧ stack n = some [] ∧ ∀ k < n, stack k ≠ some []) ∨
    (∀ k ≤ ms.length, stack k ≠ some []) ∧
      ((∃ n m q, ms[n]? = some m ∧ stack n = some q ∧ nest? q m.token = none ∧
          closeGroup eof (b :: p) ms = (n, some ⟨.mismatched m.token.kind, m.token.span⟩)) ∨
        ∃ c q, stack ms.length = some (c :: q) ∧
          closeGroup eof (b :: p) ms = (ms.length, some ⟨.unclosed (openerOf c.1), c.2⟩)) := by
  intro stack
  have hzero : stack 0 = some (b :: p) := rfl
  induction ms generalizing b p with
  | nil =>
    refine .inr ⟨fun k hk => ?_, .inr ⟨b, p, rfl, rfl⟩⟩
    rw [Nat.le_zero.1 hk, hzero]
    simp
  | cons m ms ih =>
    have hsucc : ∀ n, stack (n + 1) = (nest? (b :: p) m.token).bind fun r =>
        ((ms.take n).map Mark.token).foldlM nest? r := fun n => List.foldlM_cons
    -- A place is the first one, where the stack is not empty, or a place of the marks behind.
    have places : ∀ {P : Nat → Prop} {n}, P 0 → (∀ k < n, P (k + 1)) → ∀ k < n + 1, P k := by
      intro P n h0 h k hk
      cases k with
      | zero => exact h0
      | succ k => exact h k (Nat.lt_of_succ_lt_succ hk)
    have hfirst : stack 0 ≠ some [] := by
      rw [hzero]
      simp
    cases hnest : nest? (b :: p) m.token with
    | none =>
      have hnone : ∀ n, stack (n + 1) = none := fun n => by rw [hsucc, hnest]; rfl
      refine .inr ⟨fun k hk => ?_, .inl ⟨0, m, b :: p, rfl, hzero, hnest, by simp only [closeGroup, hnest]⟩⟩
      refine places (P := fun k => stack k ≠ some []) hfirst (fun k _ => ?_) k (Nat.lt_succ_of_le hk)
      rw [hnone]
      simp
    | some r =>
      rw [hnest] at hsucc
      cases r with
      | nil =>
        refine .inl ⟨1, by simp, by simp only [closeGroup, hnest], hsucc 0, fun k hk => ?_⟩
        rw [Nat.lt_one_iff.1 hk]
        exact hfirst
      | cons c r =>
        have hgo : closeGroup eof (b :: p) (m :: ms) =
            ((closeGroup eof (c :: r) ms).1 + 1, (closeGroup eof (c :: r) ms).2) := by
          simp only [closeGroup, hnest]
        rcases ih c r rfl with ⟨n, hn, hclose, hstack, hlt⟩ | ⟨hlt, hend⟩
        · refine .inl ⟨n + 1, Nat.succ_le_succ hn, by rw [hgo, hclose], (hsucc n).trans hstack, ?_⟩
          exact places hfirst fun k hk => by rw [hsucc]; exact hlt k hk
        · refine .inr ⟨fun k hk => ?_, ?_⟩
          · refine places (P := fun k => stack k ≠ some []) hfirst (fun k hk => ?_) k (Nat.lt_succ_of_le hk)
            rw [hsucc]
            exact hlt k (Nat.le_of_lt_succ hk)
          · rcases hend with ⟨n, m', q, hm', hstack, hnone, hclose⟩ | ⟨c', q, hstack, hclose⟩
            · exact .inl ⟨n + 1, m', q, hm', (hsucc n).trans hstack, hnone, by rw [hgo, hclose]⟩
            · exact .inr ⟨c', q, (hsucc ms.length).trans hstack, by rw [hgo, hclose, List.length_cons]⟩

section Opened

variable {o : Token} {k : TokenKind} {us : List Token} {q : List (TokenKind × Span)} {n : Nat}

theorem opened?_cons_opener (hk : closerOf? o.kind = some k) (us : List Token) :
    opened? (o :: us) = us.foldlM nest? [(k, o.span)] := by
  rw [opened?, List.foldlM_cons, nest?_opener hk]
  rfl

/-- A group behind its bracket is closed where the stack that the bracket begins is empty. -/
theorem closedAt_cons_opener (hk : closerOf? o.kind = some k) : ClosedAt (o :: us) n ↔
    ∃ j ≤ us.length, n = j + 1 ∧ (us.take j).foldlM nest? [(k, o.span)] = some [] := by
  constructor
  · rintro ⟨hpos, hle, hnested⟩
    obtain ⟨j, rfl⟩ : ∃ j, n = j + 1 := ⟨n - 1, by omega⟩
    rw [List.take_succ_cons, nested_iff_opened?, opened?_cons_opener hk] at hnested
    exact ⟨j, Nat.le_of_succ_le_succ hle, rfl, hnested⟩
  · rintro ⟨j, hj, rfl, hstack⟩
    refine ⟨Nat.succ_pos j, Nat.succ_le_succ hj, ?_⟩
    rwa [List.take_succ_cons, nested_iff_opened?, opened?_cons_opener hk]

/-- The first token that the stack does not take is the first stray one. -/
theorem isLeast_strayAt {ts : List Token} {t : Token} (ht : ts[n]? = some t) (h : opened? (ts.take n) = some q)
    (hnone : nest? q t = none) : IsLeast {n | StrayAt ts n} n := by
  refine ⟨(strayAt_iff h).2 ⟨t, ht, hnone⟩, fun m hm => ?_⟩
  by_contra hlt
  exact not_strayAt_of_opened? h (Nat.lt_of_not_le hlt) hm

/-- Where there is a stack behind all tokens, none is stray. -/
theorem not_strayAt {ts : List Token} (h : opened? ts = some q) (n : Nat) : ¬StrayAt ts n := by
  intro hstray
  have ⟨t, ht, _⟩ := hstray
  have hlt : n < ts.length := (List.getElem?_eq_some_iff.1 ht).1
  rw [← List.take_length (l := ts)] at h
  exact not_strayAt_of_opened? h hlt hstray

end Opened

namespace Cursor

variable {c : Cursor} {o : Token} {rest : List Token}

/-- A cursor on a bracket that opens consumes the shortest prefix whose brackets are nested; without one it reports the
first stray bracket, and without that the innermost bracket that is open at the end. -/
theorem skipGroup_cases (hrest : c.ahead.map Mark.token = o :: rest) (hopen : isOpener o.kind = true) :
    (∃ n closer, IsLeast {n | ClosedAt (o :: rest) n} n ∧ (o :: rest)[n - 1]? = some closer ∧
        closerOf? o.kind = some closer.kind ∧ c.skipGroup = (.ok ⟨o.start, closer.stop⟩, skip n c) ∧
        (skip n c).prevEnd = closer.stop) ∨
    (∀ n, ¬ClosedAt (o :: rest) n) ∧
      ((∃ n t, IsLeast {n | StrayAt (o :: rest) n} n ∧ (o :: rest)[n]? = some t ∧
          c.skipGroup = (.error ⟨.mismatched t.kind, t.span⟩, skip n c)) ∨
        (∀ n, ¬StrayAt (o :: rest) n) ∧ ∃ u k, Innermost (o :: rest) u ∧ closerOf? u.kind = some k ∧
          c.skipGroup = (.error ⟨.unclosed (openerOf k), u.span⟩, skip (o :: rest).length c)) := by
  obtain ⟨m, ms, hm, rfl, rfl⟩ := List.map_eq_cons_iff.1 hrest
  obtain ⟨k, hk⟩ := Option.isSome_iff_exists.1 hopen
  have hspan : c.span.start = m.token.start := by rw [Cursor.span_of_ahead hm]; rfl
  have hgo : closeGroup c.eof [] c.ahead = ((closeGroup c.eof [(k, m.token.span)] ms).1 + 1,
      (closeGroup c.eof [(k, m.token.span)] ms).2) := by
    rw [hm]
    simp only [closeGroup, nest?_opener hk]
  rcases closeGroup_cases c.eof (k, m.token.span) [] ms with ⟨n, hn, hclose, hstack, hlt⟩ | ⟨hopen, hend⟩
  · -- The last token that is consumed closes the bracket.
    have hclosed : closeGroup c.eof ([] ++ [(k, m.token.span)]) ms = (n, none) := hclose
    obtain ⟨inner, d, behind, rfl, rfl, hd, -⟩ := exists_of_closeGroup hclosed
    have hprev : (skip (inner.length + 1 + 1) c).prevEnd = d.token.stop := by
      have hskip := (Parser.consumes_skip (inner.length + 1 + 1) ⟨c, 0⟩).prevEnd
      rw [hm, Parser.take_group, endOf, endOf_append] at hskip
      exact hskip
    refine .inl ⟨_, d.token, ⟨(closedAt_cons_opener hk).2 ⟨_, ?_, rfl, ?_⟩, fun j hj => ?_⟩, by simp, by rw [hk, hd], ?_,
      hprev⟩
    · rwa [List.length_map]
    · rw [← List.map_take]
      exact hstack
    · obtain ⟨i, -, rfl, hi⟩ := (closedAt_cons_opener hk).1 hj
      rw [← List.map_take] at hi
      by_contra hle
      exact hlt i (by omega) hi
    · simp only [skipGroup, hgo, hclose, hspan, hprev]
  · refine .inr ⟨fun n hn => ?_, ?_⟩
    · obtain ⟨j, hj, -, hstack⟩ := (closedAt_cons_opener hk).1 hn
      rw [← List.map_take] at hstack
      exact hopen j (by rwa [List.length_map] at hj) hstack
    · have hstack : ∀ n, opened? ((m.token :: ms.map Mark.token).take (n + 1)) =
          ((ms.take n).map Mark.token).foldlM nest? [(k, m.token.span)] := by
        intro n
        rw [List.take_succ_cons, opened?_cons_opener hk, List.map_take]
      rcases hend with ⟨n, t, q, ht, hq, hnone, hclose⟩ | ⟨b, q, hq, hclose⟩
      · have hget : (m.token :: ms.map Mark.token)[n + 1]? = some t.token := by simp [ht]
        refine .inl ⟨n + 1, t.token, isLeast_strayAt hget ((hstack n).trans hq) hnone, hget, ?_⟩
        simp only [skipGroup, hgo, hclose]
      · have hq := (hstack ms.length).trans hq
        rw [List.take_of_length_le (by simp)] at hq
        obtain ⟨u, hu, hc, hspan⟩ := exists_innermost hq
        refine .inr ⟨not_strayAt hq, u, b.1, hu, hc, ?_⟩
        simp only [skipGroup, hgo, hclose, hspan, List.length_cons, List.length_map]

/-- Consuming a group succeeds exactly when the tokens ahead that matter have a prefix whose brackets are nested.  The
shortest one is consumed then, from the bracket through what closes it, and the cursor rests on the next token that
matters.  Otherwise the first bracket that closes something else than the innermost open one is reported, and when all of
them match, the innermost bracket that is open at the end. -/
theorem skipGroup_spec {tokens ts : List Token} {start stop eof k : Nat}
    (hc : c = skip k (ofTokens tokens start stop eof))
    (hts : ts = (((tokens.take stop).drop start).filter (!·.kind.isSkipped)).drop k)
    (ho : c.current? = some o) (hopen : isOpener o.kind = true) :
    ((∃ sp, c.skipGroup.1 = .ok sp) ↔ ∃ n, ClosedAt ts n) ∧
    (∀ n, IsLeast {n | ClosedAt ts n} n → ∃ closer d, ts[n - 1]? = some closer ∧
      closerOf? o.kind = some closer.kind ∧ c.skipGroup = (.ok ⟨o.start, closer.stop⟩, d) ∧
      d = skip n c ∧ d.ahead.map Mark.token = ts.drop n ∧ d.prevEnd = closer.stop) ∧
    ((∀ n, ¬ClosedAt ts n) →
      (∀ n, IsLeast {n | StrayAt ts n} n → ∃ t, ts[n]? = some t ∧
        c.skipGroup = (.error ⟨.mismatched t.kind, t.span⟩, skip n c)) ∧
      ((∀ n, ¬StrayAt ts n) → ∃ u closer, Innermost ts u ∧ closerOf? u.kind = some closer ∧
        c.skipGroup = (.error ⟨.unclosed (openerOf closer), u.span⟩, skip ts.length c))) := by
  have hahead : c.ahead.map Mark.token = ts := by
    rw [hc, hts, ahead_skip, List.map_drop]
    exact congrArg (List.drop k) (tokens_marks _ _)
  obtain ⟨rest, rfl⟩ : ∃ rest, ts = o :: rest := by
    cases hm : c.ahead with
    | nil => simp [current?, hm] at ho
    | cons m ms =>
      rw [current?_of_ahead hm, Option.some.injEq] at ho
      exact ⟨ms.map Mark.token, by rw [← hahead, hm, List.map_cons, ho]⟩
  rcases skipGroup_cases hahead hopen with ⟨n, closer, hleast, hcloser, hkind, hskip, hprev⟩ | ⟨hnone, hend⟩
  · refine ⟨⟨fun _ => ⟨n, hleast.1⟩, fun _ => ⟨_, by rw [hskip]⟩⟩, fun j hj => ?_, fun hnone => (hnone n hleast.1).elim⟩
    obtain rfl := hj.unique hleast
    refine ⟨closer, skip j c, hcloser, hkind, hskip, rfl, ?_, hprev⟩
    rw [ahead_skip, List.map_drop, hahead]
  · refine ⟨⟨?_, fun h => h.elim fun n hn => (hnone n hn).elim⟩, fun n hn => (hnone n hn.1).elim, fun _ => ?_⟩
    · rintro ⟨sp, hok⟩
      rcases hend with ⟨n, t, -, -, hskip⟩ | ⟨-, u, closer, -, -, hskip⟩ <;> rw [hskip] at hok <;> cases hok
    · rcases hend with ⟨n, t, hleast, ht, hskip⟩ | ⟨hstray, u, closer, hu, hcloser, hskip⟩
      · refine ⟨fun j hj => ?_, fun hstray => (hstray n hleast.1).elim⟩
        obtain rfl := hj.unique hleast
        exact ⟨t, ht, hskip⟩
      · exact ⟨fun n hn => (hstray n hn.1).elim, fun _ => ⟨u, closer, hu, hcloser, hskip⟩⟩

/-- An attribute with brackets of all kinds and a comment inside. -/
theorem skipGroup_spec_attribute : ∃ tokens ts c o n,
    tokens = Lexer.lex "<?php #[A(1, ['x'], /* ) */ \x7b$y\x7d)] class C \x7b\x7d".toList ∧
    c = skip 0 (ofTokens tokens 1 tokens.length 45) ∧
    ts = (((tokens.take tokens.length).drop 1).filter (!·.kind.isSkipped)).drop 0 ∧
    c.current? = some o ∧ isOpener o.kind = true ∧ IsLeast {n | ClosedAt ts n} n ∧
    ∃ closer d, ts[n - 1]? = some closer ∧ closerOf? o.kind = some closer.kind ∧
      c.skipGroup = (.ok ⟨o.start, closer.stop⟩, d) ∧ o.start = 6 ∧ closer.stop = 34 ∧
      d = skip n c ∧ d.ahead.map Mark.token = ts.drop n ∧ d.prevEnd = closer.stop := by
  obtain ⟨tokens, htokens, c, hc, hok⟩ : ∃ tokens,
      tokens = Lexer.lex "<?php #[A(1, ['x'], /* ) */ \x7b$y\x7d)] class C \x7b\x7d".toList ∧
      ∃ c, c = skip 0 (ofTokens tokens 1 tokens.length 45) ∧
        (c.current?.map Token.kind, c.skipGroup.1.toOption) = (some .attrOpen, some ⟨6, 34⟩) :=
    ⟨_, rfl, _, rfl, by decide +kernel⟩
  obtain ⟨hkind, hok⟩ := Prod.mk.inj hok
  obtain ⟨o, ho, hkind⟩ := Option.map_eq_some_iff.1 hkind
  have hopen : isOpener o.kind = true := by rw [hkind]; rfl
  obtain ⟨hiff, hclosed, -⟩ := skipGroup_spec hc rfl ho hopen
  cases hskip : c.skipGroup.1 with
  | error e =>
    rw [hskip] at hok
    cases hok
  | ok sp =>
    classical
    have hleast := Nat.isLeast_find (hiff.1 ⟨sp, hskip⟩)
    obtain ⟨closer, d, hcloser, hmatch, hgroup, hd, hahead, hprev⟩ := hclosed _ hleast
    rw [hgroup] at hok
    obtain ⟨hstart, hstop⟩ := Span.mk.inj (Option.some.inj hok)
    exact ⟨tokens, _, c, o, _, htokens, hc, rfl, ho, hopen, hleast, closer, d, hcloser, hmatch, hgroup, hstart, hstop, hd,
      hahead, hprev⟩

end Cursor

end Graft
