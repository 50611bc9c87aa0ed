/-
What a cursor answers after any operations.

A parser peeks to choose between constructs and advances to consume them; in between it fails, saves the cursor and
restores it.  Whatever it does, the cursor is the first one with some tokens consumed.  So it rests at an index of the
tokens, on a token that matters or at the end, and the index says all that the cursor answers.

* `Request`, `Session` — what is asked of a cursor, with cursors that are saved and restored;
* `RestsAt`, `restsAt_skip` — a cursor with tokens consumed rests at an index;
* `peek?_eq_advances` — peeking sees what advancing reaches;
* `Consumer`, `Request.exists_run` — a request consumes tokens, and its answer depends on the cursor alone;
* `Session.Reached.step`, `Session.Reached.after` — one operation and any number of them;
* `Session.answers_restore` — a cursor that is restored answers as when it was saved;
* `Session.lookahead` — all of this, for the tokens between any two indexes.
-/
import Graft.Proofs.Reading.Extent
import Graft.Proofs.Reading.Source

namespace Graft.Cursor

/-! ### Sessions -/

/-- What is asked of a cursor, or how it is moved. -/
inductive Request where
  | check (k : TokenKind)
  | checkWord (w : String)
  | atEnd
  | kind
  | text
  | peek (n : Nat)
  | here
  | leadStart
  | prevEnd
  | unexpected (expected : String)
  | advance
  | eat (k : TokenKind)
  | eatWord (w : String)
  | expect (k : TokenKind) (expected : String)
  | skipGroup

inductive Answer where
  | nothing
  | truth (b : Bool)
  | kind (k : Option TokenKind)
  | text (t : Text)
  | offset (n : Nat)
  | token (t : Token)
  | span (sp : Span)
  | error (e : ParseError)

namespace Request

def parser : Request → Parser Answer
  | .check k => return .truth (← Parser.check k)
  | .checkWord w => return .truth (← Parser.checkWord w)
  | .atEnd => return .truth (← Parser.atEnd)
  | .kind => return .kind (← Parser.kind?)
  | .text => return .text (← Parser.cursor).text
  | .peek n => return .kind (← Parser.peek? n)
  | .here => return .offset (← Parser.here)
  | .leadStart => return .offset (← Parser.leadStart)
  | .prevEnd => return .offset (← Parser.prevEnd)
  | .unexpected expected => Parser.unexpected expected
  | .advance => do
    Parser.advance
    return .nothing
  | .eat k => return .truth (← Parser.eat k)
  | .eatWord w => return .truth (← Parser.eatWord w)
  | .expect k expected => return .token (← Parser.expect k expected)
  | .skipGroup => return .span (← Parser.skipGroup)

/-- The answer, which may be an error, and the state that the request leaves. -/
def run (r : Request) (s : ParseState) : Answer × ParseState :=
  match r.parser s with
  | .ok a s' => (a, s')
  | .error e s' => (.error e, s')

end Request

/-- Requests, and cursors that are saved under a name and restored. -/
inductive Operation where
  | ask (r : Request)
  | save (x : Nat)
  | restore (x : Nat)

structure Session where
  state : ParseState
  /-- The cursor that was last saved under a name. -/
  saved : Nat → Option Cursor

namespace Session

/-- A session in which nothing has been saved. -/
def begin (c : Cursor) (id : NodeId) : Session := ⟨⟨c, id⟩, fun _ => none⟩

/-- The cursor of a name that nothing was saved under is not restored. -/
def step (s : Session) : Operation → Answer × Session
  | .ask r => ((r.run s.state).1, { s with state := (r.run s.state).2 })
  | .save x => (.nothing, { s with saved := fun y => if y = x then some s.state.cursor else s.saved y })
  | .restore x => (.nothing, { s with state := { s.state with cursor := (s.saved x).getD s.state.cursor } })

/-- The session behind operations. -/
def after (s : Session) (os : List Operation) : Session := os.foldl (fun s o => (s.step o).2) s

def answers (s : Session) : List Operation → List Answer
  | [] => []
  | o :: os => (s.step o).1 :: (s.step o).2.answers os

end Session

/-! ### The index where a cursor rests -/

/-- Among the tokens with indexes from `start` up to but not including `stop` the cursor rests at the index `pos`. -/
structure RestsAt (tokens : List Token) (start stop eof : Nat) (c : Cursor) (pos : Nat) : Prop where
  start_le : start ≤ pos
  le_stop : pos ≤ stop
  current? : c.current? = if pos < stop then tokens[pos]? else none
  isSkipped : ∀ t, c.current? = some t → t.kind.isSkipped = false
  ahead : c.ahead.map Mark.token = ((tokens.take stop).drop pos).filter (!·.kind.isSkipped)
  prevEnd : c.prevEnd = ((((tokens.take pos).drop start).filter (!·.kind.isSkipped)).getLast?.map Token.stop).getD
    ((tokens[start]?.map Token.start).getD eof)

/-- A list falls apart behind its first `k` elements that have a property, where the next one that has it stands. -/
theorem exists_split_filter {α : Type} (p : α → Bool) (l : List α) (k : Nat) : ∃ a b, l = a ++ b ∧
    a.filter p = (l.filter p).take k ∧ b.filter p = (l.filter p).drop k ∧ b.head? = (b.filter p).head? := by
  induction l generalizing k with
  | nil => exact ⟨[], [], rfl, by simp, by simp, rfl⟩
  | cons x l ih =>
    by_cases hx : p x = true
    · cases k with
      | zero => exact ⟨[], x :: l, rfl, by simp, by simp, by simp [hx]⟩
      | succ k =>
        obtain ⟨a, b, hl, ha, hb, hhead⟩ := ih k
        exact ⟨x :: a, b, by rw [hl, List.cons_append], by simp [hx, ha], by simp [hx, hb], hhead⟩
    · obtain ⟨a, b, hl, ha, hb, hhead⟩ := ih k
      exact ⟨x :: a, b, by rw [hl, List.cons_append], by simp [hx, ha], by simp [hx, hb], hhead⟩

theorem endOf_eq (e : Nat) (ms : List Mark) : endOf e ms = ((ms.map Mark.token).getLast?.map Token.stop).getD e := by
  induction ms generalizing e with
  | nil => rfl
  | cons m ms ih =>
    rw [endOf, ih, List.map_cons, List.getLast?_cons]
    cases (ms.map Mark.token).getLast? <;> rfl

theorem eof_skip (n : Nat) (c : Cursor) : (skip n c).eof = c.eof := (Parser.consumes_skip n ⟨c, 0⟩).eof

variable {tokens : List Token} {start stop eof : Nat}

/-- With tokens consumed, as many as may be, the cursor rests at an index. -/
theorem restsAt_skip (hle : start ≤ stop) (hstop : stop ≤ tokens.length) (eof k : Nat) :
    ∃ pos, RestsAt tokens start stop eof (skip k (ofTokens tokens start stop eof)) pos := by
  have hahead : (ofTokens tokens start stop eof).ahead.map Mark.token =
      ((tokens.take stop).drop start).filter (!·.kind.isSkipped) := tokens_marks _ _
  obtain ⟨a, b, hsplit, ha, hb, hhead⟩ :=
    exists_split_filter (fun t : Token => !t.kind.isSkipped) ((tokens.take stop).drop start) k
  rw [← hahead] at ha hb
  have hlength : start + (a.length + b.length) = stop := by
    have h := congrArg List.length hsplit
    rw [List.length_drop, List.length_take, List.length_append] at h
    omega
  have hbehind : (tokens.take stop).drop (start + a.length) = b := by
    rw [← List.drop_drop, hsplit, List.drop_left]
  have hbefore : (tokens.take (start + a.length)).drop start = a := by
    have h := congrArg (List.take a.length) hsplit
    rwa [List.take_left, List.drop_take, List.take_take, Nat.min_eq_left (by omega),
      ← Nat.add_sub_cancel_left start a.length, ← List.drop_take] at h
  have hrest : (skip k (ofTokens tokens start stop eof)).ahead.map Mark.token = b.filter (!·.kind.isSkipped) := by
    rw [ahead_skip, List.map_drop, hb]
  have hcurrent : (skip k (ofTokens tokens start stop eof)).current? = b.head? := by
    rw [current?, ← List.head?_map, hrest, hhead]
  refine ⟨start + a.length, by omega, by omega, ?_, fun t ht => ?_, by rw [hbehind, hrest], ?_⟩
  · rw [hcurrent, ← hbehind, List.head?_drop, List.getElem?_take]
  · rw [hcurrent, hhead] at ht
    simpa using (List.mem_filter.1 (List.mem_of_mem_head? ht)).2
  · have hprev := (Parser.consumes_skip k ⟨ofTokens tokens start stop eof, 0⟩).prevEnd
    rw [endOf_eq, List.map_take, ← ha] at hprev
    rw [hbefore]
    exact hprev

/-- The index where it rests determines the cursor. -/
theorem RestsAt.unique {k l pos : Nat} (hk : RestsAt tokens start stop eof (skip k (ofTokens tokens start stop eof)) pos)
    (hl : RestsAt tokens start stop eof (skip l (ofTokens tokens start stop eof)) pos) :
    skip k (ofTokens tokens start stop eof) = skip l (ofTokens tokens start stop eof) := by
  have hlength : ((marks .afterTag ((tokens.take stop).drop start)).drop k).length =
      ((marks .afterTag ((tokens.take stop).drop start)).drop l).length := by
    have h := congrArg List.length (hk.ahead.trans hl.ahead.symm)
    rwa [List.length_map, List.length_map, ahead_skip, ahead_skip] at h
  have hahead : (skip k (ofTokens tokens start stop eof)).ahead = (skip l (ofTokens tokens start stop eof)).ahead := by
    -- As many marks are left, so the same ones are.
    rw [ahead_skip, ahead_skip]
    rcases Nat.le_total k l with hkl | hlk
    · exact ((List.drop_suffix_drop_left _ hkl).eq_of_length hlength.symm).symm
    · exact (List.drop_suffix_drop_left _ hlk).eq_of_length hlength
  have hprev := hk.prevEnd.trans hl.prevEnd.symm
  have heof := (eof_skip k (ofTokens tokens start stop eof)).trans (eof_skip l (ofTokens tokens start stop eof)).symm
  cases hc : skip k (ofTokens tokens start stop eof)
  cases hd : skip l (ofTokens tokens start stop eof)
  simp_all

/-! ### Looking ahead -/

/-- The cursor with `n` tokens consumed, if there are so many. -/
def advances : Nat → Cursor → Option Cursor
  | 0, c => some c
  | n + 1, c => if c.atEnd then none else advances n c.advance

/-- Peeking sees the kind of the token that advancing reaches. -/
theorem peek?_eq_advances (c : Cursor) (n : Nat) : c.peek? n = (advances n c).bind kind? := by
  induction n generalizing c with
  | zero => simp [peek?, advances, kind?, current?, List.head?_eq_getElem?, Function.comp_def]
  | succ n ih =>
    cases hm : c.ahead with
    | nil => simp [peek?, advances, atEnd, hm]
    | cons m ms =>
      have hadvance : c.advance.peek? n = c.peek? (n + 1) := by simp [peek?, advance, hm]
      rw [advances, if_neg (by simp [atEnd, hm]), ← ih, hadvance]

/-! ### One operation -/

/-- A parser that only consumes tokens: how many, and its result, depends on the cursor alone. -/
def Consumer {α : Type} (p : Parser α) : Prop := ∀ c, ∃ n,
  (∃ a, ∀ id, p ⟨c, id⟩ = .ok a ⟨skip n c, id⟩) ∨ ∃ e, ∀ id, p ⟨c, id⟩ = .error e ⟨skip n c, id⟩

theorem skip_add (m n : Nat) (c : Cursor) : skip (m + n) c = skip n (skip m c) := by
  induction m generalizing c with
  | zero => rw [Nat.zero_add, skip]
  | succ m ih => rw [Nat.succ_add, skip, ih, skip]

namespace Consumer

variable {α β : Type}

protected theorem pure (a : α) : Consumer (pure a) := fun _ => ⟨0, .inl ⟨a, fun _ => rfl⟩⟩

protected theorem throw (e : ParseError) : Consumer (throw e : Parser α) := fun _ => ⟨0, .inr ⟨e, fun _ => rfl⟩⟩

protected theorem bind {p : Parser α} {f : α → Parser β} (hp : Consumer p) (hf : ∀ a, Consumer (f a)) :
    Consumer (p >>= f) := by
  intro c
  obtain ⟨m, ⟨a, ha⟩ | ⟨e, he⟩⟩ := hp c
  · have hrun : ∀ id, (p >>= f) ⟨c, id⟩ = f a ⟨skip m c, id⟩ := fun id => by
      show EStateM.bind p f _ = _
      rw [EStateM.bind, ha]
    obtain ⟨n, hn⟩ := hf a (skip m c)
    refine ⟨m + n, ?_⟩
    simp only [hrun, skip_add]
    exact hn
  · refine ⟨m, .inr ⟨e, fun id => ?_⟩⟩
    show EStateM.bind p f _ = _
    rw [EStateM.bind, he]

protected theorem cursor : Consumer Parser.cursor := fun c => ⟨0, .inl ⟨c, fun _ => rfl⟩⟩

protected theorem advance : Consumer Parser.advance := fun _ => ⟨1, .inl ⟨(), fun _ => rfl⟩⟩

theorem run_bind_cursor (f : Cursor → Parser α) (c : Cursor) (id : NodeId) :
    (Parser.cursor >>= f) ⟨c, id⟩ = f c ⟨c, id⟩ := rfl

/-- What looks at the cursor. -/
protected theorem look (f : Cursor → α) : Consumer (do return f (← Parser.cursor)) := .bind .cursor fun c => .pure (f c)

protected theorem eatIf (f : Cursor → Bool) : Consumer (do
    let found ← (do return f (← Parser.cursor))
    if found then Parser.advance
    return found) := by
  refine .bind (.look f) fun found => ?_
  cases found with
  | false => exact .pure false
  | true => exact .bind .advance fun _ => .pure true

protected theorem expect (k : TokenKind) (expected : String) : Consumer (Parser.expect k expected) := by
  refine .bind .cursor fun c => ?_
  cases c.expect k expected with
  | error e => exact .throw e
  | ok t => exact .bind .advance fun _ => .pure t

protected theorem skipGroup : Consumer Parser.skipGroup := by
  intro c
  have hrun : ∀ id, Parser.skipGroup ⟨c, id⟩ = match c.skipGroup with
      | (.ok sp, d) => .ok sp ⟨d, id⟩
      | (.error e, d) => .error e ⟨d, id⟩ := by
    intro id
    unfold Parser.skipGroup
    rw [run_bind_cursor]
    obtain ⟨r, d⟩ := c.skipGroup
    cases r <;> rfl
  simp only [hrun, Cursor.skipGroup]
  obtain ⟨n, e⟩ := closeGroup c.eof [] c.ahead
  cases e with
  | none => exact ⟨n, .inl ⟨_, fun _ => rfl⟩⟩
  | some e => exact ⟨n, .inr ⟨e, fun _ => rfl⟩⟩

end Consumer

theorem Request.consumer (r : Request) : Consumer r.parser := by
  cases r with
  | unexpected expected => exact .bind .cursor fun c => .throw (c.unexpected expected)
  | advance => exact .bind .advance fun _ => .pure _
  | eat k => exact .bind (.eatIf fun c => c.check k) fun _ => .pure _
  | eatWord w => exact .bind (.eatIf fun c => c.checkWord w) fun _ => .pure _
  | expect k expected => exact .bind (.expect k expected) fun _ => .pure _
  | skipGroup => exact .bind .skipGroup fun _ => .pure _
  | text => exact .look _
  | _ => exact .bind (.look _) fun _ => .pure _

/-- A request consumes some tokens.  The answer and how many they are depend on the cursor alone. -/
theorem Request.exists_run (r : Request) (c : Cursor) : ∃ n a, ∀ id, r.run ⟨c, id⟩ = (a, ⟨skip n c, id⟩) := by
  obtain ⟨n, ⟨a, ha⟩ | ⟨e, he⟩⟩ := r.consumer c
  · exact ⟨n, a, fun id => by rw [run, ha]⟩
  · exact ⟨n, .error e, fun id => by rw [run, he]⟩

/-! ### Operations -/

namespace Session

/-- The cursor of the session and those that were saved are `c` with tokens consumed. -/
structure Reached (c : Cursor) (s : Session) : Prop where
  cursor : ∃ k, s.state.cursor = skip k c
  saved : ∀ x d, s.saved x = some d → ∃ k, d = skip k c

variable {c : Cursor} {s t : Session}

theorem reached_begin (c : Cursor) (id : NodeId) : Reached c (begin c id) := ⟨⟨0, rfl⟩, nofun⟩

/-- An operation consumes tokens, or it goes back to where tokens were consumed before. -/
theorem Reached.step (h : Reached c s) (o : Operation) : Reached c (s.step o).2 := by
  obtain ⟨k, hk⟩ := h.cursor
  cases o with
  | ask r =>
    obtain ⟨n, a, hrun⟩ := r.exists_run s.state.cursor
    refine ⟨⟨k + n, ?_⟩, h.saved⟩
    rw [skip_add, ← hk]
    exact congrArg (fun run => run.2.cursor) (hrun s.state.nextId)
  | save x =>
    refine ⟨h.cursor, fun y d hd => ?_⟩
    simp only [Session.step] at hd
    split at hd
    · cases hd
      exact h.cursor
    · exact h.saved y d hd
  | restore x =>
    refine ⟨?_, h.saved⟩
    cases hd : s.saved x with
    | none => exact ⟨k, by simp only [Session.step, hd, Option.getD_none, hk]⟩
    | some d =>
      obtain ⟨l, hl⟩ := h.saved x d hd
      exact ⟨l, by simp only [Session.step, hd, Option.getD_some, hl]⟩

theorem Reached.after (h : Reached c s) (os : List Operation) : Reached c (s.after os) := by
  induction os generalizing s with
  | nil => exact h
  | cons o os ih => exact ih (h.step o)

theorem after_append (s : Session) (os us : List Operation) : s.after (os ++ us) = (s.after os).after us :=
  List.foldl_append ..

/-- What is saved stays saved until something else is saved under the name. -/
theorem saved_after {x : Nat} {os : List Operation} (h : .save x ∉ os) (s : Session) :
    (s.after os).saved x = s.saved x := by
  induction os generalizing s with
  | nil => rfl
  | cons o os ih =>
    rw [List.mem_cons, not_or] at h
    have hstep : (s.step o).2.saved x = s.saved x := by
      cases o with
      | save y => exact if_neg fun hx => h.1 (by rw [hx])
      | _ => rfl
    exact (ih h.2 _).trans hstep

/-- The answers depend on the cursor and on the saved cursors that are restored. -/
theorem answers_congr {os : List Operation} (hcursor : s.state.cursor = t.state.cursor)
    (hsaved : ∀ x, .restore x ∈ os → s.saved x = t.saved x) : s.answers os = t.answers os := by
  induction os generalizing s t with
  | nil => rfl
  | cons o os ih =>
    have hrest : ∀ x, .restore x ∈ os → s.saved x = t.saved x := fun x hx => hsaved x (List.mem_cons_of_mem o hx)
    cases o with
    | ask r =>
      obtain ⟨n, a, hrun⟩ := r.exists_run s.state.cursor
      have hs : r.run s.state = (a, ⟨skip n s.state.cursor, s.state.nextId⟩) := hrun _
      have ht : r.run t.state = (a, ⟨skip n s.state.cursor, t.state.nextId⟩) := by rw [← hrun, hcursor]
      have hanswers := ih (s := (s.step (.ask r)).2) (t := (t.step (.ask r)).2) (by simp only [Session.step, hs, ht]) hrest
      rw [answers, answers, hanswers]
      simp only [Session.step, hs, ht]
    | save x =>
      refine congrArg (Answer.nothing :: ·) (ih hcursor fun y hy => ?_)
      simp only [Session.step, hcursor, hrest y hy]
    | restore x =>
      refine congrArg (Answer.nothing :: ·) (ih ?_ hrest)
      simp only [Session.step, hcursor, hsaved x List.mem_cons_self]

/-- Behind a cursor that is restored the answers are those behind the place where it was saved. -/
theorem answers_restore (s : Session) {x : Nat} {os us : List Operation} (hx : .save x ∉ os)
    (hus : ∀ y, .save y ∈ os → .restore y ∉ us) :
    (s.after (.save x :: os ++ [.restore x])).answers us = (s.after [.save x]).answers us := by
  have hafter : s.after (.save x :: os ++ [.restore x]) = (((s.after [.save x]).after os).step (.restore x)).2 := by
    rw [after_append]
    rfl
  have hsaved : ∀ y, .save y ∉ os → ((s.after [.save x]).after os).saved y = (s.after [.save x]).saved y :=
    fun y hy => saved_after hy _
  have hcursor : (s.after [.save x]).saved x = some s.state.cursor := if_pos rfl
  rw [hafter]
  refine answers_congr ?_ fun y hy => hsaved y fun hsave => hus y hsave hy
  simp only [Session.step, hsaved x hx, hcursor, Option.getD_some]
  rfl

/-- Over the tokens between two indexes a cursor rests, after any operations, on a token that matters or at the end, and
only one cursor rests there.  It peeks at the tokens that it would reach by advancing.  Once it is restored it answers as
it would have where it was saved; only what was saved in the meantime must not be restored. -/
theorem lookahead {tokens : List Token} {start stop : Nat} (hle : start ≤ stop) (hstop : stop ≤ tokens.length)
    (eof : Nat) (id : NodeId) (os : List Operation) :
    let s := (begin (ofTokens tokens start stop eof) id).after os
    (∃ pos, RestsAt tokens start stop eof s.state.cursor pos ∧
      ∀ us, RestsAt tokens start stop eof ((begin (ofTokens tokens start stop eof) id).after us).state.cursor pos →
        ((begin (ofTokens tokens start stop eof) id).after us).state.cursor = s.state.cursor) ∧
    (∀ n, s.state.cursor.peek? n = (advances n s.state.cursor).bind kind?) ∧
    ∀ x us vs, .save x ∉ us → (∀ y, .save y ∈ us → .restore y ∉ vs) →
      (s.after (.save x :: us ++ [.restore x])).answers vs = (s.after [.save x]).answers vs := by
  have hreached : ∀ os, ∃ k, ((begin (ofTokens tokens start stop eof) id).after os).state.cursor =
      skip k (ofTokens tokens start stop eof) := fun os => ((reached_begin _ id).after os).cursor
  refine ⟨?_, peek?_eq_advances _, fun x us vs hx hvs => answers_restore _ hx hvs⟩
  obtain ⟨k, hk⟩ := hreached os
  obtain ⟨pos, hpos⟩ := restsAt_skip hle hstop eof k
  rw [hk]
  refine ⟨pos, hpos, fun us hus => ?_⟩
  obtain ⟨l, hl⟩ := hreached us
  rw [hl] at hus ⊢
  exact hus.unique hpos

/-- A group whose closing bracket does not match and an unexpected token, behind which the cursor is restored. -/
theorem lookahead_mismatched : ∃ tokens s,
    tokens = Lexer.lex "<?php f([1, // 2\n 3) ;".toList ∧
    s = (begin (ofTokens tokens 1 tokens.length 23) 0).after
      [.save 0, .ask .advance, .ask .skipGroup, .ask (.expect .semi ";")] ∧
    s.state.cursor.kind? = some .rParen ∧ (∃ pos, RestsAt tokens 1 tokens.length 23 s.state.cursor pos) ∧
    s.state.cursor.peek? 1 = (advances 1 s.state.cursor).bind kind? ∧
    (s.after [.save 1, .restore 0, .ask .advance, .restore 1]).answers [.ask .prevEnd, .restore 0, .ask .kind] =
      (s.after [.save 1]).answers [.ask .prevEnd, .restore 0, .ask .kind] := by
  obtain ⟨tokens, htokens, hlength, hkind⟩ : ∃ tokens, tokens = Lexer.lex "<?php f([1, // 2\n 3) ;".toList ∧
      1 ≤ tokens.length ∧ ((begin (ofTokens tokens 1 tokens.length 23) 0).after
        [.save 0, .ask .advance, .ask .skipGroup, .ask (.expect .semi ";")]).state.cursor.kind? = some .rParen :=
    ⟨_, rfl, by decide +kernel, by decide +kernel⟩
  obtain ⟨⟨pos, hpos, -⟩, hpeek, hrestore⟩ := lookahead hlength (Nat.le_refl _) 23 0
    [.save 0, .ask .advance, .ask .skipGroup, .ask (.expect .semi ";")]
  exact ⟨tokens, _, htokens, rfl, hkind, ⟨pos, hpos⟩, hpeek 1,
    hrestore 1 [.restore 0, .ask .advance] _ (by simp) (by simp)⟩

end Session

end Graft.Cursor
