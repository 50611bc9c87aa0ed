/-
The ground that a parser walks on.

A `Ground` knows three things about a text: which offsets are edges of tokens, between which offsets nothing but
skipped tokens stands, and which tokens matter.  A parse state stands on a ground when its marks describe it from the
last consumed token on (`Ground.On`).  What a parser does to a state is to consume marks and to draw ids
(`Passes`, and `Moves` when at least one mark is consumed), and both keep the ground.

* `Ground.On.passes`, `Ground.On.moves` — where the cursor stands afterwards;
* `Fresh.append`, `Fresh.cons` — ids drawn one after the other are different.
-/
import Graft.Proofs.Reading.Yields

namespace Graft

/-! ### The first mark ahead -/

section Ahead

variable {c : Cursor} {s : ParseState} {k : TokenKind} {m : Mark} {ms : List Mark}

theorem Cursor.current?_of_ahead (h : c.ahead = m :: ms) : c.current? = some m.token := by
  rw [current?, h, List.head?_cons, Option.map_some]

theorem Cursor.kind?_of_ahead (h : c.ahead = m :: ms) : c.kind? = some m.token.kind := by
  rw [kind?, current?_of_ahead h, Option.map_some]

theorem Cursor.text_of_ahead (h : c.ahead = m :: ms) : c.text = m.token.text := by
  rw [text, current?_of_ahead h, Option.map_some, Option.getD_some]

theorem Cursor.span_of_ahead (h : c.ahead = m :: ms) : c.span = m.token.span := by
  rw [span, current?_of_ahead h, Option.map_some, Option.getD_some]

theorem Cursor.check_of_ahead (h : c.ahead = m :: ms) : c.check k = true ↔ m.token.kind = k := by
  rw [check, kind?_of_ahead h, beq_iff_eq, Option.some.injEq]

/-- A kind is only found where a mark is ahead. -/
theorem Cursor.exists_of_check (h : c.check k = true) : ∃ m ms, c.ahead = m :: ms ∧ m.token.kind = k := by
  cases hm : c.ahead with
  | nil => simp [check, kind?, current?, hm] at h
  | cons m ms => exact ⟨m, ms, rfl, (check_of_ahead hm).1 h⟩

theorem ParseState.ahead_next (h : s.cursor.ahead = m :: ms) : s.next.cursor.ahead = ms := by
  simp [next, Cursor.advance, h]

theorem ParseState.prevEnd_next (h : s.cursor.ahead = m :: ms) : s.next.cursor.prevEnd = m.token.stop := by
  simp [next, Cursor.advance, h]

end Ahead

/-! ### Grounds -/

/-- Edges, blanks and tokens of a text. -/
structure Ground where
  edge : Nat → Prop
  /-- Nothing but skipped tokens stands between two edges. -/
  blank : Nat → Nat → Prop
  /-- A token that matters. -/
  token : Token → Prop
  blank_refl {x : Nat} : edge x → blank x x
  blank_trans {x y z : Nat} : blank x y → blank y z → blank x z
  edge_left {x y : Nat} : blank x y → edge x
  edge_right {x y : Nat} : blank x y → edge y
  le_of_blank {x y : Nat} : blank x y → x ≤ y
  edge_start {t : Token} : token t → edge t.start
  edge_stop {t : Token} : token t → edge t.stop
  start_lt_stop {t : Token} : token t → t.start < t.stop

namespace Ground

/-- The marks describe the ground from `e`, the end of a consumed token, to `eof`. -/
def Ahead (G : Ground) (eof : Nat) : Nat → List Mark → Prop
  | e, [] => G.blank e eof
  | e, m :: ms => G.blank e m.lead ∧ G.blank m.lead m.token.start ∧ G.token m.token ∧ G.Ahead eof m.token.stop ms

/-- The state stands on the ground. -/
def On (G : Ground) (s : ParseState) : Prop := G.Ahead s.cursor.eof s.cursor.prevEnd s.cursor.ahead

end Ground

/-! ### Consumed marks -/

/-- Where the cursor rests behind marks, when it rested at `e` before them. -/
def endOf (e : Nat) : List Mark → Nat
  | [] => e
  | m :: ms => endOf m.token.stop ms

theorem endOf_append (e : Nat) (ms ns : List Mark) : endOf e (ms ++ ns) = endOf (endOf e ms) ns := by
  induction ms generalizing e with
  | nil => rfl
  | cons m ms ih => exact ih m.token.stop

/-- From `s` to `t` the given marks are consumed; ids may have been drawn. -/
structure Consumes (ms : List Mark) (s t : ParseState) : Prop where
  ahead : s.cursor.ahead = ms ++ t.cursor.ahead
  prevEnd : t.cursor.prevEnd = endOf s.cursor.prevEnd ms
  eof : t.cursor.eof = s.cursor.eof
  nextId_le : s.nextId ≤ t.nextId

theorem Consumes.trans {ms ns : List Mark} {s t u : ParseState} (h₁ : Consumes ms s t) (h₂ : Consumes ns t u) :
    Consumes (ms ++ ns) s u where
  ahead := by rw [h₁.ahead, h₂.ahead, List.append_assoc]
  prevEnd := by rw [h₂.prevEnd, h₁.prevEnd, endOf_append]
  eof := by rw [h₂.eof, h₁.eof]
  nextId_le := Nat.le_trans h₁.nextId_le h₂.nextId_le

/-- The current token is consumed. -/
theorem Consumes.next {s : ParseState} {m : Mark} {ms : List Mark} (h : s.cursor.ahead = m :: ms) :
    Consumes [m] s s.next := by
  refine ⟨?_, ?_, ?_, Nat.le_refl _⟩ <;> simp [ParseState.next, Cursor.advance, h, endOf]

theorem Consumes.refl (s : ParseState) : Consumes [] s s := ⟨rfl, rfl, rfl, Nat.le_refl _⟩

/-- Ids may be drawn when all is consumed. -/
theorem Consumes.later {ms : List Mark} {s t : ParseState} (h : Consumes ms s t) {n : NodeId} (hn : t.nextId ≤ n) :
    Consumes ms s { t with nextId := n } := ⟨h.ahead, h.prevEnd, h.eof, Nat.le_trans h.nextId_le hn⟩

/-- A cursor that is restored has consumed nothing, but the ids stay drawn. -/
theorem Consumes.restore {ms : List Mark} {s t : ParseState} (h : Consumes ms s t) :
    Consumes [] s { t with cursor := s.cursor } := ⟨rfl, rfl, rfl, h.nextId_le⟩

/-- Two cursors behind the same marks are one. -/
theorem Consumes.cursor_eq {ms : List Mark} {s t u : ParseState} (ht : Consumes ms s t) (hu : Consumes ms s u) :
    t.cursor = u.cursor := by
  have hahead : t.cursor.ahead = u.cursor.ahead := List.append_cancel_left (ht.ahead.symm.trans hu.ahead)
  have hprev := ht.prevEnd.trans hu.prevEnd.symm
  have heof := ht.eof.trans hu.eof.symm
  cases htc : t.cursor
  cases huc : u.cursor
  simp_all

theorem Consumes.start {m : Mark} {ms : List Mark} {s t : ParseState} (h : Consumes (m :: ms) s t) :
    s.cursor.span.start = m.token.start := by
  rw [Cursor.span_of_ahead h.ahead]
  rfl

/-- The current token of the kind `k` is consumed. -/
theorem ParseState.exists_of_check {s : ParseState} {k : TokenKind} (h : s.cursor.check k = true) :
    ∃ m, Consumes [m] s s.next ∧ m.token.kind = k := by
  obtain ⟨m, ms, hm, hk⟩ := Cursor.exists_of_check h
  exact ⟨m, .next hm, hk⟩

/-- From `s` to `t` some marks are consumed, perhaps none. -/
def Passes (s t : ParseState) : Prop := ∃ ms, Consumes ms s t

/-- From `s` to `t` at least one mark is consumed. -/
def Moves (s t : ParseState) : Prop := ∃ m ms, Consumes (m :: ms) s t

namespace Passes

variable {s t u : ParseState}

theorem refl (s : ParseState) : Passes s s := ⟨[], .refl s⟩

theorem trans (h₁ : Passes s t) (h₂ : Passes t u) : Passes s u := by
  obtain ⟨ms, h₁⟩ := h₁
  obtain ⟨ns, h₂⟩ := h₂
  exact ⟨ms ++ ns, h₁.trans h₂⟩

theorem nextId_le (h : Passes s t) : s.nextId ≤ t.nextId := by
  obtain ⟨ms, h⟩ := h
  exact h.nextId_le

/-- Drawing an id consumes nothing. -/
theorem fresh (s : ParseState) : Passes s { s with nextId := s.nextId + 1 } :=
  ⟨[], (Consumes.refl s).later (Nat.le_succ _)⟩

/-- A cursor that is restored has consumed nothing, but the ids stay drawn. -/
theorem restore (h : Passes s t) : Passes s { t with cursor := s.cursor } := by
  obtain ⟨ms, hms⟩ := h
  exact ⟨[], hms.restore⟩

end Passes

namespace Moves

variable {s t u : ParseState}

theorem passes (h : Moves s t) : Passes s t := by
  obtain ⟨m, ms, h⟩ := h
  exact ⟨m :: ms, h⟩

theorem nextId_le (h : Moves s t) : s.nextId ≤ t.nextId := h.passes.nextId_le

theorem trans_passes (h₁ : Moves s t) (h₂ : Passes t u) : Moves s u := by
  obtain ⟨m, ms, h₁⟩ := h₁
  obtain ⟨ns, h₂⟩ := h₂
  exact ⟨m, ms ++ ns, h₁.trans h₂⟩

theorem trans (h₁ : Moves s t) (h₂ : Moves t u) : Moves s u := h₁.trans_passes h₂.passes

theorem next {m : Mark} {ms : List Mark} (h : s.cursor.ahead = m :: ms) : Moves s s.next := ⟨m, [], .next h⟩

theorem of_check {k : TokenKind} (h : s.cursor.check k = true) : Moves s s.next := by
  obtain ⟨m, ms, hm, -⟩ := Cursor.exists_of_check h
  exact next hm

theorem of_checkWord {w : String} (h : s.cursor.checkWord w = true) : Moves s s.next := by
  rw [Cursor.checkWord, Bool.and_eq_true] at h
  exact of_check h.1

end Moves

theorem Passes.trans_moves {s t u : ParseState} (h₁ : Passes s t) (h₂ : Moves t u) : Moves s u := by
  obtain ⟨ms, h₁⟩ := h₁
  obtain ⟨m, ns, h₂⟩ := h₂
  cases ms with
  | nil => exact ⟨m, ns, h₁.trans h₂⟩
  | cons n ms => exact ⟨n, ms ++ m :: ns, h₁.trans h₂⟩

theorem Passes.next (s : ParseState) : Passes s s.next := by
  cases hs : s.cursor.ahead with
  | nil =>
    refine ⟨[], ?_, ?_, ?_, Nat.le_refl _⟩ <;> simp [ParseState.next, Cursor.advance, hs, endOf]
  | cons m ms => exact (Moves.next hs).passes

/-! ### Where the cursor stands -/

namespace Ground

variable {G : Ground} {s t : ParseState}

theorem Ahead.drop {eof e : Nat} {ms ns : List Mark} (h : G.Ahead eof e (ms ++ ns)) :
    G.Ahead eof (endOf e ms) ns ∧ e ≤ endOf e ms := by
  induction ms generalizing e with
  | nil => exact ⟨h, Nat.le_refl _⟩
  | cons m ms ih =>
    obtain ⟨hlead, hstart, htoken, hrest⟩ := h
    obtain ⟨h₁, h₂⟩ := ih hrest
    have hle₁ := G.le_of_blank hlead
    have hle₂ := G.le_of_blank hstart
    have hlt := G.start_lt_stop htoken
    exact ⟨h₁, by simp only [endOf]; omega⟩

theorem On.passes (hs : G.On s) (h : Passes s t) : G.On t := by
  obtain ⟨ms, h⟩ := h
  unfold On at hs ⊢
  rw [h.ahead] at hs
  rw [h.eof, h.prevEnd]
  exact hs.drop.1

theorem On.prevEnd_le (hs : G.On s) (h : Passes s t) : s.cursor.prevEnd ≤ t.cursor.prevEnd := by
  obtain ⟨ms, h⟩ := h
  unfold On at hs
  rw [h.ahead] at hs
  rw [h.prevEnd]
  exact hs.drop.2

theorem On.moves (hs : G.On s) (h : Moves s t) : G.On t := hs.passes h.passes

/-- The comments before the current token are skipped. -/
theorem On.blank_lead (hs : G.On s) : G.blank s.cursor.prevEnd s.cursor.leadStart := by
  unfold On at hs
  cases ha : s.cursor.ahead with
  | nil =>
    rw [ha] at hs
    simpa [Cursor.leadStart, ha, Ahead] using hs
  | cons m ms =>
    rw [ha] at hs
    simpa [Cursor.leadStart, ha] using hs.1

theorem On.blank_here (hs : G.On s) : G.blank s.cursor.prevEnd s.cursor.span.start := by
  unfold On at hs
  cases ha : s.cursor.ahead with
  | nil =>
    rw [ha] at hs
    simpa [Cursor.span, Cursor.current?, Span.point, ha, Ahead] using hs
  | cons m ms =>
    rw [ha] at hs
    rw [Cursor.span_of_ahead ha]
    exact G.blank_trans hs.1 hs.2.1

theorem On.lead_le_here (hs : G.On s) : s.cursor.leadStart ≤ s.cursor.span.start := by
  unfold On at hs
  cases ha : s.cursor.ahead with
  | nil => simp [Cursor.leadStart, Cursor.span, Cursor.current?, Span.point, ha]
  | cons m ms =>
    rw [ha] at hs
    rw [Cursor.span_of_ahead ha]
    simpa [Cursor.leadStart, Token.span, ha] using G.le_of_blank hs.2.1

theorem On.edge_prevEnd (hs : G.On s) : G.edge s.cursor.prevEnd := G.edge_left hs.blank_lead

/-- The current token lies before where the cursor rests when it has been consumed. -/
theorem On.here_lt (hs : G.On s) (h : Moves s t) : s.cursor.span.start < t.cursor.prevEnd := by
  obtain ⟨m, ms, h⟩ := h
  unfold On at hs
  rw [h.ahead] at hs
  obtain ⟨-, -, htoken, hrest⟩ := hs
  have hlt := G.start_lt_stop htoken
  have hle := hrest.drop.2
  rw [h.prevEnd]
  simp only [endOf]
  have hhere : s.cursor.span.start = m.token.start := h.start
  omega

/-- The current token never moves back. -/
theorem On.here_le_here (hs : G.On s) (h : Passes s t) : s.cursor.span.start ≤ t.cursor.span.start := by
  have ht := G.le_of_blank (hs.passes h).blank_here
  obtain ⟨ms, h⟩ := h
  cases ms with
  | nil =>
    have ha : s.cursor.ahead = t.cursor.ahead := h.ahead
    simp [Cursor.span, Cursor.current?, ha, h.eof]
  | cons m ms => exact Nat.le_trans (Nat.le_of_lt (hs.here_lt ⟨m, ms, h⟩)) ht

/-- A token ends where the cursor rests when something has been consumed. -/
theorem On.exists_token (hs : G.On s) (h : Moves s t) : ∃ tok, G.token tok ∧ tok.stop = t.cursor.prevEnd := by
  have hlast : ∀ {eof e : Nat} (m : Mark) (ms ns : List Mark), G.Ahead eof e (m :: ms ++ ns) →
      ∃ tok, G.token tok ∧ tok.stop = endOf e (m :: ms) := by
    intro eof e m ms ns h
    induction ms generalizing e m with
    | nil => exact ⟨m.token, h.2.2.1, rfl⟩
    | cons n ms ih => exact ih n h.2.2.2
  obtain ⟨m, ms, h⟩ := h
  unfold On at hs
  rw [h.ahead] at hs
  rw [h.prevEnd]
  exact hlast m ms _ hs

/-- The current token, when there is one. -/
theorem On.token (hs : G.On s) {m : Mark} {ms : List Mark} (h : s.cursor.ahead = m :: ms) : G.token m.token := by
  unfold On at hs
  rw [h] at hs
  exact hs.2.2.1

end Ground

/-! ### Ids -/

/-- The origins are different ids, and all of them were drawn while the supply went from `lo` to `hi`. -/
def Fresh (lo hi : Nat) (ids : List (Option Nat)) : Prop :=
  ids.Nodup ∧ ∀ o ∈ ids, ∃ i, o = some i ∧ lo ≤ i ∧ i < hi

namespace Fresh

variable {lo m hi : Nat} {ids ids' : List (Option Nat)}

theorem nil : Fresh lo hi [] := ⟨List.nodup_nil, nofun⟩

theorem mono {lo' hi' : Nat} (h : Fresh lo hi ids) (hlo : lo' ≤ lo) (hhi : hi ≤ hi') : Fresh lo' hi' ids := by
  refine ⟨h.1, fun o ho => ?_⟩
  obtain ⟨i, rfl, h₁, h₂⟩ := h.2 o ho
  exact ⟨i, rfl, Nat.le_trans hlo h₁, Nat.lt_of_lt_of_le h₂ hhi⟩

/-- Ids drawn one after the other are different. -/
theorem append (h₁ : Fresh lo m ids) (h₂ : Fresh m hi ids') (hlo : lo ≤ m) (hhi : m ≤ hi) :
    Fresh lo hi (ids ++ ids') := by
  refine ⟨List.nodup_append.2 ⟨h₁.1, h₂.1, fun o ho o' ho' heq => ?_⟩, fun o ho => ?_⟩
  · obtain ⟨i, rfl, -, hi⟩ := h₁.2 o ho
    obtain ⟨j, rfl, hj, -⟩ := h₂.2 o' ho'
    cases heq
    omega
  · rcases List.mem_append.1 ho with h | h
    · exact (h₁.mono (Nat.le_refl _) hhi).2 o h
    · exact (h₂.mono hlo (Nat.le_refl _)).2 o h

theorem cons (h : Fresh (lo + 1) hi ids) (hlt : lo < hi) : Fresh lo hi (some lo :: ids) := by
  refine ⟨List.nodup_cons.2 ⟨fun hmem => ?_, h.1⟩, fun o ho => ?_⟩
  · obtain ⟨i, hi, hle, -⟩ := h.2 _ hmem
    cases hi
    omega
  · rcases List.mem_cons.1 ho with rfl | ho
    · exact ⟨lo, rfl, Nat.le_refl _, hlt⟩
    · exact (h.mono (Nat.le_succ lo) (Nat.le_refl _)).2 o ho

theorem perm (h : Fresh lo hi ids) (hp : ids.Perm ids') : Fresh lo hi ids' :=
  ⟨hp.nodup_iff.1 h.1, fun i hi => h.2 i (hp.mem_iff.2 hi)⟩

theorem sublist (h : Fresh lo hi ids) (hs : ids'.Sublist ids) : Fresh lo hi ids' :=
  ⟨h.1.sublist hs, fun i hi => h.2 i (hs.subset hi)⟩

theorem left (h : Fresh lo hi (ids ++ ids')) : Fresh lo hi ids := h.sublist (List.sublist_append_left _ _)

theorem right (h : Fresh lo hi (ids ++ ids')) : Fresh lo hi ids' := h.sublist (List.sublist_append_right _ _)

end Fresh

end Graft
