/-
What names, attributes, terminators and verbatim statements consume.

A node that a parser reads from the state `s` on to the state `t` begins behind skipped tokens, ends where the cursor
then rests, and has ids that were drawn on the way: `Reads`.  Lists of such nodes are spread over what was consumed.

* `Yields.manyUntil`, `Yields.sepByComma` — lists of nodes;
* `yields_name`, `yields_verbatim` — the nodes without structure.
-/
import Graft.Parse.Extent
import Graft.Proofs.Reading.Layout
import Graft.Proofs.Tree.Origins

namespace Graft

/-! ### Nodes that were read -/

/-- A node with the given span and ids was read from `s` on to `t`. -/
structure Reads (G : Ground) (s t : ParseState) (sp : Span) (ids : List (Option NodeId)) : Prop where
  moves : Moves s t
  opens : G.blank s.cursor.prevEnd sp.start
  start_le : sp.start ≤ s.cursor.span.start
  stop : sp.stop = t.cursor.prevEnd
  fresh : Fresh s.nextId t.nextId ids

variable {G : Ground} {s t u : ParseState}

theorem Reads.start_lt_stop {sp : Span} {ids : List (Option NodeId)} (hs : G.On s) (h : Reads G s t sp ids) :
    sp.start < sp.stop := by
  have := hs.here_lt h.moves
  have := h.start_le
  rw [h.stop]
  omega

/-- Ids that are drawn after a node was read do not matter to it. -/
theorem Reads.later {sp : Span} {ids : List (Option NodeId)} (h : Reads G s t sp ids) {n : NodeId} (hn : t.nextId ≤ n) :
    Reads G s { t with nextId := n } sp ids where
  moves := h.moves.trans_passes ⟨[], rfl, rfl, rfl, hn⟩
  opens := h.opens
  start_le := h.start_le
  stop := h.stop
  fresh := h.fresh.mono (Nat.le_refl _) hn

/-- A node that starts at the current token. -/
theorem Ground.On.opens_here (hs : G.On s) :
    G.blank s.cursor.prevEnd s.cursor.span.start ∧ s.cursor.span.start ≤ s.cursor.span.start :=
  ⟨hs.blank_here, Nat.le_refl _⟩

/-- A node that starts with the comments above the current token. -/
theorem Ground.On.opens_lead (hs : G.On s) :
    G.blank s.cursor.prevEnd s.cursor.leadStart ∧ s.cursor.leadStart ≤ s.cursor.span.start :=
  ⟨hs.blank_lead, hs.lead_le_here⟩

namespace Parser

variable {α : Type}

/-! ### Tokens -/

/-- A token that is perhaps eaten. -/
theorem Yields.eat {k : TokenKind} {Q : Bool → ParseState → Prop}
    (htrue : s.cursor.check k = true → Moves s s.next → Q true s.next) (hfalse : Q false s) :
    Yields (Parser.eat k) s Q := by
  rw [yields_eat]
  split
  · exact htrue ‹_› (.of_check ‹_›)
  · exact hfalse

theorem Yields.eatAny {k : TokenKind} {Q : Bool → ParseState → Prop} (h : ∀ b t, Passes s t → Q b t) :
    Yields (Parser.eat k) s Q :=
  Yields.eat (fun _ hm => h true _ hm.passes) (h false s (.refl s))

theorem Yields.eatWord {w : String} {Q : Bool → ParseState → Prop}
    (htrue : s.cursor.checkWord w = true → Moves s s.next → Q true s.next) (hfalse : Q false s) :
    Yields (Parser.eatWord w) s Q := by
  rw [yields_eatWord]
  split
  · exact htrue ‹_› (.of_checkWord ‹_›)
  · exact hfalse

/-- An expected token stands behind skipped tokens and reaches to where the cursor then rests. -/
structure Takes (G : Ground) (s t : ParseState) (k : TokenKind) (tok : Token) : Prop where
  moves : Moves s t
  kind : tok.kind = k
  token : G.token tok
  start : tok.start = s.cursor.span.start
  stop : tok.stop = t.cursor.prevEnd
  nextId : t.nextId = s.nextId

theorem Yields.expect (hs : G.On s) {k : TokenKind} {expected : String} {Q : Token → ParseState → Prop}
    (h : ∀ tok t, Takes G s t k tok → Q tok t) : Yields (Parser.expect k expected) s Q := by
  refine yields_expect fun m ms hm hk => h m.token s.next ⟨.next hm, hk, hs.token hm, ?_, ?_, rfl⟩
  · rw [Cursor.span_of_ahead hm]
    rfl
  · exact (ParseState.prevEnd_next hm).symm

/-- A comma that was eaten is the only token that matters up to the next node. -/
theorem comma_of_eaten (hs : G.On s) (h : s.cursor.check .comma = true) {x : Nat}
    (hx : G.blank s.next.cursor.prevEnd x) : G.comma s.cursor.prevEnd x := by
  obtain ⟨m, ms, hm, hk⟩ := Cursor.exists_of_check h
  have hblank := hs.blank_here
  rw [Cursor.span_of_ahead hm] at hblank
  rw [ParseState.prevEnd_next hm] at hx
  exact ⟨m.token, hs.token hm, hk, hblank, hx⟩

/-! ### Groups -/

theorem closeGroup_pos {eof : Nat} {pending : List (TokenKind × Span)} {ms : List Mark}
    (h : (Cursor.closeGroup eof pending ms).2 = none) : 0 < (Cursor.closeGroup eof pending ms).1 := by
  cases ms with
  | nil => cases pending <;> simp [Cursor.closeGroup] at h
  | cons m ms =>
    simp only [Cursor.closeGroup] at h ⊢
    split at h
    · simp at h
    · simp
    · simp

/-- Tokens that are skipped are consumed. -/
theorem consumes_skip (n : Nat) (s : ParseState) :
    Consumes (s.cursor.ahead.take n) s { s with cursor := Cursor.skip n s.cursor } := by
  induction n generalizing s with
  | zero => exact ⟨rfl, rfl, rfl, Nat.le_refl _⟩
  | succ n ih =>
    cases hm : s.cursor.ahead with
    | nil =>
      have hstay : s.cursor.advance = s.cursor := by simp [Cursor.advance, hm]
      have h := ih s
      rw [hm] at h
      rw [Cursor.skip, hstay]
      simpa using h
    | cons m ms =>
      have h := ih s.next
      rw [ParseState.ahead_next hm] at h
      exact (Consumes.next hm).trans h

theorem passes_skip (n : Nat) (s : ParseState) : Passes s { s with cursor := Cursor.skip n s.cursor } :=
  ⟨_, consumes_skip n s⟩

theorem moves_skip {n : Nat} (hpos : 0 < n) (hle : n ≤ s.cursor.ahead.length) :
    Moves s { s with cursor := Cursor.skip n s.cursor } := by
  obtain ⟨n, rfl⟩ : ∃ k, n = k + 1 := ⟨n - 1, by omega⟩
  cases hm : s.cursor.ahead with
  | nil =>
    rw [hm, List.length_nil] at hle
    omega
  | cons m ms => exact (Moves.next hm).trans_passes (passes_skip n s.next)

/-- A group that is skipped has at least its opening bracket. -/
theorem Yields.skipGroup {Q : Span → ParseState → Prop}
    (h : ∀ sp t, Moves s t → sp = ⟨s.cursor.span.start, t.cursor.prevEnd⟩ → Q sp t) :
    Yields Parser.skipGroup s Q := by
  simp only [Parser.skipGroup, yields_bind, yields_cursor, Cursor.skipGroup]
  cases hc : Cursor.closeGroup s.cursor.eof [] s.cursor.ahead with
  | mk n e =>
    cases e with
    | some e => simp only [yields_moveTo, yields_throw]
    | none =>
      simp only [yields_moveTo, yields_pure]
      have hpos := closeGroup_pos (by rw [hc])
      have hle := Cursor.closeGroup_le s.cursor.eof [] s.cursor.ahead
      rw [hc] at hpos hle
      exact h _ _ (moves_skip hpos hle) rfl

/-! ### Lists -/

/-- What stands at the front of a list that was read up to `t`, behind what was consumed before `s`. -/
structure Listed [Placed α] (G : Ground) (P : α → Prop) (ids : α → List (Option NodeId)) (gap : Nat → Nat → Prop)
    (s t : ParseState) (as : List α) : Prop where
  passes : Passes s t
  spread : Spread G.blank gap s.cursor.prevEnd as t.cursor.prevEnd
  each : ∀ a ∈ as, P a
  fresh : Fresh s.nextId t.nextId (as.flatMap ids)
  ends : ∀ a ∈ as, G.Ends (span a).stop

section Lists

variable [Placed α] {P : α → Prop} {ids : α → List (Option NodeId)} {gap : Nat → Nat → Prop}

theorem Listed.nil : Listed G P ids gap s s [] where
  passes := .refl s
  spread := rfl
  each := by simp
  fresh := .nil
  ends := by simp

/-- A list with one more node, which was read behind what closes the gap. -/
theorem Listed.snoc {as : List α} {a : α} (hs : G.On s) (h : Listed G P ids gap s t as) (htu : Passes t u)
    {v : ParseState} (ha : Reads G u v (span a) (ids a)) (hP : P a)
    (hfirst : as = [] → G.blank t.cursor.prevEnd (span a).start)
    (hnext : as ≠ [] → gap t.cursor.prevEnd (span a).start) : Listed G P ids gap s v (as ++ [a]) := by
  have hu : G.On u := hs.passes (h.passes.trans htu)
  refine ⟨(h.passes.trans htu).trans ha.moves.passes, ?_, ?_, ?_, ?_⟩
  · rw [← ha.stop]
    exact h.spread.snoc hfirst hnext (ha.start_lt_stop hu)
  · intro b hb
    rcases List.mem_append.1 hb with hb | hb
    · exact h.each b hb
    · rw [List.mem_singleton] at hb
      rw [hb]
      exact hP
  · rw [List.flatMap_append, List.flatMap_singleton]
    exact h.fresh.append (ha.fresh.mono htu.nextId_le (Nat.le_refl _)) h.passes.nextId_le
      (Nat.le_trans htu.nextId_le ha.moves.nextId_le)
  · intro b hb
    rcases List.mem_append.1 hb with hb | hb
    · exact h.ends b hb
    · rw [List.mem_singleton] at hb
      rw [hb, ha.stop]
      exact hu.exists_token ha.moves

/-- A list of lines is laid out between what was consumed before it and what closes it. -/
theorem Listed.lines {as : List α} (hs : G.On s) (h : Listed G P ids G.blank s t as) {y : Nat}
    (hy : G.blank t.cursor.prevEnd y) : G.Lines ⟨s.cursor.prevEnd, y⟩ as :=
  Ground.Lines.extend ⟨_, h.spread, G.blank_refl (hs.passes h.passes).edge_prevEnd⟩ hy

/-- A list with commas is laid out from its first node to its last one. -/
theorem Listed.commas {as : List α} (hs : G.On s) (h : Listed G P ids G.comma s t as) (hne : as ≠ []) (d : Nat) :
    G.Commas ⟨(as.head?.map fun a => (span a).start).getD d, t.cursor.prevEnd⟩ as ∧
      s.cursor.prevEnd ≤ (as.head?.map fun a => (span a).start).getD d ∧
      (as.head?.map fun a => (span a).start).getD d ≤ t.cursor.prevEnd := by
  cases as with
  | nil => exact absurd rfl hne
  | cons a as =>
    obtain ⟨hfirst, hlt, hrest⟩ := h.spread
    refine ⟨⟨_, ⟨G.blank_refl (G.edge_right hfirst), hlt, hrest⟩, ?_⟩, G.le_of_blank hfirst, ?_⟩
    · exact .inl (G.blank_refl (hs.passes h.passes).edge_prevEnd)
    · exact Nat.le_trans (Nat.le_of_lt hlt) (hrest.le fun hgap => G.le_of_comma hgap)

/-- The nodes that are read until something holds are a list of lines. -/
theorem Yields.manyUntil {finished : Parser Bool} {item : Parser α} (hs : G.On s)
    (hfinished : ∀ t, finished.Yields t fun b u => u = t ∧ (b = false → t.cursor.atEnd = false))
    (hitem : ∀ t, G.On t → t.cursor.atEnd = false →
      item.Yields t fun a u => Reads G t u (span a) (ids a) ∧ P a) :
    (Parser.manyUntil finished item).Yields s fun as t => Listed G P ids G.blank s t as := by
  refine Yields.loop (I := fun as t => Listed G P ids G.blank s t as) (fun as t h => ?_) .nil
  have ht := hs.passes h.passes
  simp only [yields_bind]
  refine (hfinished t).mono fun b u hu => ?_
  obtain ⟨rfl, hend⟩ := hu
  refine .ite (fun _ => by simpa using h) fun hb => ?_
  simp only [yields_bind]
  refine (hitem _ ht (hend (by simpa using hb))).mono fun a v ha => ?_
  simp only [yields_pure]
  exact h.snoc hs (.refl _) ha.1 ha.2 (fun _ => ha.1.opens) fun _ => ha.1.opens

/-- What ends a list holds behind it. -/
theorem Yields.manyUntil_end {β : Type} {finished : Parser Bool} {item : Parser β} {E : ParseState → Prop}
    (hfinished : ∀ t, finished.Yields t fun b u => b = true → E u) :
    (Parser.manyUntil finished item).Yields s fun _ t => E t := by
  refine Yields.loop (I := fun _ _ => True) (fun as t _ => ?_) trivial
  simp only [yields_bind]
  refine (hfinished t).mono fun b u hu => ?_
  refine .ite (fun hb => by simpa using hu hb) fun _ => ?_
  simp only [yields_bind, yields_pure]
  exact fun _ _ _ => trivial

/-- Nodes go on being read as long as commas follow. -/
theorem Yields.moreByComma {item : Parser α} {as : List α} (hs : G.On s)
    (hitem : ∀ t, G.On t → Passes s t → item.Yields t fun a u => Reads G t u (span a) (ids a) ∧ P a)
    (h : Listed G P ids G.comma s t as) (hne : as ≠ []) :
    (Parser.loop (fun found => do
      if ← Parser.eat .comma then return .again (found ++ [← item])
      return .done found) as).Yields t fun bs u =>
        Listed G P ids G.comma s u bs ∧ bs.head? = as.head? ∧ Passes t u := by
  refine Yields.loop (I := fun bs u => Listed G P ids G.comma s u bs ∧ bs.head? = as.head? ∧ Passes t u)
    (fun bs u hb => ?_) ⟨h, rfl, .refl t⟩
  obtain ⟨hlist, hhead, htu⟩ := hb
  have hu := hs.passes hlist.passes
  have hbs : bs ≠ [] := by
    rintro rfl
    exact hne (List.head?_eq_none_iff.1 hhead.symm)
  simp only [yields_bind]
  refine Yields.eat (fun hcomma hmoves => ?_) (by simpa using ⟨hlist, hhead, htu⟩)
  simp only [if_true, yields_bind]
  refine (hitem _ (hu.moves hmoves) (hlist.passes.trans hmoves.passes)).mono fun a v ha => ?_
  simp only [yields_pure]
  refine ⟨hlist.snoc hs hmoves.passes ha.1 ha.2 (fun hnil => absurd hnil hbs) fun _ => ?_, ?_,
    (htu.trans hmoves.passes).trans ha.1.moves.passes⟩
  · exact comma_of_eaten hu hcomma ha.1.opens
  · rw [← hhead]
    cases bs with
    | nil => exact absurd rfl hbs
    | cons b bs => rfl

/-- One or more nodes with commas between them. -/
theorem Yields.sepByComma {item : Parser α} (hs : G.On s)
    (hitem : ∀ t, G.On t → Passes s t → item.Yields t fun a u => Reads G t u (span a) (ids a) ∧ P a) :
    (Parser.sepByComma item).Yields s fun as t =>
      Listed G P ids G.comma s t as ∧ as ≠ [] ∧ Moves s t := by
  simp only [Parser.sepByComma, yields_bind]
  refine (hitem s hs (.refl s)).mono fun first t hfirst => ?_
  have hlist : Listed G P ids G.comma s t [first] :=
    Listed.nil.snoc hs (.refl s) hfirst.1 hfirst.2 (fun _ => hfirst.1.opens) fun h => absurd rfl h
  refine (Yields.moreByComma hs hitem hlist (by simp)).mono fun as u h => ⟨h.1, ?_, hfirst.1.moves.trans_passes h.2.2⟩
  rintro rfl
  simp at h

end Lists

/-! ### Lists with a comma behind them -/

/-- A list that was read from `s` on to `t`, with the comma behind its last node if there is one. -/
structure ReadsItems [Placed α] (G : Ground) (P : α → Prop) (ids : α → List (Option NodeId)) (s t : ParseState)
    (as : List α) : Prop where
  passes : Passes s t
  commas : G.Commas ⟨s.cursor.prevEnd, t.cursor.prevEnd⟩ as
  each : ∀ a ∈ as, P a
  fresh : Fresh s.nextId t.nextId (as.flatMap ids)

/-- A list to which another node may be appended: it is empty, or a comma stands behind it. -/
structure OpenItems [Placed α] (G : Ground) (P : α → Prop) (ids : α → List (Option NodeId)) (s t : ParseState)
    (as : List α) : Prop where
  reads : ReadsItems G P ids s t as
  comma : as ≠ [] → ∃ e, Spread G.blank G.comma s.cursor.prevEnd as e ∧ G.comma e t.cursor.prevEnd

section Items

variable [Placed α] {P : α → Prop} {ids : α → List (Option NodeId)} {as : List α}

theorem OpenItems.nil (hs : G.On s) : OpenItems G P ids s s [] where
  reads := ⟨.refl s, ⟨_, rfl, .inl (G.blank_refl hs.edge_prevEnd)⟩, by simp, .nil⟩
  comma h := absurd rfl h

/-- What opens behind no nodes opens behind the bracket. -/
theorem OpenItems.opens_of_nil (h : OpenItems G P ids s t ([] : List α)) {x : Nat}
    (hx : G.blank t.cursor.prevEnd x) : G.blank s.cursor.prevEnd x := by
  obtain ⟨e, rfl, hblank | ⟨hne, -⟩⟩ := h.reads.commas
  · exact G.blank_trans hblank hx
  · exact absurd rfl hne

theorem OpenItems.snoc {a : α} (hs : G.On s) (h : OpenItems G P ids s t as) (ha : Reads G t u (span a) (ids a))
    (hP : P a) : ReadsItems G P ids s u (as ++ [a]) ∧ Spread G.blank G.comma s.cursor.prevEnd (as ++ [a]) u.cursor.prevEnd := by
  have ht := hs.passes h.reads.passes
  have hspread : Spread G.blank G.comma s.cursor.prevEnd (as ++ [a]) u.cursor.prevEnd := by
    rw [← ha.stop]
    by_cases hnil : as = []
    · subst hnil
      exact ⟨h.opens_of_nil ha.opens, ha.start_lt_stop ht, rfl⟩
    · obtain ⟨e, he, hcomma⟩ := h.comma hnil
      exact he.snoc (fun hn => absurd hn hnil) (fun _ => G.comma_trans hcomma ha.opens) (ha.start_lt_stop ht)
  have hu := hs.passes (h.reads.passes.trans ha.moves.passes)
  refine ⟨⟨h.reads.passes.trans ha.moves.passes, ⟨_, hspread, .inl (G.blank_refl hu.edge_prevEnd)⟩, ?_, ?_⟩, hspread⟩
  · intro b hb
    rcases List.mem_append.1 hb with hb | hb
    · exact h.reads.each b hb
    · rw [List.mem_singleton] at hb
      rw [hb]
      exact hP
  · rw [List.flatMap_append, List.flatMap_singleton]
    exact h.reads.fresh.append ha.fresh h.reads.passes.nextId_le ha.moves.nextId_le

/-- The comma behind a list is consumed, so that another node may follow. -/
theorem OpenItems.of_comma (hs : G.On s) (h : ReadsItems G P ids s t as)
    (hspread : Spread G.blank G.comma s.cursor.prevEnd as t.cursor.prevEnd) (hne : as ≠ [])
    (hcomma : t.cursor.check .comma = true) : OpenItems G P ids s t.next as := by
  have hpass : Passes s t.next := h.passes.trans (.next t)
  have hgap := comma_of_eaten (hs.passes h.passes) hcomma (G.blank_refl (hs.passes hpass).edge_prevEnd)
  exact ⟨⟨hpass, ⟨_, hspread, .inr ⟨hne, hgap⟩⟩, h.each, h.fresh.mono (Nat.le_refl _) (Passes.next t).nextId_le⟩,
    fun _ => ⟨_, hspread, hgap⟩⟩

end Items

/-! ### Names -/

theorem yields_segments (s : ParseState) : segments.Yields s fun _ t => Passes s t := by
  refine Yields.loop (I := fun _ t => Passes s t) (fun text t ht => ?_) (.refl s)
  simp only [yields_bind, yields_check, yields_peek?]
  refine .ite (fun _ => ?_) fun _ => by simpa using ht
  simp only [yields_bind, yields_advance, yields_cursor, yields_pure]
  exact (ht.trans (.next t)).trans (.next _)

theorem yields_name (hs : G.On s) :
    name.Yields s fun n t => Reads G s t n.span n.origins ∧ n.span.start = s.cursor.span.start := by
  simp only [name, yields_bind, yields_fresh, yields_here]
  have h₀ : Passes s { s with nextId := s.nextId + 1 } := .fresh s
  have rest : ∀ (rooted : Bool) t, Passes { s with nextId := s.nextId + 1 } t →
      (Parser.expect .ident "name").Yields t fun first u => segments.Yields u fun more v =>
        Yields (spanFrom s.cursor.span.start) v fun sp w => Yields (pure (⟨some s.nextId, sp,
          (if rooted then ['\\'] else []) ++ first.text ++ more⟩ : Name)) w fun n t =>
            Reads G s t n.span n.origins ∧ n.span.start = s.cursor.span.start := by
    intro rooted t ht
    refine Yields.expect (hs.passes (h₀.trans ht)) fun first u hu => ?_
    refine (yields_segments u).mono fun more v hv => ?_
    simp only [yields_spanFrom, yields_pure]
    have hm : Moves s v := ((h₀.trans ht).trans_moves hu.moves).trans_passes hv
    refine ⟨⟨hm, hs.opens_here.1, hs.opens_here.2, rfl, Fresh.cons .nil ?_⟩, trivial⟩
    have h₁ : s.nextId + 1 ≤ v.nextId := (ht.trans (hu.moves.passes.trans hv)).nextId_le
    exact h₁
  exact Yields.eat (fun _ hm => rest true _ hm.passes) (rest false _ (.refl _))

theorem yields_ident (hs : G.On s) {expected : String} : (ident expected).Yields s fun n t =>
    Moves s t ∧ n.span.start = s.cursor.span.start ∧ n.span.start < n.span.stop ∧ n.span.stop = t.cursor.prevEnd := by
  simp only [ident, yields_bind, yields_pure]
  refine Yields.expect hs fun tok t ht => ?_
  exact ⟨ht.moves, ht.start, G.start_lt_stop ht.token, ht.stop⟩

theorem yields_nameList (hs : G.On s) : nameList.Yields s fun ns t =>
    Listed G (fun _ => True) Name.origins G.comma s t ns ∧ ns ≠ [] ∧ Moves s t :=
  Yields.sepByComma hs fun _ ht _ => (yields_name ht).mono fun _ _ h => ⟨h.1, trivial⟩

/-! ### Terminators and attributes -/

theorem yields_terminator (s : ParseState) : terminator.Yields s fun _ t => Moves s t := by
  simp only [terminator, yields_bind]
  refine Yields.eat (fun _ hm => by simpa using hm) ?_
  simp only [Bool.false_eq_true, if_false, yields_bind]
  refine Yields.eat (fun _ hm => by simpa using hm) ?_
  simp only [Bool.false_eq_true, if_false, yields_unexpected]

/-- A token that was eaten stands before the cursor. -/
theorem exists_eaten (hs : G.On s) {k : TokenKind} (h : s.cursor.check k = true) :
    ∃ tok, G.token tok ∧ tok.kind = k ∧ tok.stop = s.next.cursor.prevEnd := by
  obtain ⟨m, ms, hm, hk⟩ := Cursor.exists_of_check h
  exact ⟨m.token, hs.token hm, hk, (ParseState.prevEnd_next hm).symm⟩

theorem yields_terminator_closes (hs : G.On s) :
    terminator.Yields s fun _ t => Moves s t ∧ G.Closes t.cursor.prevEnd := by
  simp only [terminator, yields_bind]
  refine Yields.eat (fun hk hm => ?_) ?_
  · obtain ⟨tok, htok, hkind, hstop⟩ := exists_eaten hs hk
    simpa using ⟨hm, tok, htok, by simp [hkind], hstop⟩
  simp only [Bool.false_eq_true, if_false, yields_bind]
  refine Yields.eat (fun hk hm => ?_) ?_
  · obtain ⟨tok, htok, hkind, hstop⟩ := exists_eaten hs hk
    simpa using ⟨hm, tok, htok, by simp [hkind], hstop⟩
  simp only [Bool.false_eq_true, if_false, yields_unexpected]

/-- What holds where steps end holds at the end. -/
theorem Yields.skipUntil {finished : Parser Bool} {step : Parser Unit} {P : ParseState → Prop}
    (hfinished : ∀ t, finished.Yields t fun b u => u = t ∧ (b = true → P t))
    (hstep : ∀ t, step.Yields t fun _ u => Passes t u) :
    (Parser.skipUntil finished step).Yields s fun _ t => Passes s t ∧ P t := by
  refine Yields.loop (I := fun _ t => Passes s t) (fun _ t ht => ?_) (.refl s)
  simp only [yields_bind]
  refine (hfinished t).mono fun b u hu => ?_
  obtain ⟨rfl, hP⟩ := hu
  refine .ite (fun hb => by simpa using ⟨ht, hP hb⟩) fun _ => ?_
  simp only [yields_bind, yields_pure]
  exact (hstep _).mono fun _ v hv => ht.trans hv

theorem yields_skipAttributes (s : ParseState) : skipAttributes.Yields s fun _ t => Passes s t := by
  refine (Yields.skipUntil (P := fun _ => True) (fun t => ?_) fun t => ?_).mono fun _ _ h => h.1
  · simp only [yields_bind, yields_check, yields_pure]
    exact ⟨trivial, fun _ => trivial⟩
  · simp only [yields_discard]
    exact Yields.skipGroup fun _ u hu _ => hu.passes

theorem yields_skipOne (s : ParseState) : skipOne.Yields s fun _ t => Passes s t := by
  simp only [skipOne, yields_bind, yields_kind?]
  refine .ite (fun _ => ?_) fun _ => ?_
  · simp only [yields_discard]
    exact Yields.skipGroup fun _ u hu _ => hu.passes
  · simpa only [yields_advance] using .next s

/-! ### Verbatim statements -/

/-- A round consumes something, or it is the last one at the end of the text or before a closing bracket. -/
theorem yields_verbatimRound (begun : Bool) (s : ParseState) : (verbatimRound begun).Yields s fun r t =>
    match r with
    | .again b => b = true ∧ Moves s t
    | .done _ => Moves s t ∨ t = s ∧ (begun = true ∨ s.cursor.atEnd = true) := by
  simp only [verbatimRound, yields_bind, yields_kind?]
  cases hm : s.cursor.ahead with
  | nil =>
    have hk : s.cursor.kind? = none := by simp [Cursor.kind?, Cursor.current?, hm]
    simp only [hk, yields_pure]
    exact .inr ⟨trivial, .inr (by simp [Cursor.atEnd, hm])⟩
  | cons m ms =>
    have hk : s.cursor.kind? = some m.token.kind := Cursor.kind?_of_ahead hm
    have hnext : Moves s s.next := .next hm
    simp only [hk]
    split
    · rename_i h
      cases h
    · simp only [yields_bind, yields_advance, yields_pure]
      exact .inl hnext
    · simp only [yields_bind, yields_advance, yields_pure]
      exact .inl hnext
    · simp only [yields_bind, yields_discard]
      refine Yields.skipGroup fun sp t ht _ => ?_
      simp only [yields_cursor]
      refine .ite (fun _ => by simpa using ht) fun _ => ?_
      simp only [yields_bind, yields_discard, yields_pure]
      exact Yields.eat (fun _ hu => .inl (ht.trans hu)) (.inl ht)
    · refine .ite (fun _ => ?_) fun _ => ?_
      · simp only [yields_bind, yields_discard, yields_pure]
        exact Yields.skipGroup fun _ t ht _ => ⟨trivial, ht⟩
      refine .ite (fun _ => ?_) fun _ => ?_
      · refine .ite (fun hb => ?_) fun _ => yields_unexpected
        simp only [yields_pure]
        exact .inr ⟨trivial, .inl hb⟩
      · simp only [yields_bind, yields_advance, yields_pure]
        exact ⟨trivial, hnext⟩

theorem yields_verbatim (hs : G.On s) (hend : s.cursor.atEnd = false) :
    verbatim.Yields s fun v t => Reads G s t v.span v.origins := by
  simp only [verbatim, yields_bind, yields_fresh, yields_leadStart]
  have h₀ : Passes s { s with nextId := s.nextId + 1 } := .fresh s
  -- Before the statement has begun nothing is consumed, afterwards something is.
  refine (Yields.loop (Q := fun _ t => Moves { s with nextId := s.nextId + 1 } t)
    (I := fun begun t => if begun = true then Moves { s with nextId := s.nextId + 1 } t
      else t = { s with nextId := s.nextId + 1 }) (fun begun t ht => ?_) (by simp)).mono fun _ t ht => ?_
  · refine (yields_verbatimRound begun t).mono fun r u hr => ?_
    have hpass : Passes { s with nextId := s.nextId + 1 } t := by
      cases begun with
      | true => exact (show Moves _ t by simpa using ht).passes
      | false =>
        rw [show t = { s with nextId := s.nextId + 1 } by simpa using ht]
        exact .refl _
    cases r with
    | again b =>
      obtain ⟨rfl, hu⟩ := hr
      simpa using hpass.trans_moves hu
    | done _ =>
      rcases hr with hu | ⟨rfl, rfl | hat⟩
      · exact hpass.trans_moves hu
      · simpa using ht
      · cases begun with
        | true => simpa using ht
        | false =>
          rw [show u = { s with nextId := s.nextId + 1 } by simpa using ht] at hat
          rw [show s.cursor.atEnd = true from hat] at hend
          cases hend
  · simp only [yields_spanFrom, yields_pure]
    exact ⟨h₀.trans_moves ht, hs.opens_lead.1, hs.opens_lead.2, rfl, Fresh.cons .nil ht.nextId_le⟩

end Parser

end Graft
