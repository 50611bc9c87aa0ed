/-
The layout of members that were read.

A member begins with the comments above it and its attributes, which are consumed before it is known what kind of
member it is; from there on the rule of its kind reads to its end (`Finishes`).

* `yields_block` — the body of a method is a list of lines between its braces;
* `yields_member` — the layout of a member.
-/
import Graft.Parse.Member
import Graft.Proofs.Reading.Expr

namespace Graft.Parser

variable {G : Ground} {s t u : ParseState}

/-! ### Ends -/

theorem atEnd_eq_false_of_check {k : TokenKind} (h : s.cursor.check k = true) : s.cursor.atEnd = false := by
  obtain ⟨m, ms, hm, -⟩ := Cursor.exists_of_check h
  simp [Cursor.atEnd, hm]

theorem atEnd_eq_false_of_checkWord {w : String} (h : s.cursor.checkWord w = true) : s.cursor.atEnd = false := by
  rw [Cursor.checkWord, Bool.and_eq_true] at h
  exact atEnd_eq_false_of_check h.1

theorem moves_of_atEnd_eq_false (h : s.cursor.atEnd = false) : Moves s s.next := by
  cases hm : s.cursor.ahead with
  | nil => simp [Cursor.atEnd, hm] at h
  | cons m ms => exact .next hm

/-- A node that begins at `start` was read to its end from `s` on to `t`. -/
structure Finishes (start : Nat) (s t : ParseState) (sp : Span) (ids : List (Option NodeId)) : Prop where
  moves : Moves s t
  span : sp = ⟨start, t.cursor.prevEnd⟩
  fresh : Fresh s.nextId t.nextId ids

theorem Finishes.reads {sp : Span} {ids : List (Option NodeId)} (hs : G.On s) (hsu : Passes s u)
    (h : Finishes s.cursor.leadStart u t sp ids) : Reads G s t sp ids where
  moves := hsu.trans_moves h.moves
  opens := by rw [h.span]; exact hs.blank_lead
  start_le := by rw [h.span]; exact hs.lead_le_here
  stop := by rw [h.span]
  fresh := h.fresh.mono hsu.nextId_le (Nat.le_refl _)

/-! ### Values -/

/-- An expression that may be absent was read from `s` on to `t`. -/
structure ReadsOption (G : Ground) (s t : ParseState) (value : Option Expr) : Prop where
  passes : Passes s t
  fresh : Fresh s.nextId t.nextId (Expr.originsOption value)
  laid : ∀ e, value = some e → e.span.Within ⟨s.cursor.prevEnd, t.cursor.prevEnd⟩ ∧ e.Laid G

theorem ReadsOption.none (s : ParseState) : ReadsOption G s s none := ⟨.refl s, .nil, nofun⟩

theorem yields_some_expr (hs : G.On s) (hr : G.Resumes s.cursor.prevEnd) (ctx : ExprContext) :
    (some <$> Parser.expr ctx : Parser (Option Expr)).Yields s fun value t => ReadsOption G s t value := by
  rw [yields_map]
  refine (yields_expr ctx s hs hr).mono fun e t he => ?_
  obtain ⟨hread, htells⟩ := he
  refine ⟨hread.reads.moves.passes, hread.reads.fresh, fun a ha => ?_⟩
  cases ha
  exact ⟨hread.within hs (G.le_of_blank hs.blank_here) (Nat.le_refl _), htells, hread.arranged⟩

/-- What was read behind the beginning of a node lies within the node. -/
theorem ReadsOption.within {value : Option Expr} {start stop : Nat} (h : ReadsOption G s t value)
    (hstart : start ≤ s.cursor.prevEnd) (hstop : t.cursor.prevEnd ≤ stop) :
    ∀ e, value = some e → e.span.Within ⟨start, stop⟩ ∧ e.Laid G := by
  intro e he
  obtain ⟨hwithin, hlaid⟩ := h.laid e he
  exact ⟨hwithin.widen hstart hstop, hlaid⟩

/-! ### Bodies of methods -/

theorem yields_returnStmt (hs : G.On s) (hword : s.cursor.checkWord "return" = true) :
    returnStmt.Yields s fun r t => Reads G s t r.span r.origins ∧ r.Laid G := by
  simp only [returnStmt, yields_bind, yields_fresh, yields_leadStart, yields_advance, yields_atEnd, yields_check]
  have hm : Moves s { s with nextId := s.nextId + 1 }.next := (Moves.of_checkWord hword).trans_passes (.fresh _)
  have hr : G.Resumes ({ s with nextId := s.nextId + 1 } : ParseState).next.cursor.prevEnd := by
    rw [Cursor.checkWord, Bool.and_eq_true] at hword
    exact resumes_of_check (hs.passes (.fresh s)) (by decide) hword.1
  generalize hu : ParseState.next { s with nextId := s.nextId + 1 } = u at hm hr
  have huid : u.nextId = s.nextId + 1 := by rw [← hu]; rfl
  refine Yields.join (R := fun value t => ReadsOption G u t value) (fun _ => ?_)
    (fun _ => yields_some_expr (hs.moves hm) hr .statement) fun value t hvalue => ?_
  · rw [yields_pure]
    exact .none u
  rw [yields_bind, yields_atEnd]
  refine Yields.pure_join (a := ()) (R := fun _ v => Passes t v) (fun _ => .refl t)
    (fun _ => (yields_terminator t).mono fun _ _ h => h.passes) fun _ v hv => ?_
  simp only [yields_bind, yields_spanFrom, yields_pure]
  have ht : Moves s t := hm.trans_passes hvalue.passes
  have hids : Fresh s.nextId v.nextId (some s.nextId :: Expr.originsOption value) := by
    refine .cons (hvalue.fresh.mono (Nat.le_of_eq huid.symm) hv.nextId_le) ?_
    have := hvalue.passes.nextId_le
    have := hv.nextId_le
    simp only [NodeId] at *
    omega
  refine ⟨⟨ht.trans_passes hv, hs.opens_lead.1, hs.opens_lead.2, rfl, hids⟩, hvalue.within ?_ ?_⟩
  · exact Nat.le_trans hs.lead_le_here (Nat.le_of_lt (hs.here_lt hm))
  · exact (hs.moves ht).prevEnd_le hv

theorem yields_bodyStmt (hs : G.On s) (hend : s.cursor.atEnd = false) :
    bodyStmt.Yields s fun b t => Reads G s t b.span b.origins ∧ b.Laid G := by
  simp only [bodyStmt, yields_bind, yields_checkWord]
  refine .ite (fun hword => ?_) fun _ => ?_
  · simp only [yields_bind, yields_pure]
    exact yields_returnStmt hs hword
  · simp only [yields_bind, yields_pure]
    exact (yields_verbatim hs hend).mono fun _ _ h => ⟨h, trivial⟩

theorem yields_atBlockEnd (s : ParseState) :
    atBlockEnd.Yields s fun b t => t = s ∧ (b = false → s.cursor.atEnd = false) := by
  simp only [atBlockEnd, yields_bind, yields_check]
  refine .ite (fun _ => by simp) fun _ => .ite (fun _ => yields_unexpected) fun h => ?_
  simpa using h

/-- A list of lines between braces, the first of which was consumed last before `s`. -/
theorem Listed.braced {α : Type} [Placed α] {P : α → Prop} {ids : α → List (Option NodeId)} {as : List α} {close : Token}
    (hs : G.On s) (h : Listed G P ids G.blank s t as) (hclose : Takes G t u .rBrace close) :
    G.Lines ⟨s.cursor.prevEnd, close.start⟩ as ∧ s.cursor.prevEnd ≤ close.start ∧ close.start < close.stop ∧
      close.stop = u.cursor.prevEnd ∧ Moves s u := by
  have ht := hs.passes h.passes
  have hblank : G.blank t.cursor.prevEnd close.start := by
    rw [hclose.start]
    exact ht.blank_here
  exact ⟨h.lines hs hblank, Nat.le_trans (hs.prevEnd_le h.passes) (G.le_of_blank hblank),
    G.start_lt_stop hclose.token, hclose.stop, h.passes.trans_moves hclose.moves⟩

theorem yields_block (hs : G.On s) : block.Yields s fun b t =>
    Finishes s.cursor.span.start s t b.span b.origins ∧ b.Laid G ∧ G.Closes t.cursor.prevEnd := by
  simp only [block, yields_bind, yields_fresh]
  have h₀ : Passes s { s with nextId := s.nextId + 1 } := .fresh s
  refine Yields.expect (hs.passes h₀) fun opening t ht => ?_
  have hst : Moves s t := h₀.trans_moves ht.moves
  refine (Yields.manyUntil (hs.moves hst) yields_atBlockEnd fun _ => yields_bodyStmt).mono fun stmts u hu => ?_
  refine Yields.expect (hs.passes (hst.passes.trans hu.passes)) fun close v hv => ?_
  simp only [yields_pure]
  obtain ⟨hlines, hle, hlt, hstop, hm⟩ := hu.braced (hs.moves hst) hv
  have hstart : opening.start = s.cursor.span.start := ht.start
  refine ⟨⟨hst.trans hm, by rw [hstart, hstop], ?_⟩, ⟨⟨?_, ?_, ?_⟩, by rw [ht.stop]; exact hlines, hu.each⟩,
    close, hv.token, by simp [hv.kind], hstop⟩
  · have hids := hu.fresh.mono (Nat.le_of_eq ht.nextId.symm) (Nat.le_of_eq hv.nextId.symm)
    exact .cons hids (Nat.lt_of_lt_of_le (Nat.lt_of_lt_of_eq s.nextId.lt_succ_self ht.nextId.symm) hm.nextId_le)
  · exact Nat.le_of_lt (G.start_lt_stop ht.token)
  · rw [← ht.stop] at hle
    exact hle
  · exact Nat.le_of_lt hlt

/-! ### Modifiers and traits -/

theorem yields_modifiers (s : ParseState) : modifiers.Yields s fun _ t => Passes s t := by
  refine Yields.loop (I := fun _ t => Passes s t) (fun found t ht => ?_) (.refl s)
  simp only [modifier?, yields_bind, yields_cursor, yields_pure]
  cases (if t.cursor.check .ident then Modifiers.ofKeyword? t.cursor.text else none) with
  | none => simpa using ht
  | some m =>
    simp only [yields_bind, yields_advance, yields_pure]
    exact ht.trans (.next t)

theorem yields_traitUse (hs : G.On s) (hend : s.cursor.atEnd = false) {start : Nat}
    (hstart : start ≤ s.cursor.span.start) :
    (traitUse start).Yields s fun c t => Finishes start s t c.span c.origins ∧ c.Laid G := by
  simp only [traitUse, yields_bind, yields_fresh, yields_advance]
  have hm : Moves s { s with nextId := s.nextId + 1 }.next := (moves_of_atEnd_eq_false hend).trans_passes (.fresh _)
  have hu := hs.moves hm
  refine (yields_nameList hu).mono fun names t ht => ?_
  have hut : Moves s t := hm.trans_passes ht.1.passes
  obtain ⟨hcommas, hle, hle'⟩ := ht.1.commas hu ht.2.1 start
  simp only [yields_spanFrom, yields_check]
  refine Yields.join_bind (R := fun (adaptations : Option Span) v => Moves t v ∧
    ∀ a, adaptations = some a → a.Within ⟨start, v.cursor.prevEnd⟩) (fun _ => ?_) (fun _ => ?_) fun adaptations v hv => ?_
  · rw [yields_map]
    refine Yields.skipGroup fun sp v hv hsp => ⟨hv, fun a ha => ?_⟩
    cases ha
    rw [hsp]
    exact ⟨Nat.le_trans hstart (hs.here_le_here hut.passes), Nat.le_of_lt ((hs.moves hut).here_lt hv), Nat.le_refl _⟩
  · exact (yields_terminator t).mono fun _ v h => yields_pure.2 ⟨h, fun _ ha => by cases ha⟩
  · simp only [yields_bind, yields_spanFrom, yields_pure]
    have hids : Fresh s.nextId v.nextId (some s.nextId :: names.flatMap Name.origins) :=
      .cons (ht.1.fresh.mono (Nat.le_refl _) hv.1.nextId_le)
        (Nat.lt_of_lt_of_le s.nextId.lt_succ_self (Nat.le_trans ht.1.passes.nextId_le hv.1.nextId_le))
    refine ⟨⟨hut.trans hv.1, rfl, hids⟩, ⟨?_, hle', ?_⟩, hcommas, ht.2.1, hv.2⟩
    · exact Nat.le_trans hstart (Nat.le_trans (Nat.le_of_lt (hs.here_lt hm)) hle)
    · exact (hs.moves hut).prevEnd_le hv.1.passes

/-! ### Methods -/

theorem yields_atTypeEnd (s : ParseState) : atTypeEnd.Yields s fun _ t => t = s := by
  simp only [atTypeEnd, yields_bind, yields_atEnd, yields_check, yields_pure]

theorem yields_method (hs : G.On s) (hend : s.cursor.atEnd = false) {start : Nat} (mods : Modifiers)
    (hstart : start ≤ s.cursor.span.start) :
    (method start mods).Yields s fun m t => Finishes start s t m.span m.origins ∧ m.Laid G := by
  simp only [method, yields_bind, yields_fresh, yields_advance, yields_discard]
  have hm : Moves s { s with nextId := s.nextId + 1 }.next := (moves_of_atEnd_eq_false hend).trans_passes (.fresh _)
  generalize hs₁ : ParseState.next { s with nextId := s.nextId + 1 } = s₁ at hm
  have hid : s.nextId + 1 = s₁.nextId := by rw [← hs₁]; rfl
  refine Yields.eatAny fun _ s₂ h₂ => ?_
  have hon₂ := (hs.moves hm).passes h₂
  refine (yields_ident hon₂).mono fun name s₃ h₃ => ?_
  have hm₃ : Moves s s₃ := (hm.trans_passes h₂).trans h₃.1
  have hon₃ := hs.moves hm₃
  simp only [yields_check]
  refine .ite (fun _ => ?_) fun _ => by simp only [yields_bind, yields_unexpected]
  simp only [yields_bind, yields_discard]
  refine Yields.skipGroup fun _ s₄ h₄ _ => Yields.mono (Q := fun _ s₅ => Passes s₄ s₅)
    (Yields.eatAny fun _ _ h => h) fun _ s₅ h₅ => ?_
  -- The return type, when there is one.
  refine Yields.join_pure (a := ()) (R := fun _ s₆ => Passes s₃ s₆) (fun _ => ?_)
    (fun _ => h₄.passes.trans h₅) fun _ s₆ h₆ => ?_
  · refine (Yields.skipUntil (P := fun _ => True) (fun t => ?_) fun t => ?_).mono fun _ _ h =>
      (h₄.passes.trans h₅).trans h.1
    · exact (yields_atTypeEnd t).mono fun _ _ h => ⟨h, fun _ => trivial⟩
    · simp only [yields_bind, yields_check]
      refine .ite (fun _ => ?_) fun _ => yields_advance.2 (.next t)
      rw [yields_discard]
      exact Yields.skipGroup fun _ _ h _ => h.passes
  have hm₆ : Moves s s₆ := hm₃.trans_passes h₆
  have hon₆ := hs.moves hm₆
  rw [yields_bind, yields_check]
  refine Yields.join_bind (R := fun (body : Option Block) t => Moves s₆ t ∧
    Fresh s₆.nextId t.nextId ((body.map Block.origins).getD []) ∧
    (∀ b, body = some b → b.span.Within ⟨start, t.cursor.prevEnd⟩ ∧ b.Laid G) ∧ G.Closes t.cursor.prevEnd)
    (fun _ => ?_) (fun _ => ?_) fun body t ht => ?_
  · rw [yields_map]
    refine (yields_block hon₆).mono fun b t hb => ⟨hb.1.moves, hb.1.fresh, fun b' hb' => ?_, hb.2.2⟩
    cases hb'
    rw [hb.1.span]
    exact ⟨⟨Nat.le_trans hstart (hs.here_le_here hm₆.passes), Nat.le_of_lt (hon₆.here_lt hb.1.moves), Nat.le_refl _⟩,
      hb.2.1⟩
  · refine (yields_terminator_closes hon₆).mono fun _ t h => yields_pure.2 ⟨h.1, .nil, fun b hb => ?_, h.2⟩
    cases hb
  · simp only [yields_bind, yields_spanFrom, yields_pure]
    have hle : s.nextId + 1 ≤ s₆.nextId :=
      hid ▸ Nat.le_trans h₂.nextId_le (Nat.le_trans h₃.1.nextId_le h₆.nextId_le)
    have hids : Fresh s.nextId t.nextId (some s.nextId :: (body.map Block.origins).getD []) :=
      .cons (ht.2.1.mono hle (Nat.le_refl _)) (Nat.lt_of_lt_of_le hle ht.1.nextId_le)
    refine ⟨⟨hm₆.trans ht.1, rfl, hids⟩, ⟨?_, ?_, ?_⟩, ht.2.2⟩
    · rw [h₃.2.1]
      exact Nat.le_trans hstart (hs.here_le_here (hm.passes.trans h₂))
    · exact Nat.le_of_lt h₃.2.2.1
    · rw [h₃.2.2.2]
      exact hon₃.prevEnd_le (h₆.trans ht.1.passes)

/-! ### Properties -/

theorem yields_propertyType (s : ParseState) : propertyType.Yields s fun _ t => Passes s t := by
  refine Yields.loop (I := fun _ t => Passes s t) (fun _ t ht => ?_) (.refl s)
  simp only [yields_bind, yields_kind?]
  split
  · simpa using ht
  · exact yields_unexpected
  · exact yields_unexpected
  · exact yields_unexpected
  · exact yields_unexpected
  · simp only [yields_bind, yields_discard, yields_pure]
    exact Yields.skipGroup fun _ u hu _ => ht.trans hu.passes
  · simp only [yields_bind, yields_advance, yields_pure]
    exact ht.trans (.next t)

theorem yields_propertyItem (hs : G.On s) : propertyItem.Yields s fun i t =>
    Reads G s t i.span i.origins ∧ i.Laid G ∧ i.span.start = s.cursor.span.start := by
  simp only [propertyItem, yields_bind, yields_fresh]
  have h₀ : Passes s { s with nextId := s.nextId + 1 } := .fresh s
  refine Yields.expect (hs.passes h₀) fun tok t ht => ?_
  have hst : Moves s t := h₀.trans_moves ht.moves
  have hon := hs.moves hst
  refine Yields.mono (Q := fun b u => Passes t u ∧ (b = true → G.Resumes u.cursor.prevEnd))
    (Yields.eat (fun heq hm => ⟨hm.passes, fun _ => resumes_of_check hon (by decide) heq⟩) ⟨.refl t, fun h => absurd h Bool.false_ne_true⟩)
    fun b u hb => ?_
  obtain ⟨hu, hr⟩ := hb
  refine Yields.join (R := fun value v => ReadsOption G u v value)
    (fun hb => yields_some_expr (hon.passes hu) (hr hb) .default) (fun _ => yields_pure.2 (.none u)) fun value v hv => ?_
  simp only [yields_bind, yields_spanFrom, yields_pure]
  have htv : Passes t v := hu.trans hv.passes
  have hstart : tok.start = s.cursor.span.start := ht.start
  have hids : Fresh s.nextId v.nextId (some s.nextId :: Expr.originsOption value) := by
    have hle : s.nextId + 1 ≤ u.nextId := Nat.le_trans (Nat.le_of_eq ht.nextId.symm) hu.nextId_le
    exact .cons (hv.fresh.mono hle (Nat.le_refl _)) (Nat.lt_of_lt_of_le hle hv.passes.nextId_le)
  refine ⟨⟨hst.trans_passes htv, ?_, Nat.le_of_eq hstart, rfl, hids⟩,
    ⟨⟨Nat.le_succ _, ?_, ?_⟩, G.edge_stop ht.token, ?_⟩, hstart⟩
  · rw [show (⟨tok.start, v.cursor.prevEnd⟩ : Span).start = s.cursor.span.start from hstart]
    exact hs.blank_here
  · exact G.start_lt_stop ht.token
  · rw [show (⟨tok.start + 1, tok.stop⟩ : Span).stop = t.cursor.prevEnd from ht.stop]
    exact hon.prevEnd_le htv
  · refine hv.within ?_ (Nat.le_refl _)
    rw [show (⟨tok.start + 1, tok.stop⟩ : Span).stop = t.cursor.prevEnd from ht.stop]
    exact hon.prevEnd_le hu

theorem yields_property (hs : G.On s) {start : Nat} (mods : Modifiers) (hstart : start ≤ s.cursor.span.start) :
    (property start mods).Yields s fun p t => Finishes start s t p.span p.origins ∧ p.Laid G := by
  simp only [property, yields_bind, yields_fresh]
  have h₀ : Passes s { s with nextId := s.nextId + 1 } := .fresh s
  refine (yields_propertyType _).mono fun _ u hu => ?_
  have hsu : Passes s u := h₀.trans hu
  have hon := hs.passes hsu
  refine Yields.mono (Q := fun items t =>
    Listed G (fun i => i.Laid G ∧ start ≤ i.span.start) PropertyItem.origins G.comma u t items ∧ items ≠ [] ∧ Moves u t)
    (Yields.sepByComma hon fun t ht hut => (yields_propertyItem ht).mono fun i v hi => ⟨hi.1, hi.2.1, ?hstart⟩)
    fun items t ht => ?_
  case hstart =>
    rw [hi.2.2]
    exact Nat.le_trans hstart (hs.here_le_here (hsu.trans hut))
  obtain ⟨hlist, hne, hm⟩ := ht
  obtain ⟨hcommas, -, hle⟩ := hlist.commas hon hne start
  have hst : Moves s t := hsu.trans_moves hm
  rw [yields_check]
  refine Yields.join (R := fun _ v => Moves t v) (fun _ => ?_) (fun _ => yields_terminator t) fun _ v hv => ?_
  · rw [yields_discard]
    exact Yields.skipGroup fun _ _ h _ => h
  simp only [yields_bind, yields_spanFrom, yields_pure]
  have hids : Fresh s.nextId v.nextId (some s.nextId :: items.flatMap PropertyItem.origins) := by
    have hle : s.nextId + 1 ≤ u.nextId := hu.nextId_le
    exact .cons (hlist.fresh.mono hle hv.nextId_le)
      (Nat.lt_of_lt_of_le hle (Nat.le_trans hm.nextId_le hv.nextId_le))
  refine ⟨⟨hst.trans hv, rfl, hids⟩, ⟨_, ⟨?_, hle, (hs.moves hst).prevEnd_le hv.passes⟩, hcommas⟩,
    fun i hi => (hlist.each i hi).1⟩
  cases items with
  | nil => exact absurd rfl hne
  | cons i items => exact (hlist.each i (by simp)).2

/-! ### Members -/

/-- A member is laid out, comments and attributes included. -/
theorem yields_member (hs : G.On s) : member.Yields s fun m t => Reads G s t m.span m.origins ∧ m.Laid G := by
  simp only [member, yields_bind, yields_leadStart]
  refine (yields_skipAttributes s).mono fun _ u hu => ?_
  have hstart : ∀ {v}, Passes s v → s.cursor.leadStart ≤ v.cursor.span.start :=
    fun h => Nat.le_trans hs.lead_le_here (hs.here_le_here h)
  simp only [yields_checkWord]
  refine .ite (fun h => ?_) fun _ => ?_
  · simp only [yields_bind, yields_pure]
    exact (yields_traitUse (hs.passes hu) (atEnd_eq_false_of_checkWord h) (hstart hu)).mono
      fun c t hc => ⟨hc.1.reads hs hu, hc.2⟩
  simp only [yields_bind]
  refine (yields_modifiers u).mono fun mods v huv => ?_
  have hv : Passes s v := hu.trans huv
  have hon := hs.passes hv
  simp only [yields_checkWord]
  refine .ite (fun h => ?_) fun _ => ?_
  · have hend : v.cursor.atEnd = false := by
      rcases Bool.or_eq_true_iff.1 h with h | h
      · exact atEnd_eq_false_of_checkWord h
      · exact atEnd_eq_false_of_checkWord h
    simp only [yields_bind, yields_pure]
    refine (yields_verbatim hon hend).mono fun rest t ht => ?_
    have hreads : Finishes s.cursor.leadStart v t ⟨s.cursor.leadStart, rest.span.stop⟩ rest.origins :=
      ⟨ht.moves, by rw [ht.stop], ht.fresh⟩
    exact ⟨hreads.reads hs hv, trivial⟩
  simp only [yields_bind, yields_checkWord]
  refine .ite (fun h => ?_) fun _ => ?_
  · simp only [yields_bind, yields_pure]
    exact (yields_method hon (atEnd_eq_false_of_checkWord h) mods (hstart hv)).mono
      fun m t hm => ⟨hm.1.reads hs hv, hm.2⟩
  simp only [yields_bind, yields_check]
  refine .ite (fun h => ?_) fun _ => ?_
  · simp only [yields_bind, yields_fresh, yields_advance, yields_spanFrom, yields_pure]
    have hm : Moves v { v with nextId := v.nextId + 1 }.next := (Moves.of_check h).trans_passes (.fresh _)
    have hreads : Finishes s.cursor.leadStart v { v with nextId := v.nextId + 1 }.next
        ⟨s.cursor.leadStart, v.next.cursor.prevEnd⟩ [some v.nextId] :=
      ⟨hm, rfl, .cons .nil (Nat.lt_succ_self v.nextId)⟩
    exact ⟨hreads.reads hs hv, trivial⟩
  · simp only [yields_bind, yields_pure]
    exact (yields_property hon mods (hstart hv)).mono fun p t hp => ⟨hp.1.reads hs hv, hp.2⟩

end Graft.Parser
