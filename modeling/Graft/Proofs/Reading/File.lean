/-
The layout of files that were read.

* `yields_stmt`, `yields_namespaceDecl` — statements and namespaces;
* `yields_file` — the statements of a file are a list of lines from the start of its code to the end of the text.
-/
import Graft.Parse.File
import Graft.Proofs.Reading.ClassLike
import Graft.Proofs.Reading.Import

namespace Graft

variable {G : Ground} {s t u : ParseState}

/-- A node that was read when the supply of ids had already moved on. -/
theorem Reads.earlier {sp : Span} {ids : List (Option NodeId)} (hc : t.cursor = s.cursor) (hn : s.nextId ≤ t.nextId)
    (h : Reads G t u sp ids) : Reads G s u sp ids where
  moves := by
    obtain ⟨m, ms, hm⟩ := h.moves
    exact ⟨m, ms, hc ▸ hm.ahead, hc ▸ hm.prevEnd, hc ▸ hm.eof, Nat.le_trans hn hm.nextId_le⟩
  opens := hc ▸ h.opens
  start_le := hc ▸ h.start_le
  stop := h.stop
  fresh := h.fresh.mono hn (Nat.le_refl _)

namespace Parser

/-! ### Statements -/

theorem yields_stmt (hs : G.On s) (hend : s.cursor.atEnd = false) :
    stmt.Yields s fun a t => Reads G s t a.span a.origins ∧ a.Laid G := by
  simp only [stmt, yields_bind, yields_checkWord, yields_peek?]
  refine .ite (fun _ => ?_) fun _ => ?_
  · simp only [yields_bind, yields_pure]
    exact yields_importDecl hs hend
  simp only [yields_bind, yields_checkWord]
  refine .ite (fun _ => ?_) fun _ => ?_
  · simp only [yields_bind, yields_pure]
    exact (yields_verbatim hs hend).mono fun _ _ h => ⟨h, trivial⟩
  simp only [yields_bind, yields_checkWord]
  refine .ite (fun hword => ?_) fun _ => ?_
  · simp only [yields_bind, yields_pure]
    exact yields_returnStmt hs hword
  simp only [yields_bind]
  refine (yields_atClassLike s).mono fun b t ht => ?_
  obtain ⟨hc, hn⟩ := ht
  have hon : G.On t := by
    unfold Ground.On at hs ⊢
    rw [hc]
    exact hs
  refine .ite (fun _ => ?_) fun _ => ?_
  · simp only [yields_bind, yields_pure]
    exact (yields_classLike hon).mono fun c u h => ⟨h.1.earlier hc hn, h.2⟩
  simp only [yields_bind, yields_check]
  refine .ite (fun h => ?_) fun _ => ?_
  · simp only [yields_bind, yields_fresh, yields_cursor, yields_advance, yields_pure]
    have hm : Moves t { t with nextId := t.nextId + 1 }.next := (Moves.of_check h).trans_passes (.fresh _)
    have hstop : t.cursor.span.stop = t.next.cursor.prevEnd := by
      obtain ⟨m, ms, hm, -⟩ := Cursor.exists_of_check h
      rw [Cursor.span_of_ahead hm, ParseState.prevEnd_next hm]
      rfl
    have hreads : Reads G t { t with nextId := t.nextId + 1 }.next t.cursor.span [some t.nextId] :=
      ⟨hm, hon.blank_here, Nat.le_refl _, hstop, .cons .nil (Nat.lt_succ_self t.nextId)⟩
    exact ⟨hreads.earlier hc hn, trivial⟩
  · simp only [yields_bind, yields_pure]
    exact (yields_verbatim hon (hc ▸ hend)).mono fun _ _ h => ⟨h.earlier hc hn, trivial⟩

/-! ### Namespaces -/

theorem yields_atNamespace (s : ParseState) : atNamespace.Yields s fun _ t => t = s := by
  simp only [atNamespace, yields_bind, yields_peek?, yields_checkWord, yields_pure]

/-- The statements of a namespace without braces end where the next one begins, or at the end of the text. -/
theorem yields_atNamespaceEnd (s : ParseState) : Yields (do return (← atEnd) || (← atNamespace)) s
    fun b t => t = s ∧ (b = false → s.cursor.atEnd = false) := by
  simp only [yields_bind, yields_atEnd, yields_pure]
  refine (yields_atNamespace s).mono fun b t ht => ⟨ht, fun h => ?_⟩
  rw [Bool.or_eq_false_iff] at h
  exact h.1

theorem yields_namespaceDecl (hs : G.On s) (hend : s.cursor.atEnd = false) :
    namespaceDecl.Yields s fun n t => Reads G s t n.span n.origins ∧ n.Laid G := by
  simp only [namespaceDecl, yields_bind, yields_fresh, yields_leadStart, yields_advance, yields_check]
  have hm : Moves s { s with nextId := s.nextId + 1 }.next := (moves_of_atEnd_eq_false hend).trans_passes (.fresh _)
  generalize hs₁ : ParseState.next { s with nextId := s.nextId + 1 } = s₁ at hm
  have hid : s.nextId + 1 = s₁.nextId := by rw [← hs₁]; rfl
  have hon₁ := hs.moves hm
  have hlead : s.cursor.leadStart ≤ s₁.cursor.prevEnd := Nat.le_trans hs.lead_le_here (Nat.le_of_lt (hs.here_lt hm))
  refine Yields.join (R := fun (name : Option Name) t => Passes s₁ t ∧
    Fresh s₁.nextId t.nextId ((name.map Name.origins).getD []) ∧
    ∀ a, name = some a → a.span.Within ⟨s₁.cursor.prevEnd, t.cursor.prevEnd⟩) (fun _ => ?_)
    (fun _ => yields_pure.2 ⟨.refl s₁, .nil, fun _ ha => by cases ha⟩) fun name s₂ h₂ => ?_
  · rw [yields_map]
    refine (yields_name hon₁).mono fun n t hn => ⟨hn.1.moves.passes, hn.1.fresh, fun a ha => ?_⟩
    cases ha
    refine ⟨G.le_of_blank hn.1.opens, Nat.le_of_lt (hn.1.start_lt_stop hon₁), Nat.le_of_eq hn.1.stop⟩
  have hm₂ : Moves s s₂ := hm.trans_passes h₂.1
  have hon₂ := hs.moves hm₂
  have hle₂ := hon₁.prevEnd_le h₂.1
  have hids : ∀ {n : Nat} {stmts : List Stmt}, Fresh s₂.nextId n (stmts.flatMap Stmt.origins) → s₂.nextId ≤ n →
      Fresh s.nextId n (some s.nextId :: ((name.map Name.origins).getD [] ++ stmts.flatMap Stmt.origins)) := by
    intro n stmts h hn
    have hle : s.nextId + 1 ≤ s₁.nextId := Nat.le_of_eq hid
    exact .cons ((h₂.2.1.mono hle (Nat.le_refl _)).append h (Nat.le_trans hle h₂.1.nextId_le) hn)
      (Nat.lt_of_lt_of_le hle (Nat.le_trans h₂.1.nextId_le hn))
  simp only [yields_bind]
  refine Yields.eat (fun _ hm₃ => ?_) ?_
  · -- Statements in braces.
    simp only [if_true, yields_bind, yields_prevEnd]
    have hon₃ := hon₂.moves hm₃
    refine (Yields.manyUntil hon₃ yields_atBlockEnd fun _ => yields_stmt).mono fun stmts s₄ h₄ => ?_
    refine Yields.expect (hon₃.passes h₄.passes) fun close s₅ h₅ => ?_
    simp only [yields_pure]
    obtain ⟨hlines, hle, hlt, hstop, hm₅⟩ := h₄.braced hon₃ h₅
    have hle₃ := hon₂.prevEnd_le hm₃.passes
    have hfresh := h₄.fresh.mono hm₃.nextId_le h₅.moves.nextId_le
    have hm : Moves s s₅ := (hm₂.trans hm₃).trans hm₅
    refine ⟨⟨hm, hs.opens_lead.1, hs.opens_lead.2, hstop, ?_⟩, ?_, fun a ha => ?_, hlines, h₄.each⟩
    · exact hids hfresh (hm₃.passes.trans hm₅.passes).nextId_le
    · exact ⟨by simp only; omega, hle, by simp only; omega⟩
    · exact (h₂.2.2 a ha).widen hlead (by omega)
  · simp only [Bool.false_eq_true, if_false, yields_bind]
    -- Statements up to the next namespace.
    refine (yields_terminator s₂).mono fun _ s₃ h₃ => ?_
    simp only [yields_prevEnd]
    have hon₃ := hon₂.moves h₃
    refine (Yields.manyUntil hon₃ yields_atNamespaceEnd fun _ => yields_stmt).mono fun stmts s₄ h₄ => ?_
    simp only [yields_spanFrom, yields_pure]
    have hle₃ := hon₂.prevEnd_le h₃.passes
    have hle₄ := hon₃.prevEnd_le h₄.passes
    have hlines := h₄.lines hon₃ (G.blank_refl (hon₃.passes h₄.passes).edge_prevEnd)
    have hfresh := h₄.fresh.mono h₃.nextId_le (Nat.le_refl _)
    have hm : Moves s s₄ := (hm₂.trans h₃).trans_passes h₄.passes
    refine ⟨⟨hm, hs.opens_lead.1, hs.opens_lead.2, rfl, ?_⟩, ?_, fun a ha => ?_, hlines, h₄.each⟩
    · exact hids hfresh (h₃.passes.trans h₄.passes).nextId_le
    · exact ⟨by simp only; omega, hle₄, Nat.le_refl _⟩
    · exact (h₂.2.2 a ha).widen hlead (by omega)

theorem yields_topStmt (hs : G.On s) (hend : s.cursor.atEnd = false) :
    topStmt.Yields s fun a t => Reads G s t a.span a.origins ∧ a.Laid G := by
  simp only [topStmt, yields_bind]
  refine (yields_atNamespace s).mono fun b t ht => ?_
  subst ht
  refine .ite (fun _ => ?_) fun _ => ?_
  · simp only [yields_bind, yields_pure]
    exact yields_namespaceDecl hs hend
  · simp only [yields_bind, yields_pure]
    exact yields_stmt hs hend

/-! ### Files -/

/-- The statements of a file are laid out from the start of its code to the end of the text. -/
theorem yields_file (hs : G.On s) {sp : Span} {bodyStart : Nat} (hbody : s.cursor.prevEnd = bodyStart)
    (hstart : sp.start ≤ bodyStart) (hstop : s.cursor.eof = sp.stop) :
    (file sp bodyStart).Yields s fun f t => f.Laid G ∧ f.span = sp ∧ Fresh s.nextId t.nextId f.origins := by
  simp only [file, yields_bind, yields_fresh]
  have h₀ : Passes s { s with nextId := s.nextId + 1 } := .fresh s
  have hon := hs.passes h₀
  have hfinished : ∀ t, Yields atEnd t fun b u => u = t ∧ (b = false → t.cursor.atEnd = false) := by
    simp
  have hend : ∀ t, Yields atEnd t fun b u => b = true → u.cursor.atEnd = true := by
    simp
  refine ((Yields.manyUntil hon hfinished fun _ => yields_topStmt).and (Yields.manyUntil_end hend)).mono
    fun stmts t ht => ?_
  simp only [yields_pure]
  have hont := hon.passes ht.1.passes
  -- Behind the last statement only skipped tokens are left.
  have hblank : G.blank t.cursor.prevEnd sp.stop := by
    have heof : t.cursor.eof = sp.stop := by
      obtain ⟨ms, hms⟩ := h₀.trans ht.1.passes
      rw [hms.eof, hstop]
    have h := hont.blank_lead
    have hnil : t.cursor.ahead = [] := by simpa [Cursor.atEnd] using ht.2
    simpa [Cursor.leadStart, hnil, heof] using h
  have hle := hon.prevEnd_le ht.1.passes
  have hle' := G.le_of_blank hblank
  have hlt : s.nextId < t.nextId := ht.1.passes.nextId_le
  refine ⟨⟨⟨hstart, ?_, Nat.le_refl _⟩, ?_, ht.1.each⟩, trivial, .cons ht.1.fresh hlt⟩
  · simp only at hle ⊢
    omega
  · rw [← hbody]
    exact ht.1.lines hon hblank

end Parser

end Graft
