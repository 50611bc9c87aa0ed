/-
The layout of classes that were read.

Between the name of a class and its body stand clauses in any order; of clauses of one kind the last one counts, and
what is kept of the others is nothing but their text.

* `yields_header` — where the clause of implemented interfaces stands;
* `yields_classLike` — the layout of a class.
-/
import Graft.Parse.ClassLike
import Graft.Proofs.Reading.Member

namespace Graft.Parser

variable {G : Ground} {s t u : ParseState}

/-! ### Headers -/

/-- Looking for a declaration changes nothing but the supply of ids. -/
theorem yields_atClassLike (s : ParseState) :
    atClassLike.Yields s fun _ t => t.cursor = s.cursor ∧ s.nextId ≤ t.nextId := by
  simp only [atClassLike, yields_bind, yields_cursor, yields_discard]
  refine (yields_skipAttributes s).mono fun _ t ht => (yields_modifiers t).mono fun _ u hu => ?_
  simp only [yields_moveTo, yields_pure]
  exact ⟨trivial, (ht.trans hu).nextId_le⟩

/-- The clauses of a header that was read from `s` up to `t`. -/
structure LaidHeader (G : Ground) (s t : ParseState) (h : Header) : Prop where
  passes : Passes s t
  parents : ∀ n ∈ h.parents, n.span.Within ⟨s.cursor.prevEnd, t.cursor.prevEnd⟩
  fresh : Fresh s.nextId t.nextId (h.parents.flatMap Name.origins ++ h.interfaces.flatMap Name.origins)
  clause : match h.interfacesClause with
    | some clause =>
      s.cursor.prevEnd ≤ clause.start ∧ clause.start ≤ h.interfacesRegion.start ∧
        h.interfacesRegion.start ≤ h.interfacesRegion.stop ∧ clause.stop = h.interfacesRegion.stop ∧
        clause.stop ≤ t.cursor.prevEnd ∧ G.edge clause.start ∧ h.interfaces ≠ [] ∧
        G.Commas h.interfacesRegion h.interfaces
    | none => h.interfaces = []

theorem LaidHeader.mono {h : Header} (hs : G.On s) (hh : LaidHeader G s t h) (htu : Passes t u) :
    LaidHeader G s u h where
  passes := hh.passes.trans htu
  parents n hn := (hh.parents n hn).widen (Nat.le_refl _) ((hs.passes hh.passes).prevEnd_le htu)
  fresh := hh.fresh.mono (Nat.le_refl _) htu.nextId_le
  clause := by
    have hle := (hs.passes hh.passes).prevEnd_le htu
    have := hh.clause
    cases hc : h.interfacesClause with
    | none => simpa [hc] using this
    | some clause =>
      simp only [hc] at this ⊢
      obtain ⟨h₁, h₂, h₃, h₄, h₅, h₆⟩ := this
      exact ⟨h₁, h₂, h₃, h₄, Nat.le_trans h₅ hle, h₆⟩

theorem yields_header (hs : G.On s) (kind : ClassKind) :
    (header kind).Yields s fun h t => LaidHeader G s t h := by
  refine Yields.loop (I := fun h t => LaidHeader G s t h) (fun h t hh => ?_) ?_
  · have ht := hs.passes hh.passes
    simp only [yields_bind]
    refine Yields.eatWord (fun _ hm => ?_) ?_
    · -- New parents take the place of those of an earlier clause.
      simp only [if_true, yields_bind, yields_pure]
      have hu := ht.moves hm
      refine (yields_nameList hu).mono fun names v hv => ?_
      have htv : Passes t v := hm.passes.trans hv.2.2.passes
      refine ⟨hh.passes.trans htv, fun n hn => ?_, ?_, (hh.mono hs htv).clause⟩
      · obtain ⟨h₁, h₂, h₃⟩ := hv.1.spread.within G.le_of_blank G.le_of_comma n hn
        exact ⟨Nat.le_trans (hs.prevEnd_le (hh.passes.trans hm.passes)) h₁, Nat.le_of_lt h₂, h₃⟩
      · have h₁ : Fresh s.nextId t.nextId (h.interfaces.flatMap Name.origins) :=
          hh.fresh.sublist (List.sublist_append_right _ _)
        have h₂ := h₁.append (hv.1.fresh.mono hm.nextId_le (Nat.le_refl _)) hh.passes.nextId_le htv.nextId_le
        exact h₂.perm List.perm_append_comm
    · simp only [Bool.false_eq_true, if_false, yields_bind, yields_checkWord]
      refine .ite (fun h => ?_) fun _ => ?_
      · simp only [yields_bind, yields_prevEnd, yields_advance, yields_spanFrom, yields_pure]
        have hm : Moves t t.next := .of_checkWord h
        have hu := ht.moves hm
        refine (yields_nameList hu).mono fun names v hv => ?_
        have htv : Passes t v := hm.passes.trans hv.2.2.passes
        obtain ⟨hcommas, hle, hle'⟩ := hv.1.commas hu hv.2.1 t.cursor.prevEnd
        refine ⟨hh.passes.trans htv, (hh.mono hs htv).parents, ?_, ?_⟩
        · have h₁ : Fresh s.nextId t.nextId (_) := hh.fresh.sublist (List.sublist_append_left _ _)
          exact h₁.append (hv.1.fresh.mono hm.nextId_le (Nat.le_refl _)) hh.passes.nextId_le htv.nextId_le
        · exact ⟨hs.prevEnd_le hh.passes, Nat.le_trans (ht.prevEnd_le hm.passes) hle, hle', rfl, Nat.le_refl _,
            ht.edge_prevEnd, hv.2.1, hcommas⟩
      · refine .ite (fun _ => ?_) fun _ => by simpa using hh
        simp only [yields_bind]
        refine Yields.eat (fun _ hm => ?_) (by simpa using hh)
        simp only [if_true, yields_bind, yields_discard, yields_pure]
        exact (yields_name (ht.moves hm)).mono fun _ v hv => hh.mono hs (hm.passes.trans hv.1.moves.passes)
  · exact ⟨.refl s, by simp, .nil, rfl⟩

/-! ### Declarations -/

theorem yields_classLike (hs : G.On s) : classLike.Yields s fun c t => Reads G s t c.span c.origins ∧ c.Laid G := by
  simp only [classLike, yields_bind, yields_fresh, yields_leadStart]
  have h₀ : Passes s { s with nextId := s.nextId + 1 } := .fresh s
  refine (yields_skipAttributes _).mono fun _ s₁ h₁ => (yields_modifiers s₁).mono fun mods s₂ h₂ => ?_
  have hs₂ : Passes s s₂ := h₀.trans (h₁.trans h₂)
  refine Yields.expect (hs.passes hs₂) fun keyword s₃ h₃ => ?_
  have hm₃ : Moves s s₃ := hs₂.trans_moves h₃.moves
  have hon₃ := hs.moves hm₃
  split
  · exact yields_throw
  · rename_i kind _
    simp only [yields_bind]
    refine (yields_ident hon₃).mono fun name s₄ h₄ => ?_
    have hm₄ : Moves s s₄ := hm₃.trans h₄.1
    have hon₄ := hs.moves hm₄
    refine (yields_header hon₄ kind).mono fun h s₅ h₅ => ?_
    simp only [yields_prevEnd]
    have hm₅ : Moves s s₅ := hm₄.trans_passes h₅.passes
    have hon₅ := hs.moves hm₅
    refine Yields.expect hon₅ fun opening s₆ h₆ => ?_
    have hm₆ : Moves s s₆ := hm₅.trans h₆.moves
    have hon₆ := hs.moves hm₆
    refine (Yields.manyUntil hon₆ yields_atBlockEnd fun _ ht _ => yields_member ht).mono fun members s₇ h₇ => ?_
    refine Yields.expect (hon₆.passes h₇.passes) fun close s₈ h₈ => ?_
    simp only [yields_pure]
    obtain ⟨hlines, hle, hlt, hstop, hm₈⟩ := h₇.braced hon₆ h₈
    -- The parts of the class in their order.
    have hlead : s.cursor.leadStart ≤ s₃.cursor.prevEnd :=
      Nat.le_trans hs.lead_le_here (Nat.le_of_lt (hs.here_lt hm₃))
    have hname : s.cursor.leadStart ≤ name.span.start ∧ name.span.start ≤ name.span.stop ∧
        name.span.stop = s₄.cursor.prevEnd := by
      refine ⟨?_, Nat.le_of_lt h₄.2.2.1, h₄.2.2.2⟩
      rw [h₄.2.1]
      exact Nat.le_trans hlead (G.le_of_blank hon₃.blank_here)
    have hopen : s₅.cursor.prevEnd ≤ opening.start ∧ opening.start < opening.stop ∧
        opening.stop = s₆.cursor.prevEnd := by
      refine ⟨?_, G.start_lt_stop h₆.token, h₆.stop⟩
      rw [h₆.start]
      exact G.le_of_blank hon₅.blank_here
    have h₄₅ := hon₄.prevEnd_le h₅.passes
    have hids : Fresh s.nextId s₈.nextId (some s.nextId :: (h.parents.flatMap Name.origins ++ h.interfaces.flatMap Name.origins ++
        members.flatMap Member.origins)) := by
      have hle₄ : s.nextId + 1 ≤ s₄.nextId :=
        Nat.le_trans (h₁.trans h₂).nextId_le (Nat.le_trans h₃.moves.nextId_le h₄.1.nextId_le)
      have hle₆ : s₅.nextId ≤ s₆.nextId := h₆.moves.nextId_le
      have hle₈ : s₆.nextId ≤ s₈.nextId := hm₈.nextId_le
      have hheader := h₅.fresh.mono hle₄ (Nat.le_refl _)
      have hmembers := h₇.fresh.mono hle₆ h₈.moves.nextId_le
      exact .cons (hheader.append hmembers (Nat.le_trans hle₄ h₅.passes.nextId_le) (Nat.le_trans hle₆ hle₈))
        (Nat.lt_of_lt_of_le hle₄ (Nat.le_trans h₅.passes.nextId_le (Nat.le_trans hle₆ hle₈)))
    refine ⟨⟨hm₆.trans hm₈, hs.opens_lead.1, hs.opens_lead.2, hstop, ?_⟩, ?_, ?_, ?_, ?_, ?_, h₇.each,
      ⟨opening, h₆.token, h₆.kind, rfl⟩, h₇.ends⟩
    · simpa only [ClassLike.origins, List.singleton_append, List.cons_append, List.append_assoc,
        List.nil_append]
        using hids
    · have hclause := h₅.clause
      unfold ClassLike.LaidClause
      cases hc : h.interfacesClause with
      | none =>
        simp only [hc] at hclause ⊢
        refine ⟨?_, ?_, hon₅.edge_prevEnd, hclause⟩
        · simp only [Option.map_none, Option.getD_none]
          omega
        · simp only [Option.map_none, Option.getD_none]
          omega
      | some clause =>
        simp only [hc] at hclause ⊢
        obtain ⟨h₁, h₂, h₃, h₄, h₅, h₆, h₇, h₈⟩ := hclause
        exact ⟨by omega, h₂, h₃, h₄, by omega, h₆, rfl, h₇, h₈⟩
    · exact ⟨by simp only; omega, by simp only; omega, by simp only; omega⟩
    · exact ⟨by simp only; omega, by simp only; omega, by simp only; omega⟩
    · intro n hn
      exact (h₅.parents n hn).widen (by omega) (by omega)
    · simp only [hopen.2.2]
      exact hlines

end Graft.Parser
