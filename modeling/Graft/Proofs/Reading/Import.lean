/-
The layout of imports that were read.

* `yields_groupItems` — the items of a group, with the comma that may stand behind the last one;
* `yields_importDecl` — the layout of an import.
-/
import Graft.Parse.Import
import Graft.Proofs.Reading.Member

namespace Graft.Parser

variable {G : Ground} {s t u : ParseState}

/-! ### Items -/

theorem yields_importKind? (s : ParseState) : importKind?.Yields s fun _ t => Passes s t := by
  simp only [importKind?, yields_bind, yields_peek?]
  refine .ite (fun _ => ?_) fun _ => by simpa using .refl s
  simp only [yields_bind]
  refine Yields.eatWord (fun _ hm => by simpa using hm.passes) ?_
  simp only [Bool.false_eq_true, if_false, yields_bind]
  exact Yields.eatWord (fun _ hm => by simpa using hm.passes) (by simpa using .refl s)

/-- Behind the name of an item, which was read from `s` on to `t`, its local name may follow. -/
theorem yields_finishImportItem (hs : G.On s) {start : Nat} {n : Name} (hn : Reads G s t n.span n.origins)
    (hstart : start ≤ n.span.start) (kind : Option ImportKind) :
    (finishImportItem start kind n).Yields t fun i u =>
      Passes t u ∧ i.span = ⟨start, u.cursor.prevEnd⟩ ∧ Fresh s.nextId u.nextId i.origins ∧ i.Laid := by
  simp only [finishImportItem, yields_bind, yields_fresh]
  have h₀ : Passes t { t with nextId := t.nextId + 1 } := .fresh t
  have ht := hs.moves hn.moves
  have hname : n.span.start < n.span.stop ∧ n.span.stop = t.cursor.prevEnd := ⟨hn.start_lt_stop hs, hn.stop⟩
  refine Yields.mono (Q := fun _ u => Passes { t with nextId := t.nextId + 1 } u)
    (Yields.eatWord (fun _ hm => hm.passes) (.refl _)) fun _ u hu => ?_
  have hon := ht.passes (h₀.trans hu)
  refine Yields.join (R := fun (name : Option Ident) v => Passes u v ∧
    ∀ a, name = some a → a.span.Within ⟨start, v.cursor.prevEnd⟩) (fun _ => ?_)
    (fun _ => yields_pure.2 ⟨.refl u, fun _ ha => by cases ha⟩) fun localName v hv => ?_
  · rw [yields_map]
    refine (yields_ident hon).mono fun a v hv => ⟨hv.1.passes, fun b hb => ?_⟩
    cases hb
    refine ⟨?_, Nat.le_of_lt hv.2.2.1, Nat.le_of_eq hv.2.2.2⟩
    rw [hv.2.1]
    have h₁ := ht.prevEnd_le (h₀.trans hu)
    have h₂ := G.le_of_blank hon.blank_here
    simp only
    omega
  · simp only [yields_bind, yields_spanFrom, yields_pure]
    have htv : Passes t v := (h₀.trans hu).trans hv.1
    have hle := ht.prevEnd_le htv
    refine ⟨htv, trivial, ?_, ⟨hstart, Nat.le_of_lt hname.1, by simp only; omega⟩, hv.2⟩
    have hlt : t.nextId < v.nextId := (hu.trans hv.1).nextId_le
    exact hn.fresh.append (.cons .nil hlt) hn.moves.nextId_le (Nat.le_of_lt hlt)

theorem yields_importItem (hs : G.On s) (grouped : Bool) : (importItem grouped).Yields s fun i t =>
    Reads G s t i.span i.origins ∧ i.Laid := by
  simp only [importItem, yields_bind, yields_here]
  refine Yields.join (R := fun _ t => Passes s t) (fun _ => yields_importKind? s)
    (fun _ => yields_pure.2 (.refl s)) fun kind t ht => ?_
  simp only [yields_bind]
  have hon := hs.passes ht
  refine (yields_name hon).mono fun n u hn => ?_
  have hstart : s.cursor.span.start ≤ n.span.start := by
    rw [hn.2]
    exact hs.here_le_here ht
  refine (yields_finishImportItem hon hn.1 hstart kind).mono fun i v hv => ?_
  refine ⟨⟨(ht.trans_moves hn.1.moves).trans_passes hv.1, ?_, ?_, ?_, ?_⟩, hv.2.2.2⟩
  · rw [hv.2.1]
    exact hs.blank_here
  · exact Nat.le_of_eq (by rw [hv.2.1])
  · rw [hv.2.1]
  · exact hv.2.2.1.mono ht.nextId_le (Nat.le_refl _)

theorem yields_groupItems (hs : G.On s) :
    groupItems.Yields s fun items t => ReadsItems G ImportItem.Laid ImportItem.origins s t items := by
  refine Yields.loop (I := fun items t => OpenItems G ImportItem.Laid ImportItem.origins s t items)
    (fun items t h => ?_) (.nil hs)
  simp only [yields_bind, yields_check]
  refine .ite (fun _ => by simpa using h.reads) fun _ => ?_
  simp only [yields_bind]
  refine (yields_importItem (hs.passes h.reads.passes) true).mono fun i u hi => ?_
  obtain ⟨hreads, hspread⟩ := h.snoc hs hi.1 hi.2
  refine Yields.eat (fun hcomma _ => ?_) (by simpa using hreads)
  simp only [if_true, yields_pure]
  exact .of_comma hs hreads hspread (by simp) hcomma

/-! ### Imports -/

theorem yields_importDecl (hs : G.On s) (hend : s.cursor.atEnd = false) :
    importDecl.Yields s fun d t => Reads G s t d.span d.origins ∧ d.Laid G := by
  simp only [importDecl, yields_bind, yields_fresh, yields_leadStart, yields_advance]
  have hm : Moves s { s with nextId := s.nextId + 1 }.next := (moves_of_atEnd_eq_false hend).trans_passes (.fresh _)
  generalize hs₁ : ParseState.next { s with nextId := s.nextId + 1 } = s₁ at hm
  have hid : s.nextId + 1 = s₁.nextId := by rw [← hs₁]; rfl
  refine (yields_importKind? s₁).mono fun kind s₂ h₂ => ?_
  have hm₂ : Moves s s₂ := hm.trans_passes h₂
  have hon₂ := hs.moves hm₂
  simp only [yields_here]
  refine (yields_name hon₂).mono fun first s₃ h₃ => ?_
  have hm₃ : Moves s s₃ := hm₂.trans h₃.1.moves
  have hon₃ := hs.moves hm₃
  simp only [yields_check, yields_peek?]
  refine .ite (fun hgroup => ?_) fun _ => ?_
  · -- A group behind the stem `first`.
    simp only [yields_bind, yields_advance, yields_prevEnd]
    have h₃₅ : Passes s₃ s₃.next.next := (Passes.next s₃).trans (.next _)
    have hm₅ : Moves s s₃.next.next := hm₃.trans_passes h₃₅
    have hon₅ := hs.moves hm₅
    generalize s₃.next.next = s₅ at h₃₅ hm₅ hon₅ ⊢
    refine (yields_groupItems hon₅).mono fun items s₆ h₆ => ?_
    have hm₆ : Moves s s₆ := hm₅.trans_passes h₆.passes
    refine Yields.expect (hs.moves hm₆) fun close s₇ h₇ => (yields_terminator s₇).mono fun _ s₈ h₈ => ?_
    simp only [yields_spanFrom, yields_pure]
    have hm₇ : Moves s s₇ := hm₆.trans h₇.moves
    have hon₇ := hs.moves hm₇
    have hblank : G.blank s₆.cursor.prevEnd close.start := by
      rw [h₇.start]
      exact (hs.moves hm₆).blank_here
    have hle₃ := hon₃.prevEnd_le h₃₅
    have hle₆ := hon₅.prevEnd_le h₆.passes
    have hle₇ := hon₇.prevEnd_le h₈.passes
    have hlead : s.cursor.leadStart ≤ s₂.cursor.span.start :=
      Nat.le_trans hs.lead_le_here (hs.here_le_here hm₂.passes)
    have hfirst : first.span.start < first.span.stop ∧ first.span.stop = s₃.cursor.prevEnd :=
      ⟨h₃.1.start_lt_stop hon₂, h₃.1.stop⟩
    have hstart : first.span.start = s₂.cursor.span.start := h₃.2
    have hclose : close.start < close.stop ∧ close.stop = s₇.cursor.prevEnd := ⟨G.start_lt_stop h₇.token, h₇.stop⟩
    have hgap := G.le_of_blank hblank
    have hids : Fresh s.nextId s₈.nextId (some s.nextId :: (first.origins ++ items.flatMap ImportItem.origins)) := by
      have hle : s.nextId + 1 ≤ s₂.nextId := Nat.le_trans (Nat.le_of_eq hid) h₂.nextId_le
      have hle₆ : s₆.nextId ≤ s₈.nextId := Nat.le_trans h₇.moves.nextId_le h₈.nextId_le
      have h := (h₃.1.fresh.mono hle (Nat.le_refl _)).append
        (h₆.fresh.mono h₃₅.nextId_le hle₆) (Nat.le_trans hle h₃.1.moves.nextId_le)
        (Nat.le_trans h₃₅.nextId_le (Nat.le_trans h₆.passes.nextId_le hle₆))
      exact .cons h (Nat.lt_of_lt_of_le hle (Nat.le_trans h₃.1.moves.nextId_le
        (Nat.le_trans h₃₅.nextId_le (Nat.le_trans h₆.passes.nextId_le hle₆))))
    refine ⟨⟨hm₇.trans h₈, hs.opens_lead.1, hs.opens_lead.2, rfl, hids⟩, ?_, h₆.commas.extend hblank, ?_, h₆.each⟩
    · exact ⟨by simp only; omega, by simp only; omega, by simp only; omega⟩
    · intro n hn
      cases hn
      exact ⟨by simp only; omega, by omega, by simp only; omega⟩
  · -- Items with commas between them, the first of which has the name `first`.
    simp only [yields_bind]
    refine (yields_finishImportItem hon₂ h₃.1 (Nat.le_of_eq h₃.2.symm) none).mono fun firstItem s₄ h₄ => ?_
    have hitem : Reads G s₂ s₄ firstItem.span firstItem.origins := by
      refine ⟨h₃.1.moves.trans_passes h₄.1, ?_, ?_, by rw [h₄.2.1], h₄.2.2.1⟩
      · rw [h₄.2.1]
        exact hon₂.blank_here
      · exact Nat.le_of_eq (by rw [h₄.2.1])
    have hlist : Listed G ImportItem.Laid ImportItem.origins G.comma s₂ s₄ [firstItem] :=
      Listed.nil.snoc hon₂ (.refl s₂) hitem h₄.2.2.2 (fun _ => hitem.opens) fun h => absurd rfl h
    refine (Yields.moreByComma hon₂ (fun t ht _ => yields_importItem ht false) hlist (by simp)).mono
      fun items s₅ h₅ => ?_
    obtain ⟨hitems, hhead, -⟩ := h₅
    simp only [yields_spanFrom]
    refine (yields_terminator s₅).mono fun _ s₆ h₆ => ?_
    simp only [yields_pure]
    have hm₅ : Moves s s₅ := hm₂.trans_passes hitems.passes
    have hne : items ≠ [] := by
      rintro rfl
      simp at hhead
    obtain ⟨hcommas, -, hle⟩ := hitems.commas hon₂ hne 0
    have hfirst : (items.head?.map fun i => (Placed.span i).start).getD 0 = s₂.cursor.span.start := by
      rw [hhead]
      show firstItem.span.start = s₂.cursor.span.start
      rw [h₄.2.1]
    rw [hfirst] at hcommas hle
    have hids : Fresh s.nextId s₆.nextId (some s.nextId :: items.flatMap ImportItem.origins) := by
      have hle : s.nextId + 1 ≤ s₂.nextId := Nat.le_trans (Nat.le_of_eq hid) h₂.nextId_le
      exact .cons (hitems.fresh.mono hle h₆.nextId_le)
        (Nat.lt_of_lt_of_le hle (Nat.le_trans hitems.passes.nextId_le h₆.nextId_le))
    refine ⟨⟨hm₅.trans h₆, hs.opens_lead.1, hs.opens_lead.2, rfl, hids⟩, ⟨?_, hle, ?_⟩, hcommas, (fun _ hn => by cases hn), hitems.each⟩
    · exact Nat.le_trans hs.lead_le_here (hs.here_le_here hm₂.passes)
    · exact (hs.moves hm₅).prevEnd_le h₆.passes

end Graft.Parser
