/-
Lists and patches with carriage returns.

The text of a page begins with a text whose line feeds all follow carriage returns, and nodes stand between clear
offsets of it.  Then the gaps around elements are such texts too, and so is what is made of them: leads end on the line
of a break, trails hold none, and what is inserted breaks lines as the page does.

* `LineLayout.crlf_render`, `CommaLayout.crlf_render` — what layouts make of texts;
* `Page.Over.splice` — patches;
* `Page.Over.lineList`, `Page.Over.commaRegion`, `Page.Over.commaList` — lists of elements that were built or revised.
-/
import Graft.Proofs.Print.Frame
import Graft.Proofs.Reading.Clear
import Graft.Proofs.Reading.Places
import Graft.Proofs.Tree.Faithful
import Graft.Proofs.Tree.Revision

namespace Graft

open Text (Crlf OneLine crlf_nil crlf_of_not_mem crlf_newline)

/-! ### Gaps -/

/-- A gap is cut in front of a break or not at all. -/
theorem crlf_splitTrail {gap : Text} (h : gap.Crlf) : (splitTrail gap).1.Crlf ∧ (splitTrail gap).2.Crlf := by
  have heq := Text.firstLine_eq gap
  have hline := Text.not_mem_firstLine gap
  have hlast := h.firstLine
  unfold splitTrail
  generalize gap.firstLine = lines at heq hline hlast
  obtain ⟨line, rest⟩ := lines
  cases rest with
  | nil => exact ⟨crlf_nil, h⟩
  | cons c rest =>
    have hcr := hlast (List.cons_ne_nil c rest)
    obtain ⟨before, rfl⟩ := List.getLast?_eq_some_iff.1 hcr
    simp only [hcr, if_true, List.dropLast_concat]
    refine ⟨crlf_of_not_mem fun hmem => hline (List.mem_append_left _ hmem), ?_⟩
    rw [← heq, List.append_assoc] at h
    exact h.right (by rw [List.singleton_append, List.head?_cons]; decide)

/-! ### Lists of lines -/

namespace LineLayout

/-- Texts from a layout break lines with carriage returns. -/
structure Crlf (l : LineLayout) : Prop where
  leads : ∀ t ∈ l.leads, t.Crlf
  trails : ∀ t ∈ l.trails, t.Crlf
  tail : l.tail.Crlf
  indent : l.indent.OneLine
  newline : l.newline = .crlf

theorem oneLine_indentOf? {leads : List Text} {indent : Text} (h : indentOf? leads = some indent) : indent.OneLine := by
  unfold indentOf? at h
  split at h
  · rename_i t ht
    split at h
    · cases h
      obtain ⟨lead, -, hlead⟩ := List.exists_of_findSome?_eq_some ht
      exact (Text.afterLast?_eq_some hlead).2
    · cases h
  · cases h

theorem crlf_ofRegion {t : Text} {region : Span} {spans : List Span} {inner : Text} {newline : Newline}
    (hgaps : ∀ gap ∈ gaps t region.start region.stop spans, gap.Crlf) (hinner : inner.OneLine)
    (hnewline : newline = .crlf) : (ofRegion t region spans inner newline).Crlf := by
  unfold ofRegion
  split
  · exact ⟨nofun, nofun, crlf_nil, hinner, hnewline⟩
  · rename_i whole hwhole
    rw [hwhole] at hgaps
    exact ⟨nofun, nofun, hgaps whole (List.mem_singleton.2 rfl), hinner, hnewline⟩
  · rename_i first more hmore hfirst
    rw [hfirst] at hgaps
    obtain ⟨hfirst, hmore⟩ := List.forall_mem_cons.1 hgaps
    refine ⟨List.forall_mem_cons.2 ⟨hfirst, fun u hu => ?_⟩, fun u hu => ?_, ?_, ?_, hnewline⟩
    · obtain ⟨gap, hgap, rfl⟩ := List.mem_map.1 hu
      exact (crlf_splitTrail (hmore gap (List.dropLast_subset more hgap))).2
    · obtain ⟨gap, hgap, rfl⟩ := List.mem_map.1 hu
      exact (crlf_splitTrail (hmore gap hgap)).1
    · show Text.Crlf (Option.getD _ _)
      cases hlast : more.getLast? with
      | none => exact crlf_nil
      | some gap => exact (crlf_splitTrail (hmore gap (List.mem_of_getLast? hlast))).2
    · show OneLine (Option.getD _ _)
      cases hindent : indentOf? _ with
      | none => exact hinner
      | some indent => exact oneLine_indentOf? hindent

variable {l : LineLayout} (h : l.Crlf)

include h

theorem Crlf.separator (before after : Slot) : (before.separator l.newline l.indent after).Crlf := by
  unfold Slot.separator
  rw [h.newline]
  refine (crlf_newline.append ?_).append (crlf_of_not_mem h.indent)
  split
  · exact crlf_newline
  · exact crlf_nil

theorem Crlf.before (previous : Option LineEntry) (e : LineEntry) : (l.before previous e).Crlf := by
  unfold LineLayout.before
  split
  · cases hleads : l.leads with
    | nil => exact crlf_nil
    | cons lead leads => exact h.leads lead (hleads ▸ List.mem_cons_self)
  · exact Text.crlf_getD h.leads _
  · exact h.separator _ _

theorem Crlf.behind (e : LineEntry) : (l.behind e).Crlf := by
  unfold LineLayout.behind
  split
  · exact Text.crlf_getD h.trails _
  · exact crlf_nil

theorem Crlf.renderOver {es : List LineEntry} (hes : ∀ e ∈ es, e.text.Crlf) (previous : Option LineEntry) :
    (l.renderOver previous es).Crlf := by
  induction es generalizing previous with
  | nil => exact crlf_nil
  | cons e es ih =>
    obtain ⟨he, hes⟩ := List.forall_mem_cons.1 hes
    exact (((h.before previous e).append he).append (h.behind e)).append (ih hes (some e))

theorem Crlf.renderInto {es : List LineEntry} (hes : ∀ e ∈ es, e.text.Crlf) (previous : Option LineEntry) :
    (l.renderInto previous es).Crlf := by
  induction es generalizing previous with
  | nil => exact crlf_nil
  | cons e es ih =>
    obtain ⟨he, hes⟩ := List.forall_mem_cons.1 hes
    cases previous with
    | none =>
      rw [LineLayout.renderInto, h.newline]
      exact ((crlf_newline.append (crlf_of_not_mem h.indent)).append he).append (ih hes (some e))
    | some q => exact ((h.separator q.slot e.slot).append he).append (ih hes (some e))

theorem crlf_render {es : List LineEntry} (hes : ∀ e ∈ es, e.text.Crlf) {outer : Text} (houter : outer.OneLine) :
    (l.render es outer).Crlf := by
  unfold render
  split
  · split
    · exact h.tail
    · rw [h.newline]
      exact ((h.tail.trimEnd.append (h.renderInto hes none)).append crlf_newline).append (crlf_of_not_mem houter)
  · exact (h.renderOver hes none).append h.tail

end LineLayout

/-! ### Lists with commas -/

/-- What follows a separator begins no line. -/
theorem Text.Crlf.cut? {sep : Char} {t before rest : Text} (h : t.Crlf) (hcut : Text.cut? sep t = some (before, rest))
    (hsep : sep ≠ '\r') : rest.Crlf := by
  rw [Text.cut?_eq_some hcut, List.append_cons] at h
  refine h.right fun hhead => ?_
  have hlast := h.getLast?_of_head? hhead
  rw [List.getLast?_concat] at hlast
  exact hsep (Option.some.inj hlast)

namespace CommaLayout

/-- Texts from a layout break lines with carriage returns. -/
structure Crlf (l : CommaLayout) : Prop where
  head : l.head.Crlf
  separators : ∀ t ∈ l.separators, t.Crlf
  tail : l.tail.Crlf
  stacked : ∀ indent, l.stacked = some indent → indent.OneLine
  newline : l.newline = .crlf

theorem crlf_ofRegion {t : Text} {region : Span} {spans : List Span} {newline : Newline}
    (hgaps : ∀ gap ∈ gaps t region.start region.stop spans, gap.Crlf) (hnewline : newline = .crlf) :
    (ofRegion t region spans newline).Crlf := by
  unfold ofRegion
  split
  · exact ⟨crlf_nil, nofun, crlf_nil, nofun, hnewline⟩
  · rename_i whole hwhole
    rw [hwhole] at hgaps
    have hhead := hgaps whole (List.mem_singleton.2 rfl)
    exact ⟨hhead, nofun, crlf_nil, fun indent hindent => (Text.afterLast?_eq_some hindent).2, hnewline⟩
  · rename_i head more hmore hhead
    rw [hhead] at hgaps
    obtain ⟨hhead, hmore⟩ := List.forall_mem_cons.1 hgaps
    refine ⟨hhead, fun u hu => hmore u (List.dropLast_subset more hu), ?_, fun indent hindent => ?_, hnewline⟩
    · show Text.Crlf (Option.getD _ _)
      cases hlast : more.getLast? with
      | none => exact crlf_nil
      | some gap => exact hmore gap (List.mem_of_getLast? hlast)
    · obtain ⟨gap, -, hgap⟩ := List.exists_of_findSome?_eq_some hindent
      exact (Text.afterLast?_eq_some hgap).2

variable {l : CommaLayout} (h : l.Crlf)

include h

theorem Crlf.freshSeparator : l.freshSeparator.Crlf := by
  unfold CommaLayout.freshSeparator
  split
  · rename_i indent hindent
    rw [h.newline]
    exact (crlf_of_not_mem (t := [',']) (by decide)).append
      (crlf_newline.append (crlf_of_not_mem (h.stacked indent hindent)))
  · exact crlf_of_not_mem (by decide)

theorem Crlf.movedSeparator (i : Nat) : (l.movedSeparator i).Crlf := by
  unfold CommaLayout.movedSeparator
  refine (crlf_of_not_mem (t := [',']) (by decide)).append ?_
  cases hcut : Text.cut? ',' (l.separators.getD i []) with
  | none => exact crlf_of_not_mem (by decide)
  | some parts => exact (Text.crlf_getD h.separators i).cut? hcut (by decide)

theorem Crlf.separator (before after : Option Nat) : (l.separator before after).Crlf := by
  unfold CommaLayout.separator
  split
  · split
    · exact Text.crlf_getD h.separators _
    · exact h.movedSeparator _
  · exact h.movedSeparator _
  · exact h.freshSeparator

theorem Crlf.renderOver {es : List CommaEntry} (hes : ∀ e ∈ es, e.text.Crlf) : (l.renderOver es).Crlf := by
  induction es with
  | nil => exact crlf_nil
  | cons e es ih =>
    obtain ⟨he, hes⟩ := List.forall_mem_cons.1 hes
    cases es with
    | nil => exact he
    | cons e' es => exact (he.append (h.separator e.kept e'.kept)).append (ih hes)

theorem crlf_render {es : List CommaEntry} (hes : ∀ e ∈ es, e.text.Crlf) : (l.render es).Crlf := by
  unfold render
  split
  · exact crlf_nil
  · split
    · refine Text.crlf_join (crlf_of_not_mem (by decide)) fun t ht => ?_
      obtain ⟨e, he, rfl⟩ := List.mem_map.1 ht
      exact hes e he
    · exact (h.head.append (h.renderOver hes)).append h.tail

end CommaLayout

/-! ### Nodes that were read -/

namespace Relocation

variable {α : Type} [Placed α] {s : Text} {f : Relocation → α → α} (hf : ∀ φ, Relocates φ (f φ))

include hf

theorem clear_of_relocates {r : α} (hr : f (clear s) r = r) : (Placed.span r).Clear s :=
  clear_of_span (((hf (clear s)).span r).symm.trans (congrArg Placed.span hr))

theorem clear_of_map {rs : List α} (hrs : rs.map (f (clear s)) = rs) : ∀ r ∈ rs, (Placed.span r).Clear s :=
  fun r hr => clear_of_relocates hf (Insertion.forall_of_map_eq_self hrs r hr)

end Relocation

/-! ### Pages -/

namespace Page

/-- The page is over a text with carriage returns; what was read later stands behind it. -/
structure Over (p : Page) (s : Text) : Prop where
  crlf : s.Crlf
  newline : p.newline = .crlf
  text : ∃ u, p.arena.text = s ++ u

namespace Over

variable {p : Page} {s : Text} (h : p.Over s)

include h

theorem slice {x y : Nat} (hx : s.Clear x) (hy : s.Clear y) : (p.arena.text.slice x y).Crlf := by
  obtain ⟨u, hu⟩ := h.text
  rw [hu, Text.slice_append_right hy.1]
  exact h.crlf.slice hx y

theorem copy {α : Type} [Placed α] {r : α} (hr : (span r).Clear s) : (p.copy r).Crlf := h.slice hr.1 hr.2

/-! ### Patches -/

theorem applyPatches {x y : Nat} (hx : s.Clear x) (hy : s.Clear y) {ps : List Patch}
    (hps : ∀ q ∈ ps, q.span.Clear s ∧ q.text.Crlf) : (applyPatches p.arena.text x y ps).Crlf := by
  induction ps generalizing x with
  | nil => exact h.slice hx hy
  | cons q ps ih =>
    obtain ⟨⟨hspan, htext⟩, hps⟩ := List.forall_mem_cons.1 hps
    rw [Graft.applyPatches]
    split
    · exact ih hx hps
    · exact ((h.slice hx hspan.1).append htext).append (ih hspan.2 hps)

theorem splice {x : Span} (hx : x.Clear s) {ps : List Patch} (hps : ∀ q ∈ ps, q.span.Clear s ∧ q.text.Crlf) :
    (splice p.arena.text x ps).Crlf :=
  h.applyPatches hx.1 hx.2 fun q hq => hps q (mem_sortBy.1 hq)

theorem splice_one {x y : Span} (hx : x.Clear s) (hy : y.Clear s) {new : Text} (hnew : new.Crlf) :
    (Graft.splice p.arena.text x [⟨y, new⟩]).Crlf :=
  h.splice hx (List.forall_mem_singleton.2 ⟨hy, hnew⟩)

/-! ### Lists -/

theorem gaps {x y : Nat} (hx : s.Clear x) (hy : s.Clear y) {spans : List Span} (hspans : ∀ z ∈ spans, z.Clear s) :
    ∀ gap ∈ gaps p.arena.text x y spans, gap.Crlf := by
  induction spans generalizing x with
  | nil => exact List.forall_mem_singleton.2 (h.slice hx hy)
  | cons z spans ih =>
    obtain ⟨hz, hspans⟩ := List.forall_mem_cons.1 hspans
    exact List.forall_mem_cons.2 ⟨h.slice hx hz.1, ih hz.2 hspans⟩

section Lists

variable {α : Type} [Placed α] [BEq α] {ws rs : List α} {region : Span} (hregion : region.Clear s)
  (hspans : ∀ r ∈ rs, (span r).Clear s) {lo n : Nat} (hids : Fresh lo n (rs.map origin)) {built : α → Prop}
  {revises : α → α → Prop}

omit [BEq α] in
theorem gaps_map (hregion : region.Clear s) (hspans : ∀ r ∈ rs, (span r).Clear s) :
    ∀ gap ∈ Graft.gaps p.arena.text region.start region.stop (rs.map span), gap.Crlf := by
  refine h.gaps hregion.1 hregion.2 fun z hz => ?_
  obtain ⟨r, hr, rfl⟩ := List.mem_map.1 hz
  exact hspans r hr

include hspans hids

/-- An element of a list of lines. -/
theorem lineEntry {style : LineStyle α} {indent : Text} {w : α} (hw : built w ∨ ∃ r ∈ rs, revises w r)
    (hbuilt : built w → (∀ i, origin w = some i → n ≤ i) ∧ (style.inserted indent w).Crlf)
    (hrevises : ∀ r ∈ rs, revises w r → origin w = origin r ∧ span w = span r ∧ (style.changed w r).Crlf) :
    (p.lineEntry style indent rs w).text.Crlf := by
  unfold Page.lineEntry
  rcases hw with hw | ⟨r, hr, hw⟩
  · obtain ⟨hlater, hinserted⟩ := hbuilt hw
    rw [counterpart?_eq_none hids hlater]
    exact hinserted
  · obtain ⟨horigin, hspan, hchanged⟩ := hrevises r hr hw
    simp only [counterpart?_bind hids hr horigin]
    split
    · exact h.copy (hspan ▸ hspans r hr)
    · exact hchanged

omit hspans hids in
/-- A list of lines whose elements were built, or revise nodes that were read. -/
theorem lineList {style : LineStyle α} {f : Relocation → α → α} (hf : ∀ φ, Relocates φ (f φ))
    {ids : α → List (Option NodeId)} (hroot : ∀ a, origin a ∈ ids a) (hregion : region.Clear s) {outer inner : Text}
    (houter : outer.OneLine) (hinner : inner.OneLine) (hrs : rs.map (f (.clear s)) = rs)
    (hids : Fresh lo n (rs.flatMap ids)) (hws : Drawn built revises ws rs)
    (hbuilt : ∀ w, built w → (∀ i, origin w = some i → n ≤ i) ∧
      ∀ indent : Text, indent.OneLine → (style.inserted indent w).Crlf)
    (hplace : ∀ {w r}, revises w r → origin w = origin r ∧ span w = span r)
    (hchanged : ∀ w, ∀ r ∈ rs, f (.clear s) r = r → Fresh lo n (ids r) → revises w r → (style.changed w r).Crlf) :
    (p.lineList style region outer inner ws rs).Crlf := by
  have hspans := Relocation.clear_of_map hf hrs
  have hlayout := LineLayout.crlf_ofRegion (h.gaps_map hregion hspans) hinner h.newline
  refine LineLayout.crlf_render hlayout (fun e he => ?_) houter
  obtain ⟨w, hw, rfl⟩ := List.mem_map.1 he
  refine h.lineEntry hspans (hids.map_origin hroot) (hws w hw) (fun hw => ?_) fun r hr hw => ?_
  · exact ⟨(hbuilt w hw).1, (hbuilt w hw).2 _ hlayout.indent⟩
  · have hside := Insertion.forall_of_map_eq_self hrs r hr
    exact ⟨(hplace hw).1, (hplace hw).2, hchanged w r hr hside (hids.of_mem hr) hw⟩

include hregion

omit [BEq α] hids in
theorem commaRegion {entries : List CommaEntry} (hentries : ∀ e ∈ entries, e.text.Crlf) :
    (p.commaRegion region rs entries).Crlf :=
  CommaLayout.crlf_render (CommaLayout.crlf_ofRegion (h.gaps_map hregion hspans) h.newline) hentries

omit hregion in
/-- An element of a list with commas. -/
theorem commaEntry {changed : α → Text} {fresh : Text} {w : α} (hw : built w ∨ ∃ r ∈ rs, revises w r)
    (hbuilt : built w → origin w = none ∧ fresh.Crlf)
    (hrevises : ∀ r ∈ rs, revises w r →
      origin w = origin r ∧ span w = span r ∧ ((w == r) = false → (changed r).Crlf)) :
    (p.commaEntry changed fresh rs w).text.Crlf := by
  unfold Page.commaEntry
  rcases hw with hw | ⟨r, hr, hw⟩
  · obtain ⟨hnone, hfresh⟩ := hbuilt hw
    rw [counterpart?_eq_none hids (by rw [hnone]; exact nofun), hnone]
    exact hfresh
  · obtain ⟨horigin, hspan, hchanged⟩ := hrevises r hr hw
    simp only [counterpart?_bind hids hr horigin]
    split
    · exact h.copy (hspan ▸ hspans r hr)
    · rename_i hne
      exact hchanged (eq_false_of_ne_true hne)

/-- A list with commas whose elements were built or stay as they were. -/
theorem commaList [LawfulBEq α] {write : α → Text} (hws : Drawn built Eq ws rs)
    (hbuilt : ∀ w, built w → origin w = none ∧ (write w).Crlf) : (p.commaList write region ws rs).Crlf := by
  refine h.commaRegion hregion hspans fun e he => ?_
  obtain ⟨w, hw, rfl⟩ := List.mem_map.1 he
  refine h.commaEntry hspans hids (hws w hw) (hbuilt w) fun r _ hwr => ?_
  rw [hwr]
  exact ⟨rfl, rfl, fun hne => absurd (beq_self_eq_true r) (by rw [hne]; exact Bool.false_ne_true)⟩

end Lists

end Over

end Page

end Graft
