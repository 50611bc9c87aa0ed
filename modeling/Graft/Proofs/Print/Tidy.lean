/-
Lists of lines that may be changed anywhere.

A gap between two elements is cut at its first line break, and its pieces are put together with those of other gaps.  In
a tidy list no comment goes on over a cut, and a comment that lasts to the end of its line stands before nothing but
line breaks.  Then nothing is swallowed, whichever elements go and wherever others come between those that stay: the
file has the tokens before the list, those of the elements that are printed, and those behind the list.

* `LineList.Tidy` — gaps that may be cut and put together;
* `LineList.Tidy.joins`, `LineList.Tidy.joined` — all that is printed side by side is joined;
* `Page.sealed_import`, `Page.sealed_traitUse`, `Page.sealed_method` — elements that are inserted;
* `File.marks_print_of_tidy` — the tokens of a file in which a tidy list was changed.
-/
import Graft.Proofs.Edit.AddMethod
import Graft.Proofs.Print.Seams
import Graft.Proofs.Token.Name

namespace Graft

/-! ### Tidy lists -/

namespace LineList

section Conditions

variable {α : Type} [Placed α] [BEq α] (l : LineList α) (source : Text) (tokens : List Token)

/-- What of a gap stays on the line of the element before it. -/
def trail (k : Nat) : Text := (splitTrail (l.gap source k)).1

/-- What of a gap stands on lines of its own. -/
def lead (k : Nat) : Text := (splitTrail (l.gap source k)).2

/-- A list whose gaps may be cut and put together in any way. -/
structure Tidy : Prop where
  /-- The list is opened, and every element ends, with a token that no longer one begins with. -/
  ends : ∀ k ≤ l.elements.length, ∃ u ∈ tokens, u.stop = l.gapStart k ∧
    ((k = 0 ∧ u.kind = .openTag) ∨ (u.lexeme ∈ Lexer.closers ∧ u.kind ≠ .closeTag))
  /-- Gaps are made of blanks and whole comments. -/
  gap : ∀ k < l.elements.length, Scan.free.run (l.gap source k) = some .free
  last : Lexer.Quiet (l.gap source l.elements.length) (source.slice l.region.stop source.size)
  /-- No comment goes on over the break at the end of the line of an element. -/
  trail : ∀ k ≤ l.elements.length, 0 < k → Lexer.Quiet (l.trail source k) []
  /-- No comment lasts to the end of such a line, or all else stands on lines of its own. -/
  line : (∀ k ≤ l.elements.length, 0 < k → Scan.free.run (l.trail source k) = some .free) ∨
    ∀ k ≤ l.elements.length, 0 < k → (l.lead source k).BeginsLine
  /-- Behind an opening tag stands a blank, and one would stand there without the elements. -/
  tag : ∀ u ∈ tokens, u.stop = l.gapStart 0 → u.kind = .openTag → (0 < l.elements.length → l.gap source 0 ≠ []) ∧
    (l.gap source 0).head?.all TokenTable.isSpace = true ∧
      (l.lead source l.elements.length ++ source.slice l.region.stop source.size).head?.all TokenTable.isSpace = true

set_option synthInstance.maxSize 400 in
instance : Decidable (l.Tidy source tokens) :=
  decidable_of_iff (_ ∧ _ ∧ _ ∧ _ ∧ _ ∧ _)
    ⟨fun h => ⟨h.1, h.2.1, h.2.2.1, h.2.2.2.1, h.2.2.2.2.1, h.2.2.2.2.2⟩,
      fun h => ⟨h.ends, h.gap, h.last, h.trail, h.line, h.tag⟩⟩

end Conditions

end LineList

/-! ### Quiet texts -/

namespace Lexer

variable {t z next : Text}

/-- Behind whole comments a break and blanks are quiet before anything. -/
theorem Quiet.newline (h : Quiet t []) (k : Newline) (hz : ∀ c ∈ z, TokenTable.isSpace c = true) :
    Quiet (t ++ (k.text ++ z)) next := by
  obtain ⟨s, hs, hrun, -⟩ := h
  have hspace : Scan.free.run (k.text ++ z) = some .free :=
    Scan.run_space fun c hc => (List.mem_append.1 hc).elim (k.isSpace_text c) (hz c)
  exact ⟨.free, rfl, by rw [Scan.run_append, hrun, Option.bind_some, Scan.run_break hs (k.beginsLine_append z), hspace],
    .inl rfl⟩

theorem Quiet.trimEnd (h : Quiet t next) : Quiet t.trimEnd [] := by
  obtain ⟨s, hs, hrun, -⟩ := h
  obtain ⟨r, hr, hrun⟩ := Scan.run_trimEnd hrun hs
  exact ⟨r, hr, hrun, .inr (.inl rfl)⟩

theorem quiet_nil : Quiet [] next := ⟨.free, rfl, rfl, .inl rfl⟩

/-- The lead behind a whole trail is quiet where the gap is. -/
theorem Quiet.lead {gap : Text} (h : Quiet gap next) (htrail : Quiet (splitTrail gap).1 []) :
    Quiet (splitTrail gap).2 next := by
  obtain ⟨s, hs, hrun, hnext⟩ := h
  obtain ⟨r, hr, hrun', -⟩ := htrail
  exact ⟨s, hs, Scan.run_splitTrail hrun hr hrun', hnext⟩

/-- A trail and a lead that begins with a break, or a trail behind which no comment goes on. -/
theorem Quiet.join (h : Quiet t []) (hz : Quiet z next) (hline : Scan.free.run t = some .free ∨ z.BeginsLine) :
    Quiet (t ++ z) next := by
  obtain ⟨r, hr, hrun, -⟩ := h
  obtain ⟨s, hs, hrun', hnext⟩ := hz
  refine ⟨s, hs, ?_, hnext⟩
  rw [Scan.run_append, hrun, Option.bind_some]
  rcases hline with hfree | hbreak
  · cases hrun.symm.trans hfree
    exact hrun'
  · rw [Scan.run_break hr hbreak, hrun']

end Lexer

/-! ### What is joined -/

/-- Where code goes on, the next token is one of code. -/
theorem Text.ModeAt.exists_token {t : Text} {x : Nat} (h : t.ModeAt x .code) (hx : (Arena.empty.ground t).edge x)
    (herror : ∀ u ∈ Arena.empty.tokensOf t, u.kind ≠ .error) : x = t.size ∨
      ∃ u ∈ Arena.empty.tokensOf t, u.start = x ∧ u.kind ∉ [.inlineHtml, .openTag] := by
  have hle := le_size_of_edge hx
  obtain ⟨m', hreads, -⟩ := h.reads hx (edge_size t) hle
  have htiled := (Arena.empty.tiled_tokensOf t).stretch hx (edge_size t) hle
  generalize hts : stretch (Arena.empty.tokensOf t) x t.size = ts at htiled
  cases ts with
  | nil => exact .inl htiled
  | cons u us =>
    have hu : u ∈ stretch (Arena.empty.tokensOf t) x t.size := by simp [hts]
    have hmem := (mem_stretch.1 hu).1
    refine .inr ⟨u, hmem, htiled.1, ?_⟩
    rw [Arena.lexemesFrom, hts, List.map_cons] at hreads
    generalize hslice : t.slice x t.size = y at hreads
    cases hreads with
    | cons hne hnext _ => exact (Lexer.kind_of_next_code hnext hne (herror u hmem)).1

namespace LineList

variable {α : Type} [Placed α] [BEq α] {l : LineList α} {p : Page} {source : Text} {b e : Option LineEntry} {i j k : Nat}

/-- What is printed of an element that was read. -/
theorem Printed.lt_length {e : LineEntry} (h : l.Printed source e) (he : e.kept = some j) : j < l.elements.length := by
  rw [Printed, he] at h
  obtain ⟨r, hr, -⟩ := h
  exact (List.getElem?_eq_some_iff.1 hr).1

namespace Tidy

variable {tokens : List Token} (h : l.Tidy source tokens)

include h

/-- What is left of the last gap stands before the text behind the list. -/
theorem quiet_lead (hn : 0 < l.elements.length) :
    Lexer.Quiet (l.lead source l.elements.length) (source.slice l.region.stop source.size) :=
  h.last.lead (h.trail _ (Nat.le_refl _) hn)

/-- A lead before an element. -/
theorem run_lead (hk : k < l.elements.length) (hpos : 0 < k) : Scan.free.run (l.lead source k) = some .free := by
  obtain ⟨r, hr, hrun, -⟩ := h.trail k (Nat.le_of_lt hk) hpos
  exact Scan.run_splitTrail (h.gap k hk) hr hrun

/-- The trail of an element before the lead of another one, or before what is left of the last gap. -/
theorem quiet_join {next : Text} (hi : i < l.elements.length) (hj : j ≤ l.elements.length) (hj' : 0 < j)
    (hlead : Lexer.Quiet (l.lead source j) next) : Lexer.Quiet (l.trail source (i + 1) ++ l.lead source j) next :=
  (h.trail _ hi (Nat.succ_pos i)).join hlead
    (h.line.imp (fun hfree => hfree _ hi (Nat.succ_pos i)) fun hbreak => hbreak j hj hj')

section Seams

variable (hlines : (Arena.empty.ground source).Lines l.region l.elements) (htext : source <+: p.arena.text)
  (hindent : ∀ t, (∀ c ∈ l.inner t, Text.isIndent c = true) ∧ ∀ c ∈ l.outer t, Text.isIndent c = true)

include hlines htext hindent

/-- Nothing is swallowed by what is printed between two elements that were no neighbours. -/
theorem quiet_between (hb : ∀ e' ∈ b, l.Printed source e') (he : ∀ e' ∈ e, l.Printed source e')
    (horder : ∀ b' ∈ b, ∀ i ∈ b'.kept, ∀ e' ∈ e, ∀ j ∈ e'.kept, i < j) (hends : b = none → e = none → l.elements ≠ []) :
    Lexer.Quiet ((l.layout p).between (l.outer p.arena.text) b e) (l.following source e) := by
  obtain ⟨hinner, houter⟩ := hindent p.arena.text
  have hlayout : ∀ c ∈ (l.layout p).indent, Text.isIndent c = true := (LineLayout.isIndent_ofRegion _ _ _ _ hinner).2
  have hspace : ∀ {t : Text}, (∀ c ∈ t, Text.isIndent c = true) → ∀ c ∈ t, TokenTable.isSpace c = true :=
    fun h c hc => (Text.blank_of_isIndent (h c hc)).2
  have hseparator : ∀ {t : Text} (x y : Slot), Lexer.Quiet t [] →
      Lexer.Quiet (t ++ x.separator (l.layout p).newline (l.layout p).indent y) (l.following source e) := by
    intro t x y ht
    obtain ⟨z, hz, hz'⟩ := Slot.exists_separator (l.layout p).newline hlayout x y
    rw [hz]
    exact ht.newline _ hz'
  have hgap : ∀ {k}, k ≤ l.elements.length → l.gap p.arena.text k = l.gap source k := gap_eq hlines htext
  by_cases hnil : l.elements = []
  · -- A list without elements has one gap, whose comments stay before the first element.
    have htail := layout_of_nil p hnil
    rw [hgap (Nat.zero_le _)] at htail
    have hlast := h.last
    rw [hnil, List.length_nil] at hlast
    cases b with
    | none =>
      cases e with
      | none => exact absurd hnil (hends rfl rfl)
      | some e =>
        simp only [LineLayout.between, LineLayout.seam, htail, if_true]
        exact hlast.trimEnd.newline _ (hspace hlayout)
    | some b =>
      cases e with
      | none =>
        simp only [LineLayout.between, LineLayout.seam, htail, if_true]
        exact Lexer.quiet_nil.newline _ (hspace houter)
      | some e =>
        simp only [LineLayout.between, LineLayout.seam, htail, if_true]
        exact hseparator _ _ Lexer.quiet_nil
  obtain ⟨hfull, hfirst, hleads, htrails, htail⟩ := layout_of_ne_nil p hnil
  have hn : 0 < l.elements.length := List.length_pos_iff.2 hnil
  have htail : (l.layout p).tail = l.lead source l.elements.length := by rw [htail, hgap (Nat.le_refl _)]; rfl
  cases b with
  | none =>
    cases e with
    | none =>
      simp only [LineLayout.between, LineLayout.seam, hfull, Bool.false_eq_true, if_false, htail]
      exact h.quiet_lead hn
    | some e =>
      simp only [LineLayout.between, LineLayout.seam, hfull, Bool.false_eq_true, if_false, hfirst, hgap (Nat.zero_le _),
        List.append_nil]
      exact ⟨.free, rfl, h.gap 0 hn, .inl rfl⟩
  | some b =>
    have hbehind : Lexer.Quiet ((l.layout p).behind b) [] ∧ ∀ i, b.kept = some i →
        i < l.elements.length ∧ (l.layout p).behind b = l.trail source (i + 1) := by
      cases hi : b.kept with
      | none =>
        simp only [LineLayout.behind, hi]
        refine ⟨Lexer.quiet_nil, fun i hi' => ?_⟩
        cases hi'
      | some i =>
        have hi' := (hb b rfl).lt_length hi
        have htrail : (l.layout p).behind b = l.trail source (i + 1) := by
          simp only [LineLayout.behind, hi]
          rw [htrails i hi', hgap hi']
          rfl
        rw [htrail]
        refine ⟨h.trail _ hi' (Nat.succ_pos i), fun i' hi'' => ?_⟩
        cases hi''
        exact ⟨hi', rfl⟩
    obtain ⟨hquiet, hkept⟩ := hbehind
    cases e with
    | none =>
      simp only [LineLayout.between, LineLayout.seam, hfull, Bool.false_eq_true, if_false, htail]
      cases hi : b.kept with
      | none =>
        simp only [LineLayout.behind, hi]
        exact h.quiet_lead hn
      | some i =>
        obtain ⟨hi', htrail⟩ := hkept i hi
        rw [htrail]
        exact h.quiet_join hi' (Nat.le_refl _) hn (h.quiet_lead hn)
    | some e =>
      simp only [LineLayout.between, LineLayout.seam, hfull, Bool.false_eq_true, if_false]
      by_cases hboth : b.kept.isSome = true ∧ e.kept.isSome = true
      · obtain ⟨⟨i, hi⟩, j, hj⟩ := And.intro (Option.isSome_iff_exists.1 hboth.1) (Option.isSome_iff_exists.1 hboth.2)
        obtain ⟨hi', htrail⟩ := hkept i hi
        have hj' := (he e rfl).lt_length hj
        have hpos : 0 < j := Nat.lt_of_le_of_lt (Nat.zero_le i) (horder b rfl i hi e rfl j hj)
        have hlead : (l.layout p).before (some b) e = l.lead source j := by
          obtain ⟨j, rfl⟩ := Nat.exists_eq_add_one.2 hpos
          have hbefore : (l.layout p).before (some b) e = (l.layout p).leads.getD (j + 1) [] := by
            obtain ⟨kept, slot, text⟩ := b
            obtain rfl : kept = some i := hi
            simp only [LineLayout.before, hj]
          rw [hbefore, hleads j hj', hgap (Nat.le_of_lt hj')]
          rfl
        rw [htrail, hlead]
        exact h.quiet_join hi' (Nat.le_of_lt hj') hpos ⟨.free, rfl, h.run_lead hj' hpos, .inl rfl⟩
      · have hbefore : (l.layout p).before (some b) e =
            b.slot.separator (l.layout p).newline (l.layout p).indent e.slot := by
          obtain ⟨kept, slot, text⟩ := b
          obtain ⟨kept', slot', text'⟩ := e
          cases kept with
          | none => rfl
          | some i =>
            cases kept' with
            | none => rfl
            | some j => exact absurd ⟨rfl, rfl⟩ hboth
        rw [hbefore]
        exact hseparator _ _ hquiet

omit hindent htext in
/-- Behind every gap the code goes on. -/
theorem modeAt_gapStop (htokens : tokens = Arena.empty.tokensOf source) (hk : k ≤ l.elements.length) :
    source.ModeAt (l.gapStop k) .code := by
  have hblank := blank_gap hlines hk
  have hstart := (Arena.empty.ground source).edge_left hblank
  obtain ⟨m, hm⟩ := Text.exists_modeAt hstart
  obtain ⟨u, hu, hstop, hends⟩ := h.ends k hk
  have hkind : u.kind ∉ [.closeTag, .inlineHtml] := by
    rcases hends with ⟨-, htag⟩ | ⟨hclose, hne⟩
    · rw [htag]
      decide
    · have hcode := (Lexer.longestOf_closers _ hclose).1
      simp only [Token.lexeme, List.mem_cons, List.not_mem_nil, or_false, not_or] at hcode ⊢
      exact ⟨hne, hcode.1⟩
  obtain rfl := hm.eq_code_of_stop hstart (htokens ▸ hu) hstop hkind
  obtain ⟨m', hreads, hm'⟩ := hm.reads hstart ((Arena.empty.ground source).edge_right hblank)
    ((Arena.empty.ground source).le_of_blank hblank)
  have hskipped : ∀ u ∈ Arena.empty.lexemesFrom source (l.gapStart k) (l.gapStop k), u.kind.isSkipped = true :=
    fun u hu => by simpa using List.filter_eq_nil_iff.1 (Ground.marks_of_blank hblank) u hu
  obtain ⟨rfl, -⟩ := hreads.exists_run (hreads.isTrivia_of_isSkipped hskipped)
  exact hm'

/-- Behind an opening tag stands a blank. -/
theorem head?_between {u : Token} (hu : u ∈ tokens) (hstop : u.stop = l.gapStart 0) (htag : u.kind = .openTag)
    (hends : e = none → l.elements ≠ []) :
    ((l.layout p).between (l.outer p.arena.text) none e ++ l.following source e).head?.all TokenTable.isSpace = true := by
  obtain ⟨hne, hgap, hlast⟩ := h.tag u hu hstop htag
  have hinner := (hindent p.arena.text).1
  have hnewline : (l.layout p).newline = p.newline := (LineLayout.isIndent_ofRegion _ _ _ _ hinner).1
  by_cases hnil : l.elements = []
  · have htail := layout_of_nil p hnil
    rw [gap_eq hlines htext (Nat.zero_le _)] at htail
    cases e with
    | none => exact absurd hnil (hends rfl)
    | some e =>
      -- Of the gap is left what it begins with, or nothing but the break behind it.
      simp only [LineLayout.between, LineLayout.seam, htail, if_true, hnewline]
      obtain ⟨c, t, hbreak, hc⟩ := p.newline.exists_cons
      obtain ⟨z, hz, -⟩ := trimEnd_append (l.gap source 0)
      cases htrim : (l.gap source 0).trimEnd with
      | nil => simp [hbreak, hc]
      | cons d v =>
        rw [hz, htrim] at hgap
        exact hgap
  · obtain ⟨hfull, hfirst, -, -, htail⟩ := layout_of_ne_nil p hnil
    rw [gap_eq hlines htext (Nat.zero_le _)] at hfirst
    rw [gap_eq hlines htext (Nat.le_refl _)] at htail
    cases e with
    | none =>
      simp only [LineLayout.between, LineLayout.seam, hfull, Bool.false_eq_true, if_false, htail]
      exact hlast
    | some e =>
      simp only [LineLayout.between, LineLayout.seam, hfull, Bool.false_eq_true, if_false, hfirst]
      obtain ⟨c, t, hcons⟩ := List.exists_cons_of_ne_nil (hne (List.length_pos_iff.2 hnil))
      rw [hcons] at hgap ⊢
      exact hgap

/-- Whatever is printed side by side is joined. -/
theorem joins (htokens : tokens = Arena.empty.tokensOf source) (herror : ∀ u ∈ tokens, u.kind ≠ .error)
    (hb : ∀ e' ∈ b, l.Printed source e') (he : ∀ e' ∈ e, l.Printed source e')
    (horder : ∀ b' ∈ b, ∀ i ∈ b'.kept, ∀ e' ∈ e, ∀ j ∈ e'.kept, i < j) : l.Joins p source tokens b e := by
  by_cases hends : b = none ∧ e = none ∧ l.elements = []
  · obtain ⟨rfl, rfl, hnil⟩ := hends
    exact .inl ⟨0, rfl, by rw [hnil]; rfl⟩
  have hends : b = none → e = none → l.elements ≠ [] := fun hb he hnil => hends ⟨hb, he, hnil⟩
  refine .inr ⟨h.quiet_between hlines htext hindent hb he horder hends, fun k hk => ?_, fun k hk => ?_⟩
  · have hle : k ≤ l.elements.length := by
      cases b with
      | none =>
        cases hk
        exact Nat.zero_le _
      | some b =>
        obtain ⟨i, hi, rfl⟩ := Option.map_eq_some_iff.1 hk
        exact (hb b rfl).lt_length hi
    obtain ⟨u, hu, hstop, ⟨rfl, htag⟩ | ⟨hclose, hne⟩⟩ := h.ends k hle
    · have hnone : b = none := by
        cases b with
        | none => rfl
        | some b =>
          obtain ⟨i, -, hi⟩ := Option.map_eq_some_iff.1 hk
          cases hi
      subst hnone
      refine ⟨u, hu, hstop, by rw [htag]; decide, .inr (.inl ?_)⟩
      exact h.head?_between hlines htext hindent hu hstop htag (hends rfl)
    · have hkinds : ∀ c ∈ Lexer.closers, c.kind ≠ .closeTag → c.kind ∉ [.closeTag, .inlineHtml, .whitespace, .lineComment] := by
        decide
      exact ⟨u, hu, hstop, hkinds _ hclose hne, .inl (List.mem_cons_of_mem _ hclose)⟩
  · have hle : k ≤ l.elements.length := by
      cases e with
      | none =>
        cases hk
        exact Nat.le_refl _
      | some e => exact Nat.le_of_lt ((he e rfl).lt_length hk)
    subst htokens
    exact (h.modeAt_gapStop hlines rfl hle).exists_token ((Arena.empty.ground source).edge_right (blank_gap hlines hle)) herror

/-- Whichever elements stay in their order, and wherever others come between them, all is joined. -/
theorem joined (htokens : tokens = Arena.empty.tokensOf source) (herror : ∀ u ∈ tokens, u.kind ≠ .error) {working : List α}
    (hprinted : ∀ e ∈ l.entries p working, l.Printed source e)
    (horder : (working.filterMap (counterpart? l.elements)).Pairwise (· < ·)) : l.Joined p source tokens working := by
  have hentries : (l.entries p working).Pairwise fun b e => ∀ i ∈ b.kept, ∀ j ∈ e.kept, i < j :=
    List.pairwise_map.2 (List.pairwise_filterMap.1 horder)
  have hpairs : (none :: ((l.entries p working).map some ++ [none])).Pairwise fun b e : Option LineEntry =>
      (∀ e' ∈ b, l.Printed source e') ∧ (∀ e' ∈ e, l.Printed source e') ∧
        ∀ b' ∈ b, ∀ i ∈ b'.kept, ∀ e' ∈ e, ∀ j ∈ e'.kept, i < j := by
    have hsome : ∀ e ∈ (l.entries p working).map some ++ [none], ∀ e' ∈ e, l.Printed source e' := by
      intro e he e' he'
      cases he'
      rcases List.mem_append.1 he with he | he
      · obtain ⟨e, he, heq⟩ := List.mem_map.1 he
        cases heq
        exact hprinted _ he
      · cases List.mem_singleton.1 he
    refine List.pairwise_cons.2 ⟨fun e he => ⟨nofun, hsome e he, nofun⟩, List.pairwise_append.2 ⟨?_, List.pairwise_singleton _ _,
      fun b hb e he => ?_⟩⟩
    · refine List.pairwise_map.2 (hentries.imp_of_mem fun hb he hlt => ?_)
      refine ⟨fun e' he' => ?_, fun e' he' => ?_, fun b' hb' i hi e' he' j hj => ?_⟩
      · cases he'
        exact hprinted _ hb
      · cases he'
        exact hprinted _ he
      · cases hb'
        cases he'
        exact hlt i hi j hj
    · obtain rfl := List.mem_singleton.1 he
      exact ⟨hsome b (List.mem_append_left _ hb), nofun, fun _ _ _ _ _ he' => nomatch he'⟩
  exact (hpairs.imp fun ⟨hb, he, hlt⟩ => h.joins hlines htext hindent htokens herror hb he hlt).isChain

end Seams

end Tidy

end LineList

/-! ### What is inserted -/

/-- What stands around the lists of a file is indented with blanks. -/
theorem File.HasLines.isIndent {f : File} {α : Type} [Placed α] [BEq α] {l : LineList α} (h : f.HasLines l) (t : Text) :
    (∀ c ∈ l.inner t, Text.isIndent c = true) ∧ ∀ c ∈ l.outer t, Text.isIndent c = true := by
  cases h with
  | file => exact ⟨List.forall_mem_nil _, List.forall_mem_nil _⟩
  | namespaced before behind n =>
    simp only [Namespace.lines]
    split
    · exact ⟨isIndent_deeper (isIndent_lineIndent _ _), isIndent_lineIndent _ _⟩
    · exact ⟨List.forall_mem_nil _, List.forall_mem_nil _⟩
  | cls => exact ⟨isIndent_deeper (isIndent_lineIndent _ _), isIndent_lineIndent _ _⟩
  | method => exact ⟨isIndent_deeper (isIndent_lineIndent _ _), isIndent_lineIndent _ _⟩

namespace Page

open Lexer (Sealed Spells)

variable {t : Text} {ls : List Lexeme}

/-- The import of a name may be put anywhere. -/
theorem sealed_import (p : Page) (h : Spells t ls) (indent : Text) :
    Sealed (p.stmtStyle.inserted indent (.imports (.fresh t))) ∧
      Sealed (p.topStyle.inserted indent (.plain (.imports (.fresh t)))) := by
  have hsealed : Sealed (Import.fresh t).toText := .of_reads (List.cons_ne_nil _ _) (Import.reads_fresh h)
  exact ⟨hsealed, hsealed⟩

/-- The clause that uses a trait may be put anywhere. -/
theorem sealed_traitUse (p : Page) (h : Spells t ls) (indent : Text) :
    Sealed (p.memberStyle.inserted indent (.traitUse (.fresh [.fresh t]))) := by
  have hsealed : Sealed (TraitUse.fresh [.fresh t]).toText := .of_reads (List.cons_ne_nil _ _) (TraitUse.reads_fresh h)
  have hindent : p.memberStyle.inserted indent (.traitUse (.fresh [.fresh t])) = (TraitUse.fresh [.fresh t]).toText := rfl
  rwa [hindent]

/-- A method of a snippet may be put anywhere. -/
theorem sealed_method {a b : Arena} {code : Text} {m : Method} {p : Page} (h : a.parseMethod code = (.ok (some m), b))
    (hpage : p.arena = b.register (.method m)) (hsteady : m.Steady (a.tokensOf (Arena.wrapMethod code))) {indent : Text}
    (hindent : ∀ c ∈ indent, Text.isIndent c = true) : Sealed (p.memberStyle.inserted indent (.method m)) := by
  have hmember : ∀ w, Lexer.significant .code (p.insertedMember indent (.method m) ++ w) =
      (a.lexemesFrom (Arena.wrapMethod code) m.span.start m.span.stop).filter (!·.kind.isTrivia) ++
        Lexer.significant .code w := fun w =>
      (p.splits_insertedMember h hpage hsteady.code hsteady.steady hindent w).significant
  refine .of_append (fun hempty => ?_) hmember
  have hnil : p.insertedMember indent (.method m) = [] := hempty
  obtain ⟨-, l, hl, hlast⟩ := a.reads_method h hsteady.code []
  have htrivia : ∀ l ∈ Lexer.closers, l.kind.isTrivia = false := by decide
  have hmem : l ∈ (a.lexemesFrom (Arena.wrapMethod code) m.span.start m.span.stop).filter (!·.kind.isTrivia) :=
    List.mem_filter.2 ⟨List.mem_of_getLast? hlast, by rw [htrivia l hl]; rfl⟩
  have hlexemes := hmember []
  rw [hnil] at hlexemes
  rw [(List.append_eq_nil_iff.1 hlexemes.symm).1] at hmem
  cases hmem

end Page

/-! ### Files -/

section Print

variable {source : Text} {f : File} {a b : Arena} {α : Type} [Placed α] [BEq α] {l : LineList α} {working : List α}

/-- Elements of a tidy list stay in their order and others are put between them, built ones or some that were read later.
The file has the tokens before the list, those of the elements, and the tokens behind the list. -/
theorem File.marks_print_of_tidy (hfile : Arena.empty.parseFile source = (.ok f, a)) (hlist : f.HasLines l)
    (htidy : l.Tidy source a.tokens) (htext : source <+: b.text) :
    let p : Page := ⟨b, .ofText source⟩
    (∀ w ∈ working, w ∈ l.elements ∨ (∀ i, Placed.origin w = some i → a.nextId ≤ i) ∧
      Lexer.Sealed ((l.style p).inserted (l.layout p).indent w)) →
    (working.filterMap (counterpart? l.elements)).Pairwise (· < ·) →
    Lexer.marks .html ((l.put working).print f b) =
      a.marksBetween 0 l.region.start ++ (working.flatMap (l.tokens p a) ++ a.marksBetween l.region.stop source.size) := by
  intro p hworking horder
  refine File.marks_print hfile hlist htext hworking ?_
  obtain ⟨hlaid, -, hids⟩ := Arena.laid_of_parseFile hfile
  obtain ⟨htokens, herror⟩ := Arena.tokens_of_parseFile hfile
  obtain ⟨hlines, hlids, hself⟩ := hlist.laid hids hlaid
  refine htidy.joined hlines htext hlist.isIndent htokens (htokens ▸ herror) (fun e he => ?_) horder
  obtain ⟨w, hw, rfl⟩ := List.mem_map.1 he
  exact (l.printed_lineEntry (a := a) htext hlines hlids hself (hworking w hw)).1

/-- The first of two imports goes with the comment on its line, and another one comes behind the second. -/
theorem File.marks_print_of_tidy_import : ∃ (source out : Text) (f : File) (a : Arena) (working : List TopStmt),
    source = "<?php\nuse A; // c\nuse B;\n\nclass C \x7b\x7d\n".toList ∧
      out = "<?php\nuse B;\nuse N\\M;\n\nclass C \x7b\x7d\n".toList ∧
      Arena.empty.parseFile source = (.ok f, a) ∧ f.HasLines f.lines ∧ f.lines.Tidy source a.tokens ∧
      working = insertAt 1 (.plain (.imports (.fresh "N\\M".toList))) (f.stmts.drop 1) ∧
      (∀ w ∈ working, w ∈ f.stmts ∨ (∀ i, Placed.origin w = some i → a.nextId ≤ i) ∧ Lexer.Sealed
        ((f.lines.style ⟨a, .ofText source⟩).inserted (f.lines.layout ⟨a, .ofText source⟩).indent w)) ∧
      (working.filterMap (counterpart? f.stmts)).Pairwise (· < ·) ∧ (f.lines.put working).print f a = out ∧
      Lexer.marks .html out = a.marksBetween 0 f.body.start ++
        (working.flatMap (f.lines.tokens ⟨a, .ofText source⟩ a) ++ a.marksBetween f.body.stop source.size) := by
  obtain ⟨source, out, hsource, hout, hcheck⟩ : ∃ source out : Text,
      source = "<?php\nuse A; // c\nuse B;\n\nclass C \x7b\x7d\n".toList ∧
      out = "<?php\nuse B;\nuse N\\M;\n\nclass C \x7b\x7d\n".toList ∧
      (Arena.empty.parseFile source).1.toOption.map (fun f =>
        let a := (Arena.empty.parseFile source).2
        let working : List TopStmt := insertAt 1 (.plain (.imports (.fresh "N\\M".toList))) (f.stmts.drop 1)
        decide (f.lines.Tidy source a.tokens ∧ source <+: a.text ∧ 1 < f.stmts.length ∧
          (working.filterMap (counterpart? f.stmts)).Pairwise (· < ·) ∧ (f.lines.put working).print f a = out)) = some true :=
    ⟨_, _, rfl, rfl, by decide +kernel⟩
  obtain ⟨f, hf, hcheck⟩ := exists_of_parseFile hcheck
  obtain ⟨htidy, htext, hlength, horder, hprint⟩ := of_decide_eq_true hcheck
  have hname : Lexer.Spells "N\\M".toList [⟨.ident, ['N']⟩, ⟨.backslash, ['\\']⟩, ⟨.ident, ['M']⟩] :=
    .qualified (x := ['N']) (TokenTable.matches_label.2 ⟨_, _, rfl, by decide, nofun⟩)
      (.plain (TokenTable.matches_label.2 ⟨_, _, rfl, by decide, nofun⟩)) (by decide)
  generalize hworking : insertAt 1 (TopStmt.plain (.imports (.fresh "N\\M".toList))) (f.stmts.drop 1) = working at *
  have helements : ∀ w ∈ working, w ∈ f.stmts ∨
      (∀ i, Placed.origin w = some i → (Arena.empty.parseFile source).2.nextId ≤ i) ∧
        Lexer.Sealed ((f.lines.style ⟨(Arena.empty.parseFile source).2, .ofText source⟩).inserted
          (f.lines.layout ⟨(Arena.empty.parseFile source).2, .ofText source⟩).indent w) := by
    intro w hw
    rw [← hworking] at hw
    rcases List.mem_cons.1 ((insertAt_perm _ _ _).mem_iff.1 hw) with rfl | hw
    · exact .inr ⟨nofun, (Page.sealed_import _ hname _).2⟩
    · exact .inl (List.mem_of_mem_drop hw)
  have hmarks := File.marks_print_of_tidy (Prod.ext hf rfl) .file htidy htext helements horder
  rw [hprint] at hmarks
  exact ⟨source, out, f, _, working, hsource, hout, Prod.ext hf rfl, .file, htidy, hworking.symm, helements, horder, hprint,
    hmarks⟩

/-- Where a comment lasts to the end of its line and the list ends on a line with its last element, the comment swallows
what closes the list when that element goes. -/
theorem File.marks_print_swallowed : ∃ (source out : Text) (f : File) (a : Arena) (c : ClassLike) (k : ClassLike → File),
    source = "<?php\nclass X \x7b\n    use A; // c\n    use B; \x7d".toList ∧
      out = "<?php\nclass X \x7b\n    use A; // c \x7d".toList ∧
      Arena.empty.parseFile source = (.ok f, a) ∧ f.HasLines (c.lines k) ∧ ¬(c.lines k).Tidy source a.tokens ∧
      ((c.lines k).put (c.members.take 1)).print f a = out ∧ applyEdits source [.removeTrait "B".toList] = .ok out ∧
      Lexer.marks .html out ≠ a.marksBetween 0 c.body.start ++
        ((c.members.take 1).flatMap ((c.lines k).tokens ⟨a, .ofText source⟩ a) ++ a.marksBetween c.body.stop source.size) := by
  obtain ⟨source, out, hsource, hout, happly, hcheck⟩ : ∃ source out : Text,
      source = "<?php\nclass X \x7b\n    use A; // c\n    use B; \x7d".toList ∧
      out = "<?php\nclass X \x7b\n    use A; // c \x7d".toList ∧ applyEdits source [.removeTrait "B".toList] = .ok out ∧
      (Arena.empty.parseFile source).1.toOption.map (fun f =>
        let a := (Arena.empty.parseFile source).2
        (f.firstClass?.map fun c => decide (¬(c.lines fun _ => f).Tidy source a.tokens ∧
          (f.updateClass? fun c => { c with members := c.members.take 1 }).map (·.print f a) = some out ∧
          Lexer.marks .html out ≠ a.marksBetween 0 c.body.start ++ ((c.members.take 1).flatMap
            ((c.lines fun _ => f).tokens ⟨a, .ofText source⟩ a) ++ a.marksBetween c.body.stop source.size))) == some true) =
        some true :=
    ⟨_, _, rfl, rfl, by decide +kernel, by decide +kernel⟩
  obtain ⟨f, hf, hcheck⟩ := exists_of_parseFile hcheck
  obtain ⟨c, hclass, hcheck⟩ := Option.map_eq_some_iff.1 (eq_of_beq hcheck)
  obtain ⟨hwild, hprint, hmarks⟩ := of_decide_eq_true hcheck
  obtain ⟨hkind, k, hk, hupdate⟩ := File.exists_hole hclass
  have hput := hupdate c hkind fun c => { c with members := c.members.take 1 }
  rw [hk.eq] at hput
  rw [hput, Option.map_some] at hprint
  exact ⟨source, out, f, _, c, k, hsource, hout, Prod.ext hf rfl, .cls c k hk,
    fun h => hwild ⟨h.ends, h.gap, h.last, h.trail, h.line, h.tag⟩, Option.some.inj hprint, happly, hmarks⟩

/-- Where a block comment goes on over a line break, what is inserted behind an element comes to stand in the comment, and
the rest of the comment is lost with the lead it was in: what is written is no source any more. -/
theorem File.print_refused : ∃ (source out : Text) (f : File) (a : Arena) (e : ParseError),
    source = "<?php\nuse B; /* a\nb */ class A \x7b\x7d".toList ∧
      out = "<?php\nuse B; /* a\nuse X;\n\nclass A \x7b\x7d".toList ∧ Arena.empty.parseFile source = (.ok f, a) ∧
      ¬f.lines.Tidy source a.tokens ∧ applyEdits source [.addImport "X".toList] = .ok out ∧
      (Arena.empty.parseFile out).1 = .error e := by
  obtain ⟨source, out, hsource, hout, happly, hrefused, hcheck⟩ : ∃ source out : Text,
      source = "<?php\nuse B; /* a\nb */ class A \x7b\x7d".toList ∧
      out = "<?php\nuse B; /* a\nuse X;\n\nclass A \x7b\x7d".toList ∧
      applyEdits source [.addImport "X".toList] = .ok out ∧ (Arena.empty.parseFile out).1.toOption.isNone = true ∧
      (Arena.empty.parseFile source).1.toOption.map (fun f =>
        decide (¬f.lines.Tidy source (Arena.empty.parseFile source).2.tokens)) = some true :=
    ⟨_, _, rfl, rfl, by decide +kernel, by decide +kernel, by decide +kernel⟩
  obtain ⟨f, hf, hcheck⟩ := exists_of_parseFile hcheck
  cases hresult : (Arena.empty.parseFile out).1 with
  | ok g =>
    rw [hresult] at hrefused
    cases hrefused
  | error e => exact ⟨source, out, f, _, e, hsource, hout, Prod.ext hf rfl, of_decide_eq_true hcheck, happly, hresult⟩

end Print

end Graft
