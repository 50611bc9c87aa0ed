/-
The tokens of a list with commas.

Between two elements of such a list stands what was read there, or a separator that is made: a comma with what followed
the one that was read, or a comma with the indentation of the list.  When the first comma of every gap is the one that
separates, and what is taken from gaps are blanks and whole comments, each of these is read as one comma.  Elements of
which nothing goes on over what follows them may then come in any order, and the list is read as their tokens with one
comma between neighbours.

* `Lexer.Bounded` — texts that are read alike before whatever parts from them;
* `CommaLayout.Tidy.marks_renderOver` — elements with their separators;
* `Listing.Tidy` — lists that are tidy, with what stands around them;
* `Page.marks_commaRegion` — the tokens of a text in which one list was changed.
-/
import Graft.Proofs.Edit.FirstClass
import Graft.Proofs.Edit.Prepared
import Graft.Proofs.Print.Seams
import Graft.Proofs.Reading.Listing
import Graft.Proofs.Token.Name
import Graft.Proofs.Tree.Target

namespace Graft

/-! ### Elements -/

namespace Lexer

variable {t w : Text} {ls : List Lexeme}

/-- A text of code that is read as the same tokens before everything that parts from it. -/
def Bounded (t : Text) : Prop := ∀ w, Parts w → significant .code (t ++ w) = significant .code t ++ significant .code w

theorem Bounded.of_append (h : ∀ w, Parts w → significant .code (t ++ w) = ls ++ significant .code w) : Bounded t := by
  have hnil : significant .code t = ls := by
    rw [← List.append_nil t, h [] parts_nil]
    exact List.append_nil ls
  exact fun w hw => by rw [h w hw, hnil]

theorem Bounded.marks_append (h : Bounded t) (hw : Parts w) : marks .code (t ++ w) = marks .code t ++ marks .code w := by
  rw [marks_eq, h w hw, List.filter_append, ← marks_eq, ← marks_eq]

/-- A name. -/
theorem Spells.bounded (h : Spells t ls) : Bounded t := .of_append fun _ hw => (h.reads hw.head?).significant_append

/-- An entry of an array that is written from a key and a value. -/
theorem bounded_item (p : Page) (k : Option Text) {v : Scalar} (hv : ∀ x, v ≠ .float x) :
    Bounded (p.freshItem (.fresh (k.map Expr.freshString) v.toExpr)) := by
  obtain ⟨vs, hvs⟩ := exists_spelling hv
  exact .of_append fun w hw => significant_item (e := (k, v)) hvs hw

end Lexer

/-! ### Separators -/

namespace Scan

variable {t : Text} {s : Scan}

/-- Blanks and comments part from what stands before them. -/
theorem parts_append (h : Scan.free.run t = some s) (hne : t ≠ []) (w : Text) : Lexer.Parts (t ++ w) := by
  obtain ⟨c, t, rfl⟩ := List.exists_cons_of_ne_nil hne
  refine Lexer.parts_cons ?_ (t ++ w)
  rw [run_cons, step] at h
  split at h
  · rename_i hc
    exact TokenTable.mem_delimiters_of_isSpace hc
  · split at h
    · rename_i hc
      rw [hc]
      decide
    · split at h
      · rename_i hc
        rw [hc]
        decide
      · cases h

end Scan

namespace Lexer

variable {t : Text}

/-- A comma between blanks and whole comments. -/
def Parting (t : Text) : Prop :=
  ∃ pre post, t = pre ++ ',' :: post ∧ Scan.free.run pre = some .free ∧ Scan.free.run post = some .free

theorem Parting.parts_append (h : Parting t) (w : Text) : Parts (t ++ w) := by
  obtain ⟨pre, post, rfl, hpre, -⟩ := h
  rw [List.append_assoc]
  by_cases hne : pre = []
  · rw [hne]
    exact parts_cons (by decide) (post ++ w)
  · exact Scan.parts_append hpre hne _

/-- A separator is read as one comma. -/
theorem Parting.marks_append (h : Parting t) (w : Text) : marks .code (t ++ w) = ⟨.comma, [',']⟩ :: marks .code w := by
  obtain ⟨pre, post, rfl, hpre, hpost⟩ := h
  have hcomma := significant_closer (l := ⟨.comma, [',']⟩) (by decide) nofun (post ++ w)
  rw [marks_eq, List.append_assoc, significant_of_closed rfl hpre (.inl rfl), List.cons_append]
  refine (congrArg _ hcomma).trans ?_
  rw [significant_of_closed rfl hpost (.inl rfl), List.filter_cons_of_pos rfl, ← marks_eq]

end Lexer

namespace CommaLayout

variable {l : CommaLayout}

/-- The first comma of every separator is the one that separates, and a list with one element per line is indented with
blanks and whole comments. -/
structure Tidy (l : CommaLayout) : Prop where
  comma : ∀ s ∈ l.separators, ∃ c ∈ Text.cut? ',' s, Scan.free.run c.1 = some .free ∧ Scan.free.run c.2 = some .free
  indent : ∀ indent ∈ l.stacked, Scan.free.run indent = some .free

instance (l : CommaLayout) : Decidable l.Tidy :=
  decidable_of_iff (_ ∧ _) ⟨fun h => ⟨h.1, h.2⟩, fun h => ⟨h.comma, h.indent⟩⟩

namespace Tidy

variable (h : l.Tidy)

include h

theorem parting_fresh : Lexer.Parting l.freshSeparator := by
  unfold freshSeparator
  split
  · rename_i indent hindent
    refine ⟨[], _, rfl, rfl, ?_⟩
    rw [Scan.run_append, Scan.run_space fun c hc => l.newline.isSpace_text c hc, Option.bind_some]
    exact h.indent indent hindent
  · exact ⟨[], [' '], rfl, rfl, rfl⟩

theorem parting_moved (i : Nat) : Lexer.Parting (l.movedSeparator i) := by
  refine ⟨[], _, rfl, rfl, ?_⟩
  by_cases hi : i < l.separators.length
  · have hmem : l.separators.getD i [] ∈ l.separators := by
      rw [List.getD_eq_getElem?_getD, List.getElem?_eq_getElem hi]
      exact List.getElem_mem hi
    obtain ⟨c, hc, -, hpost⟩ := h.comma _ hmem
    rw [hc]
    exact hpost
  · rw [List.getD_eq_getElem?_getD, List.getElem?_eq_none (Nat.le_of_not_lt hi)]
    rfl

/-- Whatever stands between two elements is read as one comma. -/
theorem parting_separator {before after : Option Nat} (hafter : ∀ k ∈ after, k ≤ l.separators.length) :
    Lexer.Parting (l.separator before after) := by
  unfold separator
  split
  · rename_i a b
    split
    · rename_i heq
      subst heq
      have hmem : l.separators.getD a [] ∈ l.separators := by
        rw [List.getD_eq_getElem?_getD, List.getElem?_eq_getElem (hafter _ rfl)]
        exact List.getElem_mem _
      obtain ⟨c, hc, hpre, hpost⟩ := h.comma _ hmem
      exact ⟨c.1, c.2, Text.cut?_eq_some hc, hpre, hpost⟩
    · exact h.parting_moved b
  · exact h.parting_moved _
  · exact h.parting_fresh

/-- The elements with their separators, before a text that parts from them. -/
theorem marks_renderOver {es : List CommaEntry} (hne : es ≠ []) (hbounded : ∀ e ∈ es, Lexer.Bounded e.text)
    (hkept : ∀ e ∈ es, ∀ k ∈ e.kept, k ≤ l.separators.length) {w : Text} (hw : Lexer.Parts w) :
    Lexer.marks .code (l.renderOver es ++ w) =
      [⟨.comma, [',']⟩].intercalate (es.map fun e => Lexer.marks .code e.text) ++ Lexer.marks .code w := by
  induction es with
  | nil => exact absurd rfl hne
  | cons e es ih =>
    obtain ⟨he, hes⟩ := List.forall_mem_cons.1 hbounded
    obtain ⟨-, hkept⟩ := List.forall_mem_cons.1 hkept
    cases es with
    | nil =>
      rw [List.map_singleton, List.intercalate_singleton]
      exact he.marks_append hw
    | cons f es =>
      have hseparator : Lexer.Parting (l.separator e.kept f.kept) := h.parting_separator (List.forall_mem_cons.1 hkept).1
      rw [renderOver, List.append_assoc, List.append_assoc, he.marks_append (hseparator.parts_append _),
        hseparator.marks_append, ih (List.cons_ne_nil f es) hes hkept, List.map_cons, List.map_cons, List.map_cons,
        List.intercalate_cons_cons]
      simp only [List.append_assoc, List.cons_append, List.nil_append]

end Tidy

end CommaLayout

/-! ### Gaps -/

theorem gaps_append {t : Text} {x y : Nat} {spans : List Span} (u : Text) (hy : y ≤ t.size)
    (hspans : ∀ s ∈ spans, s.start ≤ t.size) : gaps (t ++ u) x y spans = gaps t x y spans := by
  induction spans generalizing x with
  | nil => rw [gaps, gaps, Text.slice_append_right hy]
  | cons s spans ih =>
    obtain ⟨hs, hspans⟩ := List.forall_mem_cons.1 hspans
    rw [gaps, gaps, Text.slice_append_right hs, ih hspans]

/-- The layout of a list that had elements. -/
theorem CommaLayout.ofRegion_of_ne_nil (t : Text) (region : Span) {spans : List Span} (hne : spans ≠ []) (k : Newline) :
    let l := CommaLayout.ofRegion t region spans k
    l.bare = false ∧ (∀ s ∈ spans.head?, l.head = t.slice region.start s.start) ∧
      l.separators.length + 1 = spans.length ∧ ∀ s ∈ spans.getLast?, l.tail = t.slice s.stop region.stop := by
  obtain ⟨s, spans, rfl⟩ := List.exists_cons_of_ne_nil hne
  obtain ⟨m, ms, hmore⟩ : ∃ m ms, gaps t s.stop region.stop spans = m :: ms :=
    List.exists_cons_of_length_eq_add_one (length_gaps t s.stop region.stop spans)
  have hlength := length_gaps t s.stop region.stop spans
  rw [hmore] at hlength
  simp only [CommaLayout.ofRegion, gaps, hmore]
  refine ⟨trivial, fun s' hs' => ?_, ?_, fun s' hs' => ?_⟩
  · cases hs'
    rfl
  · simpa using hlength
  · have hlast := getLast?_gaps (t := t) (x := region.start) (y := region.stop) hs'
    rw [gaps, hmore, List.getLast?_cons_cons] at hlast
    rw [hlast]
    rfl

/-! ### Lists of a source -/

/-- The edges of a list with commas that has elements. -/
theorem Listing.IsOf.edges {G : Ground} {l : Listing} (h : l.IsOf G.Commas) (hne : l.elements ≠ []) :
    G.edge l.region.start ∧ G.edge l.region.stop ∧ ∀ s ∈ l.elements, G.edge s.start ∧ G.edge s.stop ∧
      l.region.start ≤ s.start ∧ s.start < s.stop ∧ s.stop ≤ l.region.stop := by
  obtain @⟨α, _, region, as, e, hspread, hend⟩ := h
  have hcomma : ∀ {x y}, G.comma x y → G.edge x ∧ G.edge y := fun ⟨_, _, _, hx, hy⟩ => ⟨G.edge_left hx, G.edge_right hy⟩
  have hedges : G.edge e ∧ G.edge region.stop ∧ e ≤ region.stop := by
    rcases hend with hblank | ⟨-, hlast⟩
    · exact ⟨G.edge_left hblank, G.edge_right hblank, G.le_of_blank hblank⟩
    · exact ⟨(hcomma hlast).1, (hcomma hlast).2, G.le_of_comma hlast⟩
  have hstart : G.edge region.start := by
    obtain ⟨a, as, rfl⟩ := List.exists_cons_of_ne_nil fun hnil : as = [] => hne (by rw [hnil]; rfl)
    exact G.edge_left hspread.1
  have hinside := hspread.edges G.edge_right hcomma hedges.1
  have hwithin := hspread.within G.le_of_blank G.le_of_comma
  refine ⟨hstart, hedges.2.1, fun s hs => ?_⟩
  obtain ⟨a, ha, rfl⟩ := List.mem_map.1 hs
  obtain ⟨h₁, h₂, h₃⟩ := hwithin a ha
  exact ⟨(hinside a ha).1, (hinside a ha).2, h₁, h₂, Nat.le_trans h₃ hedges.2.2⟩

namespace Listing

/-- Where the last element stops. -/
def stop (l : Listing) : Nat := (l.elements.getLast?.map Span.stop).getD l.region.start

def layout (l : Listing) (t : Text) (k : Newline) : CommaLayout := .ofRegion t l.region l.elements k

/-- A list whose separators are tidy.  Blanks and whole comments stand between a token of code before the list and the
first element, every element begins and ends with a token of code, and what follows the last one parts from it. -/
structure Tidy (l : Listing) (t : Text) (ts : List Token) (k : Newline) : Prop where
  separators : (l.layout t k).Tidy
  lead : ∃ u ∈ ts, u.stop ≤ l.region.start ∧ u.kind ∉ [.inlineHtml, .openTag, .closeTag] ∧ ∀ s ∈ l.elements.head?,
    Scan.free.run (t.slice u.stop s.start) = some .free ∧ (u.lexeme ∈ Lexer.closers ∨ t.slice u.stop s.start ≠ [])
  begins : ∀ s ∈ l.elements, ∃ u ∈ ts, u.start = s.start ∧ u.kind ∉ [.inlineHtml, .openTag]
  ends : ∀ s ∈ l.elements, ∃ u ∈ ts, u.stop = s.stop ∧
    u.kind ∉ [.inlineHtml, .openTag, .closeTag, .whitespace, .lineComment] ∧ u.text ∉ [['/'], ['?']]
  behind : Lexer.Parts (t.slice l.stop t.size)

instance (t : Text) : Decidable (Lexer.Parts t) :=
  decidable_of_iff (t.head?.all (fun c => c ∈ '[' :: TokenTable.delimiters) = true ∨ ['?', '>'] <+: t) <| by
    simp [Lexer.Parts, Option.all_eq_true]

instance (l : Listing) (t : Text) (ts : List Token) (k : Newline) : Decidable (l.Tidy t ts k) :=
  decidable_of_iff (_ ∧ _ ∧ _ ∧ _ ∧ _) ⟨fun ⟨h₁, h₂, h₃, h₄, h₅⟩ => ⟨h₁, h₂, h₃, h₄, h₅⟩,
    fun h => ⟨h.separators, h.lead, h.begins, h.ends, h.behind⟩⟩

namespace Tidy

variable {l : Listing} {t : Text} {a : Arena} {k : Newline} {s : Span} (h : l.Tidy t a.tokens k)
  (hcommas : l.IsOf (Arena.empty.ground t).Commas) (htokens : a.tokens = Arena.empty.tokensOf t)
  (herror : ∀ u ∈ Arena.empty.tokensOf t, u.kind ≠ .error)

include h hcommas htokens

theorem modeAt_start (hs : s ∈ l.elements) : t.ModeAt s.start .code := by
  have hedge := ((hcommas.edges (List.ne_nil_of_mem hs)).2.2 s hs).1
  obtain ⟨m, hm⟩ := Text.exists_modeAt hedge
  obtain ⟨u, hu, hstart, hkind⟩ := h.begins s hs
  rwa [hm.eq_code_of_start hedge (htokens ▸ hu) hstart hkind] at hm

theorem modeAt_stop (hs : s ∈ l.elements) : t.ModeAt s.stop .code := by
  have hedge := ((hcommas.edges (List.ne_nil_of_mem hs)).2.2 s hs).2.1
  obtain ⟨m, hm⟩ := Text.exists_modeAt hedge
  obtain ⟨u, hu, hstop, hkind, -⟩ := h.ends s hs
  simp only [List.mem_cons, List.not_mem_nil, or_false, not_or] at hkind
  rwa [hm.eq_code_of_stop hedge (htokens ▸ hu) hstop (by simp [hkind])] at hm

/-- Behind the last element stands what was read there. -/
theorem marks_tail (hs : s ∈ l.elements.getLast?) :
    Lexer.marks .code (t.slice s.stop t.size) = a.marksBetween s.stop l.region.stop ++ a.marksBetween l.region.stop t.size := by
  have hmem : s ∈ l.elements := List.mem_of_getLast? hs
  obtain ⟨-, hregion, hedges⟩ := hcommas.edges (List.ne_nil_of_mem hmem)
  obtain ⟨-, hstop, -, -, hle⟩ := hedges s hmem
  rw [(h.modeAt_stop hcommas htokens hmem).marks hstop, Arena.lexemesFrom_append hregion hle (le_size_of_edge hregion),
    List.filter_append, Arena.marks_eq htokens, Arena.marks_eq htokens]

include herror

/-- An element that was read may stand before everything that parts from it. -/
theorem bounded_element (hs : s ∈ l.elements) :
    Lexer.Bounded (t.slice s.start s.stop) ∧ Lexer.marks .code (t.slice s.start s.stop) = a.marksBetween s.start s.stop := by
  obtain ⟨-, -, hedges⟩ := hcommas.edges (List.ne_nil_of_mem hs)
  obtain ⟨hstart, hstop, -, hlt, -⟩ := hedges s hs
  obtain ⟨m, hreads, hm⟩ := (h.modeAt_start hcommas htokens hs).reads hstart hstop (Nat.le_of_lt hlt)
  obtain ⟨u, hu, hustop, hkind, htext⟩ := h.ends s hs
  simp only [List.mem_cons, List.not_mem_nil, or_false, not_or] at hkind htext
  rw [htokens] at hu
  obtain rfl : m = .code := hm.eq_code_of_stop hstop hu hustop (by simp [hkind])
  have hlast := Arena.getLast?_lexemesFrom hstart hu ((hstart.2.2 u hu).resolve_left (by omega))
  rw [hustop] at hlast
  have hbefore : ∀ w, Lexer.Parts w → Lexer.Reads .code (t.slice s.start s.stop) w
      (Arena.empty.lexemesFrom t s.start s.stop) .code := by
    refine fun w hw => hreads.exchange (fun v hv => LineList.ne_error_of_mem herror hv) fun v hv => .inr (.inr ?_)
    cases hlast.symm.trans hv
    exact ⟨by simp [Token.lexeme, hkind, herror u hu], hw.agrees,
      .inr (.inr ⟨by simp [Token.lexeme, hkind], .inr (by simpa [Token.lexeme] using htext)⟩)⟩
  refine ⟨.of_append fun w hw => (hbefore w hw).significant_append, ?_⟩
  rw [Lexer.marks, ← (hbefore [] Lexer.parts_nil).eq_lexemesOf, Arena.marks_eq htokens]

/-- Before the first element stands what was read there. -/
theorem marks_lead (hs : s ∈ l.elements.head?) (v : Text) :
    Lexer.marks .html (t.slice 0 l.region.start ++ (t.slice l.region.start s.start ++ v)) =
      a.marksBetween 0 l.region.start ++ Lexer.marks .code v := by
  have hmem : s ∈ l.elements := List.mem_of_mem_head? hs
  obtain ⟨hregion, -, hedges⟩ := hcommas.edges (List.ne_nil_of_mem hmem)
  obtain ⟨hstart, -, hle, -⟩ := hedges s hmem
  obtain ⟨u, hu, hustop, hkind, hlead⟩ := h.lead
  obtain ⟨hrun, hends⟩ := hlead s hs
  rw [htokens] at hu
  simp only [List.mem_cons, List.not_mem_nil, or_false, not_or] at hkind
  have hedge : (Arena.empty.ground t).edge u.stop := (Arena.empty.tiled_tokensOf t).isEdge_stop hu
  obtain ⟨m, hm⟩ := Text.exists_modeAt hedge
  obtain rfl := hm.eq_code_of_stop hedge hu rfl (by simp [hkind])
  -- What stands behind the token is trivia, before the region and in it.
  obtain ⟨m, hreads, hm'⟩ := hm.reads hedge hstart (Nat.le_trans hustop hle)
  have hblank : (Arena.empty.lexemesFrom t u.stop l.region.start).filter (!·.kind.isTrivia) = [] := by
    obtain ⟨_, hm''⟩ := h.modeAt_start hcommas htokens hmem
    obtain ⟨_, hm'⟩ := hm'
    obtain rfl := hm'.mode_unique hm''
    have hsignificant := hreads.significant_append
    rw [Lexer.significant_of_closed rfl hrun (.inl rfl), Arena.lexemesFrom_append hregion hustop hle, List.filter_append]
      at hsignificant
    exact (List.append_eq_nil_iff.1 (List.append_left_eq_self.1 hsignificant.symm)).1
  have htext : t.slice 0 l.region.start ++ (t.slice l.region.start s.start ++ v) =
      t.slice 0 u.stop ++ (t.slice u.stop s.start ++ v) := by
    rw [← slice_of_edges (edge_zero t) hedge hregion (Nat.zero_le _) hustop,
      ← slice_of_edges hedge hregion hstart hustop hle]
    simp only [List.append_assoc]
  have hlast := Arena.getLast?_lexemesFrom (Arena.empty.edge_start t) hu (Nat.zero_le _)
  have hsignificant := (hm.reads_start hedge).significant_run (fun w hw => LineList.ne_error_of_mem herror hw)
    (t := t.slice u.stop s.start) (v := v) (fun w hw => ?_) rfl hrun (.inl rfl)
  · rw [htext, Lexer.marks_eq, hsignificant, List.filter_append, Lexer.filter_filter_isTrivia, ← Lexer.marks_eq,
      Arena.marks_eq htokens, Arena.lexemesFrom_append hedge (Nat.zero_le _) hustop, List.filter_append,
      ← Lexer.filter_filter_isTrivia (Arena.empty.lexemesFrom t u.stop l.region.start), hblank, List.filter_nil,
      List.append_nil]
  · cases hlast.symm.trans hw
    refine hends.imp_right fun hne => .inr ⟨by simp [Token.lexeme, hkind, herror u hu], ?_, .inl ?_⟩
    · exact (Scan.parts_append hrun hne v).agrees
    · rw [← slice_of_edges hedge hstart (edge_size t) (Nat.le_trans hustop hle) (le_size_of_edge hstart),
        List.head?_append_of_ne_nil _ hne, List.head?_append_of_ne_nil _ hne]

/-- Elements in any order, among them ones that were not read, are printed as their tokens with one comma between
neighbours, and what stood before the first one and behind the last one stays. -/
theorem marks_render (hne : l.elements ≠ []) {es : List CommaEntry} (hes : es ≠ [])
    (hbounded : ∀ e ∈ es, Lexer.Bounded e.text) (hkept : ∀ e ∈ es, ∀ i ∈ e.kept, i < l.elements.length) :
    Lexer.marks .html (t.slice 0 l.region.start ++ ((l.layout t k).render es ++ t.slice l.region.stop t.size)) =
      a.marksBetween 0 l.region.start ++ ([⟨.comma, [',']⟩].intercalate (es.map fun e => Lexer.marks .code e.text) ++
        (a.marksBetween l.stop l.region.stop ++ a.marksBetween l.region.stop t.size)) := by
  obtain ⟨hbare, hhead, hlength, htail⟩ := CommaLayout.ofRegion_of_ne_nil t l.region hne k
  obtain ⟨first, hfirst⟩ : ∃ s, s ∈ l.elements.head? := ⟨_, List.head?_eq_some_head hne⟩
  obtain ⟨last, hlast⟩ : ∃ s, s ∈ l.elements.getLast? := ⟨_, List.getLast?_eq_some_getLast hne⟩
  have hstop : l.stop = last.stop := by rw [stop, hlast]; rfl
  obtain ⟨-, hregion, hedges⟩ := hcommas.edges hne
  obtain ⟨-, hedge, -, -, hle⟩ := hedges last (List.mem_of_getLast? hlast)
  have hbehind := h.behind
  rw [hstop] at hbehind
  have hrender : (l.layout t k).render es ++ t.slice l.region.stop t.size =
      t.slice l.region.start first.start ++ ((l.layout t k).renderOver es ++ t.slice last.stop t.size) := by
    rw [CommaLayout.render, if_neg (by simpa using hes), layout, hbare, hhead first hfirst, htail last hlast,
      ← slice_of_edges hedge hregion (edge_size t) hle (le_size_of_edge hregion)]
    simp
  rw [hrender, h.marks_lead hcommas htokens herror hfirst, hstop, ← h.marks_tail hcommas htokens hlast,
    h.separators.marks_renderOver hes hbounded (fun e he i hi => Nat.le_of_lt_succ ?_) hbehind]
  exact (hkept e he i hi).trans_eq hlength.symm

end Tidy

/-- A comma of a source. -/
theorem lexeme_of_comma {t : Text} {u : Token} (hu : u ∈ Arena.empty.tokensOf t) (hk : u.kind = .comma) :
    u.lexeme = ⟨.comma, [',']⟩ := by
  have hedge : (Arena.empty.ground t).edge u.stop := (Arena.empty.tiled_tokensOf t).isEdge_stop hu
  obtain ⟨m, hm⟩ := Text.exists_modeAt hedge
  have hlast := Arena.getLast?_lexemesFrom (edge_zero t) hu (Nat.zero_le _)
  have hclosers : ∀ c ∈ Lexer.closers, c.kind = .comma → c = ⟨.comma, [',']⟩ := by decide
  refine hclosers _ ((hm.reads_start hedge).getLast?_mem_closers hlast ?_) hk
  rw [show u.lexeme.kind = .comma from hk]
  decide

/-- Behind the last element stands a comma, or nothing but blanks and comments. -/
theorem Separated.trailing {l : Listing} {a : Arena} {t : Text} (h : l.Separated a.tokens)
    (htokens : a.tokens = Arena.empty.tokensOf t) (hne : l.elements ≠ []) :
    a.marksBetween l.stop l.region.stop ∈ [[], [⟨.comma, [',']⟩]] := by
  obtain ⟨s, hs⟩ : ∃ s, s ∈ l.elements.getLast? := ⟨_, List.getLast?_eq_some_getLast hne⟩
  have hstop : l.stop = s.stop := by rw [stop, hs]; rfl
  have hbehind := h.behind s hs
  rw [hstop]
  simp only [between, List.map_eq_nil_iff] at hbehind
  unfold Arena.marksBetween
  rcases hbehind with hnil | hcomma
  · rw [hnil]
    exact List.mem_cons_self
  · obtain ⟨u, hu, hk⟩ := List.map_eq_singleton_iff.1 hcomma
    have hmem : u ∈ Arena.empty.tokensOf t := by
      rw [← htokens]
      exact (mem_stretch.1 (List.mem_filter.1 (hu ▸ List.mem_singleton_self u)).1).1
    rw [hu, List.map_singleton, lexeme_of_comma hmem hk]
    exact List.mem_cons_of_mem _ List.mem_cons_self

end Listing

/-! ### Arrays of a file -/

section Arrays

variable {a : ArrayLit Expr}

/-- The entries of an array. -/
def ArrayLit.listing (a : ArrayLit Expr) : Listing := .of a.itemsRegion a.items

theorem ArrayLit.listing_mem (a : ArrayLit Expr) : a.listing ∈ (Expr.array a).sites.flatMap Site.commas := by
  cases a
  exact List.mem_append_left _ List.mem_cons_self

theorem ReturnStmt.listing_mem {s : ReturnStmt} (h : s.expr = some (.array a)) :
    a.listing ∈ s.sites.flatMap Site.commas := by
  rw [sites, h]
  exact List.mem_append_right _ a.listing_mem

theorem Member.HoldsArray.listing_mem {m : Member} {put : ArrayLit Expr → Member} (h : m.HoldsArray a put) :
    a.listing ∈ m.sites.flatMap Site.commas := by
  cases h with
  | property q l r i hitems hdefault =>
    obtain ⟨s, hs, hmem⟩ := List.mem_flatMap.1 a.listing_mem
    have hi : s ∈ i.sites := List.mem_cons_of_mem _ (Expr.mem_sitesOption.2 ⟨_, hdefault, hs⟩)
    exact List.mem_flatMap.2 ⟨s, List.mem_cons_of_mem _ (List.mem_flatMap.2 ⟨i, by simp [hitems], hi⟩), hmem⟩
  | method m d l r s hbody hstmts hexpr =>
    obtain ⟨t, ht, hmem⟩ := List.mem_flatMap.1 (ReturnStmt.listing_mem hexpr)
    have hd : t ∈ d.sites := List.mem_cons_of_mem _ (List.mem_flatMap.2 ⟨.ret s, by simp [hstmts], ht⟩)
    exact List.mem_flatMap.2 ⟨t, List.mem_cons_of_mem _ (List.mem_flatMap.2 ⟨d, by simp [hbody], hd⟩), hmem⟩

/-- The entries of an array that a file holds are a list of the tree. -/
theorem File.HoldsArray.listing_mem {f : File} {put : ArrayLit Expr → File} (h : f.HoldsArray a put) :
    a.listing ∈ f.sites.flatMap Site.commas := by
  cases h with
  | inClass c k put hc hput =>
    cases hput with
    | member l r m put hmembers hput =>
      obtain ⟨s, hs, hmem⟩ := List.mem_flatMap.1 hput.listing_mem
      have hclass : s ∈ c.sites := List.mem_cons_of_mem _ (List.mem_flatMap.2 ⟨m, by simp [hmembers], hs⟩)
      obtain ⟨l, t, r, top, hstmts, ht, rfl⟩ := hc
      have htop : s ∈ t.sites := by
        cases ht with
        | plain c => exact hclass
        | inside n l r c hstmts =>
          exact List.mem_cons_of_mem _ (List.mem_flatMap.2 ⟨.classLike c, by simp [hstmts], hclass⟩)
      exact List.mem_flatMap.2 ⟨s, List.mem_cons_of_mem _ (List.mem_flatMap.2 ⟨t, by simp [hstmts], htop⟩), hmem⟩
  | returned hole l r s hstmts hexpr =>
    obtain ⟨t, ht, hmem⟩ := List.mem_flatMap.1 (ReturnStmt.listing_mem hexpr)
    refine List.mem_flatMap.2 ⟨t, List.mem_cons_of_mem _ ?_, hmem⟩
    cases hole with
    | whole => exact List.mem_flatMap.2 ⟨.plain (.ret s), by simp [hstmts, UnitHole.fill], ht⟩
    | inside before n after =>
      refine List.mem_flatMap.2 ⟨.inside { n with stmts := l ++ .ret s :: r }, by simp [hstmts, UnitHole.fill], ?_⟩
      exact List.mem_cons_of_mem _ (List.mem_flatMap.2 ⟨.ret s, by simp, ht⟩)

end Arrays

theorem Page.arrayItems_eq (p : Page) (is reference : List (ArrayItem Expr)) :
    p.arrayItems is reference = is.map fun i => p.commaEntry (p.arrayItem i) (p.freshItem i) reference i := by
  induction is with
  | nil => rfl
  | cons i is ih => exact congrArg _ ih

/-! ### Printed lists -/

section Print

variable {source : Text} {f : File} {a : Arena} {p : Page} {α : Type} [Placed α] [BEq α] {region : Span}
  {reference working : List α}

/-- Elements of a tidy list with commas stay, go or change their order, and others come between them.  In its place the
list has the tokens of its elements in their order with exactly one comma between neighbours, and behind them a comma
exactly when there was one. -/
theorem Page.marks_commaRegion (hfile : Arena.empty.parseFile source = (.ok f, a))
    (hlist : Listing.of region reference ∈ f.sites.flatMap Site.commas) (hne : reference ≠ []) (hworking : working ≠ [])
    (htidy : (Listing.of region reference).Tidy source a.tokens p.newline) (htext : source <+: p.arena.text)
    (changed : α → α → Text) (fresh : α → Text) :
    let entry := fun w => p.commaEntry (changed w) (fresh w) reference w
    let Stays := fun w => (counterpart? reference w).bind (reference[·]?) = some w ∧ (w == w) = true
    let trailing := a.marksBetween (Listing.of region reference).stop region.stop
    (∀ w ∈ working, Stays w ∨ Lexer.Bounded (entry w).text) →
    Lexer.marks .html (source.slice 0 region.start ++
        (p.commaRegion region reference (working.map entry) ++ source.slice region.stop source.size)) =
      a.marksBetween 0 region.start ++ ([⟨.comma, [',']⟩].intercalate (working.map fun w => Lexer.marks .code (entry w).text) ++
        (trailing ++ a.marksBetween region.stop source.size)) ∧
    (∀ w ∈ working, Stays w → Lexer.marks .code (entry w).text = a.marksBetween (span w).start (span w).stop) ∧
    trailing ∈ [[], [⟨.comma, [',']⟩]] := by
  intro entry Stays trailing hentries
  obtain ⟨htokens, herror⟩ := Arena.tokens_of_parseFile hfile
  obtain ⟨s, hs, hmem⟩ := List.mem_flatMap.1 hlist
  have hcommas := ((File.laid_sites (Arena.laid_of_parseFile hfile).1 s hs).commas _ hmem).2
  have hseparated := (Arena.sound_of_parseFile hfile s hs).separated _ hmem
  rw [← htokens] at hseparated
  have hspans : (Listing.of region reference).elements ≠ [] := by simpa [Listing.of] using hne
  obtain ⟨-, hregion, hedges⟩ := hcommas.edges hspans
  have hlayout : CommaLayout.ofRegion p.arena.text region (reference.map span) p.newline =
      (Listing.of region reference).layout source p.newline := by
    obtain ⟨u, hu⟩ := htext
    have hgaps : gaps p.arena.text region.start region.stop (reference.map span) =
        gaps source region.start region.stop (reference.map span) := by
      rw [← hu]
      exact gaps_append u (le_size_of_edge hregion) fun s hs => le_size_of_edge (hedges s hs).1
    rw [Listing.layout, CommaLayout.ofRegion, hgaps]
    rfl
  have hstays : ∀ w, Stays w → (entry w).text = source.slice (span w).start (span w).stop ∧
      span w ∈ (Listing.of region reference).elements := by
    rintro w ⟨hbind, hself⟩
    have hmem : span w ∈ (Listing.of region reference).elements := by
      obtain ⟨i, -, hi⟩ := Option.bind_eq_some_iff.1 hbind
      exact List.mem_map_of_mem (List.mem_of_getElem? hi)
    obtain ⟨u, hu⟩ := htext
    refine ⟨?_, hmem⟩
    simp only [entry, Page.commaEntry, hbind, hself, if_true, Page.copy, Arena.slice]
    rw [← hu, Text.slice_append_right (le_size_of_edge (hedges _ hmem).2.1)]
  have hread := fun w hw => htidy.bounded_element hcommas htokens herror (hstays w hw).2
  have hbounded : ∀ e ∈ working.map entry, Lexer.Bounded e.text := by
    refine List.forall_mem_map.2 fun w hw => (hentries w hw).elim (fun hw => ?_) id
    rw [(hstays w hw).1]
    exact (hread w hw).1
  have hkept : ∀ e ∈ working.map entry, ∀ i ∈ e.kept, i < (Listing.of region reference).elements.length := by
    refine List.forall_mem_map.2 fun w hw i hi => ?_
    obtain ⟨id, -, hid⟩ := Option.bind_eq_some_iff.1 hi
    rw [Listing.of, List.length_map]
    exact (List.findIdx?_eq_some_iff_getElem.1 hid).1
  have hrender := htidy.marks_render hcommas htokens herror hspans (by simpa using hworking) hbounded hkept
  rw [List.map_map] at hrender
  refine ⟨?_, fun w hw hkept => ?_, hseparated.trailing htokens hspans⟩
  · rw [Page.commaRegion, hlayout]
    exact hrender
  · rw [(hstays w hkept).1]
    exact (hread w hkept).2

/-- The second of three entries goes, the others change places, and another one comes between them: the comments of the
separators go with the entries before them. -/
theorem Page.marks_commaRegion_array : ∃ (source out : Text) (f : File) (a : Arena) (b : ArrayLit Expr)
    (x y z : ArrayItem Expr), source = "<?php\nreturn [\n    'x', // one, two\n    'y' => 1,\n    'z',\n];\n".toList ∧
      out = "<?php\nreturn [\n    'z',\n    'n' => 2,\n    'x',\n];\n".toList ∧
      Arena.empty.parseFile source = (.ok f, a) ∧ f.returnedArray? = some b ∧ b.items = [x, y, z] ∧
      b.listing.Tidy source a.tokens .lf ∧
      let p : Page := ⟨a, .lf⟩
      let fresh := ArrayItem.fresh (some (Expr.freshString "n".toList)) (Scalar.int 2).toExpr
      source.slice 0 b.itemsRegion.start ++ (p.commaRegion b.itemsRegion b.items (p.arrayItems [z, fresh, x] b.items) ++
        source.slice b.itemsRegion.stop source.size) = out ∧
      Lexer.marks .html out = a.marksBetween 0 b.itemsRegion.start ++ (a.marksBetween z.span.start z.span.stop ++ [⟨.comma, [',']⟩] ++
        (Lexer.marks .code "'n' => 2".toList ++ [⟨.comma, [',']⟩] ++ a.marksBetween x.span.start x.span.stop) ++
        ([⟨.comma, [',']⟩] ++ a.marksBetween b.itemsRegion.stop source.size)) := by
  obtain ⟨source, out, hsource, hout, hcheck⟩ : ∃ source out : Text,
      source = "<?php\nreturn [\n    'x', // one, two\n    'y' => 1,\n    'z',\n];\n".toList ∧
      out = "<?php\nreturn [\n    'z',\n    'n' => 2,\n    'x',\n];\n".toList ∧
      (Arena.empty.parseFile source).1.toOption.map (fun f =>
        let a := (Arena.empty.parseFile source).2
        let p : Page := ⟨a, .lf⟩
        let fresh := ArrayItem.fresh (some (Expr.freshString "n".toList)) (Scalar.int 2).toExpr
        (f.returnedArray?.map fun b => decide (b.items.length = 3 ∧ b.listing.Tidy source a.tokens .lf ∧ source <+: a.text ∧
          b.items.map (counterpart? b.items) = [some 0, some 1, some 2] ∧ b.items.map (fun i => i == i) = [true, true, true] ∧
          source.slice 0 b.itemsRegion.start ++ (p.commaRegion b.itemsRegion b.items
            (p.arrayItems (b.items.drop 2 ++ fresh :: b.items.take 1) b.items) ++
              source.slice b.itemsRegion.stop source.size) = out ∧
          a.marksBetween b.listing.stop b.itemsRegion.stop = [⟨.comma, [',']⟩])) == some true) = some true :=
    ⟨_, _, rfl, rfl, by decide +kernel⟩
  obtain ⟨f, hf, hcheck⟩ := exists_of_parseFile hcheck
  obtain ⟨b, hb, hcheck⟩ := Option.map_eq_some_iff.1 (eq_of_beq hcheck)
  obtain ⟨hlength, htidy, htext, hplaces, hself, hprint, hlast⟩ := of_decide_eq_true hcheck
  obtain ⟨x, y, z, hitems⟩ := List.length_eq_three.1 hlength
  let p : Page := ⟨(Arena.empty.parseFile source).2, .lf⟩
  let fresh := ArrayItem.fresh (some (Expr.freshString "n".toList)) (Scalar.int 2).toExpr
  simp only [hitems, List.map_cons, List.map_nil, List.cons.injEq, and_true] at hplaces hself
  obtain ⟨hx, -, hz⟩ := hplaces
  have hxstays : (counterpart? b.items x).bind (b.items[·]?) = some x ∧ (x == x) = true := by
    rw [hitems, hx]
    exact ⟨rfl, hself.1⟩
  have hzstays : (counterpart? b.items z).bind (b.items[·]?) = some z ∧ (z == z) = true := by
    rw [hitems, hz]
    exact ⟨rfl, hself.2.2⟩
  have hworking : b.items.drop 2 ++ fresh :: b.items.take 1 = [z, fresh, x] := by
    rw [hitems]
    rfl
  rw [hworking] at hprint
  obtain ⟨put, hput, -⟩ := File.exists_holdsArray hb
  obtain ⟨hmarks, htokens, -⟩ := Page.marks_commaRegion (p := p) (Prod.ext hf rfl)
    hput.listing_mem (by simp [hitems]) (List.cons_ne_nil z [fresh, x]) htidy htext p.arrayItem p.freshItem <| by
      refine List.forall_mem_cons.2 ⟨.inl hzstays, List.forall_mem_cons.2 ⟨.inr ?_, List.forall_mem_singleton.2 (.inl hxstays)⟩⟩
      exact Lexer.bounded_item p (some "n".toList) (v := .int 2) nofun
  rw [← Page.arrayItems_eq, hprint] at hmarks
  refine ⟨source, out, f, _, b, x, y, z, hsource, hout, Prod.ext hf rfl, hb, hitems, htidy, hprint, hmarks.trans ?_⟩
  rw [List.map_cons, List.map_cons, List.map_singleton, List.intercalate_cons_cons, List.intercalate_cons_cons,
    List.intercalate_singleton, htokens z (by simp) hzstays, htokens x (by simp) hxstays]
  have hfresh : p.freshItem fresh = "'n' => 2".toList := rfl
  have hlast : (Arena.empty.parseFile source).2.marksBetween (Listing.of b.itemsRegion b.items).stop b.itemsRegion.stop =
      [⟨.comma, [',']⟩] := hlast
  rw [hlast, ← hfresh]
  rfl

/-- Where a comment before the comma of a separator holds a comma, the separator is cut there when the entry before it
goes: what is left of the comment is read as code. -/
theorem Page.marks_commaRegion_cut : ∃ (source out : Text) (f : File) (a : Arena) (b : ArrayLit Expr)
    (x y z : ArrayItem Expr), source = "<?php class A \x7b public $a = ['x', 'k' /* u, v */, 'z']; \x7d".toList ∧
      out = "<?php class A \x7b public $a = ['x', v */, 'z']; \x7d".toList ∧
      applyEdits source [.removeFromArray "a".toList "k".toList] = .ok out ∧
      Arena.empty.parseFile source = (.ok f, a) ∧ b.listing ∈ f.sites.flatMap Site.commas ∧ b.items = [x, y, z] ∧
      ¬b.listing.Tidy source a.tokens .lf ∧
      let p : Page := ⟨a, .lf⟩
      source.slice 0 b.itemsRegion.start ++ (p.commaRegion b.itemsRegion b.items (p.arrayItems [x, z] b.items) ++
        source.slice b.itemsRegion.stop source.size) = out ∧
      Lexer.marks .html out ≠ a.marksBetween 0 b.itemsRegion.start ++ (a.marksBetween x.span.start x.span.stop ++ [⟨.comma, [',']⟩] ++
        a.marksBetween z.span.start z.span.stop ++ (a.marksBetween b.listing.stop b.itemsRegion.stop ++
          a.marksBetween b.itemsRegion.stop source.size)) := by
  obtain ⟨source, out, hsource, hout, happly, hcheck⟩ : ∃ source out : Text,
      source = "<?php class A \x7b public $a = ['x', 'k' /* u, v */, 'z']; \x7d".toList ∧
      out = "<?php class A \x7b public $a = ['x', v */, 'z']; \x7d".toList ∧
      applyEdits source [.removeFromArray "a".toList "k".toList] = .ok out ∧
      (Arena.empty.parseFile source).1.toOption.map (fun f =>
        let a := (Arena.empty.parseFile source).2
        let p : Page := ⟨a, .lf⟩
        ((f.firstClass?.bind (·.targetArray? "a".toList)).map fun b => decide (b.items.length = 3 ∧
          ¬b.listing.Tidy source a.tokens .lf ∧ source.slice 0 b.itemsRegion.start ++ (p.commaRegion b.itemsRegion b.items
            (p.arrayItems (b.items.take 1 ++ b.items.drop 2) b.items) ++ source.slice b.itemsRegion.stop source.size) = out ∧
          ∀ x ∈ b.items.take 1, ∀ z ∈ b.items.drop 2, Lexer.marks .html out ≠ a.marksBetween 0 b.itemsRegion.start ++
            (a.marksBetween x.span.start x.span.stop ++ [⟨.comma, [',']⟩] ++ a.marksBetween z.span.start z.span.stop ++
              (a.marksBetween b.listing.stop b.itemsRegion.stop ++ a.marksBetween b.itemsRegion.stop source.size)))) ==
        some true) = some true :=
    ⟨_, _, rfl, rfl, by decide +kernel, by decide +kernel⟩
  obtain ⟨f, hf, hcheck⟩ := exists_of_parseFile hcheck
  obtain ⟨b, hb, hcheck⟩ := Option.map_eq_some_iff.1 (eq_of_beq hcheck)
  obtain ⟨c, hclass, hb⟩ := Option.bind_eq_some_iff.1 hb
  obtain ⟨hlength, hwild, hprint, hmarks⟩ := of_decide_eq_true hcheck
  obtain ⟨x, y, z, hitems⟩ := List.length_eq_three.1 hlength
  have hworking : b.items.take 1 ++ b.items.drop 2 = [x, z] := by
    rw [hitems]
    rfl
  rw [hworking] at hprint
  obtain ⟨-, k, hk, -⟩ := File.exists_hole hclass
  obtain ⟨put, hput, -⟩ := ClassLike.exists_holdsArray hb
  exact ⟨source, out, f, _, b, x, y, z, hsource, hout, happly, Prod.ext hf rfl,
    (File.HoldsArray.inClass c k put hk hput).listing_mem, hitems, hwild, hprint,
    hmarks x (by simp [hitems]) z (by simp [hitems])⟩

end Print

end Graft
