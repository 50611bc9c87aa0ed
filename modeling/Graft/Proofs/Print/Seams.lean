/-
The tokens of a list of lines.

What a list of lines is printed as are the texts of its elements and what stands between them.  Between elements that
were neighbours stands the gap that was read.  Anywhere else gaps are cut, and pieces of them are put together, or a
separator stands there.  Where such a seam is made of blanks and whole comments and lies in the code, it swallows
nothing: the file has the tokens that it had before and behind the list, with those of the printed elements between.

* `LineLayout.seam`, `LineLayout.render_eq` — what is printed between two elements;
* `LineList.Joins` — elements that were neighbours, or a seam that swallows nothing;
* `File.marks_print` — the tokens of a file in which one list was changed.
-/
import Mathlib.Data.List.Chain
import Graft.Proofs.Print.Appended
import Graft.Proofs.Reading.Passage

namespace Graft

/-! ### Tokens that matter -/

namespace Lexer

variable {m m' m'' : Mode} {x v w t next : Text} {ls ls' : List Lexeme} {l : Lexeme}

/-- The lexemes that are not skipped. -/
def marks (mode : Mode) (t : Text) : List Lexeme := (lexemesOf mode t).filter (!·.kind.isSkipped)

theorem filter_filter_isTrivia (ls : List Lexeme) :
    (ls.filter (!·.kind.isTrivia)).filter (!·.kind.isSkipped) = ls.filter (!·.kind.isSkipped) := by
  rw [List.filter_filter]
  refine List.filter_congr fun l _ => ?_
  cases hk : l.kind <;> rfl

theorem marks_eq (mode : Mode) (t : Text) : marks mode t = (significant mode t).filter (!·.kind.isSkipped) :=
  (filter_filter_isTrivia _).symm

/-- The marks of a passage, and of what follows it. -/
theorem Reads.marks_append (h : Reads m x w ls m') :
    marks m (x ++ w) = ls.filter (!·.kind.isSkipped) ++ marks m' w := by
  rw [marks, h.lexemesOf, List.filter_append]
  rfl

/-- A passage is read in one way only. -/
theorem Reads.mode_unique (h : Reads m x w ls m') (h' : Reads m x w ls' m'') : m' = m'' := by
  induction h generalizing ls' with
  | nil =>
    generalize hx : ([] : Text) = x at h'
    cases h' with
    | nil => rfl
    | cons hne _ _ => simp [hne] at hx
  | @cons m m₁ m₂ l x w ls hne hnext hrest ih =>
    generalize hy : l.text ++ x = y at h'
    cases h' with
    | nil => simp [hne] at hy
    | @cons _ m₃ _ k x' _ ks hne' hnext' hrest' =>
      rw [← List.append_assoc, hy, List.append_assoc, hnext'] at hnext
      obtain ⟨rfl, rfl⟩ := Prod.mk.inj hnext
      obtain rfl := List.append_cancel_left hy
      exact ih hrest'

/-! ### Texts that swallow nothing -/

/-- Blanks and whole comments, the last of which does not go on in the text behind them. -/
def Quiet (t next : Text) : Prop :=
  ∃ s : Scan, s.closed = true ∧ Scan.free.run t = some s ∧ (s = .free ∨ next = [] ∨ next.BeginsLine)

instance (t next : Text) : Decidable (Quiet t next) :=
  decidable_of_iff (∃ s ∈ Scan.free.run t, s.closed = true ∧ (s = .free ∨ next = [] ∨ next.BeginsLine))
    ⟨fun ⟨s, hrun, hs, hnext⟩ => ⟨s, hs, hrun, hnext⟩, fun ⟨s, hs, hrun, hnext⟩ => ⟨s, hrun, hs, hnext⟩⟩

theorem Quiet.append (h : Quiet t x) (hx : x ≠ []) (w : Text) : Quiet t (x ++ w) := by
  obtain ⟨s, hs, hrun, hnext⟩ := h
  exact ⟨s, hs, hrun, hnext.imp_right fun hnext => .inr ((hnext.resolve_left hx).append w)⟩

/-- Behind a quiet text is read what follows it. -/
theorem Quiet.significant_append (h : Quiet t next) : significant .code (t ++ next) = significant .code next := by
  obtain ⟨s, hs, hrun, hnext⟩ := h
  exact significant_of_closed hs hrun hnext

theorem Sealed.marks_append (h : Sealed x) (w : Text) : marks .code (x ++ w) = marks .code x ++ marks .code w := by
  rw [marks_eq, h.significant, List.filter_append, ← marks_eq, ← marks_eq]

end Lexer

/-! ### Between two elements -/

namespace LineLayout

/-- What is kept of the gap behind `p`, and what stands before `e`.  For the ends of the list stands no element. -/
def seam (l : LineLayout) (outer : Text) (p e : Option LineEntry) : Text × Text :=
  if l.leads.isEmpty then
    match p, e with
    | none, none => ([], l.tail)
    | none, some _ => (l.tail.trimEnd, l.newline.text ++ l.indent)
    | some p, some e => ([], p.slot.separator l.newline l.indent e.slot)
    | some _, none => ([], l.newline.text ++ outer)
  else
    match p, e with
    | none, none => ([], l.tail)
    | none, some _ => (l.leads.headD [], [])
    | some p, some e => (l.behind p, l.before (some p) e)
    | some p, none => (l.behind p, l.tail)

/-- What is printed between two elements. -/
def between (l : LineLayout) (outer : Text) (p e : Option LineEntry) : Text := (l.seam outer p e).1 ++ (l.seam outer p e).2

/-- What is printed behind an element. -/
def renderFrom (l : LineLayout) (outer : Text) : Option LineEntry → List LineEntry → Text
  | p, [] => l.between outer p none
  | p, e :: es => l.between outer p (some e) ++ e.text ++ renderFrom l outer (some e) es

variable {l : LineLayout} {outer : Text}

theorem renderOver_eq (h : l.leads.isEmpty = false) (p : LineEntry) (es : List LineEntry) :
    l.behind p ++ l.renderOver (some p) es ++ l.tail = l.renderFrom outer (some p) es := by
  induction es generalizing p with
  | nil => simp [renderOver, renderFrom, between, seam, h]
  | cons e es ih =>
    rw [renderFrom, ← ih e, renderOver]
    simp [between, seam, h]

theorem renderInto_eq (h : l.leads.isEmpty = true) (p : LineEntry) (es : List LineEntry) :
    l.renderInto (some p) es ++ (l.newline.text ++ outer) = l.renderFrom outer (some p) es := by
  induction es generalizing p with
  | nil => simp [renderInto, renderFrom, between, seam, h]
  | cons e es ih =>
    rw [renderFrom, ← ih e, renderInto]
    simp [between, seam, h]

/-- A list is printed as its elements with the seams around them. -/
theorem render_eq (l : LineLayout) (es : List LineEntry) (outer : Text) :
    l.render es outer = l.renderFrom outer none es := by
  unfold render
  cases h : l.leads.isEmpty with
  | true =>
    cases es with
    | nil => simp [renderFrom, between, seam, h]
    | cons e es => simp [renderFrom, between, seam, h, renderInto, ← renderInto_eq h]
  | false =>
    cases es with
    | nil => simp [renderFrom, between, seam, h, renderOver]
    | cons e es =>
      rw [renderFrom, ← renderOver_eq h]
      simp [between, seam, h, renderOver, before]

end LineLayout

/-! ### Elements that follow each other -/

/-- The gap that is cut behind an element, or before all of them, by its index. -/
def LineEntry.gapBehind : Option LineEntry → Option Nat
  | none => some 0
  | some e => e.kept.map (· + 1)

/-- The gap that is cut before an element, or behind all `n` of them. -/
def LineEntry.gapBefore (n : Nat) : Option LineEntry → Option Nat
  | none => some n
  | some e => e.kept

namespace LineList

section Conditions

variable {α : Type} [Placed α] [BEq α] (l : LineList α) (p : Page) (source : Text) (tokens : List Token)

def layout : LineLayout := .ofRegion p.arena.text l.region (l.elements.map span) (l.inner p.arena.text) p.newline

/-- The elements to be printed. -/
def entries (working : List α) : List LineEntry :=
  working.map (p.lineEntry (l.style p) (l.layout p).indent l.elements)

/-- Where the gap of an index starts. -/
def gapStart (k : Nat) : Nat := ((l.region.start :: l.elements.map fun a => (span a).stop)[k]?).getD 0

/-- Where the gap of an index stops. -/
def gapStop (k : Nat) : Nat := ((l.elements.map (fun a => (span a).start) ++ [l.region.stop])[k]?).getD 0

/-- What follows a seam: an element, or the text behind the list. -/
def following : Option LineEntry → Text
  | some e => e.text
  | none => source.slice l.region.stop source.size

/-- A seam that swallows nothing: it is made of blanks and whole comments, it lies in the code, and it begins with a
blank or behind a token that no longer one begins with. -/
structure Mended (b e : Option LineEntry) : Prop where
  quiet : Lexer.Quiet ((l.layout p).between (l.outer p.arena.text) b e) (l.following source e)
  behind : ∀ k ∈ LineEntry.gapBehind b, ∃ u ∈ tokens, u.stop = l.gapStart k ∧
    u.kind ∉ [.closeTag, .inlineHtml, .whitespace, .lineComment] ∧
      (u.lexeme ∈ ⟨.openTag, ['<', '?', '=']⟩ :: Lexer.closers ∨
        ((l.layout p).between (l.outer p.arena.text) b e ++ l.following source e).head?.all TokenTable.isSpace = true ∨
          (u.kind ≠ .openTag ∧ ((l.layout p).seam (l.outer p.arena.text) b e).2.BeginsLine))
  before : ∀ k ∈ LineEntry.gapBefore l.elements.length e, l.gapStop k = source.size ∨
    ∃ u ∈ tokens, u.start = l.gapStop k ∧ u.kind ∉ [.inlineHtml, .openTag]

/-- The elements were neighbours, or the seam between them swallows nothing. -/
def Joins (b e : Option LineEntry) : Prop :=
  (∃ k, LineEntry.gapBehind b = some k ∧ LineEntry.gapBefore l.elements.length e = some k) ∨
    l.Mended p source tokens b e

/-- Every two elements that are printed side by side, and the first and the last one at the ends of the list. -/
def Joined (working : List α) : Prop :=
  (none :: ((l.entries p working).map some ++ [none])).IsChain (l.Joins p source tokens)

instance (b e : Option LineEntry) : Decidable (l.Mended p source tokens b e) :=
  decidable_of_iff (_ ∧ _ ∧ _) ⟨fun h => ⟨h.1, h.2.1, h.2.2⟩, fun h => ⟨h.quiet, h.behind, h.before⟩⟩

instance (b e : Option LineEntry) : Decidable (l.Joins p source tokens b e) :=
  decidable_of_iff ((LineEntry.gapBehind b).isSome = true ∧ LineEntry.gapBehind b = LineEntry.gapBefore l.elements.length e ∨
    l.Mended p source tokens b e) (or_congr_left <| by
      constructor
      · rintro ⟨hsome, heq⟩
        obtain ⟨k, hk⟩ := Option.isSome_iff_exists.1 hsome
        exact ⟨k, hk, heq ▸ hk⟩
      · rintro ⟨k, hk, hk'⟩
        exact ⟨by rw [hk]; rfl, hk.trans hk'.symm⟩)

instance (working : List α) : Decidable (l.Joined p source tokens working) :=
  inferInstanceAs (Decidable (List.IsChain _ _))

end Conditions

end LineList

/-! ### Gaps of a list that was read -/

section Gaps

variable {α : Type} [Placed α] {as : List α} {x y e k : Nat}

/-- Every gap of a list, the one behind the last element included. -/
theorem Spread.gap {gap : Nat → Nat → Prop} (h : Spread gap gap x as e) (hend : gap e y) (hk : k ≤ as.length) :
    gap (((x :: as.map fun a => (span a).stop)[k]?).getD 0) (((as.map (fun a => (span a).start) ++ [y])[k]?).getD 0) := by
  induction as generalizing x k with
  | nil =>
    obtain rfl : k = 0 := by simpa using hk
    obtain rfl : x = e := h
    exact hend
  | cons a as ih =>
    obtain ⟨hfirst, -, hrest⟩ := h
    cases k with
    | zero => exact hfirst
    | succ k => exact ih hrest (by simpa using hk)

theorem getD_gaps (t : Text) (hk : k ≤ as.length) : (gaps t x y (as.map span)).getD k [] =
    t.slice (((x :: as.map fun a => (span a).stop)[k]?).getD 0) (((as.map (fun a => (span a).start) ++ [y])[k]?).getD 0) := by
  induction as generalizing x k with
  | nil =>
    obtain rfl : k = 0 := by simpa using hk
    rfl
  | cons a as ih =>
    cases k with
    | zero => rfl
    | succ k => exact ih (by simpa using hk)

end Gaps

namespace LineList

section Gaps

variable {α : Type} [Placed α] [BEq α] {l : LineList α} {p : Page} {k : Nat} {r : α}

theorem gapStop_of_getElem? (h : l.elements[k]? = some r) : l.gapStop k = (span r).start := by
  have hk : k < l.elements.length := (List.getElem?_eq_some_iff.1 h).1
  rw [gapStop, List.getElem?_append_left (by simpa using hk), List.getElem?_map, h]
  rfl

theorem gapStart_of_getElem? (h : l.elements[k]? = some r) : l.gapStart (k + 1) = (span r).stop := by
  rw [gapStart, List.getElem?_cons_succ, List.getElem?_map, h]
  rfl

theorem gapStop_length : l.gapStop l.elements.length = l.region.stop := by
  simp [gapStop]

/-- The gap of an index. -/
def gap (l : LineList α) (t : Text) (k : Nat) : Text := t.slice (l.gapStart k) (l.gapStop k)

theorem getD_gaps_elements (l : LineList α) (t : Text) (hk : k ≤ l.elements.length) :
    (gaps t l.region.start l.region.stop (l.elements.map span)).getD k [] = l.gap t k :=
  getD_gaps t hk

/-- A list without elements has one gap. -/
theorem layout_of_nil (p : Page) (h : l.elements = []) :
    (l.layout p).leads.isEmpty = true ∧ (l.layout p).tail = l.gap p.arena.text 0 := by
  rw [← l.getD_gaps_elements _ (Nat.zero_le _)]
  simp [layout, LineLayout.ofRegion, h, gaps]

/-- The pieces of the gaps of a list that had elements. -/
theorem layout_of_ne_nil (p : Page) (h : l.elements ≠ []) :
    (l.layout p).leads.isEmpty = false ∧ (l.layout p).leads.headD [] = l.gap p.arena.text 0 ∧
      (∀ i, i + 1 < l.elements.length → (l.layout p).leads.getD (i + 1) [] = (splitTrail (l.gap p.arena.text (i + 1))).2) ∧
      (∀ i < l.elements.length, (l.layout p).trails.getD i [] = (splitTrail (l.gap p.arena.text (i + 1))).1) ∧
      (l.layout p).tail = (splitTrail (l.gap p.arena.text l.elements.length)).2 := by
  have hspans : l.elements.map span ≠ [] := by simpa using h
  obtain ⟨hfull, hfirst, hleads, htrails, htail, -⟩ :=
    LineLayout.ofRegion_of_ne_nil p.arena.text l.region hspans (l.inner p.arena.text) p.newline
  rw [List.length_map] at hleads htrails htail
  refine ⟨hfull, ?_, fun i hi => ?_, fun i hi => ?_, ?_⟩
  · rw [← l.getD_gaps_elements _ (Nat.zero_le _)]
    exact hfirst
  · rw [← l.getD_gaps_elements _ (Nat.le_of_lt hi)]
    exact hleads i hi
  · rw [← l.getD_gaps_elements _ hi]
    exact htrails i hi
  · rw [← l.getD_gaps_elements _ (Nat.le_refl _)]
    exact htail

/-- Between neighbours stands the gap that was read. -/
theorem between_of_gap {b e : Option LineEntry} (hb : LineEntry.gapBehind b = some k)
    (he : LineEntry.gapBefore l.elements.length e = some k) (hkept : ∀ e' ∈ e, ∀ i ∈ e'.kept, i < l.elements.length) :
    k ≤ l.elements.length ∧ (l.layout p).between (l.outer p.arena.text) b e = l.gap p.arena.text k := by
  have hle : k ≤ l.elements.length := by
    cases e with
    | none => exact Nat.le_of_eq (Option.some.inj he).symm
    | some e => exact Nat.le_of_lt (hkept e rfl k he)
  refine ⟨hle, ?_⟩
  by_cases hnil : l.elements = []
  · -- A list without elements has one gap, and nothing but its ends.
    obtain rfl : k = 0 := by simpa [hnil] using hle
    cases e with
    | some e => exact absurd (hkept e rfl 0 he) (by simp [hnil])
    | none =>
      cases b with
      | none => simp [LineLayout.between, LineLayout.seam, layout_of_nil p hnil]
      | some b => simp [LineEntry.gapBehind] at hb
  obtain ⟨hfull, hfirst, hleads, htrails, htail⟩ := layout_of_ne_nil p hnil
  simp only [LineLayout.between, LineLayout.seam, hfull, Bool.false_eq_true, if_false]
  cases b with
  | none =>
    obtain rfl : 0 = k := Option.some.inj hb
    cases e with
    | none => exact absurd (List.length_eq_zero_iff.1 (Option.some.inj he)) hnil
    | some e => exact (List.append_nil _).trans hfirst
  | some b =>
    obtain ⟨i, hi, rfl⟩ := Option.map_eq_some_iff.1 hb
    obtain ⟨kept, slot, text⟩ := b
    obtain rfl : kept = some i := hi
    have htrail : (l.layout p).behind ⟨some i, slot, text⟩ = (splitTrail (l.gap p.arena.text (i + 1))).1 := htrails i hle
    cases e with
    | none =>
      have hlast : i + 1 = l.elements.length := (Option.some.inj he).symm
      simp only [htrail, htail, hlast, splitTrail_append]
    | some e =>
      have he : e.kept = some (i + 1) := he
      have hlead : (l.layout p).before (some ⟨some i, slot, text⟩) e = (splitTrail (l.gap p.arena.text (i + 1))).2 := by
        rw [← hleads i (hkept e rfl _ he)]
        simp [LineLayout.before, he]
      simp only [htrail, hlead, splitTrail_append]

end Gaps

end LineList

/-! ### Modes of a source -/

/-- A source is read in the mode at an offset. -/
def Text.ModeAt (t : Text) (x : Nat) (m : Lexer.Mode) : Prop :=
  ∃ ls, Lexer.Reads .html (t.slice 0 x) (t.slice x t.size) ls m

theorem Tiled.head?_of_start {lo hi : Nat} {ts : List Token} {u : Token} (h : Tiled lo ts hi) (hu : u ∈ ts)
    (hstart : u.start = lo) : ts.head? = some u := by
  cases ts with
  | nil => cases hu
  | cons t ts =>
    rcases List.mem_cons.1 hu with rfl | hu
    · rfl
    · obtain ⟨rfl, hne, hrest⟩ := h
      have hle := (hrest.within hu).1
      have hlt := start_lt_stop_of_ne_nil hne
      omega

section Modes

variable {t : Text} {x y : Nat} {m : Lexer.Mode} {u : Token}

theorem le_size_of_edge (hx : (Arena.empty.ground t).edge x) : x ≤ t.size := by
  have hle := hx.2.1
  rwa [show Arena.empty.text.size = 0 from rfl, Nat.zero_add] at hle

theorem edge_zero (t : Text) : (Arena.empty.ground t).edge 0 := Arena.empty.edge_start t

theorem edge_size (t : Text) : (Arena.empty.ground t).edge t.size := by
  have hend := Arena.empty.edge_stop t
  rwa [show Arena.empty.text.size = 0 from rfl, Nat.zero_add] at hend

/-- Two slices that meet at an edge are one. -/
theorem slice_of_edges {z : Nat} (hx : (Arena.empty.ground t).edge x) (hy : (Arena.empty.ground t).edge y)
    (hz : (Arena.empty.ground t).edge z) (hxy : x ≤ y) (hyz : y ≤ z) : t.slice x y ++ t.slice y z = t.slice x z :=
  Text.slice_append_slice (Arena.isCut_of_edge hx) (Arena.isCut_of_edge hy) (Arena.isCut_of_edge hz) hxy hyz

/-- The source from its start to an edge, and from there on. -/
theorem Text.ModeAt.reads_start (h : t.ModeAt x m) (hx : (Arena.empty.ground t).edge x) :
    Lexer.Reads .html (t.slice 0 x) (t.slice x t.size) (Arena.empty.lexemesFrom t 0 x) m := by
  obtain ⟨m₁, m₂, m₃, hbefore, -⟩ := Arena.reads_around hx hx (Nat.le_refl x)
  have htext : (Arena.empty.push t).text = t := rfl
  have hsize : Arena.empty.text.size = 0 := rfl
  rw [htext, hsize, Nat.zero_add] at hbefore
  obtain ⟨ls, hreads⟩ := h
  obtain rfl := hbefore.mode_unique hreads
  exact hbefore

theorem Text.exists_modeAt (hx : (Arena.empty.ground t).edge x) : ∃ m, t.ModeAt x m := by
  obtain ⟨m₁, m₂, m₃, hbefore, -⟩ := Arena.reads_around hx hx (Nat.le_refl x)
  have hsize : Arena.empty.text.size = 0 := rfl
  rw [hsize, Nat.zero_add] at hbefore
  exact ⟨m₁, _, hbefore⟩

/-- What stands between two edges is a passage. -/
theorem Text.ModeAt.reads (h : t.ModeAt x m) (hx : (Arena.empty.ground t).edge x) (hy : (Arena.empty.ground t).edge y)
    (hxy : x ≤ y) : ∃ m', Lexer.Reads m (t.slice x y) (t.slice y t.size) (Arena.empty.lexemesFrom t x y) m' ∧
      t.ModeAt y m' := by
  obtain ⟨m₁, m₂, m₃, hbefore, hbetween, -⟩ := Arena.reads_around hx hy hxy
  have htext : (Arena.empty.push t).text = t := rfl
  have hsize : Arena.empty.text.size = 0 := rfl
  rw [htext, hsize, Nat.zero_add] at hbefore
  rw [htext, hsize, Nat.zero_add] at hbetween
  obtain rfl := hbefore.mode_unique (h.reads_start hx)
  rw [← slice_of_edges hx hy (edge_size t) hxy (le_size_of_edge hy)] at hbefore
  have hwhole := hbefore.append hbetween
  rw [slice_of_edges (edge_zero t) hx hy (Nat.zero_le x) hxy] at hwhole
  exact ⟨m₂, hbetween, _, hwhole⟩

/-- Behind a token of code the code goes on. -/
theorem Text.ModeAt.eq_code_of_stop (h : t.ModeAt x m) (hx : (Arena.empty.ground t).edge x)
    (hu : u ∈ Arena.empty.tokensOf t) (hstop : u.stop = x) (hk : u.kind ∉ [.closeTag, .inlineHtml]) : m = .code := by
  have hlast := Arena.getLast?_lexemesFrom (Arena.empty.edge_start t) hu (Nat.zero_le _)
  rw [hstop] at hlast
  exact (h.reads_start hx).mode_of_getLast? hlast fun hmem => hk (by simpa [Token.lexeme, or_comm] using hmem)

/-- A token of code is read in the code. -/
theorem Text.ModeAt.eq_code_of_start (h : t.ModeAt x m) (hx : (Arena.empty.ground t).edge x)
    (hu : u ∈ Arena.empty.tokensOf t) (hstart : u.start = x) (hk : u.kind ∉ [.inlineHtml, .openTag]) : m = .code := by
  obtain ⟨m', hreads, -⟩ := h.reads hx (edge_size t) (le_size_of_edge hx)
  have hwithin := (Arena.empty.tiled_tokensOf t).within hu
  have hhead := ((Arena.empty.tiled_tokensOf t).stretch hx (edge_size t) (le_size_of_edge hx)).head?_of_start
    (mem_stretch.2 ⟨hu, Nat.le_of_eq hstart.symm, le_size_of_edge ((Arena.empty.tiled_tokensOf t).isEdge_stop hu)⟩) hstart
  obtain ⟨ls, hls⟩ : ∃ ls, Arena.empty.lexemesFrom t x t.size = u.lexeme :: ls := by
    obtain ⟨us, hus⟩ := List.head?_eq_some_iff.1 hhead
    exact ⟨_, by rw [Arena.lexemesFrom, hus, List.map_cons]⟩
  rw [hls] at hreads
  exact hreads.mode_of_head hk

/-- The marks of a source from an edge on. -/
theorem Text.ModeAt.marks (h : t.ModeAt x m) (hx : (Arena.empty.ground t).edge x) :
    Lexer.marks m (t.slice x t.size) = (Arena.empty.lexemesFrom t x t.size).filter (!·.kind.isSkipped) := by
  obtain ⟨m', hreads, -⟩ := h.reads hx (edge_size t) (le_size_of_edge hx)
  rw [Text.slice_self] at hreads
  rw [Lexer.marks, ← hreads.eq_lexemesOf]

/-- The tokens of a gap are all skipped. -/
theorem Ground.marks_of_blank (h : (Arena.empty.ground t).blank x y) :
    (Arena.empty.lexemesFrom t x y).filter (!·.kind.isSkipped) = [] := by
  refine List.filter_eq_nil_iff.2 fun k hk => ?_
  obtain ⟨u, hu, rfl⟩ := List.mem_map.1 hk
  have hskipped := Ground.isSkipped_of_blank (h := Arena.empty.tiled_tokensOf t) h u hu
  simpa [Token.lexeme] using hskipped

end Modes

/-- The kinds and texts of the tokens from `x` to `y` that are not skipped. -/
def Arena.marksBetween (a : Arena) (x y : Nat) : List Lexeme :=
  ((stretch a.tokens x y).filter (!·.kind.isSkipped)).map Token.lexeme

theorem Arena.marks_eq {a : Arena} {t : Text} (h : a.tokens = Arena.empty.tokensOf t) (x y : Nat) :
    a.marksBetween x y = (Arena.empty.lexemesFrom t x y).filter (!·.kind.isSkipped) := by
  rw [marksBetween, h, lexemesFrom, List.filter_map]
  rfl

/-- The tokens of a file that was parsed. -/
theorem Arena.tokens_of_parseFile {t : Text} {f : File} {a : Arena} (h : Arena.empty.parseFile t = (.ok f, a)) :
    a.tokens = Arena.empty.tokensOf t ∧ ∀ u ∈ Arena.empty.tokensOf t, u.kind ≠ .error := by
  have htokens := Arena.tokens_parseFile .empty t
  rw [h] at htokens
  refine ⟨htokens, fun u hu => ?_⟩
  have hwithin := (Arena.empty.tiled_tokensOf t).within hu
  exact Arena.ne_error_of_parseFile h u.lexeme (List.mem_map_of_mem (mem_stretch.2 ⟨hu, hwithin.1, hwithin.2.2⟩))

/-! ### The tokens of a list -/

namespace LineList

open Lexer (Mode)

section Marks

variable {α : Type} [Placed α] [BEq α] {l : LineList α} {p : Page} {t : Text} {k : Nat} {b e : Option LineEntry} {r : α}
  {m₀ : Mode} {x : Text} {ms : List Lexeme}

/-- An element that was read is printed as its text, and any other one as a text of its own. -/
def Printed (l : LineList α) (t : Text) (e : LineEntry) : Prop :=
  match e.kept with
  | some i => ∃ r, l.elements[i]? = some r ∧ e.text = t.slice (span r).start (span r).stop
  | none => Lexer.Sealed e.text

/-- The tokens of an element that is printed. -/
def marksOf (l : LineList α) (a : Arena) (e : LineEntry) : List Lexeme :=
  match e.kept.bind (l.elements[·]?) with
  | some r => a.marksBetween (span r).start (span r).stop
  | none => Lexer.marks .code e.text

/-- A text that ends behind the element `b` is read as the tokens `ms`, and up to there as the source is. -/
def Stands (l : LineList α) (t : Text) (b : Option LineEntry) (m₀ : Mode) (x : Text) (ms : List Lexeme) : Prop :=
  match LineEntry.gapBehind b with
  | some k => ∃ ls m, Lexer.Reads m₀ x (t.slice (l.gapStart k) t.size) ls m ∧ t.ModeAt (l.gapStart k) m ∧
      (∀ k ∈ ls, k.kind ≠ .error) ∧ (∀ u ∈ Arena.empty.tokensOf t, u.stop = l.gapStart k → ls.getLast? = some u.lexeme) ∧
        ms = ls.filter (!·.kind.isSkipped)
  | none => ∀ v, Lexer.marks m₀ (x ++ v) = ms ++ Lexer.marks .code v

theorem stands_of_gapBehind (hb : LineEntry.gapBehind b = some k) : l.Stands t b m₀ x ms ↔
    ∃ ls m, Lexer.Reads m₀ x (t.slice (l.gapStart k) t.size) ls m ∧ t.ModeAt (l.gapStart k) m ∧ (∀ k ∈ ls, k.kind ≠ .error) ∧
      (∀ u ∈ Arena.empty.tokensOf t, u.stop = l.gapStart k → ls.getLast? = some u.lexeme) ∧
        ms = ls.filter (!·.kind.isSkipped) := by
  rw [Stands, hb]

/-- What is kept of a gap is what it begins with. -/
theorem seam_prefix (hb : LineEntry.gapBehind b = some k) (hk : k ≤ l.elements.length) :
    ((l.layout p).seam (l.outer p.arena.text) b e).1 <+: l.gap p.arena.text k := by
  by_cases hnil : l.elements = []
  · obtain rfl : k = 0 := by simpa [hnil] using hk
    cases b with
    | some b => simp [LineEntry.gapBehind] at hb
    | none =>
      cases e with
      | none => simp [LineLayout.seam, layout_of_nil p hnil]
      | some e =>
        obtain ⟨z, hz, -⟩ := trimEnd_append (l.gap p.arena.text 0)
        simpa [LineLayout.seam, layout_of_nil p hnil] using ⟨z, hz.symm⟩
  obtain ⟨hfull, hfirst, -, htrails, -⟩ := layout_of_ne_nil p hnil
  simp only [LineLayout.seam, hfull, Bool.false_eq_true, if_false]
  cases b with
  | none =>
    obtain rfl : 0 = k := Option.some.inj hb
    cases e with
    | none => exact List.nil_prefix
    | some e => exact hfirst ▸ List.prefix_refl _
  | some b =>
    obtain ⟨i, hi, rfl⟩ := Option.map_eq_some_iff.1 hb
    have htrail : (l.layout p).behind b = (splitTrail (l.gap p.arena.text (i + 1))).1 := by
      rw [LineLayout.behind, hi]
      exact htrails i hk
    cases e <;> exact ⟨_, htrail ▸ splitTrail_append _⟩

section Source

variable (hlines : (Arena.empty.ground t).Lines l.region l.elements) (htext : t <+: p.arena.text)
  (herror : ∀ u ∈ Arena.empty.tokensOf t, u.kind ≠ .error)

include hlines

theorem blank_gap (hk : k ≤ l.elements.length) : (Arena.empty.ground t).blank (l.gapStart k) (l.gapStop k) := by
  obtain ⟨e, hspread, hend⟩ := hlines
  exact hspread.gap hend hk

/-- A source from where a gap starts. -/
theorem slice_gapStart (hk : k ≤ l.elements.length) :
    t.slice (l.gapStart k) t.size = l.gap t k ++ t.slice (l.gapStop k) t.size := by
  have hblank := blank_gap hlines hk
  have hedge := (Arena.empty.ground t).edge_right hblank
  exact (slice_of_edges ((Arena.empty.ground t).edge_left hblank) hedge (edge_size t)
    ((Arena.empty.ground t).le_of_blank hblank) (le_size_of_edge hedge)).symm

include htext

/-- The gaps are the same in every text that begins with the source. -/
theorem gap_eq (hk : k ≤ l.elements.length) : l.gap p.arena.text k = l.gap t k := by
  obtain ⟨u, hu⟩ := htext
  rw [gap, ← hu, Text.slice_append_right (le_size_of_edge ((Arena.empty.ground t).edge_right (blank_gap hlines hk)))]
  rfl

include herror

/-- Where nothing is swallowed, what follows the seam is read as code. -/
theorem Stands.mended (h : l.Stands t b m₀ x ms) (hb : ∀ k ∈ LineEntry.gapBehind b, k ≤ l.elements.length)
    (hmended : l.Mended p t (Arena.empty.tokensOf t) b e) {w : Text} (hw : l.following t e = [] → w = []) :
    Lexer.marks m₀ (x ++ ((l.layout p).between (l.outer p.arena.text) b e ++ (l.following t e ++ w))) =
      ms ++ Lexer.marks .code (l.following t e ++ w) := by
  obtain ⟨hquiet, hbehind, -⟩ := hmended
  generalize hseam : (l.layout p).between (l.outer p.arena.text) b e = seam at *
  have hquiet : Lexer.Quiet seam (l.following t e ++ w) := by
    by_cases hnil : l.following t e = []
    · rwa [hw hnil, List.append_nil]
    · exact hquiet.append hnil w
  cases hgap : LineEntry.gapBehind b with
  | none =>
    rw [Stands, hgap] at h
    rw [h, Lexer.marks_eq, hquiet.significant_append, ← Lexer.marks_eq]
  | some k =>
    obtain ⟨ls, m, hreads, hmode, hvalid, hlast, rfl⟩ := (stands_of_gapBehind hgap).1 h
    obtain ⟨u, hu, hstop, hkind, hends⟩ := hbehind k hgap
    have hk := hb k hgap
    have hedge := (Arena.empty.ground t).edge_left (blank_gap hlines hk)
    simp only [List.mem_cons, List.not_mem_nil, or_false, not_or] at hkind
    obtain rfl := hmode.eq_code_of_stop hedge hu hstop (by simp [hkind])
    have hvalid' := herror u hu
    obtain ⟨s, hs, hrun, hnext⟩ := hquiet
    rw [Lexer.marks_eq, Lexer.marks_eq, hreads.significant_run hvalid (fun l' hl' => ?_) hs hrun hnext, List.filter_append,
      Lexer.filter_filter_isTrivia]
    cases (hlast u hu hstop).symm.trans hl'
    rcases hends with hclose | hblank | ⟨htag, hline⟩
    · rcases List.mem_cons.1 hclose with htag | hclose
      · rw [htag]
        exact .inr (.inl ⟨rfl, nofun⟩)
      · exact .inl hclose
    · refine Lexer.ends_of_blank (by simp [Token.lexeme, hkind, hvalid']) ?_
      by_cases hnil : seam ++ l.following t e = []
      · rw [(List.append_eq_nil_iff.1 hnil).1, (List.append_eq_nil_iff.1 hnil).2, hw (List.append_eq_nil_iff.1 hnil).2]
        rfl
      · rwa [← List.append_assoc, List.head?_append_of_ne_nil _ hnil]
    · have hstart := seam_prefix (p := p) (e := e) hgap hk
      rw [gap_eq hlines htext hk] at hstart
      rw [← hseam, LineLayout.between, List.append_assoc, slice_gapStart hlines hk]
      exact Lexer.ends_of_trail (by simp [Token.lexeme, hkind, hvalid', htag]) (hstart.trans (List.prefix_append _ _)) (hline.append _)

omit htext

omit hlines in
theorem ne_error_of_mem {x y : Nat} {k : Lexeme} (hk : k ∈ Arena.empty.lexemesFrom t x y) : k.kind ≠ .error := by
  obtain ⟨u, hu, rfl⟩ := List.mem_map.1 hk
  exact herror u (mem_stretch.1 hu).1

omit herror

/-- An element that was read is a passage of the source, which a token ends. -/
theorem reads_element (hr : l.elements[k]? = some r) {m : Mode} (hm : t.ModeAt (l.gapStop k) m) :
    t.slice (l.gapStop k) t.size = t.slice (span r).start (span r).stop ++ t.slice (l.gapStart (k + 1)) t.size ∧
    (∃ m', Lexer.Reads m (t.slice (span r).start (span r).stop) (t.slice (l.gapStart (k + 1)) t.size)
      (Arena.empty.lexemesFrom t (span r).start (span r).stop) m' ∧ t.ModeAt (l.gapStart (k + 1)) m') ∧
    t.slice (span r).start (span r).stop ≠ [] ∧ ∀ u ∈ Arena.empty.tokensOf t, u.stop = l.gapStart (k + 1) →
      (Arena.empty.lexemesFrom t (span r).start (span r).stop).getLast? = some u.lexeme := by
  have hk : k < l.elements.length := (List.getElem?_eq_some_iff.1 hr).1
  have hstart := (Arena.empty.ground t).edge_right (blank_gap hlines (Nat.le_of_lt hk))
  have hstop := (Arena.empty.ground t).edge_left (blank_gap hlines hk)
  rw [gapStop_of_getElem? hr] at hstart hm ⊢
  rw [gapStart_of_getElem? hr] at hstop ⊢
  obtain ⟨e, hspread, -⟩ := hlines
  have hlt := (hspread.within (Arena.empty.ground t).le_of_blank (Arena.empty.ground t).le_of_blank r
    (List.mem_of_getElem? hr)).2.1
  obtain ⟨m', hreads, hm'⟩ := hm.reads hstart hstop (Nat.le_of_lt hlt)
  refine ⟨?_, ⟨m', hreads, hm'⟩, fun hnil => ?_, fun u hu hu' => ?_⟩
  · exact (slice_of_edges hstart hstop (edge_size t) (Nat.le_of_lt hlt) (le_size_of_edge hstop)).symm
  · have hsize := Arena.size_lexemesFrom hstart hstop (Nat.le_of_lt hlt)
    rw [hreads.flatMap, hnil] at hsize
    exact Nat.ne_of_lt hlt hsize
  · have hlast := Arena.getLast?_lexemesFrom hstart hu ((hstart.2.2 u hu).resolve_left (by omega))
    rwa [hu'] at hlast

section Valid

include herror

/-- Before the list stands the source. -/
theorem stands_start {a : Arena} (htokens : a.tokens = Arena.empty.tokensOf t) :
    l.Stands t none .html (t.slice 0 l.region.start) (a.marksBetween 0 l.region.start) := by
  have hedge : (Arena.empty.ground t).edge (l.gapStart 0) :=
    (Arena.empty.ground t).edge_left (blank_gap hlines (Nat.zero_le _))
  obtain ⟨m, hm⟩ := Text.exists_modeAt hedge
  refine (stands_of_gapBehind rfl).2 ⟨_, m, hm.reads_start hedge, hm, fun k hk => ne_error_of_mem herror hk,
    fun u hu hu' => ?_, Arena.marks_eq htokens _ _⟩
  rw [← hu']
  exact Arena.getLast?_lexemesFrom (Arena.empty.edge_start t) hu (Nat.zero_le _)

/-- Behind a gap that was read stands the element that stood there. -/
theorem Stands.next (h : l.Stands t b m₀ x ms) (hb : LineEntry.gapBehind b = some k) {e : LineEntry} (he : e.kept = some k)
    (hr : l.elements[k]? = some r) :
    l.Stands t (some e) m₀ (x ++ (l.gap t k ++ t.slice (span r).start (span r).stop))
      (ms ++ (Arena.empty.lexemesFrom t (span r).start (span r).stop).filter (!·.kind.isSkipped)) := by
  have hk : k < l.elements.length := (List.getElem?_eq_some_iff.1 hr).1
  have hbehind : LineEntry.gapBehind (some e) = some (k + 1) := by rw [LineEntry.gapBehind, he]; rfl
  obtain ⟨ls, m, hreads, hmode, hvalid, -, rfl⟩ := (stands_of_gapBehind hb).1 h
  have hblank := blank_gap hlines (Nat.le_of_lt hk)
  obtain ⟨m', hgap, hmode'⟩ := hmode.reads ((Arena.empty.ground t).edge_left hblank)
    ((Arena.empty.ground t).edge_right hblank) ((Arena.empty.ground t).le_of_blank hblank)
  obtain ⟨htext, ⟨m'', helement, hmode''⟩, hne, hlast⟩ := reads_element hlines hr hmode'
  rw [slice_gapStart hlines (Nat.le_of_lt hk), htext, ← List.append_assoc] at hreads
  rw [htext] at hgap
  refine (stands_of_gapBehind hbehind).2 ⟨_, m'', hreads.append (hgap.append helement), hmode'', ?_, fun u hu hu' => ?_, ?_⟩
  · exact List.forall_mem_append.2 ⟨hvalid, List.forall_mem_append.2
      ⟨fun k hk => ne_error_of_mem herror hk, fun k hk => ne_error_of_mem herror hk⟩⟩
  · have hu := hlast u hu hu'
    rw [List.getLast?_append, List.getLast?_append, hu]
    rfl
  · rw [List.filter_append, List.filter_append, Ground.marks_of_blank hblank, List.nil_append]

/-- An element of code that was read stands anywhere in the code. -/
theorem stands_element {e : LineEntry} (he : e.kept = some k) (hr : l.elements[k]? = some r)
    (hcode : l.gapStop k = t.size ∨ ∃ u ∈ Arena.empty.tokensOf t, u.start = l.gapStop k ∧ u.kind ∉ [.inlineHtml, .openTag]) :
    l.Stands t (some e) .code (t.slice (span r).start (span r).stop)
      ((Arena.empty.lexemesFrom t (span r).start (span r).stop).filter (!·.kind.isSkipped)) := by
  have hk : k < l.elements.length := (List.getElem?_eq_some_iff.1 hr).1
  have hbehind : LineEntry.gapBehind (some e) = some (k + 1) := by rw [LineEntry.gapBehind, he]; rfl
  have hedge := (Arena.empty.ground t).edge_right (blank_gap hlines (Nat.le_of_lt hk))
  obtain ⟨m, hm⟩ := Text.exists_modeAt hedge
  obtain ⟨htext, ⟨m', hreads, hm'⟩, hne, hlast⟩ := reads_element hlines hr hm
  have hcode : m = .code := by
    rcases hcode with hsize | ⟨u, hu, hstart, hkind⟩
    · rw [hsize, Text.slice_self] at htext
      exact absurd (List.append_eq_nil_iff.1 htext.symm).1 hne
    · exact hm.eq_code_of_start hedge hu hstart hkind
  subst hcode
  exact (stands_of_gapBehind hbehind).2 ⟨_, m', hreads, hm', fun k hk => ne_error_of_mem herror hk, hlast, rfl⟩

end Valid

/-- At the end of the list stands the source behind it. -/
theorem Stands.last (h : l.Stands t b m₀ x ms) (hb : LineEntry.gapBehind b = some l.elements.length) :
    Lexer.marks m₀ (x ++ (l.gap t l.elements.length ++ t.slice l.region.stop t.size)) =
      ms ++ (Arena.empty.lexemesFrom t l.region.stop t.size).filter (!·.kind.isSkipped) := by
  obtain ⟨ls, m, hreads, hmode, -, -, rfl⟩ := (stands_of_gapBehind hb).1 h
  have hblank := blank_gap hlines (Nat.le_refl _)
  have hstop := (Arena.empty.ground t).edge_right hblank
  rw [← gapStop_length, ← slice_gapStart hlines (Nat.le_refl _), hreads.marks_append,
    hmode.marks ((Arena.empty.ground t).edge_left hblank),
    Arena.lexemesFrom_append hstop ((Arena.empty.ground t).le_of_blank hblank) (le_size_of_edge hstop), List.filter_append,
    Ground.marks_of_blank hblank, List.nil_append]

include htext herror

/-- One more element: what is printed up to behind it is read as its tokens behind the others. -/
theorem Stands.step {a : Arena} (htokens : a.tokens = Arena.empty.tokensOf t) {e : LineEntry} (he : l.Printed t e)
    (hb : ∀ k ∈ LineEntry.gapBehind b, k ≤ l.elements.length) (hjoin : l.Joins p t (Arena.empty.tokensOf t) b (some e))
    (h : l.Stands t b m₀ x ms) :
    (∀ k ∈ LineEntry.gapBehind (some e), k ≤ l.elements.length) ∧
      ∃ m₁ x₁ ms₁, l.Stands t (some e) m₁ x₁ ms₁ ∧ ∀ v rest, Lexer.marks m₁ (x₁ ++ v) = ms₁ ++ rest →
        Lexer.marks m₀ (x ++ ((l.layout p).between (l.outer p.arena.text) b (some e) ++ (e.text ++ v))) =
          ms ++ (l.marksOf a e ++ rest) := by
  have hmended (hm : l.Mended p t (Arena.empty.tokensOf t) b (some e)) (hne : e.text ≠ []) (v : Text) :
      Lexer.marks m₀ (x ++ ((l.layout p).between (l.outer p.arena.text) b (some e) ++ (e.text ++ v))) =
        ms ++ Lexer.marks .code (e.text ++ v) :=
    h.mended hlines htext herror hb hm fun hnil => absurd hnil hne
  cases hkept : e.kept with
  | none =>
    simp only [Printed, hkept] at he
    have hstands : l.Stands t (some e) .code e.text (Lexer.marks .code e.text) := by
      rw [Stands, LineEntry.gapBehind, hkept]
      exact he.marks_append
    refine ⟨by simp [LineEntry.gapBehind, hkept], _, _, _, hstands, fun v rest hv => ?_⟩
    rcases hjoin with ⟨k, -, hk⟩ | hjoin
    · cases hkept.symm.trans hk
    · rw [hmended hjoin he.ne_nil, hv, marksOf, hkept, Option.bind_none]
  | some i =>
    simp only [Printed, hkept] at he
    obtain ⟨r, hr, hcopy⟩ := he
    have hi : i < l.elements.length := (List.getElem?_eq_some_iff.1 hr).1
    have hmarks : l.marksOf a e = (Arena.empty.lexemesFrom t (span r).start (span r).stop).filter (!·.kind.isSkipped) := by
      rw [← Arena.marks_eq htokens, marksOf, hkept, Option.bind_some, hr]
    refine ⟨by simpa [LineEntry.gapBehind, hkept] using Nat.succ_le_of_lt hi, ?_⟩
    rw [hcopy, hmarks]
    rcases hjoin with ⟨k, hk, hk'⟩ | hjoin
    · obtain rfl : i = k := Option.some.inj (hkept.symm.trans hk')
      obtain ⟨-, hgap⟩ := between_of_gap (p := p) hk hk' fun e' he' j hj => by
        cases he'
        cases hkept.symm.trans hj
        exact hi
      refine ⟨_, _, _, h.next hlines herror hk hkept hr, fun v rest hv => ?_⟩
      rw [hgap, gap_eq hlines htext (Nat.le_of_lt hi)]
      simpa only [List.append_assoc] using hv
    · obtain ⟨m, hm⟩ := Text.exists_modeAt ((Arena.empty.ground t).edge_right (blank_gap hlines (Nat.le_of_lt hi)))
      have hne := (reads_element hlines hr hm).2.2.1
      rw [← hcopy] at hne
      refine ⟨_, _, _, stands_element hlines herror hkept hr (hjoin.before i hkept), fun v rest hv => ?_⟩
      rw [← hcopy, hmended hjoin hne, hcopy, hv]

/-- Elements one behind the other, between which nothing is swallowed, are read as their tokens. -/
theorem Stands.marks_renderFrom {a : Arena} (htokens : a.tokens = Arena.empty.tokensOf t) {es : List LineEntry}
    (hes : ∀ e ∈ es, l.Printed t e) (hb : ∀ k ∈ LineEntry.gapBehind b, k ≤ l.elements.length)
    (hjoined : (b :: (es.map some ++ [none])).IsChain (l.Joins p t (Arena.empty.tokensOf t))) (h : l.Stands t b m₀ x ms) :
    Lexer.marks m₀ (x ++ ((l.layout p).renderFrom (l.outer p.arena.text) b es ++ t.slice l.region.stop t.size)) =
      ms ++ (es.flatMap (l.marksOf a) ++ a.marksBetween l.region.stop t.size) := by
  induction es generalizing b m₀ x ms with
  | nil =>
    rw [LineLayout.renderFrom, List.flatMap_nil, List.nil_append, Arena.marks_eq htokens]
    rcases List.isChain_pair.1 hjoined with ⟨k, hk, hlast⟩ | hmended
    · obtain ⟨-, hgap⟩ := between_of_gap (p := p) hk hlast nofun
      obtain rfl : l.elements.length = k := Option.some.inj hlast
      rw [hgap, gap_eq hlines htext (Nat.le_refl _)]
      exact h.last hlines hk
    · have hbetween := h.mended hlines htext herror hb hmended (w := []) fun _ => rfl
      rw [List.append_nil] at hbetween
      refine hbetween.trans (congrArg _ ?_)
      have hedge := (Arena.empty.ground t).edge_right (blank_gap hlines (Nat.le_refl _))
      have hbefore := hmended.before _ rfl
      rw [gapStop_length] at hedge hbefore
      obtain ⟨m, hm⟩ := Text.exists_modeAt hedge
      rw [← hm.marks hedge]
      rcases hbefore with hsize | ⟨u, hu, hstart, hkind⟩
      · rw [following, hsize, Text.slice_self]
        rfl
      · rw [hm.eq_code_of_start hedge hu hstart hkind]
        rfl
  | cons e es ih =>
    obtain ⟨he, hes⟩ := List.forall_mem_cons.1 hes
    obtain ⟨hjoin, hrest⟩ := List.isChain_cons_cons.1 hjoined
    obtain ⟨hbehind, m₁, x₁, ms₁, hstands, hstep⟩ := h.step hlines htext herror htokens he hb hjoin
    rw [LineLayout.renderFrom, List.flatMap_cons, List.append_assoc, List.append_assoc, List.append_assoc]
    exact hstep _ _ (ih hes hbehind hrest hstands)

end Source

end Marks

end LineList

/-! ### Lists of a file -/

/-- A list of a file that was read: its gaps, its ids, and that every element equals itself. -/
theorem File.HasLines.laid {f : File} {α : Type} [Placed α] [BEq α] {l : LineList α} (h : f.HasLines l) {G : Ground}
    {lo hi : Nat} (hids : Fresh lo hi f.origins) (hlaid : f.Laid G) :
    G.Lines l.region l.elements ∧ Fresh lo hi (l.elements.map Placed.origin) ∧ ∀ w ∈ l.elements, (w == w) = true := by
  cases h with
  | file => exact ⟨hlaid.lines, hids.right.map_origin TopStmt.origin_mem_origins, fun w hw => TopStmt.beq_self (hlaid.stmts w hw)⟩
  | namespaced before behind n hstmts =>
    have hmem : TopStmt.inside n ∈ f.stmts := by simp [hstmts]
    have hn : n.Laid G := hlaid.stmts _ hmem
    have hnids : Fresh lo hi n.origins := Fresh.of_mem (f := TopStmt.origins) hids.right hmem
    exact ⟨hn.lines, hnids.right.map_origin Stmt.origin_mem_origins, fun w hw => Stmt.beq_self (hn.stmts w hw)⟩
  | cls c k hc =>
    obtain ⟨hclaid, hcids⟩ := hc.laid hids hlaid
    exact ⟨hclaid.lines, hcids.right.map_origin Member.origin_mem_origins, fun w hw => Member.beq_self (hclaid.members w hw)⟩
  | method c k hc before behind m b hm hb =>
    obtain ⟨hclaid, hcids⟩ := hc.laid hids hlaid
    have hmem : Member.method m ∈ c.members := by simp [hm]
    have hmlaid : m.Laid G := hclaid.members _ hmem
    have hmids : Fresh lo hi m.origins := Fresh.of_mem (f := Member.origins) hcids.right hmem
    have hbids : Fresh lo hi (b.stmts.flatMap BodyStmt.origins) := by
      rw [Method.origins, hb] at hmids
      exact hmids.right.right
    have hblock := (hmlaid.2.1 b hb).2
    exact ⟨hblock.2.1, hbids.map_origin BodyStmt.origin_mem_origins, fun w hw => BodyStmt.beq_self (hblock.2.2 w hw)⟩

/-- The tokens of an element of a list that is printed: those that were read, or those of the text that is inserted. -/
def LineList.tokens {α : Type} [Placed α] [BEq α] (l : LineList α) (p : Page) (a : Arena) (w : α) : List Lexeme :=
  if (counterpart? l.elements w).isSome then a.marksBetween (span w).start (span w).stop
  else Lexer.marks .code ((l.style p).inserted (l.layout p).indent w)

section Print

variable {source : Text} {f : File} {a b : Arena} {α : Type} [Placed α] [BEq α] {l : LineList α} {working : List α}

/-- An element of the list, or one that is inserted, is printed as a text of its own. -/
theorem LineList.printed_lineEntry {p : Page} (htext : source <+: p.arena.text)
    (hlines : (Arena.empty.ground source).Lines l.region l.elements) {n : Nat} (hids : Fresh 0 n (l.elements.map origin))
    (hself : ∀ w ∈ l.elements, (w == w) = true) {w : α}
    (hw : w ∈ l.elements ∨ (∀ i, origin w = some i → n ≤ i) ∧
      Lexer.Sealed ((l.style p).inserted (l.layout p).indent w)) :
    let e := p.lineEntry (l.style p) (l.layout p).indent l.elements w
    l.Printed source e ∧ l.marksOf a e = l.tokens p a w := by
  simp only [Page.lineEntry, LineList.Printed, LineList.marksOf, LineList.tokens]
  rcases hw with hw | ⟨hlater, hsealed⟩
  · have hbind := counterpart?_bind hids hw rfl
    obtain ⟨i, hi, hr⟩ := Option.bind_eq_some_iff.1 hbind
    have hedge := (Arena.empty.ground source).edge_left
      (LineList.blank_gap hlines (Nat.succ_le_of_lt (List.getElem?_eq_some_iff.1 hr).1))
    rw [LineList.gapStart_of_getElem? hr] at hedge
    obtain ⟨u, hu⟩ := htext
    have hcopy : p.copy w = source.slice (span w).start (span w).stop := by
      rw [Page.copy, Arena.slice, ← hu, Text.slice_append_right (le_size_of_edge hedge)]
    rw [hbind, hi]
    simp only [hself w hw, if_true, hcopy, Option.isSome_some]
    exact ⟨⟨w, hr, rfl⟩, trivial⟩
  · rw [counterpart?_eq_none hids hlater]
    exact ⟨hsealed, rfl⟩

/-- Elements of a list stay and others are put between them, built ones or some that were read later.  Where nothing is
swallowed, the file has the tokens before the list, those of the elements, and the tokens behind the list. -/
theorem File.marks_print (hfile : Arena.empty.parseFile source = (.ok f, a)) (hlist : f.HasLines l) (htext : source <+: b.text) :
    let p : Page := ⟨b, .ofText source⟩
    (∀ w ∈ working, w ∈ l.elements ∨ (∀ i, Placed.origin w = some i → a.nextId ≤ i) ∧
      Lexer.Sealed ((l.style p).inserted (l.layout p).indent w)) →
    l.Joined p source a.tokens working →
    Lexer.marks .html ((l.put working).print f b) =
      a.marksBetween 0 l.region.start ++ (working.flatMap (l.tokens p a) ++ a.marksBetween l.region.stop source.size) := by
  intro p hworking hjoined
  obtain ⟨hlaid, hspan, hids⟩ := Arena.laid_of_parseFile hfile
  have hspan : f.span = ⟨0, source.size⟩ := hspan.trans (congrArg (Span.mk 0) (Nat.zero_add source.size))
  obtain ⟨htokens, herror⟩ := Arena.tokens_of_parseFile hfile
  obtain ⟨hlines, hlids, hself⟩ := hlist.laid hids hlaid
  have hcut : (Arena.empty.ground source).Cuts b.text ∧ b.text.IsCut source.size ∧ ∀ {x y}, y ≤ source.size →
      b.text.slice x y = source.slice x y := by
    obtain ⟨u, hu⟩ := htext
    rw [← hu]
    exact ⟨fun e he => (Arena.isCut_of_edge he).append _, (Text.isCut_size source).append _, fun hy => Text.slice_append_right hy u⟩
  obtain ⟨hcut, hend, hslice⟩ := hcut
  have hpage : (⟨b, .ofText (b.slice f.span)⟩ : Page) = p := by
    rw [hspan, Arena.slice, hslice (Nat.le_refl _), Text.slice_zero_size]
  have haround := File.around_print hlist working (a := b) hids hlaid hcut (by rw [hspan]; exact Text.isCut_zero _)
    (by rw [hspan]; exact hend)
  rw [hpage, hspan] at haround
  have hprinted := fun w hw => l.printed_lineEntry (p := p) (a := a) htext hlines hlids hself (hworking w hw)
  have hedge : (Arena.empty.ground source).edge l.region.start :=
    (Arena.empty.ground source).edge_left (LineList.blank_gap hlines (Nat.zero_le _))
  have hentries : ∀ e ∈ l.entries p working, l.Printed source e := fun e he => by
    obtain ⟨w, hw, rfl⟩ := List.mem_map.1 he
    exact (hprinted w hw).1
  have hrun := (LineList.stands_start hlines herror htokens).marks_renderFrom hlines htext herror htokens hentries
    (by simp [LineEntry.gapBehind]) (htokens ▸ hjoined)
  have hmarks : (l.entries p working).flatMap (l.marksOf a) = working.flatMap (l.tokens p a) := by
    rw [LineList.entries, List.flatMap_map]
    exact List.flatMap_congr fun w hw => (hprinted w hw).2
  have hprint : l.print p working = (l.layout p).renderFrom (l.outer p.arena.text) none (l.entries p working) :=
    LineLayout.render_eq _ _ _
  rw [haround.eq, hprint, hslice (le_size_of_edge hedge), hslice (Nat.le_refl _), List.append_assoc, hrun, hmarks]

end Print

end Graft
