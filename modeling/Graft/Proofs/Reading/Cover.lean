/-
No text is lost between the nodes of a file.

The site of a node is sound on the tokens of a text when all parts of the node lie within it, and the elements of each
of its lists stand in order in their region: in a list of lines nothing that matters stands beside the elements, in a
list with commas exactly one comma between neighbours and perhaps one behind the last.  The sites of a laid tree are
sound on the tokens that make its ground.

* `Spread.pairwise`, `Spread.isChain` — elements that follow each other, and the gaps between them;
* `Ground.Lines.filled`, `Ground.Commas.separated` — the two kinds of lists on the tokens of a text;
* `File.laid_sites`, `Site.Laid.sound` — the sites of a laid tree;
* `sound_of_parseFile` — the sites of a file that was parsed.
-/
import Mathlib.Data.List.Chain
import Graft.Proofs.Reading.Source
import Graft.Proofs.Tree.Origins

namespace Graft

/-! ### Sound sites -/

/-- The kinds of the tokens that matter from `x` to `y`. -/
def between (ts : List Token) (x y : Nat) : List TokenKind :=
  ((stretch ts x y).filter fun t => !t.kind.isSkipped).map Token.kind

/-- The elements stand one behind the other in the region; neither they nor the region cut a token. -/
structure Listing.Ordered (ts : List Token) (l : Listing) : Prop where
  nonempty : ∀ s ∈ l.elements, s.start < s.stop
  inside : ∀ s ∈ l.elements, s.Within l.region
  ascending : l.elements.Pairwise fun s t => s.stop ≤ t.start
  whole : ∀ s ∈ l.region :: l.elements, ∀ t ∈ ts, t.stop ≤ s.start ∨ t.span.Within s ∨ s.stop ≤ t.start

/-- Every token of the region that stands in no element is skipped. -/
def Listing.Filled (ts : List Token) (l : Listing) : Prop :=
  ∀ t ∈ ts, t.span.Within l.region → (∃ s ∈ l.elements, t.span.Within s) ∨ t.kind.isSkipped = true

/-- One comma stands between neighbours, none before the first element and at most one behind the last. -/
structure Listing.Separated (ts : List Token) (l : Listing) : Prop where
  before : ∀ s, l.elements.head? = some s → between ts l.region.start s.start = []
  neighbours : l.elements.IsChain fun s t => between ts s.stop t.start = [.comma]
  behind : ∀ s, l.elements.getLast? = some s →
    between ts s.stop l.region.stop = [] ∨ between ts s.stop l.region.stop = [.comma]
  alone : l.elements = [] → between ts l.region.start l.region.stop = []

/-- The parts of a node lie within it, and its lists leave out nothing. -/
structure Site.Sound (ts : List Token) (s : Site) : Prop where
  children : ∀ c ∈ s.children, c.Within s.span
  regions : ∀ l ∈ s.lines ++ s.commas, l.region.Within s.span
  ordered : ∀ l ∈ s.lines ++ s.commas, l.Ordered ts
  filled : ∀ l ∈ s.lines, l.Filled ts
  separated : ∀ l ∈ s.commas, l.Separated ts

/-- The elements are the spans of nodes of which something is true in the region. -/
inductive Listing.IsOf (p : ∀ {α : Type} [Placed α], Span → List α → Prop) : Listing → Prop where
  | of {α : Type} [Placed α] {region : Span} {as : List α} (h : p region as) : IsOf p (.of region as)

/-- The parts of a node lie within it, and so do its lists on the ground. -/
structure Site.Laid (G : Ground) (s : Site) : Prop where
  parts : ∀ p ∈ s.parts, p.Within s.span
  lines : ∀ l ∈ s.lines, l.region.Within s.span ∧ l.IsOf G.Lines
  commas : ∀ l ∈ s.commas, l.region.Within s.span ∧ l.IsOf G.Commas

/-! ### Elements that follow each other -/

section Spread

variable {α : Type} [Placed α] {first next : Nat → Nat → Prop} {x e : Nat} {as : List α} {a : α}

theorem Spread.first_head (h : Spread first next x as e) (ha : as.head? = some a) : first x (span a).start := by
  cases as with
  | nil => cases ha
  | cons b as =>
    cases ha
    exact h.1

theorem Spread.stop_getLast (h : Spread first next x as e) (ha : as.getLast? = some a) : (span a).stop = e := by
  induction as generalizing x first with
  | nil => cases ha
  | cons b as ih =>
    obtain ⟨-, -, hrest⟩ := h
    cases as with
    | nil =>
      cases ha
      exact hrest
    | cons c as => exact ih hrest (by rwa [List.getLast?_cons_cons] at ha)

theorem Spread.isChain (h : Spread first next x as e) :
    as.IsChain fun a b => next (span a).stop (span b).start := by
  induction as generalizing x first with
  | nil => exact .nil
  | cons a as ih =>
    obtain ⟨-, -, hrest⟩ := h
    cases as with
    | nil => exact .singleton a
    | cons b as => exact .cons_cons hrest.1 (ih hrest)

theorem Spread.pairwise (h : Spread first next x as e) (hnext : ∀ {x y}, next x y → x ≤ y) :
    as.Pairwise fun a b => (span a).stop ≤ (span b).start := by
  induction as generalizing x first with
  | nil => exact .nil
  | cons a as ih =>
    obtain ⟨-, -, hrest⟩ := h
    exact .cons (fun b hb => (hrest.within hnext hnext b hb).1) (ih hrest)

/-- Where gaps lie between edges, so do the elements. -/
theorem Spread.edges {edge : Nat → Prop} (h : Spread first next x as e) (hfirst : ∀ {x y}, first x y → edge y)
    (hnext : ∀ {x y}, next x y → edge x ∧ edge y) (he : edge e) :
    ∀ a ∈ as, edge (span a).start ∧ edge (span a).stop := by
  induction as generalizing x first with
  | nil => nofun
  | cons a as ih =>
    obtain ⟨ha, -, hrest⟩ := h
    have hstop : edge (span a).stop := by
      cases as with
      | nil => exact (show (span a).stop = e from hrest) ▸ he
      | cons b as => exact (hnext hrest.1).1
    refine List.forall_mem_cons.2 ⟨⟨hfirst ha, hstop⟩, ih hrest fun hxy => (hnext hxy).2⟩

end Spread

/-! ### Lists on the tokens of a text -/

namespace Ground

section Lists

variable {lo hi x y : Nat} {ts : List Token} {h : Tiled lo ts hi}

theorem between_of_blank (hxy : (ofTiles h).blank x y) : between ts x y = [] := by
  rw [between, List.map_eq_nil_iff, List.filter_eq_nil_iff]
  intro t ht
  simp [isSkipped_of_blank hxy t ht]

theorem between_of_comma (hxy : (ofTiles h).comma x y) : between ts x y = [.comma] := by
  obtain ⟨t, ⟨ht, hskip⟩, hk, hleft, hright⟩ := hxy
  have hbetween := between_of_blank hleft
  have hbetween' := between_of_blank hright
  unfold between at hbetween hbetween' ⊢
  rw [h.stretch_around ht ((ofTiles h).le_of_blank hleft) ((ofTiles h).le_of_blank hright), List.filter_append,
    List.map_append, hbetween, List.nil_append, List.filter_cons_of_pos (by simp [hskip]), List.map_cons, hbetween', hk]

variable {α : Type} [Placed α] {next : Nat → Nat → Prop} {region : Span} {e : Nat} {as : List α}

/-- Elements from the start of a region on, with a gap behind them. -/
theorem ordered_of_spread (hnext : ∀ {x y}, next x y → (ofTiles h).edge x ∧ x ≤ y ∧ (ofTiles h).edge y)
    (hspread : Spread (ofTiles h).blank next region.start as e)
    (he : (ofTiles h).edge e ∧ e ≤ region.stop ∧ (ofTiles h).edge region.stop) :
    (Listing.of region as).Ordered ts := by
  have hstart : (ofTiles h).edge region.start := by
    cases as with
    | nil => exact (show region.start = e from hspread) ▸ he.1
    | cons a as => exact (ofTiles h).edge_left hspread.1
  have hwithin := hspread.within (ofTiles h).le_of_blank fun hxy => (hnext hxy).2.1
  have hedges := hspread.edges (ofTiles h).edge_right (fun hxy => ⟨(hnext hxy).1, (hnext hxy).2.2⟩) he.1
  refine ⟨?_, ?_, ?_, ?_⟩
  · simp only [Listing.of, List.forall_mem_map]
    exact fun a ha => (hwithin a ha).2.1
  · simp only [Listing.of, List.forall_mem_map]
    intro a ha
    obtain ⟨h₁, h₂, h₃⟩ := hwithin a ha
    exact ⟨h₁, Nat.le_of_lt h₂, Nat.le_trans h₃ he.2.1⟩
  · simp only [Listing.of, List.pairwise_map]
    exact hspread.pairwise fun hxy => (hnext hxy).2.1
  · have hwhole : ∀ s ∈ region :: as.map span, (ofTiles h).edge s.start ∧ (ofTiles h).edge s.stop := by
      simp only [List.forall_mem_cons, List.forall_mem_map]
      exact ⟨⟨hstart, he.2.2⟩, hedges⟩
    intro s hs t ht
    obtain ⟨hs₁, hs₂⟩ := hwhole s hs
    have hlt := (h.within ht).2.1
    rcases inside_or_outside hs₁ hs₂ ht with hle | hin | hle
    · exact .inl hle
    · exact .inr (.inl ⟨(mem_stretch.1 hin).2.1, Nat.le_of_lt hlt, (mem_stretch.1 hin).2.2⟩)
    · exact .inr (.inr hle)

theorem step_of_blank (hxy : (ofTiles h).blank x y) : (ofTiles h).edge x ∧ x ≤ y ∧ (ofTiles h).edge y :=
  ⟨(ofTiles h).edge_left hxy, (ofTiles h).le_of_blank hxy, (ofTiles h).edge_right hxy⟩

theorem step_of_comma (hxy : (ofTiles h).comma x y) : (ofTiles h).edge x ∧ x ≤ y ∧ (ofTiles h).edge y := by
  have hle := (ofTiles h).le_of_comma hxy
  obtain ⟨t, -, -, hleft, hright⟩ := hxy
  exact ⟨(ofTiles h).edge_left hleft, hle, (ofTiles h).edge_right hright⟩

theorem Lines.ordered (hlines : (ofTiles h).Lines region as) : (Listing.of region as).Ordered ts := by
  obtain ⟨e, hspread, hblank⟩ := hlines
  exact ordered_of_spread step_of_blank hspread (step_of_blank hblank)

/-- Every token up to the end of the last line stands in a line, or it is skipped. -/
theorem inside_or_isSkipped (hspread : Spread (ofTiles h).blank (ofTiles h).blank x as e)
    (he : (ofTiles h).edge e) {t : Token} (ht : t ∈ ts) (hx : x ≤ t.start) (hstop : t.stop ≤ e) :
    (∃ a ∈ as, t.span.Within (span a)) ∨ t.kind.isSkipped = true := by
  have hlt := (h.within ht).2.1
  induction as generalizing x with
  | nil =>
    cases (show x = e from hspread)
    omega
  | cons a as ih =>
    obtain ⟨hstart, hend⟩ := hspread.edges (ofTiles h).edge_right
      (fun hxy => ⟨(ofTiles h).edge_left hxy, (ofTiles h).edge_right hxy⟩) he a List.mem_cons_self
    obtain ⟨hblank, -, hrest⟩ := hspread
    -- The token stands before the line, in it or behind it.
    rcases stop_le_or_le_start hstart ht with hle | hle
    · exact .inr (isSkipped_of_blank hblank t (mem_stretch.2 ⟨ht, hx, hle⟩))
    · rcases stop_le_or_le_start hend ht with hle' | hle'
      · exact .inl ⟨a, List.mem_cons_self, hle, Nat.le_of_lt hlt, hle'⟩
      · refine (ih hrest hle').imp_left ?_
        rintro ⟨b, hb, hin⟩
        exact ⟨b, List.mem_cons_of_mem _ hb, hin⟩

theorem Lines.filled (hlines : (ofTiles h).Lines region as) : (Listing.of region as).Filled ts := by
  obtain ⟨e, hspread, hblank⟩ := hlines
  have he := (ofTiles h).edge_left hblank
  intro t ht hwithin
  rcases stop_le_or_le_start he ht with hle | hle
  · refine (inside_or_isSkipped hspread he ht hwithin.1 hle).imp_left ?_
    rintro ⟨a, ha, hin⟩
    exact ⟨_, List.mem_map_of_mem ha, hin⟩
  · exact .inr (isSkipped_of_blank hblank t (mem_stretch.2 ⟨ht, hle, hwithin.2.2⟩))

theorem Commas.ordered (hcommas : (ofTiles h).Commas region as) : (Listing.of region as).Ordered ts := by
  obtain ⟨e, hspread, hblank | ⟨-, hcomma⟩⟩ := hcommas
  · exact ordered_of_spread step_of_comma hspread (step_of_blank hblank)
  · exact ordered_of_spread step_of_comma hspread (step_of_comma hcomma)

theorem Commas.separated (hcommas : (ofTiles h).Commas region as) : (Listing.of region as).Separated ts := by
  obtain ⟨e, hspread, hend⟩ := hcommas
  refine ⟨?_, ?_, ?_, ?_⟩
  · intro s hs
    simp only [Listing.of, List.head?_map, Option.map_eq_some_iff] at hs
    obtain ⟨a, ha, rfl⟩ := hs
    exact between_of_blank (hspread.first_head ha)
  · simp only [Listing.of, List.isChain_map]
    exact hspread.isChain.imp fun _ _ => between_of_comma
  · intro s hs
    simp only [Listing.of, List.getLast?_map, Option.map_eq_some_iff] at hs
    obtain ⟨a, ha, rfl⟩ := hs
    rw [hspread.stop_getLast ha]
    rcases hend with hblank | ⟨-, hcomma⟩
    · exact .inl (between_of_blank hblank)
    · exact .inr (between_of_comma hcomma)
  · intro hnil
    obtain rfl : as = [] := List.map_eq_nil_iff.1 hnil
    cases (show region.start = e from hspread)
    rcases hend with hblank | ⟨hne, -⟩
    · exact between_of_blank hblank
    · exact absurd rfl hne

end Lists

end Ground

/-! ### Sites of a laid tree -/

section Trees

variable {lo hi : Nat} {ts : List Token} {h : Tiled lo ts hi} {G : Ground}

theorem Site.Laid.sound {s : Site} (hs : s.Laid (.ofTiles h)) : s.Sound ts := by
  have hlines : ∀ l ∈ s.lines, l.region.Within s.span ∧ l.Ordered ts ∧ l.Filled ts := by
    intro l hl
    obtain ⟨hregion, ⟨hlines⟩⟩ := hs.lines l hl
    exact ⟨hregion, hlines.ordered, hlines.filled⟩
  have hcommas : ∀ l ∈ s.commas, l.region.Within s.span ∧ l.Ordered ts ∧ l.Separated ts := by
    intro l hl
    obtain ⟨hregion, ⟨hcommas⟩⟩ := hs.commas l hl
    exact ⟨hregion, hcommas.ordered, hcommas.separated⟩
  have hlists : ∀ l ∈ s.lines ++ s.commas, l.region.Within s.span ∧ l.Ordered ts :=
    List.forall_mem_append.2 ⟨fun l hl => ⟨(hlines l hl).1, (hlines l hl).2.1⟩,
      fun l hl => ⟨(hcommas l hl).1, (hcommas l hl).2.1⟩⟩
  refine ⟨List.forall_mem_append.2 ⟨hs.parts, fun c hc => ?_⟩, fun l hl => (hlists l hl).1,
    fun l hl => (hlists l hl).2, fun l hl => (hlines l hl).2.2, fun l hl => (hcommas l hl).2.2⟩
  obtain ⟨l, hl, hmem⟩ := List.mem_flatMap.1 hc
  obtain ⟨⟨h₁, -, h₂⟩, hordered⟩ := hlists l hl
  exact (hordered.inside c hmem).widen h₁ h₂

section Lists

variable {α : Type} [Placed α] {as : List α} {span region : Span} {parts : List Span}

theorem Site.laid_of_lines (hregion : region.Within span) (hlines : G.Lines region as)
    (hparts : ∀ p ∈ parts, p.Within span) : Site.Laid G { span, lines := [.of region as], parts } :=
  ⟨hparts, List.forall_mem_singleton.2 ⟨hregion, .of hlines⟩, nofun⟩

theorem Site.laid_of_commas (hregion : region.Within span) (hcommas : G.Commas region as)
    (hparts : ∀ p ∈ parts, p.Within span) : Site.Laid G { span, commas := [.of region as], parts } :=
  ⟨hparts, nofun, List.forall_mem_singleton.2 ⟨hregion, .of hcommas⟩⟩

theorem Site.laid_of_parts (hparts : ∀ p ∈ parts, p.Within span) : Site.Laid G { span, parts } :=
  ⟨hparts, nofun, nofun⟩

/-- The elements of a list with commas lie within its region. -/
theorem Ground.Commas.within {G : Ground} (hcommas : G.Commas region as) : ∀ a ∈ as, (Placed.span a).Within region := by
  obtain ⟨e, hspread, hend⟩ := hcommas
  have hle : e ≤ region.stop := hend.elim G.le_of_blank fun hend => G.le_of_comma hend.2
  intro a ha
  obtain ⟨hstart, hlt, hstop⟩ := hspread.within G.le_of_blank G.le_of_comma a ha
  exact ⟨hstart, Nat.le_of_lt hlt, Nat.le_trans hstop hle⟩

end Lists

theorem forall_mem_toList {α : Type} {p : α → Prop} {o : Option α} (ho : ∀ a, o = some a → p a) :
    ∀ a ∈ o.toList, p a := by
  simpa using ho

mutual

theorem Expr.laid_sites (e : Expr) (he : e.Arranged G) : ∀ s ∈ e.sites, s.Laid G := by
  cases e with
  | array a => exact ArrayLit.laid_sites a he
  | string _ | int _ | float _ | const _ | other _ => nofun
termination_by structural e

theorem ArrayLit.laid_sites (a : ArrayLit Expr) (ha : a.Laid G) : ∀ s ∈ a.sites, s.Laid G := by
  cases a with
  | mk origin span short region items =>
    obtain ⟨hregion, hcommas, hitems⟩ := ha
    exact List.forall_mem_cons.2 ⟨Site.laid_of_commas hregion hcommas nofun,
      ArrayItem.laid_sitesAll items hitems⟩
termination_by structural a

theorem ArrayItem.laid_sitesAll (is : List (ArrayItem Expr)) (his : ArrayItem.LaidAll G is) :
    ∀ s ∈ ArrayItem.sitesAll is, s.Laid G := by
  cases is with
  | nil => nofun
  | cons i is => exact List.forall_mem_append.2 ⟨ArrayItem.laid_sites i his.1, ArrayItem.laid_sitesAll is his.2⟩
termination_by structural is

theorem ArrayItem.laid_sites (i : ArrayItem Expr) (hi : i.Laid G) : ∀ s ∈ i.sites, s.Laid G := by
  cases i with
  | mk origin span key value byRef unpack =>
    obtain ⟨hkey, hvalue, -, hvalue'⟩ := hi
    have hparts : ∀ p ∈ key.toList.map Expr.span ++ [value.span], p.Within span := by
      refine List.forall_mem_append.2 ⟨?_, List.forall_mem_singleton.2 hvalue⟩
      cases key with
      | none => nofun
      | some e => exact List.forall_mem_singleton.2 hkey.1
    exact List.forall_mem_cons.2 ⟨Site.laid_of_parts hparts,
      List.forall_mem_append.2 ⟨Expr.laid_sitesOption span key hkey, Expr.laid_sites value hvalue'⟩⟩
termination_by structural i

theorem Expr.laid_sitesOption (item : Span) (o : Option Expr) (ho : Expr.LaidKey G item o) :
    ∀ s ∈ Expr.sitesOption o, s.Laid G := by
  cases o with
  | none => nofun
  | some e => exact Expr.laid_sites e ho.2.2
termination_by structural o

end

/-- The sites of an expression that a node holds. -/
theorem Expr.laid_sitesOption_of {o : Option Expr} {p : Expr → Prop} (ho : ∀ e, o = some e → p e ∧ e.Laid G) :
    ∀ s ∈ Expr.sitesOption o, s.Laid G := by
  intro s hs
  obtain ⟨e, he, hs⟩ := Expr.mem_sitesOption.1 hs
  exact e.laid_sites (ho e he).2.2 s hs

/-! ### Members -/

theorem ReturnStmt.laid_sites {r : ReturnStmt} (hr : r.Laid G) : ∀ s ∈ r.sites, s.Laid G := by
  refine List.forall_mem_cons.2 ⟨Site.laid_of_parts ?_, Expr.laid_sitesOption_of hr⟩
  exact List.forall_mem_map.2 (forall_mem_toList fun e he => (hr e he).1)

theorem BodyStmt.laid_sites {b : BodyStmt} (hb : b.Laid G) : ∀ s ∈ b.sites, s.Laid G := by
  cases b with
  | ret r => exact r.laid_sites hb
  | other v => nofun

theorem Block.laid_sites {b : Block} (hb : b.Laid G) : ∀ s ∈ b.sites, s.Laid G := by
  obtain ⟨hbody, hlines, hstmts⟩ := hb
  exact List.forall_mem_cons.2 ⟨Site.laid_of_lines hbody hlines nofun,
    List.forall_mem_flatMap.2 fun s hs => BodyStmt.laid_sites (hstmts s hs)⟩

theorem TraitUse.laid_site {c : TraitUse} (hc : c.Laid G) : c.site.Laid G := by
  obtain ⟨hregion, hcommas, -, hadaptations⟩ := hc
  exact Site.laid_of_commas hregion hcommas (forall_mem_toList hadaptations)

theorem PropertyItem.laid_sites {i : PropertyItem} (hi : i.Laid G) : ∀ s ∈ i.sites, s.Laid G := by
  obtain ⟨hname, -, hdefault⟩ := hi
  refine List.forall_mem_cons.2 ⟨Site.laid_of_parts ?_, Expr.laid_sitesOption_of hdefault⟩
  refine List.forall_mem_cons.2 ⟨hname, List.forall_mem_map.2 (forall_mem_toList fun e he => ?_)⟩
  exact (hdefault e he).1.widen (Nat.le_trans hname.1 hname.2.1) (Nat.le_refl _)

theorem Property.laid_sites {p : Property} (hp : p.Laid G) : ∀ s ∈ p.sites, s.Laid G := by
  obtain ⟨⟨region, hregion, hcommas⟩, hitems⟩ := hp
  refine List.forall_mem_cons.2 ⟨Site.laid_of_parts (List.forall_mem_map.2 fun i hi => ?_),
    List.forall_mem_flatMap.2 fun i hi => PropertyItem.laid_sites (hitems i hi)⟩
  exact (hcommas.within i hi).widen hregion.1 hregion.2.2

theorem Method.laid_sites {m : Method} (hm : m.Laid G) : ∀ s ∈ m.sites, s.Laid G := by
  obtain ⟨hname, hbody, -⟩ := hm
  refine List.forall_mem_cons.2 ⟨Site.laid_of_parts (List.forall_mem_cons.2 ⟨hname, ?_⟩),
    List.forall_mem_flatMap.2 (forall_mem_toList fun b hb => Block.laid_sites (hbody b hb).2)⟩
  exact List.forall_mem_map.2 (forall_mem_toList fun b hb => (hbody b hb).1)

theorem Member.laid_sites {m : Member} (hm : m.Laid G) : ∀ s ∈ m.sites, s.Laid G := by
  cases m with
  | traitUse c => exact List.forall_mem_singleton.2 (TraitUse.laid_site hm)
  | property p => exact Property.laid_sites hm
  | method m => exact Method.laid_sites hm
  | other v => nofun

/-! ### Statements and files -/

theorem ClassLike.laid_sites {c : ClassLike} (hc : c.Laid G) : ∀ s ∈ c.sites, s.Laid G := by
  obtain ⟨hb₁, hb₂, hb₃⟩ := hc.body
  have hclause := hc.clause
  -- What the clause says, when there is one, and else that there are no interfaces.
  have hparts : (∀ s ∈ c.interfacesClause.toList, s.Within c.span) ∧ (∀ n ∈ c.interfaces, n.span.Within c.span) ∧
      ∀ l ∈ c.implemented, l.region.Within c.span ∧ l.IsOf G.Commas := by
    unfold LaidClause at hclause
    unfold implemented
    split at hclause
    · rename_i clause heq
      obtain ⟨h₁, h₂, h₃, h₄, h₅, -, -, -, hcommas⟩ := hclause
      have hregion : c.interfacesRegion.Within c.span := ⟨by omega, h₃, by omega⟩
      rw [heq]
      exact ⟨List.forall_mem_singleton.2 ⟨h₁, by omega, by omega⟩,
        fun n hn => (hcommas.within n hn).widen hregion.1 hregion.2.2,
        List.forall_mem_singleton.2 ⟨hregion, .of hcommas⟩⟩
    · rename_i heq
      rw [heq, hclause.2.2.2]
      exact ⟨nofun, nofun, nofun⟩
  refine List.forall_mem_cons.2 ⟨⟨?_, List.forall_mem_singleton.2 ⟨hc.body, .of hc.lines⟩, hparts.2.2⟩,
    List.forall_mem_flatMap.2 fun m hm => Member.laid_sites (hc.members m hm)⟩
  refine List.forall_mem_append.2 ⟨List.forall_mem_cons.2 ⟨hc.name, List.forall_mem_cons.2 ⟨hc.body, hparts.1⟩⟩,
    List.forall_mem_append.2 ⟨List.forall_mem_map.2 hc.parents, List.forall_mem_map.2 hparts.2.1⟩⟩

theorem ImportItem.laid_site {i : ImportItem} (hi : i.Laid) : i.site.Laid G :=
  Site.laid_of_parts
    (List.forall_mem_cons.2 ⟨hi.1, List.forall_mem_map.2 (forall_mem_toList fun n hn => hi.2 n hn)⟩)

theorem Import.laid_sites {d : Import} (hd : d.Laid G) : ∀ s ∈ d.sites, s.Laid G := by
  refine List.forall_mem_cons.2 ⟨Site.laid_of_commas hd.region hd.commas ?_,
    List.forall_mem_map.2 fun i hi => ImportItem.laid_site (hd.items i hi)⟩
  exact List.forall_mem_map.2 (forall_mem_toList hd.stem)

theorem Stmt.laid_sites {s : Stmt} (hs : s.Laid G) : ∀ s' ∈ s.sites, s'.Laid G := by
  cases s with
  | imports d => exact Import.laid_sites hs
  | classLike c => exact ClassLike.laid_sites hs
  | ret r => exact ReturnStmt.laid_sites hs
  | declare v | other v => nofun

theorem Namespace.laid_sites {n : Namespace} (hn : n.Laid G) : ∀ s ∈ n.sites, s.Laid G := by
  refine List.forall_mem_cons.2 ⟨Site.laid_of_lines hn.body hn.lines ?_,
    List.forall_mem_flatMap.2 fun s hs => Stmt.laid_sites (hn.stmts s hs)⟩
  exact List.forall_mem_map.2 (forall_mem_toList hn.name)

theorem TopStmt.laid_sites {s : TopStmt} (hs : s.Laid G) : ∀ s' ∈ s.sites, s'.Laid G := by
  cases s with
  | inside n => exact Namespace.laid_sites hs
  | plain s => exact Stmt.laid_sites hs

theorem File.laid_sites {f : File} (hf : f.Laid G) : ∀ s ∈ f.sites, s.Laid G :=
  List.forall_mem_cons.2 ⟨Site.laid_of_lines hf.body hf.lines nofun,
    List.forall_mem_flatMap.2 fun s hs => TopStmt.laid_sites (hf.stmts s hs)⟩

end Trees

/-! ### Parsed files -/

/-- The sites of a file that was parsed are sound on the tokens of its text. -/
theorem Arena.sound_of_parseFile {a a' : Arena} {t : Text} {f : File} (hf : a.parseFile t = (.ok f, a')) :
    ∀ s ∈ f.sites, s.Sound (a.tokensOf t) :=
  fun s hs => (File.laid_sites (laid_of_parseFile hf).1 s hs).sound

/-- A namespace with an import, a class and its members: four lists of lines and four with commas. -/
theorem Arena.sound_of_parseFile_class :
    ∃ t f a, t = ("<?php\nnamespace N;\nuse A, B;\n/* c */ class C implements I, J \x7b\n  use T, U;\n" ++
        "  public $p = ['a', 'b',];\n  function f() \x7b return 1; \x7d\n\x7d").toList ∧
      Arena.empty.parseFile t = (.ok f, a) ∧
      (f.sites.flatMap Site.lines).map (·.elements.length) = [1, 2, 3, 1] ∧
      (f.sites.flatMap Site.commas).map (·.elements.length) = [2, 2, 2, 2] ∧
      ∀ s ∈ f.sites, s.Sound (Arena.empty.tokensOf t) := by
  obtain ⟨t, ht, hcheck⟩ : ∃ t, t = ("<?php\nnamespace N;\nuse A, B;\n/* c */ class C implements I, J \x7b\n" ++
        "  use T, U;\n  public $p = ['a', 'b',];\n  function f() \x7b return 1; \x7d\n\x7d").toList ∧
      (Arena.empty.parseFile t).1.toOption.map (fun f => ((f.sites.flatMap Site.lines).map (·.elements.length),
        (f.sites.flatMap Site.commas).map (·.elements.length))) = some ([1, 2, 3, 1], [2, 2, 2, 2]) :=
    ⟨_, rfl, by decide +kernel⟩
  cases hf : Arena.empty.parseFile t with
  | mk result a =>
    rw [hf] at hcheck
    cases result with
    | error err => cases hcheck
    | ok f =>
      obtain ⟨hlines, hcommas⟩ := Prod.mk.inj (Option.some.inj hcheck)
      exact ⟨t, f, a, ht, hf, hlines, hcommas, Arena.sound_of_parseFile hf⟩

end Graft
