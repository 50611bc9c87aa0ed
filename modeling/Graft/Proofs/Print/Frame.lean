/-
What printing a changed class leaves alone.

The first class is printed through several layers: the list of statements of the file, perhaps a namespace with its
own list, and the class with its clause of interfaces and its body.  Each layer rebuilds its surroundings from the
gaps between its elements, or patches its text where its parts have changed; together they give back every byte outside
of the clause and the body (`ClassLike.Framed`).

* `appliedPatches`, `splice_of_inOrder` — patches that stand in order are all applied;
* `Page.framed_classLike` — the class itself;
* `Page.lineList_replaced` — a list of lines around one changed element;
* `File.framed_print` — the whole file.
-/
import Graft.Print.File
import Graft.Print.Splice
import Graft.Proofs.Edit.FirstClass
import Graft.Proofs.Print.Lines
import Graft.Proofs.Reading.Source
import Graft.Proofs.Tree.Equal

namespace Graft

theorem insertBy_of_forall {α : Type} {le : α → α → Bool} {a : α} {bs : List α} (h : ∀ b ∈ bs, le b a = true) :
    insertBy le a bs = bs ++ [a] := by
  induction bs with
  | nil => rfl
  | cons b bs ih =>
    rw [insertBy, if_pos (h b (by simp)), ih fun c hc => h c (by simp [hc])]
    rfl

/-- Sorting keeps a list that is in order. -/
theorem sortBy_of_pairwise {α : Type} {le : α → α → Bool} {as : List α} (h : as.Pairwise fun a b => le a b = true) :
    sortBy le as = as := by
  suffices hacc : ∀ acc, (∀ b ∈ acc, ∀ a ∈ as, le b a = true) →
      as.foldl (fun sorted a => insertBy le a sorted) acc = acc ++ as by
    simpa [sortBy] using hacc [] (List.forall_mem_nil _)
  induction as with
  | nil => simp
  | cons a as ih =>
    intro acc hacc
    obtain ⟨ha, has⟩ := List.pairwise_cons.1 h
    rw [List.foldl_cons, insertBy_of_forall fun b hb => hacc b hb a (by simp), ih has, List.append_assoc]
    · rfl
    · intro b hb c hc
      rcases List.mem_append.1 hb with hb | hb
      · exact hacc b hb c (by simp [hc])
      · rw [List.mem_singleton.1 hb]
        exact ha c hc

/-- The patches stand one behind the other between `x` and `y`. -/
def InOrder (y : Nat) : Nat → List Patch → Prop
  | x, [] => x ≤ y
  | x, p :: ps => x ≤ p.span.start ∧ p.span.start ≤ p.span.stop ∧ InOrder y p.span.stop ps

/-- The text from `x` to `y` with patches that stand in order. -/
def stitch (t : Text) (y : Nat) : Nat → List Patch → Text
  | x, [] => t.slice x y
  | x, p :: ps => t.slice x p.span.start ++ p.text ++ stitch t y p.span.stop ps

namespace InOrder

variable {x y : Nat} {p : Patch} {ps : List Patch}

theorem le (h : InOrder y x ps) : x ≤ y := by
  induction ps generalizing x with
  | nil => exact h
  | cons p ps ih =>
    obtain ⟨h₁, h₂, hrest⟩ := h
    have := ih hrest
    omega

theorem start_le (h : InOrder y x ps) (hp : p ∈ ps) : x ≤ p.span.start := by
  induction ps generalizing x with
  | nil => cases hp
  | cons q ps ih =>
    obtain ⟨h₁, h₂, hrest⟩ := h
    rcases List.mem_cons.1 hp with rfl | hp
    · exact h₁
    · have := ih hrest hp
      omega

theorem pairwise (h : InOrder y x ps) : ps.Pairwise fun p q => decide (p.span.start ≤ q.span.start) = true := by
  induction ps generalizing x with
  | nil => exact .nil
  | cons p ps ih =>
    obtain ⟨h₁, h₂, hrest⟩ := h
    refine List.pairwise_cons.2 ⟨fun q hq => ?_, ih hrest⟩
    have := hrest.start_le hq
    simp only [decide_eq_true_eq]
    omega

end InOrder

/-- The patches that are not left out. -/
def appliedPatches (start stop : Nat) : List Patch → List Patch
  | [] => []
  | p :: ps =>
    if p.span.start < start ∨ stop < p.span.stop then appliedPatches start stop ps
    else p :: appliedPatches p.span.stop stop ps

theorem applyPatches_eq_stitch (t : Text) (x y : Nat) (ps : List Patch) :
    applyPatches t x y ps = stitch t y x (appliedPatches x y ps) := by
  induction ps generalizing x with
  | nil => rfl
  | cons p ps ih =>
    rw [applyPatches, appliedPatches]
    split
    · exact ih x
    · rw [stitch, ih]

/-- Patches that stand in order are all applied. -/
theorem appliedPatches_of_inOrder {x y : Nat} {ps : List Patch} (h : InOrder y x ps) : appliedPatches x y ps = ps := by
  induction ps generalizing x with
  | nil => rfl
  | cons p ps ih =>
    obtain ⟨h₁, h₂, hrest⟩ := h
    have hle := hrest.le
    rw [appliedPatches, if_neg (by omega), ih hrest]

theorem splice_of_inOrder {t : Text} {x y : Nat} {ps : List Patch} (h : InOrder y x ps) :
    splice t ⟨x, y⟩ ps = stitch t y x ps := by
  simp only [splice, sortPatches, sortBy_of_pairwise h.pairwise, applyPatches_eq_stitch, appliedPatches_of_inOrder h]

/-! ### Frames -/

/-- The clause of implemented interfaces, or the place where a new one is inserted. -/
def ClassLike.clauseSpan (c : ClassLike) : Span := c.interfacesClause.getD (.point c.interfacesAnchor)

/-- The clause and the body of the class stand in this order between the cuts `x` and `y` of a text. -/
structure ClassLike.Between (c : ClassLike) (t : Text) (x y : Nat) : Prop where
  before : t.Runs x c.clauseSpan.start
  clause : t.Runs c.clauseSpan.start c.clauseSpan.stop
  header : t.Runs c.clauseSpan.stop c.body.start
  body : t.Runs c.body.start c.body.stop
  behind : t.Runs c.body.stop y

/-- A text from `x` to `y`, but for the clause of interfaces and the body of the class. -/
def ClassLike.Framed (c : ClassLike) (t : Text) (x y : Nat) (out : Text) : Prop :=
  ∃ clause body, out = t.slice x c.clauseSpan.start ++ clause ++ t.slice c.clauseSpan.stop c.body.start ++ body ++
    t.slice c.body.stop y

namespace ClassLike

variable {c : ClassLike} {t : Text} {x y x' y' : Nat}

theorem Between.widen (h : c.Between t x y) (hx : t.Runs x' x) (hy : t.Runs y y') : c.Between t x' y' where
  before := hx.trans h.before
  clause := h.clause
  header := h.header
  body := h.body
  behind := h.behind.trans hy

/-- What was there is framed. -/
theorem Between.framed_slice (h : c.Between t x y) : c.Framed t x y (t.slice x y) := by
  refine ⟨t.slice c.clauseSpan.start c.clauseSpan.stop, t.slice c.body.start c.body.stop, ?_⟩
  rw [h.before.slice_append h.clause, (h.before.trans h.clause).slice_append h.header,
    ((h.before.trans h.clause).trans h.header).slice_append h.body,
    (((h.before.trans h.clause).trans h.header).trans h.body).slice_append h.behind]

/-- The text around a framed text is kept. -/
theorem Framed.widen {out : Text} (h : c.Framed t x y out) (hc : c.Between t x y) (hx : t.Runs x' x)
    (hy : t.Runs y y') : c.Framed t x' y' (t.slice x' x ++ out ++ t.slice y y') := by
  obtain ⟨clause, body, rfl⟩ := h
  refine ⟨clause, body, ?_⟩
  rw [← hx.slice_append hc.before, ← hc.behind.slice_append hy]
  simp only [List.append_assoc]

end ClassLike

/-! ### Cuts -/

variable {G : Ground} {t : Text}

/-- The edges of a ground cut the text. -/
def Ground.Cuts (G : Ground) (t : Text) : Prop := ∀ e, G.edge e → t.IsCut e

theorem Ground.Cuts.runs_of_blank (h : G.Cuts t) {x y : Nat} (hxy : G.blank x y) : t.Runs x y :=
  ⟨h x (G.edge_left hxy), h y (G.edge_right hxy), G.le_of_blank hxy⟩

theorem Ground.Cuts.runs_of_comma (h : G.Cuts t) {x y : Nat} (hxy : G.comma x y) : t.Runs x y := by
  have hle := G.le_of_comma hxy
  obtain ⟨tok, -, -, hx, hy⟩ := hxy
  exact ⟨h x (G.edge_left hx), h y (G.edge_right hy), hle⟩

section Regions

variable {α : Type} [Placed α] {region : Span} {as : List α}

theorem Ground.Lines.runs (h : G.Lines region as) (hcut : G.Cuts t) :
    ∃ e, Spread t.Runs t.Runs region.start as e ∧ t.Runs e region.stop := by
  obtain ⟨e, hspread, hstop⟩ := h
  exact ⟨e, hspread.mono hcut.runs_of_blank hcut.runs_of_blank, hcut.runs_of_blank hstop⟩

theorem Ground.Commas.runs (h : G.Commas region as) (hcut : G.Cuts t) :
    ∃ e, Spread t.Runs t.Runs region.start as e ∧ t.Runs e region.stop := by
  obtain ⟨e, hspread, hstop⟩ := h
  refine ⟨e, hspread.mono hcut.runs_of_blank hcut.runs_of_comma, ?_⟩
  rcases hstop with hstop | ⟨-, hstop⟩
  · exact hcut.runs_of_blank hstop
  · exact hcut.runs_of_comma hstop

/-- The ends of a list cut the text. -/
theorem Spread.runs {x y e : Nat} (h : Spread t.Runs t.Runs x as e) (hy : t.Runs e y) : t.Runs x y := by
  cases as with
  | nil =>
    obtain rfl : x = e := h
    exact hy
  | cons a as =>
    obtain ⟨hstart, hinside, hstop, -⟩ := h.runs_cons hy
    exact (hstart.trans hinside).trans hstop

end Regions

/-- The clause of a class that was read, and the text of its names when it has some. -/
theorem ClassLike.Laid.runs_clause {c : ClassLike} (h : c.Laid G) (hcut : G.Cuts t) :
    t.IsCut c.clauseSpan.start ∧ t.IsCut c.clauseSpan.stop ∧ c.span.start ≤ c.clauseSpan.start ∧
      c.clauseSpan.start ≤ c.clauseSpan.stop ∧ c.clauseSpan.stop < c.body.start ∧
      ∀ clause, c.interfacesClause = some clause → t.Runs clause.start c.interfacesRegion.start ∧
        t.Runs c.interfacesRegion.start c.interfacesRegion.stop ∧ c.interfacesRegion.stop = clause.stop := by
  have hclause := h.clause
  unfold LaidClause at hclause
  unfold clauseSpan
  cases hc : c.interfacesClause with
  | none =>
    simp only [hc] at hclause
    obtain ⟨h₁, h₂, hedge, -⟩ := hclause
    exact ⟨hcut _ hedge, hcut _ hedge, h₁, Nat.le_refl _, h₂, nofun⟩
  | some clause =>
    simp only [hc] at hclause
    obtain ⟨h₁, h₂, h₃, h₄, h₅, hedge, -, -, hcommas⟩ := hclause
    obtain ⟨e, hspread, hstop⟩ := hcommas.runs hcut
    have hregion := hspread.runs hstop
    refine ⟨hcut _ hedge, by simpa [h₄] using hregion.2.1, h₁, by simpa [h₄] using Nat.le_trans h₂ h₃, h₅, ?_⟩
    intro clause' hclause'
    cases hclause'
    exact ⟨⟨hcut _ hedge, hregion.1, h₂⟩, hregion, h₄.symm⟩

/-- The clause and the body of a class that was read stand in their order within the class. -/
theorem ClassLike.Laid.between {c : ClassLike} (h : c.Laid G) (hcut : G.Cuts t) (hstart : t.IsCut c.span.start)
    (hstop : t.IsCut c.span.stop) : c.Between t c.span.start c.span.stop := by
  obtain ⟨e, hspread, hend⟩ := h.lines.runs hcut
  have hbody := hspread.runs hend
  obtain ⟨hcut₁, hcut₂, h₁, h₂, h₃, -⟩ := h.runs_clause hcut
  exact ⟨⟨hstart, hcut₁, h₁⟩, ⟨hcut₁, hcut₂, h₂⟩, ⟨hcut₂, hbody.1, Nat.le_of_lt h₃⟩, hbody, ⟨hbody.2.1, hstop, h.body.2.2⟩⟩

/-! ### Classes -/

namespace Page

variable {p : Page}

/-- The patch of the interfaces, if there is one, stands within the clause. -/
theorem interfacesPatch_cases (w : ClassLike) {r : ClassLike} (h : r.Laid G) (hcut : G.Cuts p.arena.text) :
    p.interfacesPatch w r = [] ∨ ∃ q, p.interfacesPatch w r = [q] ∧
      p.arena.text.Runs r.clauseSpan.start q.span.start ∧ p.arena.text.Runs q.span.start q.span.stop ∧
      p.arena.text.Runs q.span.stop r.clauseSpan.stop := by
  obtain ⟨hcut₁, hcut₂, -, hle, -, hregion⟩ := h.runs_clause hcut
  have hstart : p.arena.text.Runs r.clauseSpan.start r.clauseSpan.start := ⟨hcut₁, hcut₁, Nat.le_refl _⟩
  have hstop : p.arena.text.Runs r.clauseSpan.stop r.clauseSpan.stop := ⟨hcut₂, hcut₂, Nat.le_refl _⟩
  unfold interfacesPatch
  unfold ClassLike.clauseSpan at *
  cases hc : r.interfacesClause with
  | none =>
    simp only [hc, Option.getD_none] at *
    split
    · exact .inl rfl
    · exact .inr ⟨_, rfl, hstart, hstart, hstart⟩
  | some clause =>
    simp only [hc, Option.getD_some] at *
    split
    · exact .inr ⟨_, rfl, hstart, ⟨hcut₁, hcut₂, hle⟩, hstop⟩
    · split
      · exact .inl rfl
      · obtain ⟨h₁, h₂, h₃⟩ := hregion clause rfl
        exact .inr ⟨_, rfl, h₁, h₂, by rw [h₃]; exact hstop⟩

theorem membersPatch_cases (w r : ClassLike) :
    p.membersPatch w r = [] ∨ ∃ text, p.membersPatch w r = [⟨r.body, text⟩] := by
  unfold membersPatch
  split
  · exact .inl rfl
  · exact .inr ⟨_, rfl⟩

/-- A class is printed within its frame. -/
theorem framed_classLike (w : ClassLike) {r : ClassLike} (h : r.Laid G) (hcut : G.Cuts p.arena.text)
    (hr : r.Between p.arena.text r.span.start r.span.stop) :
    r.Framed p.arena.text r.span.start r.span.stop (p.classLike w r) := by
  -- Behind the clause the members follow.
  have hmembers : ∀ d, p.arena.text.Runs d r.body.start → InOrder r.span.stop d (p.membersPatch w r) ∧
      ∃ body, stitch p.arena.text r.span.stop d (p.membersPatch w r) =
        p.arena.text.slice d r.body.start ++ body ++ p.arena.text.slice r.body.stop r.span.stop := by
    intro d hd
    rcases p.membersPatch_cases w r with hm | ⟨text, hm⟩
    · rw [hm]
      refine ⟨Nat.le_trans hd.2.2 (Nat.le_trans hr.body.2.2 hr.behind.2.2),
        p.arena.text.slice r.body.start r.body.stop, ?_⟩
      rw [hd.slice_append hr.body, (hd.trans hr.body).slice_append hr.behind]
      rfl
    · rw [hm]
      exact ⟨⟨hd.2.2, hr.body.2.2, hr.behind.2.2⟩, text, rfl⟩
  unfold classLike
  rcases p.interfacesPatch_cases w h hcut with hi | ⟨q, hi, h₁, h₂, h₃⟩
  · obtain ⟨horder, body, hstitch⟩ := hmembers _ ((hr.before.trans hr.clause).trans hr.header)
    rw [hi, List.nil_append, splice_of_inOrder horder, hstitch]
    refine ⟨p.arena.text.slice r.clauseSpan.start r.clauseSpan.stop, body, ?_⟩
    rw [hr.before.slice_append hr.clause, (hr.before.trans hr.clause).slice_append hr.header]
  · obtain ⟨horder, body, hstitch⟩ := hmembers _ (h₃.trans hr.header)
    have hall : InOrder r.span.stop r.span.start (q :: p.membersPatch w r) :=
      ⟨Nat.le_trans hr.before.2.2 h₁.2.2, h₂.2.2, horder⟩
    rw [hi, List.singleton_append, splice_of_inOrder hall, stitch, hstitch]
    refine ⟨p.arena.text.slice r.clauseSpan.start q.span.start ++ q.text ++
      p.arena.text.slice q.span.stop r.clauseSpan.stop, body, ?_⟩
    rw [← hr.before.slice_append h₁, ← h₃.slice_append hr.header]
    simp only [List.append_assoc]

/-! ### Lists of lines -/

section Lists

variable {α : Type} [Placed α] [BEq α] {l r : List α} {a : α} {region : Span}

/-- A list of lines of which one element is changed. -/
theorem lineList_replaced (style : LineStyle α) (outer inner : Text) (a' : α) (horigin : origin a' = origin a)
    (hself : ∀ b ∈ l ++ a :: r, (b == b) = true) (hnodup : ((l ++ a :: r).map origin).Nodup)
    (hsome : ∀ b ∈ l ++ a :: r, (origin b).isSome) (hlines : G.Lines region (l ++ a :: r))
    (hcut : G.Cuts p.arena.text) :
    p.lineList style region outer inner (l ++ a' :: r) (l ++ a :: r) =
      p.arena.text.slice region.start (span a).start ++ p.keptText style a' a ++
        p.arena.text.slice (span a).stop region.stop ∧
      p.arena.text.Runs region.start (span a).start ∧ p.arena.text.Runs (span a).stop region.stop := by
  obtain ⟨e, hspread, hend⟩ := hlines.runs hcut
  have hcopy : ∀ bs : List α, (∀ b ∈ bs, (b == b) = true) → List.zipWith (p.keptText style) bs bs =
      bs.map fun b => p.arena.text.slice (span b).start (span b).stop := by
    intro bs hbs
    induction bs with
    | nil => rfl
    | cons b bs ih =>
      rw [List.zipWith_cons_cons, ih fun c hc => hbs c (by simp [hc])]
      simp [keptText, hbs b (by simp), copy, Arena.slice]
  have h := weave_replaced hspread hend (p.keptText style a' a)
  rw [lineList_kept _ _ _ _ _ (by simp [horigin]) hsome hnodup, List.zipWith_append rfl, List.zipWith_cons_cons,
    hcopy l fun b hb => hself b (by simp [hb]), hcopy r fun b hb => hself b (by simp [hb])]
  exact h

end Lists

end Page

/-! ### Origins of the elements of a list -/

/-- The origins of the elements of a list are among those of all nodes in it. -/
theorem sublist_map_origin {α : Type} [Placed α] {ids : α → List (Option NodeId)}
    (hroot : ∀ a : α, origin a ∈ ids a) (as : List α) : (as.map origin).Sublist (as.flatMap ids) := by
  induction as with
  | nil => exact .slnil
  | cons a as ih =>
    rw [List.map_cons, List.flatMap_cons]
    exact (List.singleton_sublist.2 (hroot a)).append ih

theorem Fresh.map_origin {α : Type} [Placed α] {lo hi : Nat} {ids : α → List (Option NodeId)} {as : List α}
    (h : Fresh lo hi (as.flatMap ids)) (hroot : ∀ a : α, origin a ∈ ids a) : Fresh lo hi (as.map origin) :=
  h.sublist (sublist_map_origin hroot as)

/-- The origins of the elements of a list are ids, and different ones, when those of all nodes in it are. -/
theorem Fresh.roots {α : Type} [Placed α] {lo hi : Nat} {ids : α → List (Option NodeId)} {as : List α}
    (h : Fresh lo hi (as.flatMap ids)) (hroot : ∀ a : α, origin a ∈ ids a) :
    (as.map origin).Nodup ∧ ∀ a ∈ as, (origin a).isSome := by
  have hroots := h.map_origin hroot
  refine ⟨hroots.1, fun a ha => ?_⟩
  obtain ⟨i, hi, -⟩ := hroots.2 _ (List.mem_map_of_mem ha)
  rw [hi]
  rfl

/-- The ids of the nodes in one element of a list. -/
theorem Fresh.of_mem {α : Type} {lo hi : Nat} {f : α → List (Option NodeId)} {a : α} {as : List α}
    (h : Fresh lo hi (as.flatMap f)) (ha : a ∈ as) : Fresh lo hi (f a) :=
  h.sublist (List.sublist_flatten_of_mem (List.mem_map_of_mem ha))

theorem Expr.origin_mem_origins (e : Expr) : Placed.origin e ∈ e.origins := by
  cases e with
  | array a =>
    cases a
    exact List.mem_append_right _ (List.mem_singleton.2 rfl)
  | _ => exact List.mem_singleton.2 rfl

theorem ArrayItem.origin_mem_origins (i : ArrayItem Expr) : Placed.origin i ∈ i.origins := by
  cases i
  exact List.mem_append_left _ (List.mem_append_left _ (List.mem_singleton.2 rfl))

theorem BodyStmt.origin_mem_origins (s : BodyStmt) : Placed.origin s ∈ s.origins := by
  cases s <;> exact List.mem_cons_self

theorem Member.origin_mem_origins (m : Member) : Placed.origin m ∈ m.origins := by
  cases m <;> exact List.mem_cons_self

theorem Stmt.origin_mem_origins (s : Stmt) : Placed.origin s ∈ s.origins := by
  cases s <;>
    simp [Placed.origin, Stmt.origin, Stmt.origins, Import.origins, ClassLike.origins, ReturnStmt.origins, Verbatim.origins]

theorem TopStmt.origin_mem_origins (s : TopStmt) : Placed.origin s ∈ s.origins := by
  cases s with
  | inside n => simp [Placed.origin, TopStmt.origin, TopStmt.origins, Namespace.origins]
  | plain s => exact s.origin_mem_origins

/-! ### Statements and files -/

namespace Page

variable {p : Page} {c : ClassLike}

/-- A list of statements around a class whose interfaces and members are changed. -/
theorem framed_stmts (is : List Name) (ms : List Member) {l r : List Stmt} {region : Span} (outer inner : Text)
    {lo hi : Nat}
    (hids : Fresh lo hi ((l ++ Stmt.classLike c :: r).flatMap Stmt.origins))
    (hlaid : ∀ s ∈ l ++ Stmt.classLike c :: r, s.Laid G) (hlines : G.Lines region (l ++ Stmt.classLike c :: r))
    (hcut : G.Cuts p.arena.text) : c.Between p.arena.text region.start region.stop ∧
      c.Framed p.arena.text region.start region.stop (p.lineList p.stmtStyle region outer inner
        (l ++ .classLike { c with interfaces := is, members := ms } :: r) (l ++ .classLike c :: r)) := by
  obtain ⟨hnodup, hsome⟩ := hids.roots Stmt.origin_mem_origins
  obtain ⟨htext, hstart, hstop⟩ := p.lineList_replaced p.stmtStyle outer inner
    (.classLike { c with interfaces := is, members := ms }) (a := Stmt.classLike c) rfl
    (fun s hs => Stmt.beq_self (hlaid s hs)) hnodup hsome hlines hcut
  have hc : c.Laid G := hlaid (.classLike c) (by simp)
  have hbetween : c.Between p.arena.text c.span.start c.span.stop := hc.between hcut hstart.2.1 hstop.1
  rw [htext]
  refine ⟨hbetween.widen hstart hstop, ClassLike.Framed.widen ?_ hbetween hstart hstop⟩
  unfold keptText
  split
  · exact hbetween.framed_slice
  · exact p.framed_classLike _ hc hcut hbetween

end Page

/-- The place of a class in a statement of a file, between cuts. -/
theorem TopStmt.Holds.framed {p : Page} {s : TopStmt} {c : ClassLike} {k : ClassLike → TopStmt}
    (h : s.Holds c k) (is : List Name) (ms : List Member) {lo hi : Nat} (hids : Fresh lo hi s.origins) (hlaid : s.Laid G)
    (hcut : G.Cuts p.arena.text) (hstart : p.arena.text.IsCut s.span.start) (hstop : p.arena.text.IsCut s.span.stop) :
    c.Between p.arena.text s.span.start s.span.stop ∧ c.Framed p.arena.text s.span.start s.span.stop
      (p.keptText p.topStyle (k { c with interfaces := is, members := ms }) s) := by
  cases h with
  | plain c =>
    have hc : c.Laid G := hlaid
    have hbetween : c.Between p.arena.text c.span.start c.span.stop := hc.between hcut hstart hstop
    refine ⟨hbetween, ?_⟩
    unfold Page.keptText
    split
    · exact hbetween.framed_slice
    · exact p.framed_classLike _ hc hcut hbetween
  | inside n l r c hstmts =>
    have hn : n.Laid G := hlaid
    have hstmtIds : Fresh lo hi ((l ++ Stmt.classLike c :: r).flatMap Stmt.origins) := by
      rw [← hstmts]
      exact hids.sublist (List.sublist_append_right _ _)
    let outer := if n.braced then lineIndent p.arena.text n.span.start else []
    obtain ⟨hbetween, hframed⟩ := p.framed_stmts is ms outer (if n.braced then deeper outer else [])
      hstmtIds (hstmts ▸ hn.stmts) (hstmts ▸ hn.lines) hcut
    obtain ⟨e, hspread, hend⟩ := hn.lines.runs hcut
    have hbody := hspread.runs hend
    have hbefore : p.arena.text.Runs n.span.start n.body.start := ⟨hstart, hbody.1, hn.body.1⟩
    have hbehind : p.arena.text.Runs n.body.stop n.span.stop := ⟨hbody.2.1, hstop, hn.body.2.2⟩
    have hwide := hbetween.widen hbefore hbehind
    refine ⟨hwide, ?_⟩
    unfold Page.keptText
    split
    · exact hwide.framed_slice
    · have horder : ∀ text, InOrder n.span.stop n.span.start [⟨n.body, text⟩] := fun _ => hn.body
      have h := hframed.widen hbetween hbefore hbehind
      rw [← hstmts] at h
      show c.Framed p.arena.text n.span.start n.span.stop (p.namespaceDecl _ n)
      unfold Page.namespaceDecl
      rw [splice_of_inOrder (horder _)]
      exact h

/-- A file whose first class has other interfaces and members is printed within the frame of that class. -/
theorem File.framed_print {f : File} {c : ClassLike} {k : ClassLike → File}
    (h : f.Holds c k) (is : List Name) (ms : List Member) {a : Arena} {lo hi : Nat} (hids : Fresh lo hi f.origins) (hlaid : f.Laid G)
    (hcut : G.Cuts a.text) (hstart : a.text.IsCut f.span.start) (hstop : a.text.IsCut f.span.stop) :
    c.Between a.text f.span.start f.span.stop ∧ c.Framed a.text f.span.start f.span.stop
      ((k { c with interfaces := is, members := ms }).print f a) := by
  obtain ⟨l, s, r, top, hstmts, hs, rfl⟩ := h
  have hids' : Fresh lo hi ((l ++ s :: r).flatMap TopStmt.origins) := by
    rw [← hstmts]
    exact hids.sublist (List.sublist_append_right _ _)
  have hlaid' : ∀ b ∈ l ++ s :: r, b.Laid G := hstmts ▸ hlaid.stmts
  obtain ⟨hnodup, hsome⟩ := hids'.roots TopStmt.origin_mem_origins
  let p : Page := ⟨a, .ofText (a.slice f.span)⟩
  have hsids : Fresh lo hi s.origins := hids'.sublist (by
    rw [List.flatMap_append, List.flatMap_cons]
    exact (List.sublist_append_left _ _).trans (List.sublist_append_right _ _))
  have horigin : Placed.origin (top { c with interfaces := is, members := ms }) = Placed.origin s := by
    cases hs <;> rfl
  obtain ⟨htext, hbefore, hbehind⟩ := p.lineList_replaced p.topStyle [] [] _ (a := s) horigin
    (fun b hb => TopStmt.beq_self (hlaid' b hb)) hnodup hsome (hstmts ▸ hlaid.lines) hcut
  obtain ⟨hbetween, hframed⟩ := hs.framed (p := p) is ms hsids (hlaid' s (by simp)) hcut
    hbefore.2.1 hbehind.1
  obtain ⟨e, hspread, hend⟩ := hlaid.lines.runs hcut
  have hbody := hspread.runs hend
  have hfront : a.text.Runs f.span.start f.body.start := ⟨hstart, hbody.1, hlaid.body.1⟩
  have hback : a.text.Runs f.body.stop f.span.stop := ⟨hbody.2.1, hstop, hlaid.body.2.2⟩
  have hinner := hbetween.widen hbefore hbehind
  have hwide := hinner.widen hfront hback
  refine ⟨hwide, ?_⟩
  unfold File.print
  simp only
  split
  · exact hwide.framed_slice
  · have horder : ∀ text, InOrder f.span.stop f.span.start [⟨f.body, text⟩] := fun _ => hlaid.body
    have h := (hframed.widen hbetween hbefore hbehind).widen hinner hfront hback
    rw [splice_of_inOrder (horder _), hstmts, htext]
    exact h

end Graft
