/-
Printing around text that was put between.

The texts of two pages are the same but for a block of whole lines that stands in the second one only.  A tree that
has no node on both sides of it is printed on the first page as it is, relocated, on the second one.

* `lineIndent_append_right`, `lineIndent_append_add` — the indentation of a line does not depend on other lines;
* `Opens` — pages around an insertion;
* `Opens.splice`, `Opens.lineList`, `Opens.commaList` — patches and lists on them.
-/
import Graft.Print.File
import Graft.Proofs.Text.Search
import Graft.Proofs.Tree.Faithful

namespace Graft

/-! ### Whole lines -/

namespace Text

/-- The text is made of whole lines, the first of which is not indented. -/
def IsBlock (t : Text) : Prop := (∀ c ∈ t.head?, isIndent c = false) ∧ ∀ c ∈ t.getLast?, c = '\n'

variable {s t : Text}

theorem IsBlock.append (hs : IsBlock s) (ht : IsBlock t) : IsBlock (s ++ t) := by
  refine ⟨fun c hc => ?_, fun c hc => ?_⟩
  · rw [List.head?_append, Option.mem_def, Option.or_eq_some_iff] at hc
    rcases hc with hc | ⟨-, hc⟩
    · exact hs.1 c hc
    · exact ht.1 c hc
  · rw [List.getLast?_append, Option.mem_def, Option.or_eq_some_iff] at hc
    rcases hc with hc | ⟨-, hc⟩
    · exact ht.2 c hc
    · exact hs.2 c hc

theorem IsBlock.takeWhile_isIndent (h : IsBlock t) : t.takeWhile isIndent = [] := by
  cases t with
  | nil => rfl
  | cons c t => exact List.takeWhile_cons_of_neg (by rw [h.1 c rfl]; exact Bool.false_ne_true)

theorem afterLast?_append (sep : Char) (s t : Text) :
    afterLast? sep (s ++ t) = (afterLast? sep t).or ((afterLast? sep s).map (· ++ t)) := by
  induction s with
  | nil => simp [afterLast?]
  | cons c s ih =>
    rw [List.cons_append, afterLast?, ih, afterLast?]
    by_cases hc : c = sep
    · cases afterLast? sep t <;> cases afterLast? sep s <;> simp [hc]
    · cases afterLast? sep t <;> cases afterLast? sep s <;> simp [hc]

/-- Whole lines behind whole lines end with a break. -/
theorem IsBlock.getLast?_append (hs : s.getLast? = some '\n') (ht : IsBlock t) : (s ++ t).getLast? = some '\n' := by
  rw [List.getLast?_append, hs]
  cases hlast : t.getLast? with
  | none => rfl
  | some c => rw [ht.2 c hlast]; rfl

/-- Nothing follows the last break of a text that ends with one. -/
theorem afterLast?_of_getLast? (h : t.getLast? = some '\n') : afterLast? '\n' t = some [] := by
  obtain ⟨s, rfl⟩ := List.getLast?_eq_some_iff.1 h
  rw [afterLast?_append]
  rfl

theorem takeWhile_isIndent_append (h : s.getLast? = some '\n') (t : Text) :
    (s ++ t).takeWhile isIndent = s.takeWhile isIndent := by
  rw [List.takeWhile_append, if_neg]
  intro hall
  obtain ⟨s, rfl⟩ := List.getLast?_eq_some_iff.1 h
  have hmem : '\n' ∈ (s ++ ['\n']).takeWhile isIndent := by
    rw [(List.takeWhile_prefix _).eq_of_length hall]
    simp
  exact absurd (List.all_eq_true.1 List.all_takeWhile _ hmem) (by decide)

end Text

open Text

variable {s t : Text} {n : Nat}

/-- A line of the first lines of a text is indented as it is without the others. -/
theorem lineIndent_append_right (hs : s.getLast? = some '\n') (ht : IsBlock t) (h : n ≤ s.size) :
    lineIndent (s ++ t) n = lineIndent s n := by
  have hcut := take?_append_of_le h t
  simp only [lineIndent, hcut, drop?_append_of_le h]
  cases hp : take? n s with
  | none =>
    -- Behind no character both texts end with a whole line.
    have hst := afterLast?_of_getLast? (ht.getLast?_append hs)
    simp [drop?_eq_none hp, hst, afterLast?_of_getLast? hs]
  | some p =>
    obtain ⟨q, hq, rfl⟩ := take?_append_drop? hp
    simp only [hq, Option.map_some, Option.getD_some]
    cases q with
    | nil =>
      rw [List.append_nil] at hs
      simp [afterLast?_of_getLast? hs, ht.takeWhile_isIndent]
    | cons c q =>
      have hlast : ((afterLast? '\n' p).getD p ++ c :: q).getLast? = some '\n' := by
        rw [List.getLast?_append] at hs ⊢
        cases hq : (c :: q).getLast? with
        | none => simp at hq
        | some d => simpa [hq] using hs
      rw [← List.append_assoc]
      exact takeWhile_isIndent_append hlast t

/-- A line behind others is indented as it is without them. -/
theorem lineIndent_append_add (hs : s.getLast? = some '\n') (t : Text) (n : Nat) :
    lineIndent (s ++ t) (s.size + n) = lineIndent t n := by
  have hlast : ∀ u, (afterLast? '\n' (s ++ u)).getD (s ++ u) = (afterLast? '\n' u).getD u := by
    intro u
    rw [afterLast?_append, afterLast?_of_getLast? hs]
    cases afterLast? '\n' u <;> rfl
  simp only [lineIndent, take?_append_add, drop?_append_add]
  cases take? n t <;> simp [hlast]

/-! ### Pages -/

namespace Insertion

variable {g : Insertion} {p p' : Page} {c : Side}

/-- The second text is the first one with a block of whole lines behind other lines. -/
def Splits (g : Insertion) (t t' : Text) : Prop :=
  ∃ head block tail : Text, t = head ++ tail ∧ t' = head ++ (block ++ tail) ∧ head.size = g.place ∧
    block.size = g.size ∧ head.getLast? = some '\n' ∧ block.IsBlock ∧ tail.IsBlock

/-- Slices on one side are the same. -/
theorem Splits.slice {t t' : Text} (h : g.Splits t t') {x y : Nat} (hx : g.clamp c x = x) (hy : g.clamp c y = y) :
    t'.slice (g.offset x) (g.offset y) = t.slice x y := by
  obtain ⟨head, block, tail, rfl, rfl, hplace, hsize, -⟩ := h
  cases c with
  | before =>
    have hx : x ≤ g.place := g.clamp_before.1 hx
    have hy : y ≤ g.place := g.clamp_before.1 hy
    rw [offset, offset, if_pos hx, if_pos hy, slice_append_right (hplace ▸ hy), slice_append_right (hplace ▸ hy)]
  | behind =>
    have hx : g.place < x := g.clamp_behind.1 hx
    have hy : g.place < y := g.clamp_behind.1 hy
    obtain ⟨u, rfl⟩ := Nat.exists_eq_add_of_lt hx
    obtain ⟨v, rfl⟩ := Nat.exists_eq_add_of_lt hy
    have hbehind : ∀ n, g.place + n + 1 + g.size = (head ++ block).size + (n + 1) := fun n => by
      rw [size_append]
      omega
    rw [offset, offset, if_neg (by omega), if_neg (by omega), hbehind, hbehind, ← List.append_assoc, slice_append_add,
      Nat.add_assoc, Nat.add_assoc, ← hplace, slice_append_add]

/-- Lines are indented alike. -/
theorem Splits.indent {t t' : Text} (h : g.Splits t t') (x : Nat) : lineIndent t' (g.offset x) = lineIndent t x := by
  obtain ⟨head, block, tail, rfl, rfl, hplace, hsize, hhead, hblock, htail⟩ := h
  by_cases hx : x ≤ g.place
  · rw [offset, if_pos hx, lineIndent_append_right hhead (hblock.append htail) (hplace ▸ hx),
      lineIndent_append_right hhead htail (hplace ▸ hx)]
  · obtain ⟨u, rfl⟩ := Nat.exists_eq_add_of_lt (Nat.not_le.1 hx)
    have hbehind : g.place + u + 1 + g.size = (head ++ block).size + (u + 1) := by
      rw [size_append]
      omega
    rw [offset, if_neg hx, hbehind, ← List.append_assoc, lineIndent_append_add (hblock.getLast?_append hhead),
      Nat.add_assoc, ← hplace, lineIndent_append_add hhead]

/-- The second page has what the first one has, and what is inserted. -/
structure Opens (g : Insertion) (p p' : Page) : Prop where
  newline : p'.newline = p.newline
  slice {c : Side} {x y : Nat} : g.clamp c x = x → g.clamp c y = y →
    p'.arena.text.slice (g.offset x) (g.offset y) = p.arena.text.slice x y
  indent (x : Nat) : lineIndent p'.arena.text (g.offset x) = lineIndent p.arena.text x
  fragment? (i : NodeId) : p'.arena.fragment? (g.id i) = (p.arena.fragment? i).map (Member.relocate g.map)
  on_side {i : NodeId} {m : Member} : p.arena.fragment? i = some m → ∃ c, m.relocate (g.side c) = m

/-- Relocated nodes are where they should be, and as equal as before. -/
structure Movable {α : Type} [Placed α] [BEq α] (f : Relocation → α → α) : Prop where
  relocates (φ : Relocation) : Relocates φ (f φ)
  beq {φ : Relocation} : φ.Faithful → ∀ a b, (f φ a == f φ b) = (a == b)

/-- The patch in its new place. -/
def patch (g : Insertion) (q : Patch) : Patch := ⟨g.map.span q.span, q.text⟩

theorem sortBy_map {α : Type} {f : α → α} {le : α → α → Bool} (h : ∀ a b, le (f a) (f b) = le a b) (as : List α) :
    sortBy le (as.map f) = (sortBy le as).map f := by
  have hinsert : ∀ a bs, insertBy le (f a) (bs.map f) = (insertBy le a bs).map f := by
    intro a bs
    induction bs with
    | nil => rfl
    | cons b bs ih =>
      simp only [List.map_cons, insertBy, h]
      split
      · rw [ih, List.map_cons]
      · rfl
  suffices hfold : ∀ acc, (as.map f).foldl (fun sorted a => insertBy le a sorted) (acc.map f) =
      (as.foldl (fun sorted a => insertBy le a sorted) acc).map f from hfold []
  induction as with
  | nil => exact fun _ => rfl
  | cons a as ih =>
    intro acc
    rw [List.map_cons, List.foldl_cons, List.foldl_cons, hinsert, ih]

theorem sortPatches_map (g : Insertion) (ps : List Patch) : sortPatches (ps.map g.patch) = (sortPatches ps).map g.patch :=
  sortBy_map (fun _ _ => decide_eq_decide.2 g.offset_le_offset) ps

section Counterparts

variable {α : Type} [Placed α] [BEq α] {f : Relocation → α → α}

/-- Counterparts are found by ids, which stay different. -/
theorem counterpart?_map (hf : Movable f) (rs : List α) (w : α) :
    counterpart? (rs.map (f g.map)) (f g.map w) = counterpart? rs w := by
  have hid : ∀ o : Option NodeId, ∀ i, (o.map g.id == some (g.id i)) = (o == some i) := fun o i =>
    beq_of_iff (g := Option.map g.id) (b := some i) (Option.map_inj_right fun _ _ => g.id_inj)
  unfold counterpart?
  rw [(hf.relocates g.map).origin]
  cases Placed.origin w with
  | none => rfl
  | some i =>
    simp only [Option.map_some, Option.bind_some, List.findIdx?_map]
    refine congrArg (List.findIdx? · rs) (funext fun r => ?_)
    rw [Function.comp_apply, (hf.relocates g.map).origin]
    exact hid _ i

omit [BEq α] in
theorem bind_counterpart?_map (rs : List α) (w : α) : (counterpart? rs w).bind ((rs.map (f g.map))[·]?) =
    ((counterpart? rs w).bind (rs[·]?)).map (f g.map) := by
  cases counterpart? rs w with
  | none => rfl
  | some i => exact List.getElem?_map

end Counterparts

namespace Opens

variable (h : g.Opens p p')

include h

theorem slice_span {s : Span} (hs : g.On c s) : p'.arena.slice (g.map.span s) = p.arena.slice s := h.slice hs.1 hs.2

/-- A node that nothing is put into is copied. -/
theorem copy {α : Type} [Placed α] {f : Relocation → α → α} (hf : ∀ φ, Relocates φ (f φ)) {w : α}
    (hw : f g.apart w = w) : p'.copy (f g.map w) = p.copy w := by
  obtain ⟨c, hc⟩ := exists_on_of_apart (((hf g.apart).span w).symm.trans (congrArg span hw))
  unfold Page.copy
  rw [(hf g.map).span, h.slice_span hc]

theorem indentOf {α : Type} [Placed α] {f : α → α} (hf : Relocates g.map f) (w : α) :
    p'.indentOf (f w) = p.indentOf w := by
  unfold Page.indentOf
  rw [hf.span]
  exact h.indent _

/-! ### Patches -/

theorem applyPatches {start stop : Nat} {ps : List Patch} (hstart : g.clamp c start = start)
    (hstop : g.clamp c stop = stop) (hps : ∀ q ∈ ps, g.On c q.span) :
    applyPatches p'.arena.text (g.offset start) (g.offset stop) (ps.map g.patch) =
      applyPatches p.arena.text start stop ps := by
  induction ps generalizing start with
  | nil => exact h.slice hstart hstop
  | cons q ps ih =>
    obtain ⟨hq, hps⟩ := List.forall_mem_cons.1 hps
    have hlt : (g.patch q).span.start < g.offset start ↔ q.span.start < start := g.offset_lt_offset
    have hgt : g.offset stop < (g.patch q).span.stop ↔ stop < q.span.stop := g.offset_lt_offset
    have hslice : p'.arena.text.slice (g.offset start) (g.patch q).span.start = p.arena.text.slice start q.span.start :=
      h.slice hstart hq.1
    simp only [List.map_cons, Graft.applyPatches, hlt, hgt]
    split
    · exact ih hstart hps
    · rw [hslice]
      exact congrArg _ (ih hq.2 hps)

/-- Patches of a node on one side. -/
theorem splice {s : Span} {ps : List Patch} (hs : g.On c s) (hps : ∀ q ∈ ps, g.On c q.span) :
    splice p'.arena.text (g.map.span s) (ps.map g.patch) = splice p.arena.text s ps := by
  unfold Graft.splice
  rw [sortPatches_map]
  exact h.applyPatches hs.1 hs.2 fun q hq => hps q (mem_sortBy.1 hq)

/-- No patch of a node on one side. -/
theorem splice_none {s : Span} (hs : g.On c s) :
    Graft.splice p'.arena.text (g.map.span s) [] = Graft.splice p.arena.text s [] := by
  have hps : ∀ q ∈ ([] : List Patch), g.On c q.span := nofun
  exact h.splice hs hps

/-- One patch of a node on one side. -/
theorem splice_one {s t : Span} (hs : g.On c s) (ht : g.On c t) {new new' : Text} (hnew : new' = new) :
    Graft.splice p'.arena.text (g.map.span s) [⟨g.map.span t, new'⟩] = Graft.splice p.arena.text s [⟨t, new⟩] := by
  subst hnew
  have hps : ∀ q ∈ [(⟨t, new'⟩ : Patch)], g.On c q.span := List.forall_mem_singleton.2 ht
  exact h.splice hs hps

/-! ### Lists -/

theorem gaps {start stop : Nat} {ss : List Span} (hstart : g.clamp c start = start) (hstop : g.clamp c stop = stop)
    (hss : ∀ s ∈ ss, g.On c s) :
    gaps p'.arena.text (g.offset start) (g.offset stop) (ss.map g.map.span) = gaps p.arena.text start stop ss := by
  induction ss generalizing start with
  | nil => exact congrArg (· :: []) (h.slice hstart hstop)
  | cons s ss ih =>
    obtain ⟨hs, hss⟩ := List.forall_mem_cons.1 hss
    show p'.arena.text.slice (g.offset start) (g.offset s.start) ::
      Graft.gaps p'.arena.text (g.offset s.stop) (g.offset stop) (ss.map g.map.span) = _
    rw [h.slice hstart hs.1, ih hs.2 hss]
    rfl

section Lists

variable {α : Type} [Placed α] [BEq α] {f : Relocation → α → α} (hf : Movable f) {region : Span} {rs : List α}
  (hregion : g.On c region) (hrs : rs.map (f (g.side c)) = rs)

include hf hregion hrs

theorem gaps_map : Graft.gaps p'.arena.text (g.map.span region).start (g.map.span region).stop
    ((rs.map (f g.map)).map span) = Graft.gaps p.arena.text region.start region.stop (rs.map span) := by
  have hspans : (rs.map (f g.map)).map span = (rs.map span).map g.map.span := by
    rw [List.map_map, List.map_map]
    exact List.map_congr_left fun r _ => (hf.relocates g.map).span r
  have hon : ∀ s ∈ rs.map span, g.On c s := by
    intro s hs
    obtain ⟨r, hr, rfl⟩ := List.mem_map.1 hs
    have hside := congrArg span (forall_of_map_eq_self hrs r hr)
    rw [(hf.relocates _).span] at hside
    exact on_of_side hside
  rw [hspans]
  exact h.gaps hregion.1 hregion.2 hon

/-- A list of lines whose elements print alike prints alike. -/
theorem lineList {style style' : Page.LineStyle α} (outer inner : Text) {ws : List α} (hws : ws.map (f g.apart) = ws)
    (hslot : ∀ w, style'.slot (f g.map w) = style.slot w)
    (hchanged : ∀ w r, f g.apart w = w → f (g.side c) r = r →
      style'.changed (f g.map w) (f g.map r) = style.changed w r)
    (hinserted : ∀ indent w, f g.apart w = w → style'.inserted indent (f g.map w) = style.inserted indent w) :
    p'.lineList style' (g.map.span region) outer inner (ws.map (f g.map)) (rs.map (f g.map)) =
      p.lineList style region outer inner ws rs := by
  have hlayout : LineLayout.ofRegion p'.arena.text (g.map.span region) ((rs.map (f g.map)).map span) inner p'.newline =
      LineLayout.ofRegion p.arena.text region (rs.map span) inner p.newline := by
    unfold LineLayout.ofRegion
    rw [h.gaps_map hf hregion hrs, h.newline]
  have hentry : ∀ indent, ∀ w ∈ ws, p'.lineEntry style' indent (rs.map (f g.map)) (f g.map w) =
      p.lineEntry style indent rs w := by
    intro indent w hw
    have hw := forall_of_map_eq_self hws w hw
    unfold Page.lineEntry
    simp only [counterpart?_map hf, bind_counterpart?_map, hslot]
    cases hr : (counterpart? rs w).bind (rs[·]?) with
    | none => simp only [Option.map_none, hinserted indent w hw]
    | some r =>
      obtain ⟨i, -, hi⟩ := Option.bind_eq_some_iff.1 hr
      have hrside := forall_of_map_eq_self hrs r (List.mem_of_getElem? hi)
      simp only [Option.map_some, hf.beq g.faithful_map, h.copy hf.relocates hw, hchanged w r hw hrside]
  unfold Page.lineList
  simp only [hlayout]
  rw [List.map_map]
  exact congrArg (LineLayout.render _ · outer) (List.map_congr_left (hentry _))

theorem commaRegion (entries : List CommaEntry) :
    p'.commaRegion (g.map.span region) (rs.map (f g.map)) entries = p.commaRegion region rs entries := by
  unfold Page.commaRegion CommaLayout.ofRegion
  rw [h.gaps_map hf hregion hrs, h.newline]

omit hregion in
/-- An element of a list with commas. -/
theorem commaEntry {w : α} (hw : f g.apart w = w) {changed changed' : α → Text} {fresh fresh' : Text}
    (hchanged : ∀ r, f (g.side c) r = r → changed' (f g.map r) = changed r) (hfresh : fresh' = fresh) :
    p'.commaEntry changed' fresh' (rs.map (f g.map)) (f g.map w) = p.commaEntry changed fresh rs w := by
  unfold Page.commaEntry
  simp only [counterpart?_map hf, bind_counterpart?_map]
  cases hr : (counterpart? rs w).bind (rs[·]?) with
  | none => simp only [Option.map_none, (hf.relocates g.map).origin, Option.isSome_map, h.copy hf.relocates hw, hfresh]
  | some r =>
    obtain ⟨i, -, hi⟩ := Option.bind_eq_some_iff.1 hr
    have hrside := forall_of_map_eq_self hrs r (List.mem_of_getElem? hi)
    simp only [Option.map_some, hf.beq g.faithful_map, h.copy hf.relocates hw, hchanged r hrside]

/-- A list of elements that are written anew. -/
theorem commaList {write : α → Text} (hwrite : ∀ w, write (f g.map w) = write w) {ws : List α}
    (hws : ws.map (f g.apart) = ws) :
    p'.commaList write (g.map.span region) (ws.map (f g.map)) (rs.map (f g.map)) = p.commaList write region ws rs := by
  unfold Page.commaList
  rw [h.commaRegion hf hregion hrs, List.map_map]
  refine congrArg _ (List.map_congr_left fun w hw => ?_)
  exact h.commaEntry hf hrs (forall_of_map_eq_self hws w hw) (fun _ _ => hwrite w) (hwrite w)

end Lists

end Opens

end Insertion

end Graft
