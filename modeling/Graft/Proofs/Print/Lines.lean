/-
Lists of which every element is kept.

A layout takes the gaps between the elements of a list apart: into leads and trails where an element stands on a line,
into a head, separators and a tail where there are commas.  When every element is kept, the pieces come together again:
what is printed are the gaps with the texts of the elements between them (`weave`).

* `LineLayout.render_kept`, `CommaLayout.render_kept` — rendering all elements gives the gaps back;
* `Page.lineList_kept` — a list whose elements keep their origins is printed between its gaps;
* `Parts` — spans that come one behind the other in a region of a text;
* `layouts_render_kept` — either layout gives the gaps back, and with untouched elements the region.
-/
import Graft.Print.Page
import Graft.Proofs.Reading.Layout
import Graft.Proofs.Text.Search

namespace Graft

/-- Gaps with texts between them, one gap more than there are texts. -/
def weave : List Text → List Text → Text
  | g :: gs, t :: ts => g ++ t ++ weave gs ts
  | gs, _ => gs.headD []

theorem length_gaps (t : Text) (x y : Nat) (spans : List Span) : (gaps t x y spans).length = spans.length + 1 := by
  induction spans generalizing x with
  | nil => rfl
  | cons s spans ih => simp [gaps, ih]

theorem drop_eq_getD_cons {gs : List Text} {i : Nat} (h : i < gs.length) :
    gs.drop i = gs.getD i [] :: gs.drop (i + 1) := by
  rw [List.drop_eq_getElem_cons h]
  simp [h]

/-! ### Rendering -/

namespace LineLayout

variable {l : LineLayout} {more : List Text}

/-- Behind an element that was kept, its trail and what follows it are the gaps behind it with the texts between. -/
theorem renderOver_kept (hleads : ∀ i < more.length - 1, l.leads.getD (i + 1) [] = (splitTrail (more.getD i [])).2)
    (htrails : ∀ i < more.length, l.trails.getD i [] = (splitTrail (more.getD i [])).1)
    (htail : ∀ i, i + 1 = more.length → l.tail = (splitTrail (more.getD i [])).2)
    {es : List LineEntry} {i : Nat} {before : LineEntry} (hlength : i + 1 + es.length = more.length)
    (hkept : es.map LineEntry.kept = (List.range' (i + 1) es.length).map some) (hbefore : before.kept.isSome) :
    (splitTrail (more.getD i [])).1 ++ l.renderOver (some before) es ++ l.tail =
      weave (more.drop i) (es.map LineEntry.text) := by
  induction es generalizing i before with
  | nil =>
    rw [htail i (by simpa using hlength), drop_eq_getD_cons (by simp at hlength; omega)]
    simp [renderOver, weave, splitTrail_append]
  | cons e es ih =>
    simp only [List.map_cons, List.length_cons, List.range'_succ, List.cons.injEq] at hkept hlength
    obtain ⟨he, hes⟩ := hkept
    obtain ⟨j, hj⟩ := Option.isSome_iff_exists.1 hbefore
    have hnext : i + 1 < more.length := by omega
    have hrest := @ih (i + 1) e (by omega) hes (by simp [he])
    have hlead : l.before (some before) e = (splitTrail (more.getD i [])).2 := by
      rw [← hleads i (by omega)]
      obtain ⟨k, slot, text⟩ := before
      obtain rfl : k = some j := hj
      simp [LineLayout.before, he]
    have htrail : l.behind e = (splitTrail (more.getD (i + 1) [])).1 := by
      rw [← htrails (i + 1) hnext]
      simp [behind, he]
    rw [drop_eq_getD_cons (by omega), List.map_cons, weave, ← hrest, renderOver, hlead, htrail]
    generalize more.getD i [] = gap
    calc _ = (splitTrail gap).1 ++ (splitTrail gap).2 ++ (e.text ++ ((splitTrail (more.getD (i + 1) [])).1 ++
          l.renderOver (some e) es ++ l.tail)) := by simp only [List.append_assoc]
      _ = _ := by rw [splitTrail_append, ← List.append_assoc]

/-- The pieces of the gaps of a list that had elements. -/
theorem ofRegion_of_ne_nil (t : Text) (region : Span) {spans : List Span} (hne : spans ≠ []) (inner : Text)
    (newline : Newline) :
    let l := ofRegion t region spans inner newline
    let gs := gaps t region.start region.stop spans
    l.leads.isEmpty = false ∧ l.leads.headD [] = gs.getD 0 [] ∧
      (∀ i, i + 1 < spans.length → l.leads.getD (i + 1) [] = (splitTrail (gs.getD (i + 1) [])).2) ∧
      (∀ i < spans.length, l.trails.getD i [] = (splitTrail (gs.getD (i + 1) [])).1) ∧
      l.tail = (splitTrail (gs.getD spans.length [])).2 ∧ l.newline = newline := by
  obtain ⟨s, spans, rfl⟩ := List.exists_cons_of_ne_nil hne
  obtain ⟨m, ms, hmore⟩ := List.exists_cons_of_length_eq_add_one (length_gaps t s.stop region.stop spans)
  have hms := length_gaps t s.stop region.stop spans
  simp only [gaps, hmore, ofRegion] at hms ⊢
  generalize m :: ms = more at hms ⊢
  refine ⟨rfl, rfl, fun i hi => ?_, fun i hi => ?_, ?_, trivial⟩
  · have hi' : i < spans.length := by simpa using hi
    simp [List.getD, hms, hi', show i < spans.length + 1 by omega]
  · have hi' : i < more.length := by simpa [hms] using hi
    simp [List.getD, hi']
  · simp [List.getLast?_eq_getElem?, hms, List.getD]

/-- Rendering all elements of a list gives the gaps back. -/
theorem render_kept (t : Text) (region : Span) (spans : List Span) (inner outer : Text) (newline : Newline)
    {es : List LineEntry} (hkept : es.map LineEntry.kept = (List.range spans.length).map some) :
    (ofRegion t region spans inner newline).render es outer =
      weave (gaps t region.start region.stop spans) (es.map LineEntry.text) := by
  have hlength : es.length = spans.length := by simpa using congrArg List.length hkept
  cases spans with
  | nil =>
    obtain rfl : es = [] := List.eq_nil_of_length_eq_zero hlength
    simp [ofRegion, gaps, render, weave]
  | cons s spans =>
    obtain ⟨e, es, rfl⟩ := List.exists_cons_of_length_eq_add_one hlength
    have hmore := length_gaps t s.stop region.stop spans
    simp only [List.map_cons, List.length_cons, List.range_eq_range', List.range'_succ, List.cons.injEq] at hkept hlength
    obtain ⟨he, hes⟩ := hkept
    obtain ⟨hfull, hhead, hleads, htrails, htail, -⟩ :=
      ofRegion_of_ne_nil t region (List.cons_ne_nil s spans) inner newline
    simp only [gaps, List.getD_cons_succ, List.getD_cons_zero, List.length_cons] at hhead hleads htrails htail ⊢
    generalize ofRegion t region (s :: spans) inner newline = l at *
    generalize gaps t s.stop region.stop spans = more at *
    have hrest := @renderOver_kept l more (fun i hi => hleads i (by omega)) (fun i hi => htrails i (by omega))
      (fun i hi => by rw [htail, show i = spans.length by omega]) es 0 e (by omega)
      (by rw [hes, Nat.add_right_cancel hlength]) (by simp [he])
    have hbefore : l.before none e = t.slice region.start s.start := hhead
    have hbehind : l.behind e = (splitTrail (more.getD 0 [])).1 := by
      rw [← htrails 0 (by omega)]
      simp [behind, he]
    rw [render, hfull, renderOver, hbefore, hbehind, List.map_cons, weave, ← List.drop_zero (l := more), ← hrest]
    simp only [Bool.false_eq_true, if_false, List.append_assoc, List.drop_zero]

end LineLayout

/-! ### Texts of elements between their gaps -/

/-- The text has cuts at both offsets, in this order. -/
def Text.Runs (t : Text) (x y : Nat) : Prop := t.IsCut x ∧ t.IsCut y ∧ x ≤ y

theorem Text.Runs.trans {t : Text} {x y z : Nat} (h : t.Runs x y) (h' : t.Runs y z) : t.Runs x z :=
  ⟨h.1, h'.2.1, Nat.le_trans h.2.2 h'.2.2⟩

theorem Text.Runs.slice_append {t : Text} {x y z : Nat} (h : t.Runs x y) (h' : t.Runs y z) :
    t.slice x y ++ t.slice y z = t.slice x z :=
  slice_append_slice h.1 h.2.1 h'.2.1 h.2.2 h'.2.2

section Elements

variable {α : Type} [Placed α] {t : Text} {x y e : Nat} {as bs : List α} {a : α}

/-- The text between the ends of an element of a list, and the gaps around it. -/
theorem Spread.runs_cons (h : Spread t.Runs t.Runs x (a :: as) e) (hy : t.Runs e y) :
    t.Runs x (span a).start ∧ t.Runs (span a).start (span a).stop ∧ t.Runs (span a).stop y ∧
      Spread t.Runs t.Runs (span a).stop as e := by
  obtain ⟨hfirst, hlt, hrest⟩ := h
  have hstop : t.Runs (span a).stop y := by
    cases as with
    | nil =>
      obtain rfl : (span a).stop = e := hrest
      exact hy
    | cons b as =>
      have hle := hrest.le fun h => h.2.2
      exact ⟨hrest.1.1, hy.2.1, Nat.le_trans hle hy.2.2⟩
  exact ⟨hfirst, ⟨hfirst.2.1, hstop.1, Nat.le_of_lt hlt⟩, hstop, hrest⟩

/-- The elements of a list with the gaps between them are the text of its region. -/
theorem weave_copies (h : Spread t.Runs t.Runs x as e) (hy : t.Runs e y) :
    weave (gaps t x y (as.map span)) (as.map fun a => t.slice (span a).start (span a).stop) = t.slice x y := by
  induction as generalizing x with
  | nil => rfl
  | cons a as ih =>
    obtain ⟨hstart, hinside, hstop, hrest⟩ := h.runs_cons hy
    simp only [List.map_cons, gaps, weave]
    rw [ih hrest, hstart.slice_append hinside, (hstart.trans hinside).slice_append hstop]

/-- One element of a list is written anew. -/
theorem weave_replaced (h : Spread t.Runs t.Runs x (as ++ a :: bs) e) (hy : t.Runs e y) (new : Text) :
    weave (gaps t x y ((as ++ a :: bs).map span))
      (as.map (fun a => t.slice (span a).start (span a).stop) ++
        new :: bs.map fun a => t.slice (span a).start (span a).stop) =
      t.slice x (span a).start ++ new ++ t.slice (span a).stop y ∧ t.Runs x (span a).start ∧
        t.Runs (span a).stop y := by
  induction as generalizing x with
  | nil =>
    obtain ⟨hstart, -, hstop, hrest⟩ := h.runs_cons hy
    simp only [List.nil_append, List.map_nil, List.map_cons, gaps, weave]
    rw [weave_copies hrest hy]
    exact ⟨rfl, hstart, hstop⟩
  | cons b as ih =>
    obtain ⟨hstart, hinside, -, hrest⟩ := h.runs_cons hy
    obtain ⟨htext, hrun, hstop⟩ := ih hrest
    simp only [List.cons_append, List.map_cons, gaps, weave]
    rw [htext]
    refine ⟨?_, (hstart.trans hinside).trans hrun, hstop⟩
    rw [hstart.slice_append hinside, ← List.append_assoc, ← List.append_assoc,
      (hstart.trans hinside).slice_append hrun]

end Elements

/-! ### Lists whose elements keep their origins -/

section Origins

variable {α : Type} [Placed α] {working reference : List α}

/-- The counterpart of an element is the element of the reference list with its origin. -/
theorem counterpart?_of_origin (hnodup : (reference.map origin).Nodup) {i : Nat} (hi : i < reference.length)
    {node : α} (hnode : origin node = origin reference[i]) (hsome : (origin node).isSome) :
    counterpart? reference node = some i := by
  obtain ⟨id, hid⟩ := Option.isSome_iff_exists.1 hsome
  simp only [counterpart?, hid, Option.bind_some]
  rw [List.findIdx?_eq_some_iff_getElem]
  refine ⟨hi, by simp [← hnode, hid], fun j hj => ?_⟩
  have hne := (List.nodup_iff_pairwise_ne.1 hnodup)
  rw [List.pairwise_iff_getElem] at hne
  have h := hne j i (by simp; omega) (by simpa using hi) hj
  simp only [List.getElem_map] at h
  rw [← hid, hnode]
  simpa using h

/-- What was built, or read with a later id, has no counterpart. -/
theorem counterpart?_eq_none {w : α} {lo n : Nat} (hids : Fresh lo n (reference.map origin))
    (hw : ∀ i, origin w = some i → n ≤ i) : counterpart? reference w = none := by
  unfold counterpart?
  cases hi : origin w with
  | none => rfl
  | some i =>
    rw [Option.bind_some, List.findIdx?_eq_none_iff]
    intro r hr
    obtain ⟨j, hj, -, hlt⟩ := hids.2 _ (List.mem_map_of_mem hr)
    have hle := hw i hi
    rw [hj]
    exact beq_false_of_ne fun heq => absurd (Option.some.inj heq) (by omega)

/-- What revises an element has it as its counterpart. -/
theorem counterpart?_bind {w r : α} {lo n : Nat} (hids : Fresh lo n (reference.map origin)) (hr : r ∈ reference)
    (hw : origin w = origin r) : (counterpart? reference w).bind (reference[·]?) = some r := by
  obtain ⟨i, hi, rfl⟩ := List.getElem_of_mem hr
  obtain ⟨id, hid, -⟩ := hids.2 _ (List.mem_map_of_mem hr)
  have hsome : (origin w).isSome := by rw [hw, hid]; rfl
  rw [counterpart?_of_origin hids.1 hi hw hsome, Option.bind_some]
  exact List.getElem?_eq_getElem hi

namespace Page

variable [BEq α]

/-- The text of an element that is printed over its counterpart. -/
def keptText (p : Page) (style : LineStyle α) (node other : α) : Text :=
  if node == other then p.copy node else style.changed node other

/-- A list whose elements keep their origins is printed between the gaps of the list that was read. -/
theorem lineList_kept (p : Page) (style : LineStyle α) (region : Span) (outer inner : Text)
    (horigins : working.map origin = reference.map origin) (hsome : ∀ r ∈ reference, (origin r).isSome)
    (hnodup : (reference.map origin).Nodup) :
    p.lineList style region outer inner working reference =
      weave (gaps p.arena.text region.start region.stop (reference.map span))
        (List.zipWith (p.keptText style) working reference) := by
  have hlength : working.length = reference.length := by simpa using congrArg List.length horigins
  have hcounter : ∀ i (hi : i < working.length), counterpart? reference working[i] = some i := by
    intro i hi
    have hi' : i < reference.length := by omega
    have horigin : origin working[i] = origin reference[i] := by
      have h := congrArg (·[i]?) horigins
      simpa [hi, hi'] using h
    exact counterpart?_of_origin hnodup hi' horigin (by rw [horigin]; exact hsome _ (List.getElem_mem _))
  simp only [lineList]
  rw [LineLayout.render_kept]
  · congr 1
    refine List.ext_getElem (by simp [hlength]) fun i hi _ => ?_
    have hi' : i < working.length := by simpa using hi
    simp [lineEntry, hcounter i hi', keptText, hlength ▸ hi']
  · refine List.ext_getElem (by simp [hlength]) fun i hi _ => ?_
    have hi' : i < working.length := by simpa using hi
    simp [lineEntry, hcounter i hi']

end Page

end Origins

/-! ### Spans in a region -/

/-- The spans are not empty, they come one behind the other in the region, and no end of them is inside a character. -/
structure Parts (t : Text) (region : Span) (spans : List Span) : Prop where
  start : t.IsCut region.start
  stop : t.IsCut region.stop
  le : region.start ≤ region.stop
  inside : ∀ s ∈ spans, region.start ≤ s.start ∧ s.start < s.stop ∧ s.stop ≤ region.stop
  cuts : ∀ s ∈ spans, t.IsCut s.start ∧ t.IsCut s.stop
  ascending : spans.Pairwise fun s s' => s.stop ≤ s'.start

/-- Behind the first span the others come one behind the other. -/
theorem Parts.tail {t : Text} {region s : Span} {spans : List Span} (h : Parts t region (s :: spans)) :
    Parts t ⟨s.stop, region.stop⟩ spans := by
  obtain ⟨hbehind, hascending⟩ := List.pairwise_cons.1 h.ascending
  refine ⟨(h.cuts s List.mem_cons_self).2, h.stop, (h.inside s List.mem_cons_self).2.2, fun s' hs' => ?_,
    fun s' hs' => h.cuts s' (List.mem_cons_of_mem _ hs'), hascending⟩
  exact ⟨hbehind s' hs', (h.inside s' (List.mem_cons_of_mem _ hs')).2⟩

/-- The gap of index `i` is what stands between the end of the element before it and the start of the next one. -/
theorem gaps_eq_zipWith (t : Text) (x y : Nat) (spans : List Span) :
    gaps t x y spans = List.zipWith t.slice (x :: spans.map Span.stop) (spans.map Span.start ++ [y]) := by
  induction spans generalizing x with
  | nil => rfl
  | cons s spans ih =>
    rw [gaps, ih]
    rfl

/-- The spans with the gaps between them are the region. -/
theorem weave_slices {t : Text} {region : Span} {spans : List Span} (h : Parts t region spans) :
    weave (gaps t region.start region.stop spans) (spans.map fun s => t.slice s.start s.stop) =
      t.slice region.start region.stop := by
  induction spans generalizing region with
  | nil => rfl
  | cons s spans ih =>
    obtain ⟨hfirst, hne, hlast⟩ := h.inside s List.mem_cons_self
    obtain ⟨hstart, hstop⟩ := h.cuts s List.mem_cons_self
    have hrest := ih h.tail
    rw [List.map_cons, gaps, weave, hrest, Text.slice_append_slice h.start hstart hstop hfirst (Nat.le_of_lt hne),
      Text.slice_append_slice h.start hstop h.stop (Nat.le_trans hfirst (Nat.le_of_lt hne)) hlast]

/-! ### Commas -/

namespace CommaLayout

variable {l : CommaLayout} {more : List Text}

/-- Elements that were neighbours keep the separators between them, and the last one keeps the tail. -/
theorem renderOver_kept (hseparators : ∀ i < more.length - 1, l.separators.getD i [] = more.getD i [])
    (htail : ∀ i, i + 1 = more.length → l.tail = more.getD i []) {es : List CommaEntry} {e : CommaEntry} {i : Nat}
    (hlength : i + 1 + es.length = more.length) (he : e.kept = some i)
    (hkept : es.map CommaEntry.kept = (List.range' (i + 1) es.length).map some) :
    l.renderOver (e :: es) ++ l.tail = e.text ++ weave (more.drop i) (es.map CommaEntry.text) := by
  induction es generalizing i e with
  | nil =>
    rw [htail i hlength, drop_eq_getD_cons (by omega)]
    rfl
  | cons f es ih =>
    simp only [List.map_cons, List.length_cons, List.range'_succ, List.cons.injEq] at hkept hlength
    obtain ⟨hf, hes⟩ := hkept
    have hseparator : l.separator e.kept f.kept = more.getD i [] := by
      rw [he, hf, separator, if_pos rfl, hseparators i (by omega)]
    rw [drop_eq_getD_cons (by omega), List.map_cons, weave, renderOver, hseparator]
    simp only [List.append_assoc]
    rw [ih (by omega) hf hes]

/-- Rendering all elements of a list that has some gives the gaps back. -/
theorem render_kept (t : Text) (region : Span) {spans : List Span} (hne : spans ≠ []) (newline : Newline)
    {es : List CommaEntry} (hkept : es.map CommaEntry.kept = (List.range spans.length).map some) :
    (ofRegion t region spans newline).render es =
      weave (gaps t region.start region.stop spans) (es.map CommaEntry.text) := by
  have hlength : es.length = spans.length := by simpa using congrArg List.length hkept
  obtain ⟨s, spans, rfl⟩ := List.exists_cons_of_ne_nil hne
  obtain ⟨e, es, rfl⟩ := List.exists_cons_of_length_eq_add_one hlength
  obtain ⟨m, ms, hmore⟩ : ∃ m ms, gaps t s.stop region.stop spans = m :: ms :=
    List.exists_cons_of_length_eq_add_one (length_gaps t s.stop region.stop spans)
  have hms := length_gaps t s.stop region.stop spans
  simp only [List.map_cons, List.length_cons, List.range_eq_range', List.range'_succ, List.cons.injEq]
    at hkept hlength
  obtain ⟨he, hes⟩ := hkept
  simp only [gaps, hmore, ofRegion] at hms ⊢
  generalize hl : CommaLayout.mk _ _ _ _ _ _ = l
  generalize m :: ms = more at hms hl ⊢
  have hseparators : ∀ i < more.length - 1, l.separators.getD i [] = more.getD i [] := by
    intro i hi
    have hi' : i < more.length := by omega
    simp [← hl, List.getD, hi, hi']
  have htail : ∀ i, i + 1 = more.length → l.tail = more.getD i [] := by
    intro i hi
    simp [← hl, List.getLast?_eq_getElem?, ← hi]
  have hcount : 0 + 1 + es.length = more.length := by omega
  have hrest := renderOver_kept hseparators htail hcount he (by rw [hes, Nat.add_right_cancel hlength])
  have hbare : l.bare = false := by simp [← hl]
  have hhead : l.head = t.slice region.start s.start := by simp [← hl]
  rw [render, hbare, hhead, List.append_assoc, hrest, List.map_cons, weave, List.drop_zero]
  simp only [List.isEmpty_cons, Bool.false_eq_true, if_false, List.append_assoc]

end CommaLayout

/-! ### Both layouts -/

/-- When the elements of a list are kept in order, what is rendered are their texts between the gaps of the region, for
a list of lines whatever its slots, indentations and breaks, and for a list with commas that has an element.  With the
texts that the elements had, it is the region. -/
theorem layouts_render_kept {t : Text} {region : Span} {spans : List Span} (h : Parts t region spans)
    (newline : Newline) :
    gaps t region.start region.stop spans =
      List.zipWith t.slice (region.start :: spans.map Span.stop) (spans.map Span.start ++ [region.stop]) ∧
    (∀ (es : List LineEntry) (inner outer : Text), es.map LineEntry.kept = (List.range spans.length).map some →
      (LineLayout.ofRegion t region spans inner newline).render es outer =
        weave (gaps t region.start region.stop spans) (es.map LineEntry.text) ∧
      (es.map LineEntry.text = spans.map (fun s => t.slice s.start s.stop) →
        (LineLayout.ofRegion t region spans inner newline).render es outer = t.slice region.start region.stop)) ∧
    (spans ≠ [] → ∀ es : List CommaEntry, es.map CommaEntry.kept = (List.range spans.length).map some →
      (CommaLayout.ofRegion t region spans newline).render es =
        weave (gaps t region.start region.stop spans) (es.map CommaEntry.text) ∧
      (es.map CommaEntry.text = spans.map (fun s => t.slice s.start s.stop) →
        (CommaLayout.ofRegion t region spans newline).render es = t.slice region.start region.stop)) := by
  refine ⟨gaps_eq_zipWith _ _ _ _, fun es inner outer hkept => ?_, fun hne es hkept => ?_⟩
  · have hrender := LineLayout.render_kept t region spans inner outer newline hkept
    refine ⟨hrender, fun htexts => ?_⟩
    rw [hrender, htexts, weave_slices h]
  · have hrender := CommaLayout.render_kept t region hne newline hkept
    refine ⟨hrender, fun htexts => ?_⟩
    rw [hrender, htexts, weave_slices h]

/-- Two elements with a break behind a comma and a comment behind the last one: new texts go between the gaps, and the
old ones give the region. -/
theorem layouts_render_kept_pair :
    Parts "[a,\r\n  b // c\n]".toList ⟨1, 14⟩ [⟨1, 2⟩, ⟨7, 8⟩] ∧
    (LineLayout.ofRegion "[a,\r\n  b // c\n]".toList ⟨1, 14⟩ [⟨1, 2⟩, ⟨7, 8⟩] [' '] .lf).render
      [⟨some 0, .block, "x".toList⟩, ⟨some 1, .group 2, "y".toList⟩] [] = "x,\r\n  y // c\n".toList ∧
    (CommaLayout.ofRegion "[a,\r\n  b // c\n]".toList ⟨1, 14⟩ [⟨1, 2⟩, ⟨7, 8⟩] .lf).render
      [⟨some 0, "a".toList⟩, ⟨some 1, "b".toList⟩] = "a,\r\n  b // c\n".toList := by
  have hcut : ∀ x ∈ [1, 2, 7, 8, 14], Text.IsCut "[a,\r\n  b // c\n]".toList x := by
    intro x hx
    -- All characters take one byte.
    refine ⟨"[a,\r\n  b // c\n]".toList.take x, _, (List.take_append_drop x _).symm, ?_⟩
    revert x
    decide
  have hends : ∀ s ∈ ([⟨1, 2⟩, ⟨7, 8⟩] : List Span), s.start ∈ [1, 2, 7, 8, 14] ∧ s.stop ∈ [1, 2, 7, 8, 14] := by
    decide
  have hparts : Parts "[a,\r\n  b // c\n]".toList ⟨1, 14⟩ [⟨1, 2⟩, ⟨7, 8⟩] :=
    ⟨hcut 1 (by decide), hcut 14 (by decide), by decide, by decide,
      fun s hs => ⟨hcut _ (hends s hs).1, hcut _ (hends s hs).2⟩, by decide⟩
  obtain ⟨-, hlines, hcommas⟩ := layouts_render_kept hparts .lf
  refine ⟨hparts, (hlines _ [' '] [] rfl).1.trans (by decide), ?_⟩
  exact ((hcommas (by decide) _ rfl).2 (by decide)).trans (by decide)

end Graft
