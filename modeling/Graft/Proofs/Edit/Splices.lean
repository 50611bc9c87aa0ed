/-
No splice leaves a patch out.

Whatever a changed node holds, its patches stand where the parser found the parts of the node that it is printed over:
the clause of interfaces before the body, the items of a property one behind the other, a value within its entry.  An
item is patched once, as no two items of a changed file have one id.  So every splice that is made while a file is
printed is sound, on each level, and in the text of members from snippets as well.

* `Page.Trace.sound_expr`, `Page.Trace.sound_classLike`, … — the splices of a node;
* `Arena.Grounded`, `grounded_prepareEach` — the members that are kept in the arena;
* `applyEach_splices` — the splices of a file that a queue was applied to.
-/
import Graft.Proofs.Edit.AddMethod
import Graft.Proofs.Edit.Provenance
import Graft.Proofs.Print.Splices

namespace Graft

/-! ### Places -/

section Places

variable {α : Type} [Placed α] {G : Ground} {t : Text} {region : Span} {x y e : Nat} {as : List α}

/-- The elements of a list stand between cuts. -/
theorem Spread.runs_mem (h : Spread t.Runs t.Runs x as e) (hy : t.Runs e y) :
    ∀ a ∈ as, t.Runs (span a).start (span a).stop := by
  induction as generalizing x with
  | nil => nofun
  | cons a as ih =>
    obtain ⟨-, hinside, -, hrest⟩ := h.runs_cons hy
    exact List.forall_mem_cons.2 ⟨hinside, ih hrest⟩

/-- A list of lines and its elements stand between cuts. -/
theorem Ground.Lines.places (h : G.Lines region as) (hcut : G.Cuts t) :
    t.Runs region.start region.stop ∧ ∀ a ∈ as, t.Runs (span a).start (span a).stop := by
  obtain ⟨e, hspread, hend⟩ := h.runs hcut
  exact ⟨hspread.runs hend, hspread.runs_mem hend⟩

/-- A list with commas and its elements stand between cuts. -/
theorem Ground.Commas.places (h : G.Commas region as) (hcut : G.Cuts t) :
    t.Runs region.start region.stop ∧ ∀ a ∈ as, t.Runs (span a).start (span a).stop := by
  obtain ⟨e, hspread, hend⟩ := h.runs hcut
  exact ⟨hspread.runs hend, hspread.runs_mem hend⟩

/-- The elements of a list with commas are apart from each other. -/
theorem Ground.Commas.apart (h : G.Commas region as) : as.Pairwise fun a b => (span a).Apart (span b) := by
  obtain ⟨e, hspread, -⟩ := h
  have hwithin := hspread.within G.le_of_blank G.le_of_comma
  refine (hspread.pairwise G.le_of_comma).imp_of_mem fun {a b} ha _ hab => ?_
  obtain ⟨-, hlt, -⟩ := hwithin a ha
  exact ⟨Nat.ne_of_lt (Nat.lt_of_lt_of_le hlt hab), .inl hab⟩

theorem Ground.Tells.runs {e : Expr} (h : G.Tells e) (hcut : G.Cuts t) (hle : e.span.start ≤ e.span.stop) :
    t.Runs e.span.start e.span.stop := ⟨hcut _ h.edges.1, hcut _ h.edges.2, hle⟩

end Places

/-! ### Members that are kept -/

/-- No id is that of two nodes. -/
def DistinctIds (ids : List (Option NodeId)) : Prop := (ids.filterMap id).Nodup

theorem DistinctIds.sublist {ids ids' : List (Option NodeId)} (h : DistinctIds ids) (hs : ids'.Sublist ids) :
    DistinctIds ids' := List.Nodup.sublist (hs.filterMap id) h

theorem DistinctIds.of_mem {α : Type} {f : α → List (Option NodeId)} {a : α} {as : List α}
    (h : DistinctIds (as.flatMap f)) (ha : a ∈ as) : DistinctIds (f a) :=
  h.sublist (List.sublist_flatten_of_mem (List.mem_map_of_mem ha))

/-- The members that are kept in the arena were read from text with cuts at its edges. -/
def Arena.Grounded (a : Arena) : Prop :=
  ∀ i m, a.fragment? i = some m → ∃ G : Ground, ∃ lo hi, G.Cuts a.text ∧ m.Laid G ∧ Fresh lo hi m.origins ∧
    a.text.Runs m.span.start m.span.stop

/-! ### Lists -/

namespace Page.Trace

variable {p : Page} {G : Ground} {t : Text}

/-- What is kept of a list is one of its elements. -/
theorem mem_of_kept {α : Type} {reference : List α} {kept : Option Nat} {other : α}
    (h : kept.bind (reference[·]?) = some other) : other ∈ reference := by
  obtain ⟨i, -, hi⟩ := Option.bind_eq_some_iff.1 h
  exact List.mem_of_getElem? hi

section Lists

variable {α : Type} [Placed α] [BEq α] {working reference : List α}

theorem sound_lineList {style : TraceStyle α} (hchanged : ∀ w ∈ working, ∀ r ∈ reference, (style.changed w r).Sound t)
    (hinserted : ∀ indent, ∀ w ∈ working, (style.inserted indent w).Sound t) (region : Span) (outer inner : Text) :
    (lineList p style region outer inner working reference).Sound t := by
  refine Traced.Sound.bind (Traced.sound_each fun w hw => ?_) (Traced.sound_pure _)
  refine Traced.Sound.bind ?_ (Traced.sound_pure _)
  split
  · rename_i other hother
    split
    · exact Traced.sound_pure _
    · exact hchanged w hw other (mem_of_kept hother)
  · exact hinserted _ w hw

theorem sound_commaEntry {changed : α → Traced Text} (h : ∀ r ∈ reference, (changed r).Sound t) (fresh : Text)
    (node : α) : (commaEntry p changed fresh reference node).Sound t := by
  refine Traced.Sound.bind ?_ (Traced.sound_pure _)
  split
  · rename_i other hother
    split
    · exact Traced.sound_pure _
    · exact h other (mem_of_kept hother)
  · exact Traced.sound_pure _

end Lists

/-! ### Expressions -/

mutual

theorem sound_expr (hcut : G.Cuts p.arena.text) (w r : Expr) (hr : r.Arranged G)
    (hspan : p.arena.text.Runs r.span.start r.span.stop) : (expr p w r).Sound p.arena.text := by
  rw [expr_eq]
  split
  · exact Traced.sound_pure _
  · split
    · exact Traced.sound_pure _
    · cases w with
      | array a =>
        cases r with
        | array b => exact sound_array hcut a b hr hspan
        | _ => exact Traced.sound_pure _
      | _ => exact Traced.sound_pure _
termination_by structural w

theorem sound_array (hcut : G.Cuts p.arena.text) (w r : ArrayLit Expr) (hr : (Expr.array r).Arranged G)
    (hspan : p.arena.text.Runs r.span.start r.span.stop) : (array p w r).Sound p.arena.text := by
  obtain ⟨hregion, hcommas, hlaid⟩ := Expr.arranged_array.1 hr
  obtain ⟨hruns, hplaces⟩ := hcommas.places hcut
  cases w with
  | mk _ _ _ _ items =>
    have hitems := sound_arrayItems hcut items fun i hi => ⟨ArrayItem.laidAll_iff.1 hlaid i hi, hplaces i hi⟩
    rw [array]
    exact hitems.bind (Traced.sound_splice (.singleton hspan hruns hregion _))
termination_by structural w

theorem sound_arrayItems (hcut : G.Cuts p.arena.text) (is : List (ArrayItem Expr)) {rs : List (ArrayItem Expr)}
    (hrs : ∀ r ∈ rs, r.Laid G ∧ p.arena.text.Runs r.span.start r.span.stop) :
    (arrayItems p is rs).Sound p.arena.text := by
  cases is with
  | nil => exact Traced.sound_pure _
  | cons i is =>
    have hitem : ∀ r ∈ rs, (arrayItem p i r).Sound p.arena.text := fun r hr =>
      sound_arrayItem hcut i r (hrs r hr).1 (hrs r hr).2
    rw [arrayItems]
    exact (sound_commaEntry hitem _ i).bind ((sound_arrayItems hcut is hrs).bind (Traced.sound_pure _))
termination_by structural is

theorem sound_arrayItem (hcut : G.Cuts p.arena.text) (w r : ArrayItem Expr) (hr : r.Laid G)
    (hspan : p.arena.text.Runs r.span.start r.span.stop) : (arrayItem p w r).Sound p.arena.text := by
  obtain ⟨hwithin, htells, harranged⟩ : r.value.span.Within r.span ∧ G.Tells r.value ∧ r.value.Arranged G := by
    cases r
    exact hr.2
  have hvalue := htells.runs hcut hwithin.2.1
  cases w with
  | mk origin span key value byRef unpack =>
    rw [arrayItem]
    split
    · exact (sound_expr hcut value r.value harranged hvalue).bind
        (Traced.sound_splice (.singleton hspan hvalue hwithin _))
    · exact Traced.sound_pure _
termination_by structural w

end

/-! ### Items of properties -/

section Items

variable {rs ws : List PropertyItem}

/-- The patch of an item stands at the item with the same origin. -/
theorem exists_of_itemPatch? {w : PropertyItem} {q : Patch} (h : (itemPatch? p rs w).value = some q) :
    ∃ r ∈ rs, r.origin = w.origin ∧ q.span = r.span := by
  rw [value_itemPatch?] at h
  obtain ⟨r, hfind, hq⟩ := Option.bind_eq_some_iff.1 h
  have hfound := List.find?_some hfind
  split at hq
  · cases hq
  · cases hq
    exact ⟨r, List.mem_of_find?_eq_some hfind, beq_iff_eq.1 hfound, rfl⟩

theorem exists_of_mem_itemPatches {q : Patch} (h : q ∈ (Traced.each (itemPatch? p rs) ws).value.filterMap id) :
    ∃ r ∈ rs, q.span = r.span := by
  obtain ⟨q?, hq, rfl⟩ := List.mem_filterMap.1 h
  obtain ⟨w, -, hw⟩ := List.mem_map.1 hq
  obtain ⟨r, hr, -, hspan⟩ := exists_of_itemPatch? hw
  exact ⟨r, hr, hspan⟩

/-- The patches of items with different ids are apart from each other. -/
theorem apart_itemPatches (hrs : rs.Pairwise fun a b => (Placed.span a).Apart (Placed.span b))
    (hsome : ∀ r ∈ rs, r.origin.isSome) (hws : DistinctIds (ws.map Placed.origin)) :
    ((Traced.each (itemPatch? p rs) ws).value.filterMap id).Pairwise Patch.Apart := by
  have : Std.Symm fun a b : PropertyItem => (Placed.span a).Apart (Placed.span b) := ⟨fun _ _ => Span.Apart.symm⟩
  rw [DistinctIds, List.filterMap_map, List.Nodup, List.pairwise_filterMap] at hws
  rw [Traced.each, List.filterMap_map, List.pairwise_filterMap]
  refine hws.imp fun {w w'} hne q hq q' hq' => ?_
  obtain ⟨r, hr, horigin, hspan⟩ := exists_of_itemPatch? hq
  obtain ⟨r', hr', horigin', hspan'⟩ := exists_of_itemPatch? hq'
  obtain ⟨i, hi⟩ := Option.isSome_iff_exists.1 (hsome r hr)
  show q.span.Apart q'.span
  rw [hspan, hspan']
  refine hrs.forall hr hr' fun heq => ?_
  -- One item would be the counterpart of two that have its id.
  exact hne i (horigin.symm.trans hi) i (horigin'.symm.trans (heq ▸ hi)) rfl

end Items

/-! ### Members -/

section Nodes

variable (hcut : G.Cuts p.arena.text)

include hcut

theorem sound_returnStmt (w : ReturnStmt) {r : ReturnStmt} (hr : r.Laid G)
    (hspan : p.arena.text.Runs r.span.start r.span.stop) : (returnStmt p w r).Sound p.arena.text := by
  unfold returnStmt
  split
  · rename_i value before _ hbefore
    obtain ⟨hwithin, htells, harranged⟩ := hr before hbefore
    have hvalue := htells.runs hcut hwithin.2.1
    exact (sound_expr hcut value before harranged hvalue).bind
      (Traced.sound_splice (.singleton hspan hvalue hwithin _))
  · exact Traced.sound_pure _

theorem sound_body (b : List BodyStmt) {r : Block} (hr : r.Laid G) (outer inner : Text) :
    (lineList p (bodyStyle p) r.body outer inner b r.stmts).Sound p.arena.text := by
  obtain ⟨-, hlines, hlaid⟩ := hr
  obtain ⟨-, hplaces⟩ := hlines.places hcut
  refine sound_lineList (fun w _ s hs => ?_) (fun _ w _ => ?_) _ _ _
  · cases w with
    | ret w =>
      cases s with
      | ret r => exact sound_returnStmt hcut w (hlaid _ hs) (hplaces _ hs)
      | other r => exact Traced.sound_pure _
    | other w => exact Traced.sound_pure _
  · cases w <;> exact Traced.sound_pure _

theorem sound_method (w : Method) {r : Method} (hr : r.Laid G) (hspan : p.arena.text.Runs r.span.start r.span.stop) :
    (method p w r).Sound p.arena.text := by
  obtain ⟨-, hbody, -⟩ := hr
  unfold method
  split
  · rename_i body before _ hbefore
    obtain ⟨hwithin, hlaid⟩ := hbody before hbefore
    have hruns := (hlaid.2.1.places hcut).1
    have hin : before.body.Within r.span := hlaid.1.widen hwithin.1 hwithin.2.2
    split
    · exact Traced.Sound.splice (Traced.sound_pure _) (.nil hspan)
    · have hlist := sound_body hcut body.stmts hlaid (lineIndent p.arena.text r.span.start)
        (deeper (lineIndent p.arena.text r.span.start))
      exact Traced.Sound.splice (hlist.bind (Traced.sound_pure _)) (.singleton hspan hruns hin _)
  · exact Traced.Sound.splice (Traced.sound_pure _) (.nil hspan)

theorem sound_propertyItem (w : PropertyItem) {r : PropertyItem} (hr : r.Laid G)
    (hspan : p.arena.text.Runs r.span.start r.span.stop) : (propertyItem p w r).Sound p.arena.text := by
  obtain ⟨hname, hedge, hdefault⟩ := hr
  have hfront := Nat.le_trans hname.1 hname.2.1
  unfold propertyItem
  split
  · rename_i value before _ hbefore
    obtain ⟨hwithin, htells, harranged⟩ := hdefault before hbefore
    have hvalue := htells.runs hcut hwithin.2.1
    have hin : before.span.Within r.span := hwithin.widen hfront (Nat.le_refl _)
    have hexpr := sound_expr hcut value before harranged hvalue
    exact Traced.Sound.splice (hexpr.bind (Traced.sound_pure _)) (.singleton hspan hvalue hin _)
  · -- A default is added where the item ends.
    have hpoint : (Span.point r.span.stop).Within r.span := ⟨hspan.2.2, Nat.le_refl _, Nat.le_refl _⟩
    have hruns : p.arena.text.Runs r.span.stop r.span.stop := ⟨hspan.2.1, hspan.2.1, Nat.le_refl _⟩
    exact Traced.Sound.splice (Traced.sound_pure _) (.singleton (q := .point r.span.stop) hspan hruns hpoint _)
  · -- A default is removed with what stands before it.
    rename_i before _ hbefore
    obtain ⟨hwithin, htells, -⟩ := hdefault before hbefore
    have hle : r.name.span.stop ≤ before.span.stop := Nat.le_trans hwithin.1 hwithin.2.1
    have hruns : p.arena.text.Runs r.name.span.stop before.span.stop := ⟨hcut _ hedge, hcut _ htells.edges.2, hle⟩
    have hin : Span.Within ⟨r.name.span.stop, before.span.stop⟩ r.span := ⟨hfront, hle, hwithin.2.2⟩
    exact Traced.Sound.splice (Traced.sound_pure _)
      (.singleton (q := ⟨r.name.span.stop, before.span.stop⟩) hspan hruns hin _)
  · exact Traced.Sound.splice (Traced.sound_pure _) (.nil hspan)

theorem sound_property {w r : Property} {lo hi : Nat} (hr : r.Laid G)
    (hspan : p.arena.text.Runs r.span.start r.span.stop) (hids : Fresh lo hi r.origins) (hw : DistinctIds w.origins) :
    (property p w r).Sound p.arena.text := by
  obtain ⟨⟨region, hregion, hcommas⟩, hlaid⟩ := hr
  obtain ⟨-, hplaces⟩ := hcommas.places hcut
  have hwithin : ∀ i ∈ r.items, i.span.Within r.span := fun i hi =>
    (hcommas.within i hi).widen hregion.1 hregion.2.2
  have hroots : ∀ i : PropertyItem, Placed.origin i ∈ i.origins := fun _ => List.mem_cons_self
  have hsome : ∀ i ∈ r.items, i.origin.isSome := (hids.right.roots hroots).2
  have hdistinct : DistinctIds (w.items.map Placed.origin) :=
    hw.sublist ((sublist_map_origin hroots w.items).trans (List.sublist_append_right _ _))
  refine Traced.Sound.bind (Traced.sound_each fun i _ => ?_) (Traced.sound_splice ⟨hspan, ?_, ?_, ?_⟩)
  · unfold itemPatch?
    split
    · exact Traced.sound_pure _
    · rename_i before hfind
      have hbefore := List.mem_of_find?_eq_some hfind
      split
      · exact Traced.sound_pure _
      · exact (sound_propertyItem hcut i (hlaid before hbefore) (hplaces before hbefore)).bind (Traced.sound_pure _)
  · intro q hq
    obtain ⟨i, hi, hqi⟩ := exists_of_mem_itemPatches hq
    exact hqi ▸ hwithin i hi
  · intro q hq
    obtain ⟨i, hi, hqi⟩ := exists_of_mem_itemPatches hq
    obtain ⟨hstart, hstop, -⟩ := hplaces i hi
    exact hqi ▸ ⟨hstart, hstop⟩
  · exact apart_itemPatches hcommas.apart hsome hdistinct

theorem sound_traitUse (w : TraitUse) {r : TraitUse} (hr : r.Laid G)
    (hspan : p.arena.text.Runs r.span.start r.span.stop) : (traitUse p w r).Sound p.arena.text := by
  obtain ⟨hregion, hcommas, -⟩ := hr
  exact Traced.sound_splice (.singleton hspan (hcommas.places hcut).1 hregion _)

theorem sound_member {w r : Member} {lo hi : Nat} (hr : r.Laid G)
    (hspan : p.arena.text.Runs r.span.start r.span.stop) (hids : Fresh lo hi r.origins) (hw : DistinctIds w.origins) :
    (member p w r).Sound p.arena.text := by
  cases w with
  | traitUse w =>
    cases r with
    | traitUse r => exact sound_traitUse hcut w hr hspan
    | _ => exact Traced.sound_pure _
  | property w =>
    cases r with
    | property r => exact sound_property hcut hr hspan hids hw
    | _ => exact Traced.sound_pure _
  | method w =>
    cases r with
    | method r => exact sound_method hcut w hr hspan
    | _ => exact Traced.sound_pure _
  | other w => exact Traced.sound_pure _

/-! ### Classes and imports -/

/-- The patch of the interfaces stands before the body of the class. -/
theorem sound_interfacesPatch (w : ClassLike) {r : ClassLike} (hr : r.Laid G)
    (hspan : p.arena.text.Runs r.span.start r.span.stop) :
    Splicing.Sound p.arena.text ⟨r.span, p.interfacesPatch w r⟩ ∧
      ∀ q ∈ p.interfacesPatch w r, q.span.start ≤ q.span.stop ∧ q.span.stop < r.body.start := by
  obtain ⟨-, -, hstart, -, hlt, -⟩ := hr.runs_clause hcut
  obtain ⟨-, hbody, hstop⟩ := hr.body
  rcases p.interfacesPatch_cases w hr hcut with hnone | ⟨q, hone, hbefore, hq, hbehind⟩
  · rw [hnone]
    exact ⟨.nil hspan, nofun⟩
  · have hqlt : q.span.stop < r.body.start := Nat.lt_of_le_of_lt hbehind.2.2 hlt
    have hin : q.span.Within r.span := ⟨Nat.le_trans hstart hbefore.2.2, hq.2.2, by omega⟩
    rw [hone]
    exact ⟨.singleton hspan hq hin q.text, List.forall_mem_singleton.2 ⟨hq.2.2, hqlt⟩⟩

theorem sound_importDecl (w : Import) {r : Import} (hr : r.Laid G)
    (hspan : p.arena.text.Runs r.span.start r.span.stop) : (importDecl p w r).Sound p.arena.text := by
  unfold importDecl
  split
  · exact Traced.sound_splice (.singleton hspan (hr.commas.places hcut).1 hr.region _)
  · exact Traced.sound_pure _

end Nodes

/-! ### Nodes with members -/

section Pages

variable (hkept : p.arena.Grounded)

include hkept

theorem sound_insertedMember (indent : Text) {w : Member} (hw : DistinctIds w.origins) :
    (insertedMember p indent w).Sound p.arena.text := by
  unfold insertedMember
  split
  · exact Traced.sound_pure _
  · refine Traced.Sound.bind ?_ (Traced.sound_pure _)
    split
    · rename_i fragment hfragment
      obtain ⟨G, lo, hi, hcut, hlaid, hids, hspan⟩ := hkept _ _ hfragment
      split
      · exact Traced.sound_pure _
      · exact sound_member hcut hlaid hspan hids hw
    · exact Traced.sound_pure _

variable (hcut : G.Cuts p.arena.text)

include hcut

theorem sound_membersPatch {w r : ClassLike} {lo hi : Nat} (hr : r.Laid G) (hids : Fresh lo hi r.origins)
    (hw : DistinctIds w.origins) : (membersPatch p w r).Sound p.arena.text := by
  obtain ⟨-, hplaces⟩ := hr.lines.places hcut
  have hmembers : DistinctIds (w.members.flatMap Member.origins) := hw.sublist (List.sublist_append_right _ _)
  unfold membersPatch
  split
  · exact Traced.sound_pure _
  · refine Traced.Sound.bind (sound_lineList (fun m hm n hn => ?_) (fun indent m hm => ?_) _ _ _) (Traced.sound_pure _)
    · exact sound_member hcut (hr.members n hn) (hplaces n hn) (hids.right.of_mem hn) (hmembers.of_mem hm)
    · exact sound_insertedMember hkept indent (hmembers.of_mem hm)

theorem sound_classLike {w r : ClassLike} {lo hi : Nat} (hr : r.Laid G)
    (hspan : p.arena.text.Runs r.span.start r.span.stop) (hids : Fresh lo hi r.origins) (hw : DistinctIds w.origins) :
    (classLike p w r).Sound p.arena.text := by
  obtain ⟨hinterfaces, hbefore⟩ := sound_interfacesPatch hcut w hr hspan
  have hbody := (hr.lines.places hcut).1
  refine Traced.Sound.bind (sound_membersPatch hkept hcut hr hids hw) (Traced.sound_splice ?_)
  rw [value_membersPatch]
  rcases p.membersPatch_cases w r with hnone | ⟨text, hone⟩
  · rw [hnone, List.append_nil]
    exact hinterfaces
  · rw [hone]
    refine hinterfaces.append (.singleton hspan hbody hr.body text) fun q hq q' hq' => ?_
    obtain ⟨hle, hlt⟩ := hbefore q hq
    rw [List.mem_singleton.1 hq']
    exact ⟨Nat.ne_of_lt (Nat.lt_of_le_of_lt hle hlt), .inl (Nat.le_of_lt hlt)⟩

theorem sound_stmt {w r : Stmt} {lo hi : Nat} (hr : r.Laid G) (hspan : p.arena.text.Runs r.span.start r.span.stop)
    (hids : Fresh lo hi r.origins) (hw : DistinctIds w.origins) : (stmt p w r).Sound p.arena.text := by
  cases w with
  | imports w =>
    cases r with
    | imports r => exact sound_importDecl hcut w hr hspan
    | _ => exact Traced.sound_pure _
  | classLike w =>
    cases r with
    | classLike r => exact sound_classLike hkept hcut hr hspan hids hw
    | _ => exact Traced.sound_pure _
  | ret w =>
    cases r with
    | ret r => exact sound_returnStmt hcut w hr hspan
    | _ => exact Traced.sound_pure _
  | declare w => exact Traced.sound_pure _
  | other w => exact Traced.sound_pure _

theorem sound_namespaceDecl {w r : Namespace} {lo hi : Nat} (hr : r.Laid G)
    (hspan : p.arena.text.Runs r.span.start r.span.stop) (hids : Fresh lo hi r.origins) (hw : DistinctIds w.origins) :
    (namespaceDecl p w r).Sound p.arena.text := by
  obtain ⟨hruns, hplaces⟩ := hr.lines.places hcut
  have hstmts : DistinctIds (w.stmts.flatMap Stmt.origins) := hw.sublist (List.sublist_append_right _ _)
  refine Traced.Sound.bind (sound_lineList (fun s hs s' hs' => ?_) (fun _ s _ => Traced.sound_pure _) _ _ _)
    (Traced.sound_splice (.singleton hspan hruns hr.body _))
  exact sound_stmt hkept hcut (hr.stmts s' hs') (hplaces s' hs') (hids.right.of_mem hs') (hstmts.of_mem hs)

theorem sound_topStmt {w r : TopStmt} {lo hi : Nat} (hr : r.Laid G)
    (hspan : p.arena.text.Runs r.span.start r.span.stop) (hids : Fresh lo hi r.origins) (hw : DistinctIds w.origins) :
    ((topStyle p).changed w r).Sound p.arena.text := by
  cases w with
  | inside w =>
    cases r with
    | inside r => exact sound_namespaceDecl hkept hcut hr hspan hids hw
    | plain r => exact Traced.sound_pure _
  | plain w =>
    cases r with
    | inside r => exact Traced.sound_pure _
    | plain r => exact sound_stmt hkept hcut hr hspan hids hw

end Pages

end Page.Trace

/-! ### Files -/

/-- A changed file is printed with sound splices. -/
theorem File.sound_trace {w r : File} {a : Arena} {G : Ground} {lo hi : Nat} (hkept : a.Grounded)
    (hcut : G.Cuts a.text) (hr : r.Laid G) (hspan : a.text.Runs r.span.start r.span.stop)
    (hids : Fresh lo hi r.origins) (hw : DistinctIds w.origins) : (w.trace r a).Sound a.text := by
  obtain ⟨hruns, hplaces⟩ := hr.lines.places hcut
  have hstmts : DistinctIds (w.stmts.flatMap TopStmt.origins) := hw.sublist (List.sublist_append_right _ _)
  unfold trace
  split
  · exact Traced.sound_pure _
  · refine Traced.Sound.bind ?_ (Traced.sound_splice (.singleton hspan hruns hr.body _))
    refine Page.Trace.sound_lineList (fun s hs s' hs' => ?_) (fun _ s _ => Traced.sound_pure _) _ _ _
    exact Page.Trace.sound_topStmt (p := ⟨a, _⟩) hkept hcut (hr.stmts s' hs') (hplaces s' hs') (hids.right.of_mem hs')
      (hstmts.of_mem hs)

/-! ### Arenas -/

namespace Arena

variable {a b : Arena} {f : File}

/-- Text that is appended leaves the cuts where they are. -/
theorem Grounded.append {t : Text} (h : a.Grounded) (htext : b.text = a.text ++ t)
    (hfragments : ∀ i m, b.fragment? i = some m → a.fragment? i = some m) : b.Grounded := by
  intro i m hm
  obtain ⟨G, lo, hi, hcut, hlaid, hids, hspan⟩ := h i m (hfragments i m hm)
  rw [htext]
  exact ⟨G, lo, hi, fun x hx => (hcut x hx).append t, hlaid, hids, hspan.1.append t, hspan.2.1.append t, hspan.2.2⟩

theorem grounded_parseFile {t : Text} : (empty.parseFile t).2.Grounded := by
  intro i m hm
  rw [fragment?, fragments_parseFile] at hm
  cases hm

/-- A method that is read from a snippet and kept. -/
theorem Grounded.register {code : Text} {m : Method} (ha : a.Grounded) (h : a.parseMethod code = (.ok (some m), b)) :
    (b.register (.method m)).Grounded := by
  have htext : b.text = a.text ++ wrapMethod code := by
    have htext := a.text_parseMethod code
    rwa [h] at htext
  have hfragments : b.fragments = a.fragments := by
    have hsnd := congrArg Arena.fragments (a.parseMethod_snd code)
    rwa [h, fragments_parseFile] at hsnd
  have hb : b.Grounded := ha.append htext fun i n hn => by rwa [fragment?, hfragments] at hn
  intro i n hn
  rw [fragment?_register_eq] at hn
  rw [text_register]
  split at hn
  · cases hn
    obtain ⟨hlaid, hstart, hstop, hlt⟩ := edges_of_parseMethod h
    have hcut : (a.ground (wrapMethod code)).Cuts b.text := fun x hx => htext ▸ isCut_of_edge hx
    exact ⟨_, _, _, hcut, hlaid, fresh_parseMethod h, hcut _ hstart, hcut _ hstop, Nat.le_of_lt hlt⟩
  · exact hb i n hn

end Arena

variable {f : File} {a b c : Arena}

theorem PreparedEdit.grounded_prepare {q p : PreparedEdit} (ha : a.Grounded) (h : q.prepare f a = (.ok p, b)) :
    b.Grounded := by
  unfold prepare at h
  split at h
  · split at h
    · cases h
    · cases h
    · rename_i hm
      cases h
      exact ha.register hm
  · obtain ⟨-, rfl⟩ := Prod.mk.inj h
    exact ha

/-- A queue that is prepared. -/
theorem grounded_prepareEach {qs ps : List PreparedEdit} (ha : a.Grounded) (h : prepareEach f qs a = .ok (ps, b)) :
    b.Grounded ∧ ∃ t, b.text = a.text ++ t := by
  induction qs generalizing a ps with
  | nil =>
    cases h
    exact ⟨ha, [], (List.append_nil _).symm⟩
  | cons q qs ih =>
    obtain ⟨p, c, ps', hp, hps', rfl⟩ := prepareEach_cons_eq_ok.1 h
    obtain ⟨-, -, t, ht⟩ := PreparedEdit.prepare_eq_ok hp
    obtain ⟨hb, u, hu⟩ := ih (PreparedEdit.grounded_prepare ha hp) hps'
    exact ⟨hb, t ++ u, by rw [hu, ht, List.append_assoc]⟩

/-! ### Queues -/

/-- No two nodes of a file that a queue was run on have one id. -/
theorem distinctIds_runAll {t : Text} {qs ps : List PreparedEdit} (hparse : a.parseFile t = (.ok f, b))
    (hprepare : prepareEach f qs b = .ok (ps, c)) : DistinctIds (runAll ps f).origins := by
  rw [DistinctIds, ← File.map_origin_stamps, List.filterMap_map]
  exact nodup_runAll hparse hprepare (List.append_nil ps).symm

/-- The file that was read stands between cuts, and so do its tokens, when more text follows. -/
theorem cuts_parseFile {source u : Text} (hparse : Arena.empty.parseFile source = (.ok f, a))
    (hb : b.text = a.text ++ u) :
    (Arena.empty.ground source).Cuts b.text ∧ b.text.Runs f.span.start f.span.stop := by
  have htext : a.text = source := by
    have htext := Arena.empty.text_parseFile source
    rwa [hparse] at htext
  obtain ⟨-, hspan, -⟩ := Arena.laid_of_parseFile hparse
  have hsize : Arena.empty.text.size + source.size = source.size := Nat.zero_add _
  have hstop : Text.IsCut (source ++ u) source.size := (Text.isCut_size source).append u
  rw [hb, htext, hspan, hsize]
  refine ⟨fun x hx => ?_, Text.isCut_zero _, hstop, Nat.zero_le _⟩
  have hpush : Text.IsCut source x := Arena.isCut_of_edge hx
  exact hpush.append u

/-- When a queue is applied to a file, none of the patches in any splice is left out, in whatever order they were
collected. -/
theorem applyEach_splices {source out : Text} {queue : List PreparedEdit} (h : applyEach source queue = .ok out) :
    ∃ f a ps b, Arena.empty.parseFile source = (.ok f, a) ∧ prepareEach f queue a = .ok (ps, b) ∧
      ((runAll ps f).trace f b).value = out ∧
      ∀ s ∈ ((runAll ps f).trace f b).made, ∀ qs, qs.Perm s.patches → s.Kept b.text qs := by
  unfold applyEach at h
  split at h
  · cases h
  · rename_i f a hparse
    obtain ⟨⟨ps, b⟩, hprepare, hprint⟩ := except_map_eq_ok.1 h
    have ha : a.Grounded := by
      have hgrounded := Arena.grounded_parseFile (t := source)
      rwa [hparse] at hgrounded
    obtain ⟨hlaid, -, hids⟩ := Arena.laid_of_parseFile hparse
    obtain ⟨hb, u, hu⟩ := grounded_prepareEach ha hprepare
    obtain ⟨hcut, hfile⟩ := cuts_parseFile hparse hu
    have hsound := File.sound_trace hb hcut hlaid hfile hids (distinctIds_runAll hparse hprepare)
    exact ⟨f, a, ps, b, hparse, hprepare, (File.value_trace _ f b).trans hprint, fun s hs qs hqs => (hsound s hs).kept hqs⟩

/-- A class gets an interface and two of its arrays an entry each: two splices have two patches. -/
theorem applyEach_splices_class :
    ∃ f a ps b, Arena.empty.parseFile "<?php\nclass A \x7b var $x = [1], $y = [2]; \x7d".toList = (.ok f, a) ∧
      prepareEach f [.ofEdit (.addInterface "B".toList), .ofEdit (.addToArray "x".toList none (.int 3)),
        .ofEdit (.addToArray "y".toList none (.int 4))] a = .ok (ps, b) ∧
      ((runAll ps f).trace f b).value =
        "<?php\nclass A implements B \x7b var $x = [1, 3], $y = [2, 4]; \x7d".toList ∧
      ((runAll ps f).trace f b).made.map (fun s => s.patches.map Patch.span) =
        [[⟨26, 27⟩], [⟨25, 28⟩], [⟨36, 37⟩], [⟨35, 38⟩], [⟨20, 28⟩, ⟨30, 38⟩], [⟨13, 13⟩, ⟨15, 40⟩], [⟨5, 41⟩]] ∧
      ∀ s ∈ ((runAll ps f).trace f b).made, s.Kept b.text s.patches.reverse := by
  have happly : (applyEach "<?php\nclass A \x7b var $x = [1], $y = [2]; \x7d".toList
      [.ofEdit (.addInterface "B".toList), .ofEdit (.addToArray "x".toList none (.int 3)),
        .ofEdit (.addToArray "y".toList none (.int 4))]).toOption =
      some "<?php\nclass A implements B \x7b var $x = [1, 3], $y = [2, 4]; \x7d".toList := by decide +kernel
  obtain ⟨f, a, ps, b, hparse, hprepare, hvalue, hkept⟩ := applyEach_splices (eq_ok_of_toOption happly)
  have hmade : (Arena.empty.parseFile "<?php\nclass A \x7b var $x = [1], $y = [2]; \x7d".toList).1.toOption.bind
      (fun f => (prepareEach f [.ofEdit (.addInterface "B".toList), .ofEdit (.addToArray "x".toList none (.int 3)),
          .ofEdit (.addToArray "y".toList none (.int 4))]
        (Arena.empty.parseFile "<?php\nclass A \x7b var $x = [1], $y = [2]; \x7d".toList).2).toOption.map fun r =>
          ((runAll r.1 f).trace f r.2).made.map fun s => s.patches.map Patch.span) =
      some [[⟨26, 27⟩], [⟨25, 28⟩], [⟨36, 37⟩], [⟨35, 38⟩], [⟨20, 28⟩, ⟨30, 38⟩], [⟨13, 13⟩, ⟨15, 40⟩], [⟨5, 41⟩]] := by
    decide +kernel
  simp only [hparse, Except.toOption, Option.bind_some, hprepare, Option.map_some, Option.some.injEq] at hmade
  exact ⟨f, a, ps, b, hparse, hprepare, hvalue, hmade, fun s hs => hkept s hs _ s.patches.reverse_perm⟩

end Graft
