/-
Nodes printed around text that was put between.

A tree without a node on both sides of an insertion is printed over a tree on one side as both are, relocated, printed
on the page with the insertion.

* `Opens.expr`, `Opens.member`, `Opens.stmt`, … — nodes;
* `File.print_insertion` — files.
-/
import Mathlib.Data.List.Basic
import Graft.Proofs.Print.Insertion

namespace Graft

namespace Page

/-- The patch of the item with the origin of `item`, if that one changed. -/
def itemPatch? (p : Page) (rs : List PropertyItem) (item : PropertyItem) : Option Patch :=
  (rs.find? (·.origin == item.origin)).bind fun before =>
    if item == before then none else some ⟨before.span, p.propertyItem item before⟩

theorem property_eq (p : Page) (w r : Property) :
    p.property w r = splice p.arena.text r.span (w.items.filterMap (p.itemPatch? r.items)) := rfl

/-- An array that changed is printed over an array, another expression from its value. -/
theorem expr_eq (p : Page) (w r : Expr) : p.expr w r =
    if w == r then p.copy r
    else if w.origin.isNone || w.origin != r.origin then p.freshExpr w
    else match w, r with
      | .array a, .array b => p.array a b
      | w, _ => p.literal w := by
  cases w <;> cases r <;> rfl

end Page

/-! ### Nodes that are written anew -/

section Texts

variable {φ : Relocation}

theorem map_text_relocate (ns : List Name) : (ns.map (Name.relocate φ)).map Name.text = ns.map Name.text := by
  rw [List.map_map]
  rfl

theorem TraitUse.toText_relocate (c : TraitUse) : (c.relocate φ).toText = c.toText := by
  show "use ".toList ++ Text.join [',', ' '] ((c.names.map (Name.relocate φ)).map Name.text) ++ [';'] = _
  rw [map_text_relocate]
  rfl

theorem ImportItem.toText_relocate (i : ImportItem) : (i.relocate φ).toText = i.toText := by
  obtain ⟨origin, span, kind, name, localName⟩ := i
  cases localName <;> rfl

theorem Import.toText_relocate (d : Import) : (d.relocate φ).toText = d.toText := by
  obtain ⟨origin, span, kind, stem, region, items⟩ := d
  have hitems : (items.map (ImportItem.relocate φ)).map ImportItem.toText = items.map ImportItem.toText := by
    rw [List.map_map]
    exact List.map_congr_left fun i _ => i.toText_relocate
  unfold toText relocate
  rw [hitems]
  cases stem <;> rfl

end Texts

namespace Insertion

/-! ### Nodes that move -/

theorem movable_name : Movable Name.relocate := ⟨Name.relocates, fun hφ _ _ => beq_of_iff hφ.name_iff⟩

theorem movable_arrayItem : Movable ArrayItem.relocate := ⟨ArrayItem.relocates, fun hφ => ArrayItem.same_relocate hφ⟩

theorem movable_bodyStmt : Movable BodyStmt.relocate := ⟨BodyStmt.relocates, fun hφ => BodyStmt.beq_relocate hφ⟩

theorem movable_member : Movable Member.relocate := ⟨Member.relocates, fun hφ => Member.beq_relocate hφ⟩

theorem movable_importItem : Movable ImportItem.relocate :=
  ⟨ImportItem.relocates, fun hφ _ _ => beq_of_iff hφ.importItem_iff⟩

theorem movable_stmt : Movable Stmt.relocate := ⟨Stmt.relocates, fun hφ => Stmt.beq_relocate hφ⟩

variable {g : Insertion} {p p' : Page} {c : Side}

theorem on_span {α : Type} [Placed α] {f : Relocation → α → α} (hf : ∀ φ, Relocates φ (f φ)) {r : α}
    (hr : f (g.side c) r = r) : g.On c (span r) :=
  on_of_side (((hf (g.side c)).span r).symm.trans (congrArg span hr))

namespace Opens

theorem copy_side (h : g.Opens p p') {α : Type} [Placed α] {f : Relocation → α → α} (hf : ∀ φ, Relocates φ (f φ)) {r : α}
    (hr : f (g.side c) r = r) : p'.copy (f g.map r) = p.copy r := by
  unfold Page.copy
  rw [(hf g.map).span, h.slice_span (on_span hf hr)]

/-- One patch of a node on one side. -/
theorem patch_one (h : g.Opens p p') {α : Type} [Placed α] {f : Relocation → α → α} (hf : ∀ φ, Relocates φ (f φ)) {r : α}
    (hr : f (g.side c) r = r) {t : Span} (ht : g.On c t) {new new' : Text} (hnew : new' = new) :
    p'.patch (f g.map r) [⟨g.map.span t, new'⟩] = p.patch r [⟨t, new⟩] := by
  unfold Page.patch
  rw [(hf g.map).span, h.splice_one (on_span hf hr) ht hnew]

/-! ### Expressions from their values -/

mutual

theorem literal (h : g.Opens p p') (e : Expr) (he : e.relocate g.apart = e) :
    p'.literal (e.relocate g.map) = p.literal e := by
  cases e with
  | array a => exact freshArray h a (Expr.array.inj he)
  | other v =>
    obtain ⟨c, hc⟩ := exists_on_of_apart (congrArg Verbatim.span (Expr.other.inj he))
    exact h.slice_span hc
  | _ => rfl
termination_by structural e

theorem freshArray (h : g.Opens p p') (a : ArrayLit Expr) (ha : a.relocate g.apart = a) :
    p'.freshArray (a.relocate g.map) = p.freshArray a := by
  cases a with
  | mk _ _ _ _ items =>
    simp only [ArrayLit.relocate, Page.freshArray, freshItems h items (ArrayLit.mk.inj ha).2.2.2.2]
termination_by structural a

theorem freshItems (h : g.Opens p p') (is : List (ArrayItem Expr)) (his : ArrayItem.relocateAll g.apart is = is) :
    p'.freshItems (ArrayItem.relocateAll g.map is) = p.freshItems is := by
  cases is with
  | nil => rfl
  | cons i is =>
    obtain ⟨hi, his⟩ := List.cons.inj his
    rw [ArrayItem.relocateAll, Page.freshItems, freshItem h i hi, freshItems h is his, Page.freshItems]
termination_by structural is

theorem freshItem (h : g.Opens p p') (i : ArrayItem Expr) (hi : i.relocate g.apart = i) :
    p'.freshItem (i.relocate g.map) = p.freshItem i := by
  cases i with
  | mk _ _ key value _ _ =>
    obtain ⟨-, -, hkey, hvalue, -⟩ := ArrayItem.mk.inj hi
    simp only [ArrayItem.relocate, Page.freshItem, freshKey h key hkey, literal h value hvalue,
      h.copy Expr.relocates hvalue, Expr.isSome_origin_relocate]
termination_by structural i

theorem freshKey (h : g.Opens p p') (e : Option Expr) (he : Expr.relocateOption g.apart e = e) :
    p'.freshKey (Expr.relocateOption g.map e) = p.freshKey e := by
  cases e with
  | none => rfl
  | some e =>
    have he := Option.some.inj he
    simp only [Expr.relocateOption, Page.freshKey, literal h e he, h.copy Expr.relocates he, Expr.isSome_origin_relocate]
termination_by structural e

end

theorem freshExpr (h : g.Opens p p') {e : Expr} (he : e.relocate g.apart = e) :
    p'.freshExpr (e.relocate g.map) = p.freshExpr e := by
  unfold Page.freshExpr
  rw [h.literal e he, h.copy Expr.relocates he, Expr.isSome_origin_relocate]

/-! ### Expressions -/

mutual

theorem expr (h : g.Opens p p') (w r : Expr) (hw : w.relocate g.apart = w) (hr : r.relocate (g.side c) = r) :
    p'.expr (w.relocate g.map) (r.relocate g.map) = p.expr w r := by
  have horigins : ((w.relocate g.map).origin.isNone || (w.relocate g.map).origin != (r.relocate g.map).origin) =
      (w.origin.isNone || w.origin != r.origin) := by
    rw [Expr.origin_relocate, Expr.origin_relocate, Option.isNone_map]
    exact congrArg (fun b => w.origin.isNone || !b) (beq_of_iff g.faithful_map.origin_iff)
  rw [Page.expr_eq, Page.expr_eq, Expr.beq_relocate g.faithful_map, h.copy_side Expr.relocates hr, horigins, h.freshExpr hw]
  cases w with
  | array a =>
    cases r with
    | array b =>
      have harray := array h a b (Expr.array.inj hw) (Expr.array.inj hr)
      simp only [Expr.relocate, harray]
    | _ => exact congrArg _ (congrArg _ (h.literal _ hw))
  | _ => cases r <;> exact congrArg _ (congrArg _ (h.literal _ hw))
termination_by structural w

theorem array (h : g.Opens p p') (a b : ArrayLit Expr) (ha : a.relocate g.apart = a) (hb : b.relocate (g.side c) = b) :
    p'.array (a.relocate g.map) (b.relocate g.map) = p.array a b := by
  cases a with
  | mk _ _ _ _ items =>
    have hregion := on_of_side (b.itemsRegion_relocate.symm.trans (congrArg ArrayLit.itemsRegion hb))
    have hitems := b.items_relocate.symm.trans (congrArg ArrayLit.items hb)
    rw [ArrayLit.relocate, Page.array, Page.array, b.itemsRegion_relocate, b.items_relocate,
      arrayItems h items (ArrayLit.mk.inj ha).2.2.2.2 hitems]
    exact h.patch_one ArrayLit.relocates hb hregion (h.commaRegion movable_arrayItem hregion hitems _)
termination_by structural a

theorem arrayItems (h : g.Opens p p') (is : List (ArrayItem Expr)) {rs : List (ArrayItem Expr)}
    (his : ArrayItem.relocateAll g.apart is = is) (hrs : rs.map (ArrayItem.relocate (g.side c)) = rs) :
    p'.arrayItems (ArrayItem.relocateAll g.map is) (rs.map (ArrayItem.relocate g.map)) = p.arrayItems is rs := by
  cases is with
  | nil => rfl
  | cons i is =>
    obtain ⟨hi, his⟩ := List.cons.inj his
    rw [ArrayItem.relocateAll, Page.arrayItems, Page.arrayItems, arrayItems h is his hrs]
    exact congrArg (· :: _) (h.commaEntry movable_arrayItem hrs hi (fun r => arrayItem h i r hi) (h.freshItem i hi))
termination_by structural is

theorem arrayItem (h : g.Opens p p') (w r : ArrayItem Expr) (hw : w.relocate g.apart = w)
    (hr : r.relocate (g.side c) = r) : p'.arrayItem (w.relocate g.map) (r.relocate g.map) = p.arrayItem w r := by
  cases w with
  | mk origin span key value byRef unpack =>
    have hside := r.value_relocate.symm.trans (congrArg ArrayItem.value hr)
    have hspan : (r.value.relocate g.map).span = g.map.span r.value.span := (Expr.relocates g.map).span r.value
    have hkey : (Expr.relocateOption g.map key == r.key.map (Expr.relocate g.map)) = (key == r.key) := by
      rw [Expr.relocateOption_eq]
      exact option_beq_map (Expr.beq_relocate g.faithful_map) key r.key
    have hon : g.On c r.value.span := on_span Expr.relocates hside
    have hpatch := h.patch_one ArrayItem.relocates hr hon (expr h value r.value (ArrayItem.mk.inj hw).2.2.2.1 hside)
    have hfresh := h.freshItem _ hw
    rw [ArrayItem.relocate] at hfresh ⊢
    rw [Page.arrayItem, Page.arrayItem, r.key_relocate, r.byRef_relocate, r.unpack_relocate, r.value_relocate, hkey,
      hspan, hfresh, hpatch]
termination_by structural w

end

/-! ### Statements of bodies -/

theorem freshReturn (h : g.Opens p p') {w : ReturnStmt} (hw : w.relocate g.apart = w) :
    p'.freshReturn (w.relocate g.map) = p.freshReturn w := by
  obtain ⟨origin, span, value⟩ := w
  cases value with
  | none => rfl
  | some e =>
    have he := h.freshExpr (Option.some.inj (congrArg ReturnStmt.expr hw))
    simp only [Page.freshReturn, ReturnStmt.relocate, Option.map_some, he]

theorem returnStmt (h : g.Opens p p') {w r : ReturnStmt} (hw : w.relocate g.apart = w)
    (hr : r.relocate (g.side c) = r) : p'.returnStmt (w.relocate g.map) (r.relocate g.map) = p.returnStmt w r := by
  have hfresh := h.freshReturn hw
  obtain ⟨origin, span, value⟩ := w
  obtain ⟨origin', span', before⟩ := r
  cases value with
  | none => exact hfresh
  | some value =>
    cases before with
    | none => exact hfresh
    | some before =>
      have hbefore := Option.some.inj (congrArg ReturnStmt.expr hr)
      have hspan : (before.relocate g.map).span = g.map.span before.span := (Expr.relocates g.map).span before
      have hon : g.On c before.span := on_span Expr.relocates hbefore
      simp only [Page.returnStmt, ReturnStmt.relocate, Option.map_some, hspan]
      exact h.patch_one ReturnStmt.relocates hr hon
        (h.expr value before (Option.some.inj (congrArg ReturnStmt.expr hw)) hbefore)

theorem bodyStyle_changed (h : g.Opens p p') {w r : BodyStmt} (hw : w.relocate g.apart = w)
    (hr : r.relocate (g.side c) = r) :
    p'.bodyStyle.changed (w.relocate g.map) (r.relocate g.map) = p.bodyStyle.changed w r := by
  have hcopy := h.copy BodyStmt.relocates hw
  cases w with
  | other v => exact hcopy
  | ret w =>
    cases r with
    | other v => exact hcopy
    | ret r => exact h.returnStmt (BodyStmt.ret.inj hw) (BodyStmt.ret.inj hr)

theorem bodyStyle_inserted (h : g.Opens p p') (indent : Text) {w : BodyStmt} (hw : w.relocate g.apart = w) :
    p'.bodyStyle.inserted indent (w.relocate g.map) = p.bodyStyle.inserted indent w := by
  have hcopy := h.copy BodyStmt.relocates hw
  cases w with
  | other v => exact hcopy
  | ret w =>
    have hw := BodyStmt.ret.inj hw
    show (if (w.origin.map g.id).isNone then p'.freshReturn (w.relocate g.map) else p'.copy (w.relocate g.map)) = _
    rw [h.freshReturn hw, h.copy ReturnStmt.relocates hw, Option.isNone_map]
    rfl

/-! ### Members -/

theorem propertyItem (h : g.Opens p p') {w r : PropertyItem} (hw : w.relocate g.apart = w)
    (hr : r.relocate (g.side c) = r) :
    p'.propertyItem (w.relocate g.map) (r.relocate g.map) = p.propertyItem w r := by
  have hspan := on_span PropertyItem.relocates hr
  have hname := on_of_side (congrArg (·.name.span) hr)
  obtain ⟨origin, span, name, value⟩ := w
  obtain ⟨origin', span', name', before⟩ := r
  cases value with
  | none =>
    cases before with
    | none => exact h.splice_none hspan
    | some before =>
      have hon : g.On c before.span := on_span Expr.relocates (Option.some.inj (congrArg PropertyItem.default hr))
      have hstop : (before.relocate g.map).span = g.map.span before.span := (Expr.relocates g.map).span before
      simp only [Page.propertyItem, PropertyItem.relocate, Option.map_some, Option.map_none, hstop]
      exact h.splice_one (t := ⟨name'.span.stop, before.span.stop⟩) hspan ⟨hname.2, hon.2⟩ rfl
  | some value =>
    have hvalue := Option.some.inj (congrArg PropertyItem.default hw)
    cases before with
    | none =>
      simp only [Page.propertyItem, PropertyItem.relocate, Option.map_some, Option.map_none, h.freshExpr hvalue]
      exact h.splice_one (t := .point span'.stop) hspan ⟨hspan.2, hspan.2⟩ rfl
    | some before =>
      have hbefore := Option.some.inj (congrArg PropertyItem.default hr)
      have hon : g.On c before.span := on_span Expr.relocates hbefore
      have hstop : (before.relocate g.map).span = g.map.span before.span := (Expr.relocates g.map).span before
      simp only [Page.propertyItem, PropertyItem.relocate, Option.map_some, hstop]
      exact h.splice_one hspan hon (h.expr value before hvalue hbefore)

theorem find?_origin (rs : List PropertyItem) (w : PropertyItem) :
    (rs.map (PropertyItem.relocate g.map)).find? (·.origin == (w.relocate g.map).origin) =
      (rs.find? (·.origin == w.origin)).map (PropertyItem.relocate g.map) := by
  rw [List.find?_map]
  exact congrArg (fun q => (rs.find? q).map _) (funext fun r => beq_of_iff g.faithful_map.origin_iff)

theorem itemPatch? (h : g.Opens p p') {rs : List PropertyItem} {w : PropertyItem} (hw : w.relocate g.apart = w)
    (hrs : rs.map (PropertyItem.relocate (g.side c)) = rs) :
    p'.itemPatch? (rs.map (PropertyItem.relocate g.map)) (w.relocate g.map) = (p.itemPatch? rs w).map g.patch ∧
      ∀ q, p.itemPatch? rs w = some q → g.On c q.span := by
  unfold Page.itemPatch?
  rw [find?_origin]
  cases hr : rs.find? (·.origin == w.origin) with
  | none => exact ⟨rfl, nofun⟩
  | some r =>
    have hr := forall_of_map_eq_self hrs r (List.mem_of_find?_eq_some hr)
    simp only [Option.map_some, Option.bind_some, PropertyItem.beq_relocate g.faithful_map, h.propertyItem hw hr]
    split
    · exact ⟨rfl, nofun⟩
    · refine ⟨rfl, fun q hq => ?_⟩
      cases hq
      exact on_span PropertyItem.relocates hr

theorem property (h : g.Opens p p') {w r : Property} (hw : w.relocate g.apart = w) (hr : r.relocate (g.side c) = r) :
    p'.property (w.relocate g.map) (r.relocate g.map) = p.property w r := by
  have hitem := fun i hi => h.itemPatch? (forall_of_map_eq_self (congrArg Property.items hw) i hi)
    (congrArg Property.items hr)
  have hpatches : (w.items.map (PropertyItem.relocate g.map)).filterMap
      (p'.itemPatch? (r.items.map (PropertyItem.relocate g.map))) =
        (w.items.filterMap (p.itemPatch? r.items)).map g.patch := by
    rw [List.filterMap_map, List.map_filterMap]
    exact List.filterMap_congr fun i hi => (hitem i hi).1
  rw [Page.property_eq, Page.property_eq]
  refine (congrArg (Graft.splice _ _) hpatches).trans (h.splice (on_of_side (congrArg Property.span hr)) fun q hq => ?_)
  obtain ⟨i, hi, hiq⟩ := List.mem_filterMap.1 hq
  exact (hitem i hi).2 q hiq

theorem method (h : g.Opens p p') {w r : Method} (hw : w.relocate g.apart = w) (hr : r.relocate (g.side c) = r) :
    p'.method (w.relocate g.map) (r.relocate g.map) = p.method w r := by
  have hspan := on_of_side (congrArg Method.span hr)
  obtain ⟨origin, span, modifiers, name, body⟩ := w
  obtain ⟨origin', span', modifiers', name', before⟩ := r
  cases body with
  | none => exact h.splice_none hspan
  | some body =>
    cases before with
    | none => exact h.splice_none hspan
    | some before =>
      have hbody := Option.some.inj (congrArg Method.body hw)
      have hbefore := Option.some.inj (congrArg Method.body hr)
      have hon := on_of_side (congrArg Block.body hbefore)
      simp only [Page.method, Method.relocate, Option.map_some, Block.beq_relocate g.faithful_map]
      split
      · exact h.splice_none hspan
      · refine h.splice_one hspan hon ?_
        have hindent : lineIndent p'.arena.text (g.map.span span').start = lineIndent p.arena.text span'.start :=
          h.indent _
        rw [hindent]
        exact h.lineList movable_bodyStmt hon (congrArg Block.stmts hbefore) _ _ (congrArg Block.stmts hbody)
          (fun _ => rfl) (fun _ _ => h.bodyStyle_changed) fun _ _ => h.bodyStyle_inserted _

theorem traitUse (h : g.Opens p p') {w r : TraitUse} (hw : w.relocate g.apart = w) (hr : r.relocate (g.side c) = r) :
    p'.traitUse (w.relocate g.map) (r.relocate g.map) = p.traitUse w r := by
  have hregion := on_of_side (congrArg TraitUse.namesRegion hr)
  exact h.splice_one (on_of_side (congrArg TraitUse.span hr)) hregion
    (h.commaList movable_name hregion (congrArg TraitUse.names hr) (fun _ => rfl) (congrArg TraitUse.names hw))

theorem freshMember (h : g.Opens p p') {w : Member} (hw : w.relocate g.apart = w) :
    p'.freshMember (w.relocate g.map) = p.freshMember w := by
  have horigin : (w.relocate g.map).origin = w.origin.map g.id := (Member.relocates g.map).origin w
  unfold Page.freshMember
  rw [horigin, Option.isSome_map, h.copy Member.relocates hw]
  cases w with
  | traitUse w =>
    exact congrArg _ w.toText_relocate
  | _ => rfl

theorem member (h : g.Opens p p') {w r : Member} (hw : w.relocate g.apart = w) (hr : r.relocate (g.side c) = r) :
    p'.member (w.relocate g.map) (r.relocate g.map) = p.member w r := by
  have hfresh := h.freshMember hw
  cases w with
  | traitUse w =>
    cases r with
    | traitUse r => exact h.traitUse (Member.traitUse.inj hw) (Member.traitUse.inj hr)
    | _ => exact hfresh
  | property w =>
    cases r with
    | property r => exact h.property (Member.property.inj hw) (Member.property.inj hr)
    | _ => exact hfresh
  | method w =>
    cases r with
    | method r => exact h.method (Member.method.inj hw) (Member.method.inj hr)
    | _ => exact hfresh
  | other w => cases r <;> exact hfresh

theorem insertedMember (h : g.Opens p p') (indent : Text) {w : Member} (hw : w.relocate g.apart = w) :
    p'.insertedMember indent (w.relocate g.map) = p.insertedMember indent w := by
  have horigin : (w.relocate g.map).origin = w.origin.map g.id := (Member.relocates g.map).origin w
  unfold Page.insertedMember
  rw [horigin, h.freshMember hw, h.indentOf (Member.relocates g.map), h.newline, h.copy Member.relocates hw]
  cases w.origin with
  | none => rfl
  | some i =>
    simp only [Option.map_some, h.fragment?]
    cases hm : p.arena.fragment? i with
    | none => rfl
    | some m =>
      obtain ⟨c, hc⟩ := h.on_side hm
      simp only [Option.map_some, Member.beq_relocate g.faithful_map, h.member hw hc]

/-! ### Classes -/

theorem interfacesPatch (h : g.Opens p p') {w r : ClassLike} (hw : w.relocate g.apart = w)
    (hr : r.relocate (g.side c) = r) :
    p'.interfacesPatch (w.relocate g.map) (r.relocate g.map) = (p.interfacesPatch w r).map g.patch ∧
      ∀ q ∈ p.interfacesPatch w r, g.On c q.span := by
  have hnames : (w.interfaces.map (Name.relocate g.map)).isEmpty = w.interfaces.isEmpty := List.isEmpty_map
  have hinterfaces := congrArg ClassLike.interfaces hw
  have hrinterfaces := congrArg ClassLike.interfaces hr
  have hclause := congrArg ClassLike.interfacesClause hr
  have hregion := congrArg ClassLike.interfacesRegion hr
  have hanchor : g.clamp c r.interfacesAnchor = r.interfacesAnchor := congrArg ClassLike.interfacesAnchor hr
  simp only [ClassLike.relocate] at hinterfaces hrinterfaces hclause hregion
  simp only [Page.interfacesPatch, ClassLike.relocate, hnames]
  cases hc : r.interfacesClause with
  | some clause =>
    rw [hc] at hclause hregion
    have hon := on_of_side (Option.some.inj hclause)
    have hregion : g.On c r.interfacesRegion := on_of_side hregion
    have hlist := h.commaList movable_name hregion hrinterfaces (fun w => w.text_relocate) hinterfaces
    simp only [Option.map_some, Option.getD_some, g.faithful_map.names_iff, hlist]
    split
    · exact ⟨rfl, List.forall_mem_singleton.2 hon⟩
    · split
      · exact ⟨rfl, List.forall_mem_nil _⟩
      · exact ⟨rfl, List.forall_mem_singleton.2 hregion⟩
  | none =>
    simp only [Option.map_none, map_text_relocate]
    split
    · exact ⟨rfl, List.forall_mem_nil _⟩
    · exact ⟨rfl, List.forall_mem_singleton.2 ⟨hanchor, hanchor⟩⟩

theorem membersPatch (h : g.Opens p p') {w r : ClassLike} (hw : w.relocate g.apart = w)
    (hr : r.relocate (g.side c) = r) :
    p'.membersPatch (w.relocate g.map) (r.relocate g.map) = (p.membersPatch w r).map g.patch ∧
      ∀ q ∈ p.membersPatch w r, g.On c q.span := by
  have hon := on_of_side (congrArg ClassLike.body hr)
  have hbeq : (w.members.map (Member.relocate g.map) == r.members.map (Member.relocate g.map)) =
      (w.members == r.members) := list_beq_map (Member.beq_relocate g.faithful_map) _ _
  have hindent : lineIndent p'.arena.text (g.map.span r.span).start = lineIndent p.arena.text r.span.start := h.indent _
  have hlist : ∀ outer inner, p'.lineList p'.memberStyle (g.map.span r.body) outer inner
      (w.members.map (Member.relocate g.map)) (r.members.map (Member.relocate g.map)) =
        p.lineList p.memberStyle r.body outer inner w.members r.members := fun outer inner =>
    h.lineList movable_member hon (congrArg ClassLike.members hr) outer inner (congrArg ClassLike.members hw)
      (fun w => by cases w <;> rfl) (fun _ _ => h.member) fun _ _ => h.insertedMember _
  simp only [Page.membersPatch, ClassLike.relocate, hbeq, hindent, hlist]
  split
  · exact ⟨rfl, List.forall_mem_nil _⟩
  · exact ⟨rfl, List.forall_mem_singleton.2 hon⟩

theorem classLike (h : g.Opens p p') {w r : ClassLike} (hw : w.relocate g.apart = w)
    (hr : r.relocate (g.side c) = r) : p'.classLike (w.relocate g.map) (r.relocate g.map) = p.classLike w r := by
  obtain ⟨hinterfaces, hon⟩ := h.interfacesPatch hw hr
  obtain ⟨hmembers, hon'⟩ := h.membersPatch hw hr
  unfold Page.classLike
  rw [hinterfaces, hmembers, ← List.map_append]
  exact h.splice (on_of_side (congrArg ClassLike.span hr)) fun q hq => (List.mem_append.1 hq).elim (hon q) (hon' q)

/-! ### Statements -/

theorem importDecl (h : g.Opens p p') {w r : Import} (hw : w.relocate g.apart = w) (hr : r.relocate (g.side c) = r) :
    p'.importDecl (w.relocate g.map) (r.relocate g.map) = p.importDecl w r := by
  have hregion := on_of_side (congrArg Import.itemsRegion hr)
  have hstem : w.stem.map (Name.relocate g.map) = r.stem.map (Name.relocate g.map) ↔ w.stem = r.stem :=
    Option.map_inj_right fun _ _ => g.faithful_map.name_iff.1
  have hlist := h.commaList movable_importItem hregion (congrArg Import.items hr) ImportItem.toText_relocate
    (congrArg Import.items hw)
  have hsplice := h.splice_one (on_of_side (congrArg Import.span hr)) hregion hlist
  unfold Page.importDecl
  rw [Import.toText_relocate]
  simp only [Import.relocate, hstem]
  split
  · exact hsplice
  · rfl

theorem freshStmt (h : g.Opens p p') {w : Stmt} (hw : w.relocate g.apart = w) :
    p'.freshStmt (w.relocate g.map) = p.freshStmt w := by
  have horigin : (w.relocate g.map).origin = w.origin.map g.id := (Stmt.relocates g.map).origin w
  unfold Page.freshStmt
  rw [horigin, Option.isSome_map, h.copy Stmt.relocates hw]
  cases w with
  | imports d => exact congrArg _ d.toText_relocate
  | ret w => exact congrArg _ (h.freshReturn (Stmt.ret.inj hw))
  | _ => rfl

theorem stmt (h : g.Opens p p') {w r : Stmt} (hw : w.relocate g.apart = w) (hr : r.relocate (g.side c) = r) :
    p'.stmt (w.relocate g.map) (r.relocate g.map) = p.stmt w r := by
  have hfresh := h.freshStmt hw
  cases w with
  | imports w =>
    cases r with
    | imports r => exact h.importDecl (Stmt.imports.inj hw) (Stmt.imports.inj hr)
    | _ => exact hfresh
  | classLike w =>
    cases r with
    | classLike r => exact h.classLike (Stmt.classLike.inj hw) (Stmt.classLike.inj hr)
    | _ => exact hfresh
  | ret w =>
    cases r with
    | ret r => exact h.returnStmt (Stmt.ret.inj hw) (Stmt.ret.inj hr)
    | _ => exact hfresh
  | declare w => cases r <;> exact hfresh
  | other w => cases r <;> exact hfresh

/-! ### Files -/

theorem stmtSlot_relocate (φ : Relocation) (s : Stmt) : Page.stmtSlot (s.relocate φ) = Page.stmtSlot s := by
  cases s <;> rfl

theorem namespaceDecl (h : g.Opens p p') {w r : Namespace} (hw : w.relocate g.apart = w)
    (hr : r.relocate (g.side c) = r) :
    p'.namespaceDecl (w.relocate g.map) (r.relocate g.map) = p.namespaceDecl w r := by
  have hbody := on_of_side (congrArg Namespace.body hr)
  have hindent : lineIndent p'.arena.text (g.map.span r.span).start = lineIndent p.arena.text r.span.start := h.indent _
  refine h.splice_one (on_of_side (congrArg Namespace.span hr)) hbody ?_
  simp only [Namespace.relocate, hindent]
  exact h.lineList movable_stmt hbody (congrArg Namespace.stmts hr) _ _ (congrArg Namespace.stmts hw)
    (stmtSlot_relocate g.map) (fun _ _ => h.stmt) fun _ _ => h.freshStmt

theorem freshTopStmt (h : g.Opens p p') {w : TopStmt} (hw : w.relocate g.apart = w) :
    p'.freshTopStmt (w.relocate g.map) = p.freshTopStmt w := by
  cases w with
  | plain w => exact h.freshStmt (TopStmt.plain.inj hw)
  | inside n =>
    obtain ⟨c, hc⟩ := exists_on_of_apart (congrArg Namespace.span (TopStmt.inside.inj hw))
    have hslice := h.slice_span hc
    simp only [Page.freshTopStmt, TopStmt.relocate, Namespace.relocate, Option.isSome_map, hslice]

theorem topStyle_changed (h : g.Opens p p') {w r : TopStmt} (hw : w.relocate g.apart = w)
    (hr : r.relocate (g.side c) = r) :
    p'.topStyle.changed (w.relocate g.map) (r.relocate g.map) = p.topStyle.changed w r := by
  have hfresh := h.freshTopStmt hw
  cases w with
  | inside w =>
    cases r with
    | inside r => exact h.namespaceDecl (TopStmt.inside.inj hw) (TopStmt.inside.inj hr)
    | plain r => exact hfresh
  | plain w =>
    cases r with
    | inside r => exact hfresh
    | plain r => exact h.stmt (TopStmt.plain.inj hw) (TopStmt.plain.inj hr)

end Opens

end Insertion

end Graft
