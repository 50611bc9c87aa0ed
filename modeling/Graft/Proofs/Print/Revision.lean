/-
Revisions printed with carriage returns.

A revision of a node that was read is printed over it.  What was there is copied between clear offsets, what was built
is written on one line, members from snippets are placed line by line, and lists are put together by their layouts; so
that every line feed of what is printed follows a carriage return.

* `Page.Over.expr`, `Page.Over.member`, `Page.Over.stmt`, … — nodes;
* `File.crlf_print` — files.
-/
import Mathlib.Data.List.Nodup
import Graft.Proofs.Print.Around
import Graft.Proofs.Print.LineBreak
import Graft.Proofs.Print.OneLine

namespace Graft

open Text (OneLine crlf_nil crlf_of_not_mem)

open Relocation

theorem Expr.isSome_origin {e : Expr} {lo n : Nat} (h : Fresh lo n e.origins) : e.origin.isSome = true := by
  obtain ⟨i, hi, -⟩ := h.2 _ e.origin_mem_origins
  exact Option.isSome_of_eq_some hi

/-- An expression in the place of another one that was read is its counterpart. -/
theorem Expr.same_origin {w r : Expr} (h : w.origin = r.origin) (hsome : r.origin.isSome = true) :
    (w.origin.isNone || w.origin != r.origin) = false := by
  obtain ⟨i, hi⟩ := Option.isSome_iff_exists.1 hsome
  rw [h, hi, bne_self_eq_false]
  rfl

namespace Page.Over

variable {p : Page} {s : Text} {lo n : Nat}

/-! ### Expressions -/

/-- A key that was read is copied. -/
theorem freshKey (h : p.Over s) {key : Option Expr} (hkey : key.map (Expr.relocate (clear s)) = key)
    (hids : Fresh lo n (Expr.originsOption key)) : (p.freshKey key).Crlf := by
  cases key with
  | none => exact crlf_nil
  | some e =>
    have hspan : (Placed.span e).Clear s := clear_of_relocates Expr.relocates (Option.some.inj hkey)
    rw [Page.freshKey, if_pos (Expr.isSome_origin hids)]
    exact (h.copy hspan).append (crlf_of_not_mem (by decide))

/-- An expression that stays as it was is copied, or it is a float. -/
theorem unchanged (h : p.Over s) {e : Expr} (he : e.relocate (clear s) = e) (hids : Fresh lo n e.origins)
    (harray : e.array? = none) : (p.expr e e).Crlf := by
  have hcopy : (p.copy e).Crlf := h.copy (clear_of_relocates Expr.relocates he)
  simp only [Page.expr_eq, Expr.same_origin rfl (Expr.isSome_origin hids), Bool.false_eq_true, if_false]
  cases e with
  | array a => cases harray
  | float e =>
    split
    · exact hcopy
    · exact (Literal.oneLine_sourceFloats e.value).crlf
  | string e => rwa [if_pos (show (Expr.string e == Expr.string e) = true from beq_self_eq_true e)]
  | int e => rwa [if_pos (show (Expr.int e == Expr.int e) = true from beq_self_eq_true e)]
  | const e => rwa [if_pos (show (Expr.const e == Expr.const e) = true from beq_self_eq_true e)]
  | other e => rwa [if_pos (show (Expr.other e == Expr.other e) = true from beq_self_eq_true e)]

mutual

theorem expr (h : p.Over s) (w r : Expr) (hr : r.relocate (clear s) = r) (hids : Fresh lo n r.origins)
    (hw : w.Built ∨ w.Revises r) : (p.expr w r).Crlf := by
  have hspan : (Placed.span r).Clear s := clear_of_relocates Expr.relocates hr
  rcases hw with hw | hw
  · rw [Page.expr_eq, hw.origin_eq_none]
    split
    · exact h.copy hspan
    · exact (p.oneLine_freshExpr hw).crlf
  · cases w with
    | array a =>
      cases r with
      | array b =>
        have harray := array h a b (Expr.array.inj hr) hids hw
        have hplace := Expr.Revises.place (w := .array a) (r := .array b) hw
        simp only [Page.expr_eq, Expr.same_origin hplace.1 (Expr.isSome_origin hids), Bool.false_eq_true, if_false]
        split
        · exact h.copy hspan
        · exact harray
      | _ => exact hw.elim
    | _ =>
      have heq := hw
      cases heq
      exact h.unchanged hr hids rfl
termination_by structural w

theorem array (h : p.Over s) (a b : ArrayLit Expr) (hb : b.relocate (clear s) = b) (hids : Fresh lo n b.origins)
    (ha : a.Revises b) : (p.array a b).Crlf := by
  cases a with
  | mk _ _ _ _ items =>
    have hspan : (Placed.span b).Clear s := clear_of_relocates ArrayLit.relocates hb
    have hregion : b.itemsRegion.Clear s :=
      clear_of_span (b.itemsRegion_relocate.symm.trans (congrArg ArrayLit.itemsRegion hb))
    have hitems := b.items_relocate.symm.trans (congrArg ArrayLit.items hb)
    have hitemIds : Fresh lo n (b.items.flatMap ArrayItem.origins) := by
      cases b
      rw [ArrayLit.origins, ArrayItem.originsAll_eq] at hids
      exact hids.left
    rw [Page.array]
    exact h.splice_one hspan hregion (h.commaRegion hregion (clear_of_map ArrayItem.relocates hitems)
      (arrayItems h items hitems hitemIds ha.2.2.2.2))
termination_by structural a

theorem arrayItems (h : p.Over s) (is : List (ArrayItem Expr)) {rs : List (ArrayItem Expr)}
    (hrs : rs.map (ArrayItem.relocate (clear s)) = rs) (hids : Fresh lo n (rs.flatMap ArrayItem.origins))
    (his : ArrayItem.DrawnAll is rs) : ∀ e ∈ p.arrayItems is rs, e.text.Crlf := by
  cases is with
  | nil => exact nofun
  | cons i is =>
    have hroots : Fresh lo n (rs.map Placed.origin) := hids.map_origin ArrayItem.origin_mem_origins
    rw [Page.arrayItems]
    refine List.forall_mem_cons.2 ⟨?_, arrayItems h is hrs hids his.2⟩
    refine h.commaEntry (clear_of_map ArrayItem.relocates hrs) hroots his.1 (fun hi => ?_) fun r hr hi => ?_
    · exact ⟨hi.origin_eq_none, (p.oneLine_freshItem i hi).crlf⟩
    · refine ⟨hi.place.1, hi.place.2, fun _ => ?_⟩
      exact arrayItem h i r (Insertion.forall_of_map_eq_self hrs r hr) (hids.of_mem hr) hi
termination_by structural is

theorem arrayItem (h : p.Over s) (w r : ArrayItem Expr) (hr : r.relocate (clear s) = r) (hids : Fresh lo n r.origins)
    (hw : w.Revises r) : (p.arrayItem w r).Crlf := by
  cases w with
  | mk origin span key value byRef unpack =>
    obtain ⟨-, -, hkey, -, -, hvalue⟩ := hw
    have hspan : (Placed.span r).Clear s := clear_of_relocates ArrayItem.relocates hr
    have hrvalue := r.value_relocate.symm.trans (congrArg ArrayItem.value hr)
    have hrkey := r.key_relocate.symm.trans (congrArg ArrayItem.key hr)
    have hvalueSpan : r.value.span.Clear s := clear_of_relocates Expr.relocates hrvalue
    have hvalueIds : Fresh lo n r.value.origins := by
      cases r
      exact hids.right
    have hkeyIds : Fresh lo n (Expr.originsOption r.key) := by
      cases r
      exact hids.left.right
    rw [Page.arrayItem]
    split
    · exact h.splice_one hspan hvalueSpan (expr h value r.value hrvalue hvalueIds hvalue)
    · rw [Page.freshItem, hkey]
      refine ((h.freshKey hrkey hkeyIds).append ?_).append ?_ |>.append ?_
      · exact crlf_of_not_mem (by cases unpack <;> decide)
      · exact crlf_of_not_mem (by cases byRef <;> decide)
      · rcases hvalue with hvalue | hvalue
        · rw [hvalue.origin_eq_none]
          exact (p.oneLine_literal value hvalue).crlf
        · obtain ⟨horigin, hspan⟩ := hvalue.place
          rw [horigin, if_pos (Expr.isSome_origin hvalueIds)]
          rw [← hspan] at hvalueSpan
          exact h.copy hvalueSpan
termination_by structural w

end

/-! ### Statements of bodies -/

section Members

variable (h : p.Over s)

include h

/-- A statement without a value returns nothing, and one with a value is printed over the one that was there. -/
theorem returnStmt {w r : ReturnStmt} (hr : r.relocate (clear s) = r) (hids : Fresh lo n r.origins) (hw : w.Revises r) :
    (p.returnStmt w r).Crlf := by
  have hspan : (Placed.span r).Clear s := clear_of_relocates ReturnStmt.relocates hr
  obtain ⟨-, hvalue⟩ := hw
  cases hexpr : w.expr with
  | none =>
    have htext : p.returnStmt w r = "return;".toList := by
      rw [Page.returnStmt, hexpr]
      simp only [Page.freshReturn, hexpr]
    rw [htext]
    exact crlf_of_not_mem (by decide)
  | some value =>
    obtain ⟨before, hbefore, hrevises⟩ := hvalue value hexpr
    have hoption := congrArg ReturnStmt.expr hr
    have hexprIds : Fresh lo n (Expr.originsOption r.expr) := hids.right
    simp only [ReturnStmt.relocate, hbefore, Option.map_some, Option.some.injEq] at hoption
    rw [hbefore] at hexprIds
    rw [Page.returnStmt, hexpr, hbefore]
    exact h.splice_one hspan (clear_of_relocates Expr.relocates hoption)
      (h.expr value before hoption hexprIds (.inr hrevises))

theorem bodyStyle_changed {w r : BodyStmt} (hr : r.relocate (clear s) = r) (hids : Fresh lo n r.origins)
    (hw : w.Revises r) : (p.bodyStyle.changed w r).Crlf := by
  have hspan : (Placed.span r).Clear s := clear_of_relocates BodyStmt.relocates hr
  cases w with
  | ret w =>
    cases r with
    | ret r => exact h.returnStmt (BodyStmt.ret.inj hr) hids hw
    | other v => cases hw
  | other v =>
    cases hw
    exact h.copy hspan

/-! ### Members -/

theorem propertyItem {w r : PropertyItem} (hr : r.relocate (clear s) = r) (hids : Fresh lo n r.origins)
    (hw : w.Revises r) : (p.propertyItem w r).Crlf := by
  have hspan : r.span.Clear s := clear_of_span (congrArg PropertyItem.span hr)
  have hname : r.name.span.Clear s := clear_of_span (congrArg (·.name.span) hr)
  have hoption := congrArg PropertyItem.default hr
  have hdefaultIds : Fresh lo n (Expr.originsOption r.default) := hids.right
  obtain ⟨-, hvalue⟩ := hw
  simp only [PropertyItem.relocate] at hoption
  unfold Page.propertyItem
  refine h.splice hspan ?_
  cases hdefault : w.default with
  | none =>
    cases hbefore : r.default with
    | none => exact List.forall_mem_nil _
    | some before =>
      rw [hbefore] at hoption
      have hstop : before.span.Clear s := clear_of_relocates Expr.relocates (Option.some.inj hoption)
      exact List.forall_mem_singleton.2 ⟨⟨hname.2, hstop.2⟩, crlf_nil⟩
  | some value =>
    obtain ⟨before, hbefore, hrevises⟩ := hvalue value hdefault
    rw [hbefore] at hoption hdefaultIds ⊢
    have hoption := Option.some.inj hoption
    exact List.forall_mem_singleton.2 ⟨clear_of_relocates Expr.relocates hoption,
      h.expr value before hoption hdefaultIds (.inr hrevises)⟩

/-- An item is printed over the one that it revises. -/
theorem itemPatch? {rs : List PropertyItem} (hrs : rs.map (PropertyItem.relocate (clear s)) = rs)
    (hids : Fresh lo n (rs.flatMap PropertyItem.origins)) {w : PropertyItem}
    (hw : Unbuilt w ∨ ∃ r ∈ rs, w.Revises r) {q : Patch} (hq : p.itemPatch? rs w = some q) :
    q.span.Clear s ∧ q.text.Crlf := by
  obtain ⟨before, hfind, hq⟩ := Option.bind_eq_some_iff.1 hq
  have hbefore := List.mem_of_find?_eq_some hfind
  have hfound := List.find?_some hfind
  have horigin : before.origin = w.origin := beq_iff_eq.1 hfound
  obtain hbuilt | ⟨r, hr, hrevises⟩ := hw
  · exact hbuilt.elim
  · have hroots : Fresh lo n (rs.map PropertyItem.origin) := hids.map_origin fun _ => List.mem_cons_self
    obtain rfl : before = r := List.inj_on_of_nodup_map hroots.1 hbefore hr
      (horigin.trans (congrArg PropertyItem.origin hrevises.1 :))
    have hside := Insertion.forall_of_map_eq_self hrs before hr
    split at hq
    · cases hq
    · cases hq
      exact ⟨clear_of_span (congrArg PropertyItem.span hside),
        h.propertyItem hside (hids.of_mem hr) hrevises⟩

theorem property {w r : Property} (hr : r.relocate (clear s) = r) (hids : Fresh lo n r.origins) (hw : w.Revises r) :
    (p.property w r).Crlf := by
  rw [Page.property_eq]
  refine h.splice (clear_of_span (congrArg Property.span hr)) fun q hq => ?_
  obtain ⟨item, hitem, hq⟩ := List.mem_filterMap.1 hq
  exact h.itemPatch? (congrArg Property.items hr) (hids.right) (hw.2 item hitem) hq

theorem method {w r : Method} (hr : r.relocate (clear s) = r) (hids : Fresh lo n r.origins) (hw : w.Revises r) :
    (p.method w r).Crlf := by
  have hoption := congrArg Method.body hr
  have hblockIds : Fresh lo n ((r.body.map Block.origins).getD []) := hids.right
  obtain ⟨-, hbody⟩ := hw
  simp only [Method.relocate] at hoption
  unfold Page.method
  refine h.splice (clear_of_span (congrArg Method.span hr)) ?_
  cases hwbody : w.body with
  | none => exact List.forall_mem_nil _
  | some body =>
    obtain ⟨before, hbefore, -, hdrawn⟩ := hbody body hwbody
    rw [hbefore] at hoption hblockIds ⊢
    have hblock := Option.some.inj hoption
    have hspan : before.body.Clear s := clear_of_span (congrArg Block.body hblock)
    have hstmts := congrArg Block.stmts hblock
    have hids : Fresh lo n (before.stmts.flatMap BodyStmt.origins) := hblockIds.right
    have houter := not_mem_lineIndent p.arena.text r.span.start
    simp only
    split
    · exact List.forall_mem_nil _
    · refine List.forall_mem_singleton.2 ⟨hspan, ?_⟩
      exact h.lineList BodyStmt.relocates BodyStmt.origin_mem_origins hspan houter (not_mem_deeper houter) hstmts hids
        hdrawn (fun _ hbuilt => hbuilt.elim) BodyStmt.Revises.place fun _ _ _ hr hids hw => h.bodyStyle_changed hr hids hw

/-- Names are copied or written on one line. -/
theorem names {ws rs : List Name} {region : Span} (hregion : region.Clear s)
    (hrs : rs.map (Name.relocate (clear s)) = rs) (hids : Fresh lo n (rs.flatMap Name.origins))
    (hws : Drawn Name.Built Eq ws rs) : (p.commaList Name.text region ws rs).Crlf :=
  h.commaList hregion (clear_of_map Name.relocates hrs) (hids.map_origin fun _ => List.mem_cons_self) hws
    fun _ hw => ⟨hw.1, hw.2.crlf⟩

theorem traitUse {w r : TraitUse} (hr : r.relocate (clear s) = r) (hids : Fresh lo n r.origins) (hw : w.Revises r) :
    (p.traitUse w r).Crlf := by
  have hregion : r.namesRegion.Clear s := clear_of_span (congrArg TraitUse.namesRegion hr)
  have hnames := h.names hregion (congrArg TraitUse.names hr) (hids.right) hw.2
  exact h.splice_one (clear_of_span (congrArg TraitUse.span hr)) hregion hnames

theorem member {w r : Member} (hr : r.relocate (clear s) = r) (hids : Fresh lo n r.origins) (hw : w.Revises r) :
    (p.member w r).Crlf := by
  cases w with
  | traitUse w =>
    cases r with
    | traitUse r => exact h.traitUse (Member.traitUse.inj hr) hids hw
    | _ => cases hw
  | property w =>
    cases r with
    | property r => exact h.property (Member.property.inj hr) hids hw
    | _ => cases hw
  | method w =>
    cases r with
    | method r => exact h.method (Member.method.inj hr) hids hw
    | _ => cases hw
  | other v =>
    cases hw
    obtain ⟨i, hi, -⟩ := hids.2 _ (Member.other v).origin_mem_origins
    have hspan : (Placed.span (Member.other v)).Clear s := clear_of_relocates Member.relocates hr
    have hsome : (Member.other v).origin.isSome = true := Option.isSome_of_eq_some hi
    show (p.freshMember (.other v)).Crlf
    rw [Page.freshMember, if_pos hsome]
    exact h.copy hspan

/-- A clause that was built is written on one line; a member from a snippet is placed line by line. -/
theorem insertedMember {w : Member} (hw : w.Built n) {indent : Text} (hindent : indent.OneLine) :
    (p.insertedMember indent w).Crlf := by
  unfold Page.insertedMember
  split
  · rename_i hnone
    rcases hw with ⟨i, hi, -⟩ | ⟨c, rfl, hc⟩
    · cases hnone.symm.trans hi
    · rw [Page.freshMember, hnone]
      exact (TraitUse.oneLine_toText hc).crlf
  · rw [h.newline]
    exact crlf_reindent _ hindent _

end Members

/-! ### Classes -/

section Statements

variable (h : p.Over s) {G : Ground}

include h

theorem interfacesPatch {w r : ClassLike} (hr : r.relocate (clear s) = r) (hids : Fresh lo n r.origins)
    (hlaid : r.Laid G) (hw : w.Revises n r) : ∀ q ∈ p.interfacesPatch w r, q.span.Clear s ∧ q.text.Crlf := by
  have hclause := congrArg ClassLike.interfacesClause hr
  have hregion := congrArg ClassLike.interfacesRegion hr
  have hanchor : s.Clear r.interfacesAnchor := clear_of_offset (congrArg ClassLike.interfacesAnchor hr)
  have hlaidClause := hlaid.clause
  simp only [ClassLike.relocate] at hclause hregion
  unfold ClassLike.LaidClause at hlaidClause
  unfold Page.interfacesPatch
  cases hc : r.interfacesClause with
  | some clause =>
    rw [hc] at hclause hregion
    have hclauseSpan : clause.Clear s := clear_of_span (Option.some.inj hclause)
    have hregionSpan : r.interfacesRegion.Clear s := clear_of_span hregion
    simp only
    split
    · exact List.forall_mem_singleton.2 ⟨hclauseSpan, crlf_nil⟩
    · split
      · exact List.forall_mem_nil _
      · have hinterfaces := hids.left.right
        exact List.forall_mem_singleton.2
          ⟨hregionSpan, h.names hregionSpan (congrArg ClassLike.interfaces hr) hinterfaces hw.2.1⟩
  | none =>
    -- Without a clause there were no names, so that all of them were built.
    simp only [hc] at hlaidClause
    have hbuilt : ∀ t ∈ w.interfaces.map Name.text, t.OneLine := by
      intro t ht
      obtain ⟨name, hname, rfl⟩ := List.mem_map.1 ht
      rcases hw.2.1 name hname with hname | ⟨other, hother, -⟩
      · exact hname.2
      · rw [hlaidClause.2.2.2] at hother
        cases hother
    simp only
    split
    · exact List.forall_mem_nil _
    · exact List.forall_mem_singleton.2
        ⟨⟨hanchor, hanchor⟩, (OneLine.append (by decide) (Text.oneLine_join hbuilt)).crlf⟩

theorem membersPatch {w r : ClassLike} (hr : r.relocate (clear s) = r) (hids : Fresh lo n r.origins)
    (hw : w.Revises n r) : ∀ q ∈ p.membersPatch w r, q.span.Clear s ∧ q.text.Crlf := by
  have hspan : r.body.Clear s := clear_of_span (congrArg ClassLike.body hr)
  have hmembers := congrArg ClassLike.members hr
  have hmemberIds : Fresh lo n (r.members.flatMap Member.origins) := hids.right
  have houter := not_mem_lineIndent p.arena.text r.span.start
  unfold Page.membersPatch
  split
  · exact List.forall_mem_nil _
  · refine List.forall_mem_singleton.2 ⟨hspan, ?_⟩
    have hlater : ∀ m : Member, m.Built n → ∀ i, Placed.origin m = some i → n ≤ i := by
      intro m hm i hi
      rcases hm with ⟨j, hj, hle⟩ | ⟨c, rfl, hc⟩
      · cases hi.symm.trans hj
        exact hle
      · cases hi.symm.trans hc.1
    exact h.lineList Member.relocates Member.origin_mem_origins hspan houter (not_mem_deeper houter) hmembers hmemberIds
      hw.2.2 (fun m hm => ⟨hlater m hm, fun _ => h.insertedMember hm⟩) Member.Revises.place
      fun _ _ _ hr hids hw => h.member hr hids hw

theorem classLike {w r : ClassLike} (hr : r.relocate (clear s) = r) (hids : Fresh lo n r.origins) (hlaid : r.Laid G)
    (hw : w.Revises n r) : (p.classLike w r).Crlf :=
  h.splice (clear_of_span (congrArg ClassLike.span hr)) fun q hq =>
    (List.mem_append.1 hq).elim (h.interfacesPatch hr hids hlaid hw q) (h.membersPatch hr hids hw q)

/-! ### Statements -/

theorem importDecl {w r : Import} (hr : r.relocate (clear s) = r) (hids : Fresh lo n r.origins) (hw : w.Revises r) :
    (p.importDecl w r).Crlf := by
  have hregion : r.itemsRegion.Clear s := clear_of_span (congrArg Import.itemsRegion hr)
  have hitems : Fresh lo n (r.items.flatMap ImportItem.origins) := hids.right
  have hroots := hitems.map_origin fun i => List.mem_append_right _ (List.mem_singleton.2 rfl)
  have hkind : w.kind = r.kind := (congrArg Import.kind hw.1 :)
  have hstem : w.stem = r.stem := (congrArg Import.stem hw.1 :)
  rw [Page.importDecl, if_pos ⟨hkind, hstem⟩]
  exact h.splice_one (clear_of_span (congrArg Import.span hr)) hregion
    (h.commaList hregion (clear_of_map ImportItem.relocates (congrArg Import.items hr)) hroots hw.2
      fun _ hbuilt => hbuilt.elim)

theorem stmt {w r : Stmt} (hr : r.relocate (clear s) = r) (hids : Fresh lo n r.origins) (hlaid : r.Laid G)
    (hw : w.Revises n r) : (p.stmt w r).Crlf := by
  -- A statement that nothing revises is copied.
  have hcopy : w = r → (p.freshStmt w).Crlf := by
    intro heq
    have hspan : (Placed.span r).Clear s := clear_of_relocates Stmt.relocates hr
    obtain ⟨i, hi, -⟩ := hids.2 _ r.origin_mem_origins
    have hsome : r.origin.isSome = true := Option.isSome_of_eq_some hi
    rw [heq]
    unfold Page.freshStmt
    rw [if_pos hsome]
    exact h.copy hspan
  cases w with
  | imports w =>
    cases r with
    | imports r => exact h.importDecl (Stmt.imports.inj hr) hids hw
    | _ => cases hw
  | classLike w =>
    cases r with
    | classLike r => exact h.classLike (Stmt.classLike.inj hr) hids hlaid hw
    | _ => cases hw
  | ret w =>
    cases r with
    | ret r => exact h.returnStmt (Stmt.ret.inj hr) hids hw
    | _ => cases hw
  | declare v => exact hcopy hw
  | other v => exact hcopy hw

theorem namespaceDecl {w r : Namespace} (hr : r.relocate (clear s) = r) (hids : Fresh lo n r.origins)
    (hlaid : r.Laid G) (hw : w.Revises n r) : (p.namespaceDecl w r).Crlf := by
  have hspan : r.body.Clear s := clear_of_span (congrArg Namespace.body hr)
  have hstmts := congrArg Namespace.stmts hr
  have hstmtIds : Fresh lo n (r.stmts.flatMap Stmt.origins) := hids.right
  have hindent := not_mem_lineIndent p.arena.text r.span.start
  refine h.splice_one (clear_of_span (congrArg Namespace.span hr)) hspan ?_
  refine h.lineList Stmt.relocates Stmt.origin_mem_origins hspan ?_ ?_ hstmts hstmtIds hw.2
    (fun t ht => ⟨?_, fun _ _ => (p.oneLine_freshStmt ht).crlf⟩) Stmt.Revises.place
    fun _ r hmem hr hids hw => h.stmt hr hids (hlaid.stmts r hmem) hw
  · split
    · exact hindent
    · exact List.not_mem_nil
  · split
    · exact not_mem_deeper hindent
    · exact List.not_mem_nil
  · obtain ⟨d, rfl, name, -, rfl⟩ := ht
    intro i hi
    cases hi

theorem topStyle_changed {w r : TopStmt} (hr : r.relocate (clear s) = r) (hids : Fresh lo n r.origins)
    (hlaid : r.Laid G) (hw : w.Revises n r) : (p.topStyle.changed w r).Crlf := by
  cases w with
  | inside w =>
    cases r with
    | inside r => exact h.namespaceDecl (TopStmt.inside.inj hr) hids hlaid hw
    | plain r => exact hw.elim
  | plain w =>
    cases r with
    | inside r => exact hw.elim
    | plain r => exact h.stmt (TopStmt.plain.inj hr) hids hlaid hw

end Statements

end Page.Over

/-! ### Files -/

/-- A revision of a file is printed with the breaks of the file. -/
theorem File.crlf_print {s : Text} (hs : s.Crlf) (hmem : '\n' ∈ s) {a : Arena} (ha : ∃ u, a.text = s ++ u) {w r : File}
    (hspan : r.span = ⟨0, s.size⟩) (hr : r.relocate (clear s) = r) {lo n : Nat} (hids : Fresh lo n r.origins)
    {G : Ground} (hlaid : r.Laid G) (hw : w.Revises n r) : (w.print r a).Crlf := by
  have hslice : a.slice r.span = s := by
    obtain ⟨u, hu⟩ := ha
    rw [hspan, Arena.slice, hu, Text.slice_append_right (Nat.le_refl _), Text.slice_zero_size]
  have hover : Page.Over ⟨a, .ofText s⟩ s := ⟨hs, Newline.ofText_of_crlf hs hmem, ha⟩
  have hbody : r.body.Clear s := clear_of_span (congrArg File.body hr)
  have hstmts := congrArg File.stmts hr
  have hstmtIds : Fresh lo n (r.stmts.flatMap TopStmt.origins) := hids.right
  unfold File.print
  rw [hslice]
  split
  · exact hs
  · refine hover.splice_one (clear_of_span (congrArg File.span hr)) hbody ?_
    refine hover.lineList TopStmt.relocates TopStmt.origin_mem_origins hbody List.not_mem_nil List.not_mem_nil hstmts
      hstmtIds hw.2 (fun t ht => ?_) TopStmt.Revises.place
      fun _ r hmem hr hids hw => hover.topStyle_changed hr hids (hlaid.stmts r hmem) hw
    obtain ⟨u, rfl, hu⟩ := ht
    have htext := (Page.oneLine_freshStmt ⟨a, .ofText s⟩ hu).crlf
    obtain ⟨d, rfl, name, -, rfl⟩ := hu
    refine ⟨fun i hi => ?_, fun _ _ => htext⟩
    cases hi

end Graft
