/-
The nodes of a changed file are tied to what they were copied from.

An edit leaves nodes where they are, takes them away or builds them without an id and without a place; only the edit
that brings a method puts nodes of another tree into the file.  A new value takes the place of an old one, whose id goes
with it, and an array that is changed keeps the id that it had.

* `ArrayLit.linked_setPath`, `Edit.linked_onClass?`, … — what an edit does to stamps;
* `PreparedEdit.linked_run`, `linked_runAll` — an edit and a queue.
-/
import Graft.Proofs.Edit.Revision
import Graft.Proofs.Tree.Stamps
import Graft.Proofs.Tree.Target

namespace Graft

/-! ### Arrays -/

theorem Scalar.linked_toExpr (value : Scalar) : Linked value.toExpr.stamps [] := by
  refine .of_blank fun s hs => ?_
  cases value with
  | bool b => cases b <;> exact List.mem_singleton.1 hs ▸ ⟨rfl, rfl⟩
  | _ => exact List.mem_singleton.1 hs ▸ ⟨rfl, rfl⟩

theorem ArrayItem.linked_fresh (key : Option Text) {e : Expr} (he : Linked e.stamps []) :
    Linked (ArrayItem.fresh (key.map Expr.freshString) e).stamps [] := by
  have hfront : Linked ([⟨.arrayItem, none, .dummy⟩] ++ Expr.stampsOption (key.map Expr.freshString)) [] := by
    refine .of_blank fun s hs => ?_
    rcases List.mem_append.1 hs with hs | hs
    · exact List.mem_singleton.1 hs ▸ ⟨rfl, rfl⟩
    · cases key with
      | none => cases hs
      | some k => exact List.mem_singleton.1 hs ▸ ⟨rfl, rfl⟩
  exact hfront.append he

namespace ArrayLit

/-- An array with other entries. -/
theorem linked_items {a : ArrayLit Expr} {is : List (ArrayItem Expr)}
    (h : Linked (is.flatMap ArrayItem.stamps) (a.items.flatMap ArrayItem.stamps)) :
    Linked ({ a with items := is } : ArrayLit Expr).stamps a.stamps := by
  rw [stamps_eq, stamps_eq]
  exact h.append (.refl _)

/-- An array with one more entry, which was built. -/
theorem linked_append {i : ArrayItem Expr} (hi : Linked i.stamps []) (a : ArrayLit Expr) :
    Linked ((a.items ++ [i]).flatMap ArrayItem.stamps) (a.items.flatMap ArrayItem.stamps) := by
  have happend := (Linked.refl (a.items.flatMap ArrayItem.stamps)).append hi
  rw [List.append_nil] at happend
  rwa [List.flatMap_append, List.flatMap_singleton]

theorem linked_appendEntry (key : Option Text) (value : Scalar) (a : ArrayLit Expr) :
    Linked (appendEntry key value a).stamps a.stamps := by
  unfold appendEntry
  split
  · exact .refl _
  · exact linked_items (linked_append (ArrayItem.linked_fresh key value.linked_toExpr) a)

theorem linked_dropEntries (search : Text) (a : ArrayLit Expr) : Linked (dropEntries search a).stamps a.stamps :=
  linked_items (.flatMap_sublist List.filter_sublist)

theorem linked_setEntry {key : Text} {f : Option Expr → Expr} (hsome : ∀ e, Linked (f (some e)).stamps e.stamps)
    (hnone : Linked (f none).stamps []) (a : ArrayLit Expr) : Linked (setEntry key f a).stamps a.stamps := by
  refine linked_items ?_
  generalize hchange : (fun i : ArrayItem Expr => if i.hasKey key = true then
    some { i with value := f (some i.value) } else none) = change
  cases hupdate : updateFirst? change a.items with
  | none => exact linked_append (ArrayItem.linked_fresh (some key) hnone) a
  | some is =>
    refine Linked.flatMap_updateFirst? [] (fun i j hij => ?_) hupdate
    rw [← hchange] at hij
    simp only [Option.ite_none_right_eq_some, Option.some.injEq] at hij
    obtain ⟨-, rfl⟩ := hij
    obtain ⟨origin, span, k, value, byRef, unpack⟩ := i
    exact (Linked.refl _).append (hsome value)

theorem linked_setPath (keys : List Text) (value : Scalar) (a : ArrayLit Expr) :
    Linked (setPath keys value a).stamps a.stamps := by
  induction keys generalizing a with
  | nil => exact .refl _
  | cons key rest ih =>
    cases rest with
    | nil =>
      refine linked_setEntry (fun e => ?_) value.linked_toExpr a
      rw [overwrite]
      split
      · exact .refl _
      · exact value.linked_toExpr.of_nil _
    | cons k ks =>
      -- Where no array is in the way, a new one is built.
      have hnew : Linked (setPath (k :: ks) value (fresh [])).stamps [] :=
        (ih (fresh [])).trans (.of_blank fun s hs => List.mem_singleton.1 hs ▸ ⟨rfl, rfl⟩)
      refine linked_setEntry (f := fun e? => .array (setPath (k :: ks) value ((e?.bind Expr.array?).getD (fresh []))))
        (fun e => ?_) hnew a
      cases e with
      | array b => exact ih b
      | _ => exact hnew.of_nil _

end ArrayLit

/-! ### Values that are arrays -/

/-- A value that is an array with that array changed. -/
theorem Expr.linked_updateArray {e? : Option Expr} {a : ArrayLit Expr} (ha : e?.bind Expr.array? = some a)
    {g : ArrayLit Expr → ArrayLit Expr} (hg : ∀ a : ArrayLit Expr, Linked (g a).stamps a.stamps) :
    Linked (Expr.stampsOption (some (.array (g a)))) (Expr.stampsOption e?) := by
  obtain ⟨e, rfl, he⟩ := Option.bind_eq_some_iff.1 ha
  cases e with
  | array b =>
    cases he
    exact hg a
  | _ => cases he

variable {g : ArrayLit Expr → ArrayLit Expr}

theorem ReturnStmt.linked_updateArray? (hg : ∀ a : ArrayLit Expr, Linked (g a).stamps a.stamps) {v w : ReturnStmt}
    (hw : v.updateArray? g = some w) : Linked w.stamps v.stamps := by
  obtain ⟨a, ha, rfl⟩ := Option.map_eq_some_iff.1 hw
  exact (Linked.refl _).append (Expr.linked_updateArray ha hg)

theorem PropertyItem.linked_updateTarget? (hg : ∀ a : ArrayLit Expr, Linked (g a).stamps a.stamps) {target : Text}
    {v w : PropertyItem} (hw : v.updateTarget? target g = some w) : Linked w.stamps v.stamps := by
  obtain ⟨a, ha, rfl⟩ := Option.map_eq_some_iff.1 hw
  unfold target? at ha
  split at ha
  · exact (Linked.refl _).append (Expr.linked_updateArray ha hg)
  · cases ha

/-- The first statement that returns an array returns a changed one. -/
theorem linked_updateReturn {α : Type} {stamps : α → List Stamp} {k : α → Option ReturnStmt} {w : ReturnStmt → α}
    (hk : ∀ s r, k s = some r → s = w r) (hw : ∀ r, stamps (w r) = r.stamps)
    (hg : ∀ a : ArrayLit Expr, Linked (g a).stamps a.stamps) (ss : List α) :
    Linked ((updateFirst (fun s => (k s).bind fun r => (r.updateArray? g).map w) ss).flatMap stamps)
      (ss.flatMap stamps) := by
  refine .flatMap_updateFirst (fun s t hst => ?_) ss
  obtain ⟨r, hr, hst⟩ := Option.bind_eq_some_iff.1 hst
  obtain ⟨r', hr', rfl⟩ := Option.map_eq_some_iff.1 hst
  rw [hk s r hr, hw, hw]
  exact ReturnStmt.linked_updateArray? hg hr'

/-! ### Members -/

theorem Method.linked_updateReturned (hg : ∀ a : ArrayLit Expr, Linked (g a).stamps a.stamps) (m : Method) :
    Linked (m.updateReturned g).stamps m.stamps := by
  refine (Linked.refl [⟨.method, m.origin, m.span⟩]).append ?_
  rw [updateReturned]
  cases m.body with
  | none => exact .refl _
  | some b =>
    exact (Linked.refl [⟨.block, b.origin, b.span⟩]).append
      (linked_updateReturn BodyStmt.eq_of_return? (fun _ => rfl) hg b.stmts)

theorem Member.linked_updateTarget? (hg : ∀ a : ArrayLit Expr, Linked (g a).stamps a.stamps) {target : Text}
    {v w : Member} (hw : v.updateTarget? target g = some w) : Linked w.stamps v.stamps := by
  cases v with
  | traitUse c => cases hw
  | other v => cases hw
  | property p =>
    obtain ⟨items, hitems, rfl⟩ := Option.map_eq_some_iff.1 hw
    exact (Linked.refl _).append
      (.flatMap_updateFirst? [] (fun _ _ => PropertyItem.linked_updateTarget? hg) hitems)
  | method m =>
    rw [Member.updateTarget?] at hw
    split at hw
    · cases hw
      exact m.linked_updateReturned hg
    · cases hw

/-- A clause with other names. -/
theorem TraitUse.linked_names {c : TraitUse} {names : List Name}
    (h : Linked (names.flatMap Name.stamps) (c.names.flatMap Name.stamps)) :
    Linked ({ c with names } : TraitUse).stamps c.stamps :=
  (Linked.refl [⟨.traitUse, c.origin, c.span⟩]).append h

/-- Names with one more, which was built. -/
theorem Name.linked_append (names : List Name) (text : Text) :
    Linked ((names ++ [Name.fresh text]).flatMap Name.stamps) (names.flatMap Name.stamps) := by
  have hfresh : Linked (Name.fresh text).stamps [] := .of_blank fun s hs => List.mem_singleton.1 hs ▸ ⟨rfl, rfl⟩
  have happend := (Linked.refl (names.flatMap Name.stamps)).append hfresh
  rw [List.append_nil] at happend
  rwa [List.flatMap_append, List.flatMap_singleton]

/-! ### Classes -/

namespace ClassLike

/-- A class with other members. -/
theorem linked_members (new : List Stamp) {c : ClassLike} {members : List Member}
    (h : Linked (members.flatMap Member.stamps) (new ++ c.members.flatMap Member.stamps)) :
    Linked ({ c with members } : ClassLike).stamps (new ++ c.stamps) := by
  have haround := h.around new ([⟨.classLike, c.origin, c.span⟩] ++ c.parents.flatMap Name.stamps ++
    c.interfaces.flatMap Name.stamps) []
  rwa [List.append_nil, List.append_nil] at haround

/-- A class with other interfaces. -/
theorem linked_interfaces {c : ClassLike} {interfaces : List Name}
    (h : Linked (interfaces.flatMap Name.stamps) (c.interfaces.flatMap Name.stamps)) :
    Linked ({ c with interfaces } : ClassLike).stamps c.stamps :=
  Linked.around [] h ([⟨.classLike, c.origin, c.span⟩] ++ c.parents.flatMap Name.stamps)
    (c.members.flatMap Member.stamps)

theorem linked_addTrait (name : Text) (c : ClassLike) : Linked (c.addTrait name).stamps c.stamps := by
  rw [addTrait_eq]
  refine linked_members [] ?_
  rw [useTrait]
  split
  · exact .refl _
  · cases hupdate : updateFirst? (Member.withTrait? name) c.members with
    | none =>
      -- A clause of its own goes before the members.
      have hclause : Linked (Member.traitUse (.fresh [.fresh name])).stamps [] :=
        .of_blank fun s hs => by
          rcases List.mem_pair.1 hs with rfl | rfl
          · exact ⟨rfl, rfl⟩
          · exact ⟨rfl, rfl⟩
      exact hclause.append (.refl (c.members.flatMap Member.stamps))
    | some members =>
      refine Linked.flatMap_updateFirst? [] (fun m m' hm => ?_) hupdate
      cases m with
      | traitUse clause =>
        cases hm
        exact TraitUse.linked_names (Name.linked_append clause.names name)
      | _ => cases hm

theorem linked_removeTrait (name : Text) (c : ClassLike) : Linked (c.removeTrait name).stamps c.stamps := by
  refine linked_members [] (.flatMap_filterMap (fun m m' hm => ?_) c.members)
  cases m with
  | traitUse clause =>
    simp only [withoutTrait?] at hm
    split at hm
    · cases hm
    · cases hm
      exact TraitUse.linked_names (.flatMap_sublist List.filter_sublist)
  | _ =>
    cases hm
    exact .refl _

theorem linked_addInterface (name : Text) (c : ClassLike) : Linked (c.addInterface name).stamps c.stamps := by
  unfold addInterface
  split
  · exact .refl _
  · exact linked_interfaces (Name.linked_append c.interfaces name)

theorem linked_addMethod (m : Method) (c : ClassLike) : Linked (c.addMethod m).stamps (m.stamps ++ c.stamps) := by
  unfold addMethod
  split
  · exact .of_sublist (List.sublist_append_right _ _)
  · refine linked_members _ fun s _ => ?_
    simp only [List.flatMap_append, List.flatMap_singleton, List.count_append, Member.stamps]
    omega

theorem linked_updateTarget (hg : ∀ a : ArrayLit Expr, Linked (g a).stamps a.stamps) (target : Text) (c : ClassLike) :
    Linked (c.updateTarget target g).stamps c.stamps :=
  linked_members [] (.flatMap_updateFirst (fun _ _ => Member.linked_updateTarget? hg) c.members)

end ClassLike

/-- The stamps of the method that the edit brings; `m` is what its code declares. -/
def Edit.brought (m : Option Method) : Edit → List Stamp
  | .addMethod _ => (m.map Method.stamps).getD []
  | _ => []

/-- An edit of a class copies its nodes, builds new ones and puts in those that it brings. -/
theorem Edit.linked_onClass? {e : Edit} {m : Option Method} {g : ClassLike → ClassLike} (h : e.onClass? m = some g)
    (c : ClassLike) : Linked (g c).stamps (e.brought m ++ c.stamps) := by
  cases e with
  | addTrait name =>
    cases h
    exact c.linked_addTrait name
  | removeTrait name =>
    cases h
    exact c.linked_removeTrait name
  | addInterface name =>
    cases h
    exact c.linked_addInterface name
  | removeInterface name =>
    cases h
    exact ClassLike.linked_interfaces (.flatMap_sublist List.filter_sublist)
  | addMethod code =>
    cases h
    cases m with
    | none => exact .refl _
    | some m => exact c.linked_addMethod m
  | removeMethod name =>
    cases h
    exact ClassLike.linked_members [] (.flatMap_sublist List.filter_sublist)
  | addToArray target key value =>
    cases h
    exact c.linked_updateTarget (ArrayLit.linked_appendEntry key value) target
  | removeFromArray target search =>
    cases h
    exact c.linked_updateTarget (ArrayLit.linked_dropEntries search) target
  | addImport name => cases h
  | removeImport name => cases h
  | setConfig path value => cases h

/-! ### Files -/

namespace File

variable {f f' : File}

/-- A file with other statements. -/
theorem linked_stmts (new : List Stamp) {stmts : List TopStmt}
    (h : Linked (stmts.flatMap TopStmt.stamps) (new ++ f.stmts.flatMap TopStmt.stamps)) :
    Linked ({ f with stmts } : File).stamps (new ++ f.stamps) := by
  have haround := h.around new [⟨.file, f.origin, f.span⟩] []
  rwa [List.append_nil, List.append_nil] at haround

/-- The first class of the file is changed. -/
theorem linked_updateClass? {new : List Stamp} {k : ClassLike → ClassLike} (hk : ∀ c, Linked (k c).stamps (new ++ c.stamps))
    (h : f.updateClass? k = some f') : Linked f'.stamps (new ++ f.stamps) := by
  have hstmt : ∀ s t : Stmt, s.updateClass? k = some t → Linked t.stamps (new ++ s.stamps) := by
    intro s t hst
    cases s with
    | classLike c =>
      rw [Stmt.updateClass?] at hst
      split at hst
      · cases hst
        exact hk c
      · cases hst
    | _ => cases hst
  have htop : ∀ s t : TopStmt, s.updateClass? k = some t → Linked t.stamps (new ++ s.stamps) := by
    intro s t hst
    cases s with
    | inside n =>
      obtain ⟨ss, hss, rfl⟩ := Option.map_eq_some_iff.1 hst
      have haround := (Linked.flatMap_updateFirst? new hstmt hss).around new
        ([⟨.ns, n.origin, n.span⟩] ++ (n.name.map Name.stamps).getD []) []
      rwa [List.append_nil, List.append_nil] at haround
    | plain s =>
      obtain ⟨u, hu, rfl⟩ := Option.map_eq_some_iff.1 hst
      exact hstmt s u hu
  obtain ⟨ss, hss, rfl⟩ := Option.map_eq_some_iff.1 h
  exact linked_stmts new (.flatMap_updateFirst? new htop hss)

/-- The statements of the unit are changed. -/
theorem linked_updateUnit {k : List Stmt → List Stmt}
    (hk : ∀ ss, Linked ((k ss).flatMap Stmt.stamps) (ss.flatMap Stmt.stamps)) (f : File) :
    Linked (f.updateUnit k).stamps f.stamps := by
  obtain ⟨h, hf⟩ := f.exists_fill
  rw [UnitHole.updateUnit_fill hf]
  refine linked_stmts [] ?_
  rw [List.nil_append, hf]
  cases h with
  | whole =>
    have hplain : ∀ ss : List Stmt, (ss.map TopStmt.plain).flatMap TopStmt.stamps = ss.flatMap Stmt.stamps :=
      fun ss => List.flatMap_map ..
    rw [UnitHole.fill, UnitHole.fill, hplain, hplain]
    exact hk f.unit
  | inside l n r =>
    have hinside : ∀ ss, (UnitHole.fill (.inside l n r) ss).flatMap TopStmt.stamps =
        (l.map TopStmt.plain).flatMap TopStmt.stamps ++ ([⟨.ns, n.origin, n.span⟩] ++ (n.name.map Name.stamps).getD []) ++
          ss.flatMap Stmt.stamps ++ r.flatMap TopStmt.stamps := by
      intro ss
      rw [UnitHole.fill, List.flatMap_append, List.flatMap_cons, TopStmt.stamps, Namespace.stamps]
      simp only [List.append_assoc]
    rw [hinside, hinside]
    exact Linked.around [] (hk f.unit) _ _

end File

/-- A new import is built. -/
theorem linked_addImport (name : Text) (ss : List Stmt) :
    Linked ((addImport name ss).flatMap Stmt.stamps) (ss.flatMap Stmt.stamps) := by
  unfold addImport
  split
  · exact .refl _
  · have hfresh : Linked (Stmt.imports (.fresh name)).stamps [] := by
      refine .of_blank fun s hs => ?_
      have hs : s ∈ [(⟨.imports, none, .dummy⟩ : Stamp), ⟨.name, none, .dummy⟩, ⟨.importItem, none, .dummy⟩] := hs
      simp only [List.mem_cons, List.not_mem_nil, or_false] at hs
      rcases hs with rfl | rfl | rfl
      · exact ⟨rfl, rfl⟩
      · exact ⟨rfl, rfl⟩
      · exact ⟨rfl, rfl⟩
    -- Where the import is put does not matter to how often a stamp occurs.
    refine fun s hs => ?_
    have hcount := hfresh s hs
    rw [List.count_nil] at hcount
    rw [((insertAt_perm (importIndex ss) (Stmt.imports (.fresh name)) ss).flatMap_right Stmt.stamps).count_eq,
      List.flatMap_cons, List.count_append]
    omega

/-- What is left of the imports was there. -/
theorem linked_removeImport (name : Text) (f : File) : Linked (removeImport name f).stamps f.stamps := by
  have hstmt : ∀ s t : Stmt, s.withoutImport? name = some t → Linked t.stamps s.stamps := by
    intro s t hst
    cases s with
    | imports d =>
      obtain ⟨items, hdrop, hsub⟩ := d.items_dropClasses (isMeantBy name)
      simp only [Stmt.withoutImport?, hdrop] at hst
      split at hst
      · cases hst
      · cases hst
        exact (Linked.refl ([⟨.imports, d.origin, d.span⟩] ++ (d.stem.map Name.stamps).getD [])).append
          (.flatMap_sublist hsub)
    | _ =>
      cases hst
      exact .refl _
  refine File.linked_stmts [] (.flatMap_filterMap (fun s t hst => ?_) f.stmts)
  cases s with
  | inside n =>
    cases hst
    exact (Linked.refl ([⟨.ns, n.origin, n.span⟩] ++ (n.name.map Name.stamps).getD [])).append
      (.flatMap_filterMap hstmt n.stmts)
  | plain s =>
    obtain ⟨u, hu, rfl⟩ := Option.map_eq_some_iff.1 hst
    exact hstmt s u hu

/-! ### Runs -/

/-- The stamps of the method that the edit has read. -/
def PreparedEdit.brought (p : PreparedEdit) : List Stamp := p.edit.brought p.method

/-- An edit copies the nodes of the file, builds new ones and puts in those that it brings. -/
theorem PreparedEdit.linked_run (p : PreparedEdit) (f : File) : Linked (p.run f).2.stamps (p.brought ++ f.stamps) := by
  have hself : Linked f.stamps (p.brought ++ f.stamps) := .of_sublist (List.sublist_append_right _ _)
  unfold run
  cases hclass : p.edit.onClass? p.method with
  | none =>
    show Linked (p.edit.onFile f).stamps _
    refine Linked.trans ?_ hself
    cases p.edit with
    | addImport name => exact f.linked_updateUnit (linked_addImport _)
    | removeImport name => exact linked_removeImport _ f
    | setConfig path value =>
      exact f.linked_updateUnit
        (linked_updateReturn Stmt.eq_of_return? (fun _ => rfl) (ArrayLit.linked_setPath (pathOf path) value))
    | _ => exact .refl _
  | some k =>
    show Linked (if p.spent then (p, f) else _).2.stamps _
    cases p.spent with
    | true => exact hself
    | false =>
      cases hupdate : f.updateClass? k with
      | none => exact hself
      | some f' => exact File.linked_updateClass? (Edit.linked_onClass? hclass) hupdate

/-- A queue copies the nodes of the file, builds new ones and puts in those that its edits bring. -/
theorem linked_runAll (ps : List PreparedEdit) (f : File) :
    Linked (runAll ps f).stamps (ps.flatMap PreparedEdit.brought ++ f.stamps) := by
  induction ps generalizing f with
  | nil => exact .refl _
  | cons p ps ih =>
    refine (ih (p.run f).2).trans fun s hs => ?_
    have hcount := p.linked_run f s hs
    simp only [List.flatMap_cons, List.count_append] at hcount ⊢
    omega

end Graft
