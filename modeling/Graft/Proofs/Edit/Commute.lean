/-
Edits of different parts of a file.

The edits of a file are those of its imports, those of the interfaces of its class, of the traits and of the other
members of the class, and those of the array that it returns.  Edits of different parts do the same in either order.
The class, the imports and the returned array stand in one list of statements, and traits and other members stand in one
list of members.  At most one of two such edits adds a method, so the same code is read into the arena at the same place,
and neighbours in a queue may change places.

* `Edit.part` — the part that an edit is one of;
* `ChangesClass.commute` — two parts of a class;
* `File.updateClass?_updateUnit`, `updateClass?_removeImport` — the class and the other statements;
* `Edit.commute_act` — two parts of a file;
* `prepareAll_swap`, `applyEdits_swap` — neighbours in a queue.
-/
import Graft.Proofs.Edit.FirstClass
import Graft.Proofs.Edit.Import
import Graft.Proofs.Edit.Members
import Graft.Proofs.Edit.Prepared

namespace Graft

/-! ### Parts -/

/-- What an edit changes of a file. -/
inductive Part where
  | imports
  | interfaces
  | traits
  /-- Methods, and the arrays that properties hold or methods return. -/
  | members
  | config
deriving DecidableEq

def Edit.part : Edit → Part
  | addImport _ | removeImport _ => .imports
  | addInterface _ | removeInterface _ => .interfaces
  | addTrait _ | removeTrait _ => .traits
  | addMethod _ | removeMethod _ | addToArray .. | removeFromArray .. => .members
  | setConfig .. => .config

/-! ### Parts of a class -/

/-- The change of a class is one of the part. -/
inductive ChangesClass : Part → (ClassLike → ClassLike) → Prop where
  | interfaces (I : List Name → List Name) : ChangesClass .interfaces (ClassLike.onInterfaces I)
  | traits (T : List Member → List Member) (h : ∀ M, SparesClauses M → Function.Commute T M) :
    ChangesClass .traits (ClassLike.onMembers T)
  | members (M : List Member → List Member) (h : SparesClauses M) : ChangesClass .members (ClassLike.onMembers M)

/-- Changes of different parts of a class. -/
theorem ChangesClass.commute {p q : Part} {g h : ClassLike → ClassLike} (hg : ChangesClass p g) (hh : ChangesClass q h)
    (hne : p ≠ q) : Function.Commute g h := by
  have hmembers : ∀ {T M : List Member → List Member}, Function.Commute T M →
      Function.Commute (ClassLike.onMembers T) (ClassLike.onMembers M) :=
    fun hTM c => congrArg (fun ms => { c with members := ms }) (hTM c.members)
  cases hg with
  | interfaces I =>
    cases hh with
    | interfaces _ => exact absurd rfl hne
    | traits T _ => exact fun c => rfl
    | members M _ => exact fun c => rfl
  | traits T hT =>
    cases hh with
    | interfaces I => exact fun c => rfl
    | traits _ _ => exact absurd rfl hne
    | members M hM => exact hmembers (hT M hM)
  | members M hM =>
    cases hh with
    | interfaces I => exact fun c => rfl
    | traits T hT => exact (hmembers (hT M hM)).symm
    | members _ _ => exact absurd rfl hne

/-- An edit of a class changes its part of the class. -/
theorem Edit.changesClass {e : Edit} {m : Option Method} {g : ClassLike → ClassLike} (h : e.onClass? m = some g) :
    ChangesClass e.part g := by
  cases e with
  | addTrait name =>
    cases h
    rw [funext (ClassLike.addTrait_eq name)]
    exact .traits _ fun M hM => hM.commute_useTrait name
  | removeTrait name =>
    cases h
    exact .traits _ fun M hM => hM.drop (simpleName name)
  | addInterface name =>
    cases h
    rw [funext (ClassLike.addInterface_eq name)]
    exact .interfaces _
  | removeInterface name =>
    cases h
    exact .interfaces _
  | addMethod code =>
    cases h
    cases m with
    | none => exact .members _ .id
    | some m =>
      show ChangesClass .members fun c => c.addMethod m
      rw [funext (ClassLike.addMethod_eq m)]
      exact .members _ (.appendMethod m)
  | removeMethod name =>
    cases h
    exact .members _ (.filter fun c => rfl)
  | addToArray target key value =>
    cases h
    exact .members _ (.updateFirst (staysIn_updateTarget? target _))
  | removeFromArray target search =>
    cases h
    exact .members _ (.updateFirst (staysIn_updateTarget? target _))
  | _ => cases h

/-! ### Statements of which only some are changed -/

section Statements

variable (g : ClassLike → ClassLike) (h : ArrayLit Expr → ArrayLit Expr)

theorem staysIn_updateClass? : StaysIn (Stmt.updateClass? g) fun s => s.classLike?.isSome = true := by
  intro s t hst
  cases s with
  | classLike c =>
    simp only [Stmt.updateClass?] at hst
    split at hst
    · cases hst
      exact ⟨rfl, rfl⟩
    · cases hst
  | imports _ => cases hst
  | ret _ => cases hst
  | declare _ => cases hst
  | other _ => cases hst

theorem staysIn_updateArray? :
    StaysIn (fun s : Stmt => s.return?.bind fun r => (r.updateArray? h).map .ret) fun s => s.return?.isSome = true := by
  intro s t hst
  obtain ⟨r, hr, hst⟩ := Option.bind_eq_some_iff.1 hst
  obtain ⟨r', -, rfl⟩ := Option.map_eq_some_iff.1 hst
  exact ⟨Option.isSome_iff_exists.2 ⟨r, hr⟩, rfl⟩

variable {g h}

theorem isNoImport_of_classLike? {s : Stmt} (hs : s.classLike?.isSome = true) :
    s.import? = none ∧ s.isDeclare = false := by
  cases s with
  | classLike _ => exact ⟨rfl, rfl⟩
  | imports _ => cases hs
  | ret _ => cases hs
  | declare _ => cases hs
  | other _ => cases hs

theorem isNoImport_of_return? {s : Stmt} (hs : s.return?.isSome = true) : s.import? = none ∧ s.isDeclare = false := by
  cases s with
  | ret _ => exact ⟨rfl, rfl⟩
  | imports _ => cases hs
  | classLike _ => cases hs
  | declare _ => cases hs
  | other _ => cases hs

theorem not_classLike?_of_return? {s : Stmt} (hs : s.return?.isSome = true) : ¬s.classLike?.isSome = true := by
  cases s with
  | ret _ => exact nofun
  | imports _ => cases hs
  | classLike _ => cases hs
  | declare _ => cases hs
  | other _ => cases hs

/-- A removal of imports spares every other statement. -/
theorem StaysIn.spares_withoutImport? {f : Stmt → Option Stmt} (hf : StaysIn f fun s => s.import? = none) (name : Text) :
    Spares (Stmt.withoutImport? name) f := by
  refine hf.spares (fun s hs => ?_) fun s t hst ht => ?_
  · cases s with
    | imports _ => cases hs
    | classLike _ => rfl
    | ret _ => rfl
    | declare _ => rfl
    | other _ => rfl
  · cases s with
    | imports d =>
      simp only [Stmt.withoutImport?] at hst
      split at hst
      · cases hst
      · cases hst
        cases ht
    | classLike _ => rfl
    | ret _ => rfl
    | declare _ => rfl
    | other _ => rfl

/-- A removal of imports spares the class in every statement of a file. -/
theorem spares_withoutImport? (name : Text) : Spares (TopStmt.withoutImport? name) (TopStmt.updateClass? g) := by
  have hstmt : Spares (Stmt.withoutImport? name) (Stmt.updateClass? g) :=
    ((staysIn_updateClass? g).mono fun s hs => (isNoImport_of_classLike? hs).1).spares_withoutImport? name
  have hstmts : ∀ ss, updateFirst? (Stmt.updateClass? g) (ss.filterMap (Stmt.withoutImport? name)) =
      (updateFirst? (Stmt.updateClass? g) ss).map (List.filterMap (Stmt.withoutImport? name)) := hstmt.keepsFirst
  refine ⟨fun {s t} hs hst => ?_, fun {s t} hst => ?_⟩
  · cases s with
    | inside n =>
      cases hst
      have hn : updateFirst? (Stmt.updateClass? g) n.stmts = none := Option.map_eq_none_iff.1 hs
      simp only [TopStmt.updateClass?, hstmts, hn, Option.map_none]
    | plain s =>
      obtain ⟨t, ht, rfl⟩ := Option.map_eq_some_iff.1 hst
      exact Option.map_eq_none_iff.2 (hstmt.none (Option.map_eq_none_iff.1 hs) ht)
  · cases s with
    | inside n =>
      obtain ⟨ss, hss, rfl⟩ := Option.map_eq_some_iff.1 hst
      refine ⟨_, _, rfl, rfl, ?_⟩
      simp only [TopStmt.updateClass?, hstmts, hss, Option.map_some]
    | plain s =>
      obtain ⟨t, ht, rfl⟩ := Option.map_eq_some_iff.1 hst
      obtain ⟨s', t', hs', ht', hst'⟩ := hstmt.some ht
      exact ⟨.plain s', .plain t', congrArg (Option.map _) hs', congrArg (Option.map _) ht', congrArg (Option.map _) hst'⟩

end Statements

/-! ### The class and the other statements -/

namespace File

theorem onClass_commute {g h : ClassLike → ClassLike} (hg : ∀ c, (g c).kind = c.kind) (hh : ∀ c, (h c).kind = c.kind)
    (hgh : Function.Commute g h) : Function.Commute (onClass g) (onClass h) := by
  intro f
  rw [onClass_onClass hh, onClass_onClass hg, hgh.comp_eq]

end File

/-- The class stands before the unit, in it or behind it. -/
theorem UnitHole.updateClass?_fill (h : UnitHole) (g : ClassLike → ClassLike) :
    ∃ before behind : Option UnitHole, ∀ ss, updateFirst? (TopStmt.updateClass? g) (h.fill ss) =
      (before.map (·.fill ss)).or (((updateFirst? (Stmt.updateClass? g) ss).map h.fill).or (behind.map (·.fill ss))) := by
  have hplain : ∀ ss : List Stmt, updateFirst? (TopStmt.updateClass? g) (ss.map .plain) =
      (updateFirst? (Stmt.updateClass? g) ss).map (List.map .plain) := updateFirst?_map fun s => rfl
  cases h with
  | whole =>
    refine ⟨none, none, fun ss => ?_⟩
    rw [fill, hplain]
    exact (Option.or_none).symm
  | inside l n r =>
    refine ⟨(updateFirst? (Stmt.updateClass? g) l).map (inside · n r),
      (updateFirst? (TopStmt.updateClass? g) r).map (inside l n ·), fun ss => ?_⟩
    have hcons : updateFirst? (TopStmt.updateClass? g) (.inside { n with stmts := ss } :: r) =
        ((updateFirst? (Stmt.updateClass? g) ss).map fun ss => .inside { n with stmts := ss } :: r).or
          ((updateFirst? (TopStmt.updateClass? g) r).map (.inside { n with stmts := ss } :: ·)) := by
      rw [updateFirst?, TopStmt.updateClass?]
      cases updateFirst? (Stmt.updateClass? g) ss <;> rfl
    rw [fill, updateFirst?_append_eq, hplain, hcons]
    cases updateFirst? (Stmt.updateClass? g) l with
    | some l' => rfl
    | none =>
      cases updateFirst? (Stmt.updateClass? g) ss with
      | some ss' => rfl
      | none =>
        cases updateFirst? (TopStmt.updateClass? g) r <;> rfl

namespace File

/-- What goes well with an update of the class in the unit goes well with it in the file. -/
theorem updateClass?_updateUnit {g : ClassLike → ClassLike} {F : List Stmt → List Stmt}
    (hF : KeepsFirst (Stmt.updateClass? g) F) (f : File) :
    (f.updateUnit F).updateClass? g = (f.updateClass? g).map (updateUnit F) := by
  obtain ⟨h, hf⟩ := f.exists_fill
  obtain ⟨before, behind, hclass⟩ := h.updateClass?_fill g
  have hfill : ∀ (h' : UnitHole) (ss : List Stmt),
      updateUnit F { f with stmts := h'.fill ss } = { f with stmts := h'.fill (F ss) } :=
    fun h' ss => UnitHole.updateUnit_fill rfl F
  rw [UnitHole.updateUnit_fill hf, updateClass?, updateClass?, hf, hclass, hclass, hF]
  cases before with
  | some h' => exact congrArg some (hfill h' f.unit).symm
  | none =>
    cases updateFirst? (Stmt.updateClass? g) f.unit with
    | some ss => exact congrArg some (hfill h ss).symm
    | none =>
      cases behind with
      | some h' => exact congrArg some (hfill h' f.unit).symm
      | none => rfl

theorem updateClass?_removeImport (g : ClassLike → ClassLike) (name : Text) (f : File) :
    (removeImport name f).updateClass? g = (f.updateClass? g).map (removeImport name) := by
  rw [updateClass?, updateClass?, removeImport, (spares_withoutImport? name).keepsFirst f.stmts, Option.map_map,
    Option.map_map]
  rfl

/-- A change of the file that an update of the class goes well with. -/
theorem onClass_commute_of_map {g : ClassLike → ClassLike} {F : File → File}
    (h : ∀ f : File, (F f).updateClass? g = (f.updateClass? g).map F) : Function.Commute F (onClass g) := by
  intro f
  rw [onClass, onClass, h f]
  cases f.updateClass? g <;> rfl

end File

/-! ### Edits -/

/-- An edit of the imports or of the returned array, and a change of the class. -/
theorem Edit.commute_onClass {e : Edit} {m : Option Method} (h : e.onClass? m = none) (g : ClassLike → ClassLike) :
    Function.Commute (fun f => e.onFile f) (File.onClass g) := by
  refine File.onClass_commute_of_map fun f => ?_
  cases e with
  | addImport name =>
    exact File.updateClass?_updateUnit
      (((staysIn_updateClass? g).mono fun s => isNoImport_of_classLike?).keepsFirst_addImport _) f
  | removeImport name => exact File.updateClass?_removeImport g _ f
  | setConfig path value =>
    refine File.updateClass?_updateUnit (StaysIn.keepsFirst_updateFirst (staysIn_updateClass? g) ?_) f
    exact (staysIn_updateArray? _).mono fun s => not_classLike?_of_return?
  | _ => cases h

/-- An edit of the imports and one of the returned array. -/
theorem Edit.commute_setConfig {e : Edit} (h : e.part = .imports) (path : Text) (value : Scalar) :
    Function.Commute (fun f => e.onFile f) (Graft.setConfig path value) := by
  intro f
  cases e with
  | addImport name =>
    have hcommute := (((staysIn_updateArray? (ArrayLit.setPath (pathOf path) value)).mono
      fun s => isNoImport_of_return?).keepsFirst_addImport (normalizedName name)).commute
    exact File.updateUnit_commute hcommute.symm f
  | removeImport name =>
    have hspares := ((staysIn_updateArray? (ArrayLit.setPath (pathOf path) value)).mono
      fun s hs => (isNoImport_of_return? hs).1).spares_withoutImport? (normalizedName name)
    exact removeImport_updateUnit hspares.keepsFirst.commute.symm f
  | _ => cases h

/-- An edit of no class is one of the imports or of the returned array. -/
theorem Edit.part_of_onClass?_none {e : Edit} {m : Option Method} (h : e.onClass? m = none) :
    e.part = .imports ∨ ∃ path value, e = .setConfig path value := by
  cases e with
  | addImport name => exact .inl rfl
  | removeImport name => exact .inl rfl
  | setConfig path value => exact .inr ⟨path, value, rfl⟩
  | _ => cases h

/-- Edits of different parts do the same in either order. -/
theorem Edit.commute_act {a b : Edit} (h : a.part ≠ b.part) (m m' : Option Method) :
    Function.Commute (a.act m) (b.act m') := by
  cases ha : a.onClass? m with
  | some g =>
    rw [funext (act_of_onClass? ha)]
    cases hb : b.onClass? m' with
    | some g' =>
      rw [funext (act_of_onClass? hb)]
      exact File.onClass_commute (onClass?_kind ha) (onClass?_kind hb) ((changesClass ha).commute (changesClass hb) h)
    | none =>
      rw [funext (act_of_onClass?_none hb)]
      exact (commute_onClass hb g).symm
  | none =>
    rw [funext (act_of_onClass?_none ha)]
    cases hb : b.onClass? m' with
    | some g' =>
      rw [funext (act_of_onClass? hb)]
      exact commute_onClass ha g'
    | none =>
      rw [funext (act_of_onClass?_none hb)]
      rcases part_of_onClass?_none ha with hpart | ⟨path, value, rfl⟩
      · rcases part_of_onClass?_none hb with hpart' | ⟨path, value, rfl⟩
        · exact absurd (hpart.trans hpart'.symm) h
        · exact commute_setConfig hpart path value
      · rcases part_of_onClass?_none hb with hpart' | ⟨path', value', rfl⟩
        · exact (commute_setConfig hpart' path value).symm
        · exact absurd rfl h

/-! ### Edits that are prepared -/

variable {f : File} {s t : Arena}

/-- Neighbours are prepared in either order, and the arena is the same. -/
theorem prepareAll_swap {a b : Edit} (h : a.part ≠ b.part) {es : List Edit} {ps : List PreparedEdit}
    (hps : prepareAll f (a :: b :: es) s = .ok (ps, t)) :
    ∃ p q qs, ps = p :: q :: qs ∧ prepareAll f (b :: a :: es) s = .ok (q :: p :: qs, t) := by
  obtain ⟨p, u, rest, hp, hrest, rfl⟩ := prepareAll_cons_eq_ok.1 hps
  obtain ⟨q, v, qs, hq, hqs, rfl⟩ := prepareAll_cons_eq_ok.1 hrest
  refine ⟨p, q, qs, rfl, ?_⟩
  have hreads : ∀ {e : Edit}, e.part ≠ .members → ∀ code, e ≠ .addMethod code := by
    rintro _ he code rfl
    exact he rfl
  by_cases ha : a.part = .members
  · -- The second edit reads nothing.
    have hb := hreads fun hb => h (ha.trans hb.symm)
    obtain ⟨hrequire, rfl, rfl⟩ := (prepare_eq_ok_iff hb).1 hq
    have hb' := (prepare_eq_ok_iff (a := s) hb).2 ⟨hrequire, rfl, rfl⟩
    exact prepareAll_cons_eq_ok.2 ⟨_, _, _, hb', prepareAll_cons_eq_ok.2 ⟨p, v, qs, hp, hqs, rfl⟩, rfl⟩
  · -- The first edit reads nothing.
    have ha := hreads ha
    obtain ⟨hrequire, rfl, rfl⟩ := (prepare_eq_ok_iff ha).1 hp
    have ha' := (prepare_eq_ok_iff (a := v) ha).2 ⟨hrequire, rfl, rfl⟩
    exact prepareAll_cons_eq_ok.2 ⟨q, v, _, hq, prepareAll_cons_eq_ok.2 ⟨_, _, qs, ha', hqs, rfl⟩, rfl⟩

/-! ### Edits that are run -/

/-- Neighbours are run in either order. -/
theorem PreparedEdit.run_swap {p q : PreparedEdit} (h : p.edit.part ≠ q.edit.part) (hp : p.spent = false)
    (hq : q.spent = false) (f : File) : (q.run (p.run f).2).2 = (p.run (q.run f).2).2 := by
  rw [run_of_unspent hp, run_of_unspent hq, run_of_unspent hq, run_of_unspent hp]
  exact Edit.commute_act h.symm q.method p.method f

/-- A queue that is applied is applied with two neighbours in the other order. -/
theorem applyEdits_swap_of_eq_ok {source out : Text} {q₁ q₂ : List Edit} {a b : Edit} (h : a.part ≠ b.part)
    (hout : applyEdits source (q₁ ++ a :: b :: q₂) = .ok out) : applyEdits source (q₁ ++ b :: a :: q₂) = .ok out := by
  cases hparse : Arena.empty.parseFile source with
  | mk r s =>
    cases r with
    | error err =>
      simp only [applyEdits, hparse] at hout
      cases hout
    | ok f =>
      obtain ⟨ps, t, hps, hprint⟩ := (applyEdits_eq_ok_iff hparse).1 hout
      obtain ⟨ps₁, u, ps₂, hps₁, hps₂, rfl⟩ := prepareAll_append_eq_ok.1 hps
      obtain ⟨p, q, qs, rfl, hswap⟩ := prepareAll_swap h hps₂
      obtain ⟨hedits, hspent, -⟩ := prepareAll_eq_ok hps₂
      have hp : p.edit = a := (List.cons.inj hedits).1
      have hq : q.edit = b := (List.cons.inj (List.cons.inj hedits).2).1
      have hrun : ∀ g, (q.run (p.run g).2).2 = (p.run (q.run g).2).2 :=
        PreparedEdit.run_swap (by rwa [hp, hq]) (hspent p (by simp)) (hspent q (by simp))
      have hsame : runAll (ps₁ ++ q :: p :: qs) f = runAll (ps₁ ++ p :: q :: qs) f := by
        rw [runAll_append, runAll_append]
        exact congrArg (runAll qs) (hrun (runAll ps₁ f)).symm
      rw [← hsame] at hprint
      exact (applyEdits_eq_ok_iff hparse).2 ⟨_, t, prepareAll_append_eq_ok.2 ⟨ps₁, u, _, hps₁, hswap, rfl⟩, hprint⟩

/-- Two neighbours in a queue that are edits of different parts may change places: the queue is applied in the one order
exactly when it is in the other, and gives the same text. -/
theorem applyEdits_swap (source : Text) (q₁ q₂ : List Edit) (a b : Edit) (h : a.part ≠ b.part) (out : Text) :
    applyEdits source (q₁ ++ [a, b] ++ q₂) = .ok out ↔ applyEdits source (q₁ ++ [b, a] ++ q₂) = .ok out := by
  rw [List.append_assoc, List.append_assoc]
  constructor
  · exact applyEdits_swap_of_eq_ok h
  · exact applyEdits_swap_of_eq_ok h.symm

/-- A new clause comes first and a new method last, whichever is added first. -/
theorem applyEdits_swap_trait_method :
    (Edit.addTrait "T".toList).part ≠ (Edit.addMethod "function f() \x7b\x7d".toList).part ∧
      applyEdits "<?php\nclass A \x7b const B = 1; \x7d".toList
          [.addMethod "function f() \x7b\x7d".toList, .addTrait "T".toList] =
        .ok "<?php\nclass A \x7b use T;\n\n    const B = 1;\n\n    function f() \x7b\x7d \x7d".toList :=
  have h := applyEdits_swap "<?php\nclass A \x7b const B = 1; \x7d".toList [] [] (.addTrait "T".toList)
    (.addMethod "function f() \x7b\x7d".toList) (by decide)
    "<?php\nclass A \x7b use T;\n\n    const B = 1;\n\n    function f() \x7b\x7d \x7d".toList
  ⟨by decide, h.1 (by decide +kernel)⟩

end Graft
