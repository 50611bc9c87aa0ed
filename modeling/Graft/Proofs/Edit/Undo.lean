/-
An addition and the removal that takes it back.

A removal behind the addition does what it does alone: it takes with it what was added, be it a new clause, a longer one
or a new entry.  So where it has nothing to do the two of them have nothing done, and the text is the text of the file.

* `removeTrait_addTrait`, `removeFromArray_addToArray`, … — a removal behind its addition;
* `Edit.Undoes` — what takes back what;
* `applyEdits_undo` — an addition that is taken back.
-/
import Graft.Proofs.Edit.Array
import Graft.Proofs.Edit.Import
import Graft.Proofs.Edit.Members
import Graft.Proofs.Edit.Settled
import Graft.Proofs.Edit.Frame
import Graft.Proofs.Tree.Target

namespace Graft

/-! ### Classes -/

namespace ClassLike

/-- A new name goes with its last segment. -/
theorem filter_fresh (name : Text) : [Name.fresh name].filter (·.simple != simpleName name) = [] :=
  List.filter_cons_of_neg (by rw [bne_iff_ne]; exact not_not_intro rfl)

/-- The clause that has grown loses the name again, and a new clause has no other. -/
theorem filterMap_withoutTrait?_useTrait (name : Text) (ms : List Member) :
    (useTrait name ms).filterMap (withoutTrait? (simpleName name)) =
      ms.filterMap (withoutTrait? (simpleName name)) := by
  unfold useTrait
  split
  · rfl
  · cases h : updateFirst? (Member.withTrait? name) ms with
    | none =>
      refine List.filterMap_cons_none ?_
      rw [withoutTrait?, TraitUse.fresh, filter_fresh]
      rfl
    | some ms' =>
      refine filterMap_of_updateFirst? (fun m n hmn => ?_) h
      cases m with
      | traitUse clause =>
        cases hmn
        simp only [withoutTrait?, List.filter_append, filter_fresh, List.append_nil]
      | _ => cases hmn

theorem removeTrait_addTrait (name : Text) (c : ClassLike) : (c.addTrait name).removeTrait name = c.removeTrait name := by
  rw [addTrait_eq, removeTrait_eq, removeTrait_eq]
  exact congrArg (fun ms => { c with members := ms }) (filterMap_withoutTrait?_useTrait name c.members)

theorem removeInterface_addInterface (name : Text) (c : ClassLike) :
    (c.addInterface name).removeInterface name = c.removeInterface name := by
  have hnames : ∀ is : List Name, (appendName name is).filter (·.simple != simpleName name) =
      is.filter (·.simple != simpleName name) := by
    intro is
    unfold appendName
    split
    · rfl
    · rw [List.filter_append, filter_fresh, List.append_nil]
  rw [addInterface_eq, removeInterface_eq, removeInterface_eq]
  exact congrArg (fun is => { c with interfaces := is }) (hnames c.interfaces)

theorem removeMethod_addMethod {m : Method} {name : Text} (hname : m.name.text.sameIgnoringCase name = true)
    (c : ClassLike) : (c.addMethod m).removeMethod name = c.removeMethod name := by
  have hmembers : ∀ ms : List Member, (appendMethod m ms).filter (fun m => !m.isMethod name) =
      ms.filter fun m => !m.isMethod name := by
    intro ms
    have hdropped : [Member.method m].filter (fun m => !m.isMethod name) = [] := by
      refine List.filter_cons_of_neg ?_
      rw [show (Member.method m).isMethod name = true from hname]
      exact Bool.false_ne_true
    unfold appendMethod
    split
    · rfl
    · rw [List.filter_append, hdropped, List.append_nil]
  rw [addMethod_eq, removeMethod_eq, removeMethod_eq]
  exact congrArg (fun ms => { c with members := ms }) (hmembers c.members)

theorem removeFromArray_addToArray (key : Option Text) (value : Scalar) {search : Text}
    (h : (ArrayItem.fresh (key.map Expr.freshString) value.toExpr).hasKey search = true ∨
      (ArrayItem.fresh (key.map Expr.freshString) value.toExpr).hasValue search = true) (target : Text) (c : ClassLike) :
    (c.addToArray target key value).removeFromArray target search = c.removeFromArray target search := by
  rw [addToArray, removeFromArray, updateTarget_updateTarget]
  exact congrArg (c.updateTarget target) (funext (ArrayLit.dropEntries_appendEntry h))

end ClassLike

/-! ### Edits -/

/-- The first edit is the removal that takes back the second one, an addition.  A method is taken back by the name that
its code declares, in any case of letters. -/
inductive Edit.Undoes : Edit → Edit → Prop where
  | imports (name : Text) : Undoes (.removeImport name) (.addImport name)
  | trait (name : Text) : Undoes (.removeTrait name) (.addTrait name)
  | interface (name : Text) : Undoes (.removeInterface name) (.addInterface name)
  | method {code name : Text} {m : Method} (hm : (Arena.empty.parseMethod code).1 = .ok (some m))
    (hname : m.name.text.sameIgnoringCase name = true) : Undoes (.removeMethod name) (.addMethod code)
  | value (target value : Text) : Undoes (.removeFromArray target value) (.addToArray target none (.string value))
  | entry (target key : Text) (value : Scalar) : Undoes (.removeFromArray target key) (.addToArray target (some key) value)

variable {f : File} {a b : Arena}

/-- A change of a class that another one behind it does not see is not seen in the file. -/
theorem File.onClass_onClass_of_absorbs {g h : ClassLike → ClassLike} (hkind : ∀ c, (h c).kind = c.kind)
    (hgh : ∀ c, g (h c) = g c) (f : File) : (f.onClass h).onClass g = f.onClass g := by
  rw [onClass_onClass hkind]
  exact congrArg (onClass · f) (funext hgh)

/-- A method is read by the name that it has in an arena of its own. -/
theorem Arena.exists_parseMethod {code : Text} {m : Method} (hm : (Arena.empty.parseMethod code).1 = .ok (some m))
    (a : Arena) : ∃ m' a', a.parseMethod code = (.ok (some m'), a') ∧ m'.name.text = m.name.text := by
  have hgrows : Arena.empty.Grows a := ⟨Nat.zero_le _, Nat.zero_le _⟩
  rcases hgrows.parseMethod code with ⟨⟨e, b, hb⟩, -⟩ | ⟨m', b, b', φ, hb, hb'⟩
  · rw [hb] at hm
    cases hm
  · rw [hb] at hm
    obtain rfl : m' = some m := Except.ok.inj hm
    exact ⟨_, _, hb', rfl⟩

/-- A removal behind the addition that it takes back is the removal alone. -/
theorem Edit.Undoes.act_act {remove add : Edit} (h : remove.Undoes add) {p : PreparedEdit}
    (hp : (PreparedEdit.ofEdit add).prepare f a = (.ok p, b)) (g : File) :
    remove.act none (add.act p.method g) = remove.act none g := by
  cases h with
  | imports name => exact Graft.removeImport_addImport name g
  | trait name =>
    exact File.onClass_onClass_of_absorbs (onClass?_kind (e := .addTrait name) (m := none) rfl)
      (ClassLike.removeTrait_addTrait name) g
  | interface name =>
    exact File.onClass_onClass_of_absorbs (onClass?_kind (e := .addInterface name) (m := none) rfl)
      (ClassLike.removeInterface_addInterface name) g
  | @method code name m hm hname =>
    obtain ⟨m', a', hm', hsame⟩ := Arena.exists_parseMethod hm a
    simp only [PreparedEdit.prepare, PreparedEdit.ofEdit, hm'] at hp
    cases hp
    exact File.onClass_onClass_of_absorbs (onClass?_kind (e := .addMethod code) (m := some m') rfl)
      (ClassLike.removeMethod_addMethod (by rwa [hsame])) g
  | value target value =>
    have hvalue : (ArrayItem.fresh none (Scalar.string value).toExpr).hasValue value = true := by
      simp [ArrayItem.hasValue, ArrayItem.fresh, Scalar.toExpr, Expr.string?]
    exact File.onClass_onClass_of_absorbs (onClass?_kind (e := .addToArray target none (.string value)) (m := none) rfl)
      (ClassLike.removeFromArray_addToArray none (.string value) (.inr hvalue) target) g
  | entry target key value =>
    have hkey : (ArrayItem.fresh (some (Expr.freshString key)) value.toExpr).hasKey key = true := by
      simp [ArrayItem.hasKey, ArrayItem.fresh, Expr.freshString, Expr.string?]
    exact File.onClass_onClass_of_absorbs (onClass?_kind (e := .addToArray target (some key) value) (m := none) rfl)
      (ClassLike.removeFromArray_addToArray (some key) value (.inl hkey) target) g

/-- A removal that leaves the file alone leaves the text alone behind the addition that it takes back. -/
theorem applyEdits_undo {source out : Text} {add remove : Edit} (hf : (Arena.empty.parseFile source).1 = .ok f)
    (h : remove.Undoes add) (hstays : ((PreparedEdit.ofEdit remove).run f).2 = f)
    (hout : applyEdits source [add, remove] = .ok out) : out = source := by
  obtain ⟨a, hparse⟩ : ∃ a, Arena.empty.parseFile source = (.ok f, a) := ⟨_, Prod.ext hf rfl⟩
  obtain ⟨ps, b, hps, hprint⟩ := (applyEdits_eq_ok_iff hparse).1 hout
  obtain ⟨p, c, rest, hp, hrest, rfl⟩ := prepareAll_cons_eq_ok.1 hps
  obtain ⟨q, d, none, hq, hnone, rfl⟩ := prepareAll_cons_eq_ok.1 hrest
  obtain ⟨rfl, rfl⟩ : [] = none ∧ d = b := Prod.mk.inj (Except.ok.inj hnone)
  have hcode : ∀ code, remove ≠ .addMethod code := by
    rintro code rfl
    cases h
  obtain ⟨-, rfl, -⟩ := (prepare_eq_ok_iff hcode).1 hq
  obtain ⟨hedit, hspent, -⟩ := PreparedEdit.prepare_eq_ok hp
  have hadd : (p.run f).2 = add.act p.method f := by
    rw [PreparedEdit.run_of_unspent hspent, hedit]
    rfl
  have hrun : runAll [p, .ofEdit remove] f = f := by
    calc runAll [p, .ofEdit remove] f
      _ = ((PreparedEdit.ofEdit remove).run (p.run f).2).2 := rfl
      _ = remove.act none (add.act p.method f) := by rw [PreparedEdit.run_of_unspent rfl, hadd]; rfl
      _ = remove.act none f := h.act_act hp f
      _ = ((PreparedEdit.ofEdit remove).run f).2 := (PreparedEdit.run_of_unspent (p := .ofEdit remove) rfl f).symm
      _ = f := hstays
  rw [← hprint, hrun]
  exact print_prepareAll hparse hps

/-- A method is added and taken back by its name in another letter. -/
theorem applyEdits_undo_method : ∃ f, (Arena.empty.parseFile "<?php\nclass A \x7b\x7d".toList).1 = .ok f ∧
    (Edit.removeMethod "F".toList).Undoes (.addMethod "function f();".toList) ∧
      ((PreparedEdit.ofEdit (.removeMethod "F".toList)).run f).2 = f ∧
        ∃ out, applyEdits "<?php\nclass A \x7b\x7d".toList
          [.addMethod "function f();".toList, .removeMethod "F".toList] = .ok out ∧
            out = "<?php\nclass A \x7b\x7d".toList := by
  obtain ⟨f, hf, hstays⟩ : ∃ f, (Arena.empty.parseFile "<?php\nclass A \x7b\x7d".toList).1 = .ok f ∧
      ((PreparedEdit.ofEdit (.removeMethod "F".toList)).run f).2 = f := ⟨_, rfl, rfl⟩
  have hundoes : (Edit.removeMethod "F".toList).Undoes (.addMethod "function f();".toList) := .method rfl (by decide)
  have hout : applyEdits "<?php\nclass A \x7b\x7d".toList
      [.addMethod "function f();".toList, .removeMethod "F".toList] = .ok "<?php\nclass A \x7b\x7d".toList := by
    decide +kernel
  exact ⟨f, hf, hundoes, hstays, _, hout, applyEdits_undo hf hundoes hstays hout⟩

end Graft
