/-
Edits of the list of members of a class.

Edits of traits look at the clauses among the members and change nothing else.  Edits of methods and arrays pass over
the clauses.  They share one list, in which a new clause comes first and a new method last, but it is all the same which
one of them is run first.

* `addTrait_eq`, `addMethod_eq`, … — edits of a class as edits of its members;
* `SparesClauses` — edits of members that pass over the clauses;
* `SparesClauses.commute_useTrait` — edits of the clauses and of other members.
-/
import Graft.Edit.Class
import Graft.Proofs.Tree.First
import Graft.Tree.Change

namespace Graft

/-! ### Edits of members -/

/-- The member with one more name, if it is a clause. -/
def Member.withTrait? (name : Text) : Member → Option Member
  | .traitUse clause => some (.traitUse { clause with names := clause.names ++ [.fresh name] })
  | _ => none

/-- Some clause among the members names a trait whose last segment is `simple`. -/
def namesTrait (simple : Text) (ms : List Member) : Bool :=
  (ms.filterMap Member.traitUse?).any fun clause => clause.names.any (·.simple == simple)

/-- Members with a trait in the first clause or in a new one, unless some clause names it. -/
def useTrait (name : Text) (ms : List Member) : List Member :=
  if namesTrait (simpleName name) ms then ms
  else (updateFirst? (Member.withTrait? name) ms).getD (.traitUse (.fresh [.fresh name]) :: ms)

/-- Some method among the members has the name. -/
def namesMethod (name : Text) (ms : List Member) : Bool :=
  (ms.filterMap Member.method?).any fun m => m.name.text.sameIgnoringCase name

/-- Members with a method behind them, unless one has its name. -/
def appendMethod (m : Method) (ms : List Member) : List Member :=
  if namesMethod m.name.text ms then ms else ms ++ [.method m]

/-- Names with a new one behind them, unless one has its last segment. -/
def appendName (name : Text) (is : List Name) : List Name :=
  if is.any (·.simple == simpleName name) then is else is ++ [.fresh name]

/-- The member is a method of the name. -/
def Member.isMethod (name : Text) (m : Member) : Bool := m.method?.any fun f => f.name.text.sameIgnoringCase name

namespace ClassLike

theorem addTrait_eq (name : Text) (c : ClassLike) : c.addTrait name = c.onMembers (useTrait name) := by
  have hgrow : Member.withTrait? name = fun
      | .traitUse clause => some (.traitUse { clause with names := clause.names ++ [.fresh name] })
      | _ => none := by
    funext m
    cases m <;> rfl
  by_cases hu : c.usesTrait (simpleName name) = true
  · have hmembers : useTrait name c.members = c.members := if_pos hu
    rw [onMembers, hmembers]
    exact if_pos hu
  · have hmembers : useTrait name c.members = (updateFirst? (Member.withTrait? name) c.members).getD
        (.traitUse (.fresh [.fresh name]) :: c.members) := if_neg hu
    rw [onMembers, hmembers, hgrow]
    exact if_neg hu

theorem removeTrait_eq (name : Text) (c : ClassLike) :
    c.removeTrait name = c.onMembers (List.filterMap (withoutTrait? (simpleName name))) := rfl

theorem addMethod_eq (m : Method) (c : ClassLike) : c.addMethod m = c.onMembers (appendMethod m) := by
  by_cases hm : c.hasMethod m.name.text = true
  · have hmembers : appendMethod m c.members = c.members := if_pos hm
    rw [onMembers, hmembers]
    exact if_pos hm
  · have hmembers : appendMethod m c.members = c.members ++ [.method m] := if_neg hm
    rw [onMembers, hmembers]
    exact if_neg hm

theorem removeMethod_eq (name : Text) (c : ClassLike) :
    c.removeMethod name = c.onMembers (List.filter fun m => !m.isMethod name) := rfl

theorem addInterface_eq (name : Text) (c : ClassLike) : c.addInterface name = c.onInterfaces (appendName name) := by
  by_cases hi : c.implementsInterface (simpleName name) = true
  · have hnames : appendName name c.interfaces = c.interfaces := if_pos hi
    rw [onInterfaces, hnames]
    exact if_pos hi
  · have hnames : appendName name c.interfaces = c.interfaces ++ [.fresh name] := if_neg hi
    rw [onInterfaces, hnames]
    exact if_neg hi

theorem removeInterface_eq (name : Text) (c : ClassLike) :
    c.removeInterface name = c.onInterfaces (List.filter (·.simple != simpleName name)) := rfl

end ClassLike

/-! ### Members of which only some are changed -/

theorem staysIn_withTrait? (name : Text) : StaysIn (Member.withTrait? name) fun m => m.traitUse?.isSome = true := by
  intro m n h
  cases m with
  | traitUse clause =>
    cases h
    exact ⟨rfl, rfl⟩
  | property _ => cases h
  | method _ => cases h
  | other _ => cases h

theorem staysIn_updateTarget? (target : Text) (g : ArrayLit Expr → ArrayLit Expr) :
    StaysIn (Member.updateTarget? target g) fun m => ¬m.traitUse?.isSome = true := by
  intro m n h
  cases m with
  | traitUse _ => cases h
  | property p =>
    obtain ⟨items, -, rfl⟩ := Option.map_eq_some_iff.1 h
    exact ⟨nofun, nofun⟩
  | method f =>
    simp only [Member.updateTarget?] at h
    split at h
    · cases h
      exact ⟨nofun, nofun⟩
    · cases h
  | other _ => cases h

theorem method?_eq_none {m : Member} (h : m.traitUse?.isSome = true) : m.method? = none := by
  cases m with
  | traitUse _ => rfl
  | property _ => rfl
  | method _ => cases h
  | other _ => rfl

/-- What stands in the clauses does not matter for the methods. -/
theorem filterMap_method?_withoutTrait? (simple : Text) (ms : List Member) :
    (ms.filterMap (ClassLike.withoutTrait? simple)).filterMap Member.method? = ms.filterMap Member.method? := by
  rw [List.filterMap_filterMap]
  congr 1
  funext m
  cases m with
  | traitUse clause =>
    simp only [ClassLike.withoutTrait?]
    split <;> rfl
  | property _ => rfl
  | method _ => rfl
  | other _ => rfl

/-! ### Edits that pass over the clauses -/

/-- The edit of members passes over the clauses: it leaves them alone, and it is all the same whether a clause is put
before the members, gets a name or loses one before the edit or behind it. -/
structure SparesClauses (M : List Member → List Member) : Prop where
  clauses (ms : List Member) : (M ms).filterMap Member.traitUse? = ms.filterMap Member.traitUse?
  behind (c : TraitUse) (ms : List Member) : M (.traitUse c :: ms) = .traitUse c :: M ms
  grow (name : Text) : KeepsFirst (Member.withTrait? name) M
  drop (simple : Text) : Function.Commute (List.filterMap (ClassLike.withoutTrait? simple)) M

namespace SparesClauses

variable {M : List Member → List Member}

theorem commute_useTrait (h : SparesClauses M) (name : Text) : Function.Commute (useTrait name) M := by
  intro ms
  have hnames : namesTrait (simpleName name) (M ms) = namesTrait (simpleName name) ms := by
    rw [namesTrait, h.clauses, namesTrait]
  unfold useTrait
  rw [hnames]
  split
  · rfl
  · rw [h.grow name ms]
    cases updateFirst? (Member.withTrait? name) ms with
    | none => exact (h.behind _ ms).symm
    | some ms' => rfl

theorem id : SparesClauses id where
  clauses _ := rfl
  behind _ _ := rfl
  grow _ := keepsFirst_id
  drop _ := fun _ => rfl

theorem appendMethod (m : Method) : SparesClauses (appendMethod m) where
  clauses ms := by
    unfold Graft.appendMethod
    split
    · rfl
    · rw [List.filterMap_append]
      exact List.append_nil _
  behind c ms := by
    have hnames : namesMethod m.name.text (.traitUse c :: ms) = namesMethod m.name.text ms := rfl
    unfold Graft.appendMethod
    rw [hnames]
    split <;> rfl
  grow name := by
    refine keepsFirst_of_forall fun ms => ?_
    -- A clause that grows is no method.
    have hmethods : ∀ ms', updateFirst? (Member.withTrait? name) ms = some ms' →
        namesMethod m.name.text ms' = namesMethod m.name.text ms := by
      intro ms' hms'
      have hsame : ms'.filterMap Member.method? = ms.filterMap Member.method? := by
        refine filterMap_of_updateFirst? (fun a b hab => ?_) hms'
        obtain ⟨ha, hb⟩ := staysIn_withTrait? name a b hab
        rw [method?_eq_none ha, method?_eq_none hb]
      rw [namesMethod, hsame, namesMethod]
    by_cases hnames : namesMethod m.name.text ms = true
    · exact ⟨_, keepsFirst_id, if_pos hnames, fun ms' hms' => if_pos ((hmethods ms' hms').trans hnames)⟩
    · refine ⟨_, keepsFirst_append (x := .method m) rfl, ?_, fun ms' hms' => ?_⟩
      · exact if_neg hnames
      · exact if_neg (by rwa [hmethods ms' hms'])
  drop simple := by
    intro ms
    have hnames : namesMethod m.name.text (ms.filterMap (ClassLike.withoutTrait? simple)) = namesMethod m.name.text ms := by
      rw [namesMethod, filterMap_method?_withoutTrait?, namesMethod]
    unfold Graft.appendMethod
    rw [hnames]
    split
    · rfl
    · rw [List.filterMap_append]
      rfl

theorem filter {q : Member → Bool} (hq : ∀ c, q (.traitUse c) = true) : SparesClauses (List.filter q) where
  clauses ms := by
    rw [List.filterMap_filter]
    congr 1
    funext m
    cases m with
    | traitUse c => exact if_pos (hq c)
    | property _ => exact ite_self _
    | method _ => exact ite_self _
    | other _ => exact ite_self _
  behind c ms := List.filter_cons_of_pos (hq c)
  grow name := (staysIn_withTrait? name).keepsFirst_filter fun m hm => by
    cases m with
    | traitUse c => exact hq c
    | property _ => cases hm
    | method _ => cases hm
    | other _ => cases hm
  drop simple := by
    intro ms
    rw [List.filterMap_filter, List.filter_filterMap]
    congr 1
    funext m
    cases m with
    | traitUse clause =>
      rw [if_pos (hq clause)]
      simp only [ClassLike.withoutTrait?]
      split
      · rfl
      · exact (Option.filter_some_pos (hq _)).symm
    | property p => exact (Option.guard_eq_ite ..).symm
    | method f => exact (Option.guard_eq_ite ..).symm
    | other v => exact (Option.guard_eq_ite ..).symm

theorem updateFirst {d : Member → Option Member} (hd : StaysIn d fun m => ¬m.traitUse?.isSome = true) :
    SparesClauses (updateFirst d) where
  clauses ms := by
    unfold Graft.updateFirst
    cases h : updateFirst? d ms with
    | none => rfl
    | some ms' =>
      refine filterMap_of_updateFirst? (fun a b hab => ?_) h
      have hnone : ∀ m : Member, ¬m.traitUse?.isSome = true → m.traitUse? = none := by
        intro m hm
        rwa [Bool.not_eq_true, Option.isSome_eq_false_iff, Option.isNone_iff_eq_none] at hm
      rw [hnone a (hd a b hab).1, hnone b (hd a b hab).2]
  behind c ms := updateFirst_cons_none (hd.eq_none (not_not_intro rfl)) ms
  grow name := (staysIn_withTrait? name).keepsFirst_updateFirst hd
  drop simple := by
    refine (hd.spares (w := ClassLike.withoutTrait? simple) (fun m hm => ?_) fun m n hmn hn => ?_).keepsFirst.commute.symm
    · cases m with
      | traitUse _ => exact absurd rfl hm
      | property _ => rfl
      | method _ => rfl
      | other _ => rfl
    · cases m with
      | traitUse clause =>
        simp only [ClassLike.withoutTrait?] at hmn
        split at hmn
        · cases hmn
        · cases hmn
          exact hn
      | property _ => exact nofun
      | method _ => exact nofun
      | other _ => exact nofun

end SparesClauses

end Graft
