/-
Updates of the array that a target addresses, and of the array that a file returns.

Which array is changed does not depend on what it becomes.  So two updates, one behind the other, are one, and an update
that leaves the array alone leaves all else alone.  Such an array is the default of a property or what a return
statement returns.  Its place is what stands around it: a tree for each array that may stand there.  An update of the
array puts another one in the same place.

* `Member.composes_updateTarget?` — members;
* `ClassLike.updateTarget_updateTarget`, `ClassLike.updateTarget_eq_self` — classes;
* `File.onReturnedArray_onReturnedArray` — files;
* `Member.HoldsArray`, `ClassLike.HoldsArray`, `File.HoldsArray` — the places in members, classes and files;
* `ClassLike.exists_holdsArray`, `File.exists_holdsArray` — the places of the array that a target addresses and of the
  one that a file returns.
-/
import Graft.Proofs.Edit.FirstClass
import Graft.Proofs.Tree.First
import Graft.Tree.Change

namespace Graft

variable (target : Text) (g h : ArrayLit Expr → ArrayLit Expr)

/-! ### Properties -/

theorem PropertyItem.composes_updateTarget? : Composes (fun i : PropertyItem => i.updateTarget? target h)
    (fun i => i.updateTarget? target g) fun i => i.updateTarget? target (g ∘ h) where
  none {i} hi := by
    have hnone : i.target? target = none := Option.map_eq_none_iff.1 hi
    exact ⟨Option.map_eq_none_iff.2 hnone, Option.map_eq_none_iff.2 hnone⟩
  some {i j} hij := by
    obtain ⟨a, ha, rfl⟩ := Option.map_eq_some_iff.1 hij
    have hname : i.name.text = target := by
      unfold target? at ha
      split at ha
      · assumption
      · cases ha
    refine ⟨{ i with default := some (.array (g (h a))) }, ?_, ?_⟩
    · simp only [updateTarget?, target?, hname, if_true, Option.bind_some, Expr.array?, Option.map_some]
    · simp only [updateTarget?, ha, Option.map_some, Function.comp_apply]

/-! ### Return statements -/

theorem ReturnStmt.composes_updateArray? :
    Composes (ReturnStmt.updateArray? h) (ReturnStmt.updateArray? g) (ReturnStmt.updateArray? (g ∘ h)) where
  none {r} hr := by
    have hnone : r.array? = none := Option.map_eq_none_iff.1 hr
    exact ⟨Option.map_eq_none_iff.2 hnone, Option.map_eq_none_iff.2 hnone⟩
  some {r s} hrs := by
    obtain ⟨a, ha, rfl⟩ := Option.map_eq_some_iff.1 hrs
    exact ⟨_, rfl, by rw [updateArray?, ha]; rfl⟩

/-- Updates of elements of which some are return statements. -/
theorem composes_return {α : Type} {k : α → Option ReturnStmt} {w : ReturnStmt → α} (hk : ∀ r, k (w r) = some r) :
    Composes (fun s => (k s).bind fun r => (r.updateArray? h).map w)
      (fun s => (k s).bind fun r => (r.updateArray? g).map w)
      fun s => (k s).bind fun r => (r.updateArray? (g ∘ h)).map w where
  none {s} hs := by
    cases hr : k s with
    | none => exact ⟨rfl, rfl⟩
    | some r =>
      rw [hr, Option.bind_some, Option.map_eq_none_iff] at hs
      obtain ⟨hg, hgh⟩ := (ReturnStmt.composes_updateArray? g h).none hs
      exact ⟨by rw [Option.bind_some, hg]; rfl, by rw [Option.bind_some, hgh]; rfl⟩
  some {s t} hst := by
    obtain ⟨r, hr, hst⟩ := Option.bind_eq_some_iff.1 hst
    obtain ⟨r', hr', rfl⟩ := Option.map_eq_some_iff.1 hst
    obtain ⟨r'', hg, hgh⟩ := (ReturnStmt.composes_updateArray? g h).some hr'
    exact ⟨w r'', by rw [hk, Option.bind_some, hg]; rfl, by rw [hr, Option.bind_some, hgh]; rfl⟩

/-! ### Members and classes -/

theorem Method.updateReturned_updateReturned (m : Method) :
    (m.updateReturned h).updateReturned g = m.updateReturned (g ∘ h) := by
  have hstmts := (composes_return (k := BodyStmt.return?) (w := .ret) g h fun _ => rfl).updateFirst
  unfold updateReturned
  cases m.body with
  | none => rfl
  | some b => simp only [Option.map_some, hstmts]

theorem Member.composes_updateTarget? : Composes (Member.updateTarget? target h) (Member.updateTarget? target g)
    (Member.updateTarget? target (g ∘ h)) where
  none {m} hm := by
    cases m with
    | property p =>
      have hnone := (PropertyItem.composes_updateTarget? target g h).updateFirst?.none (Option.map_eq_none_iff.1 hm)
      exact ⟨Option.map_eq_none_iff.2 hnone.1, Option.map_eq_none_iff.2 hnone.2⟩
    | method f =>
      simp only [updateTarget?] at hm ⊢
      split at hm
      · cases hm
      · exact ⟨if_neg ‹_›, if_neg ‹_›⟩
    | traitUse _ => exact ⟨rfl, rfl⟩
    | other _ => exact ⟨rfl, rfl⟩
  some {m n} hmn := by
    cases m with
    | property p =>
      obtain ⟨items, hitems, rfl⟩ := Option.map_eq_some_iff.1 hmn
      obtain ⟨items', hg, hgh⟩ := (PropertyItem.composes_updateTarget? target g h).updateFirst?.some hitems
      exact ⟨.property { p with items := items' }, by simp only [updateTarget?, hg, Option.map_some],
        by simp only [updateTarget?, hgh, Option.map_some]⟩
    | method f =>
      simp only [updateTarget?] at hmn
      split at hmn
      · rename_i hname
        cases hmn
        have hname' : (f.updateReturned h).name.text = target := hname
        refine ⟨.method (f.updateReturned (g ∘ h)), ?_, if_pos hname⟩
        rw [updateTarget?, if_pos hname', Method.updateReturned_updateReturned]
      · cases hmn
    | traitUse _ => cases hmn
    | other _ => cases hmn

/-- Two updates of the array that a target addresses are one. -/
theorem ClassLike.updateTarget_updateTarget (c : ClassLike) :
    (c.updateTarget target h).updateTarget target g = c.updateTarget target (g ∘ h) :=
  congrArg (fun ms => { c with members := ms }) ((Member.composes_updateTarget? target g h).updateFirst c.members)

section Self

variable {target g}

/-! ### Where there is no array -/

/-- An element that returns no array is not changed. -/
theorem updateArray?_eq_none {α : Type} {s : Option ReturnStmt} (h : s.bind ReturnStmt.array? = none)
    (w : ReturnStmt → α) : (s.bind fun r => (r.updateArray? g).map w) = none := by
  cases s with
  | none => rfl
  | some r =>
    have hnone : r.updateArray? g = none := Option.map_eq_none_iff.2 h
    rw [Option.bind_some, hnone, Option.map_none]

/-- A member that does not decide what the target addresses is not changed. -/
theorem Member.updateTarget?_eq_none {m : Member} (h : m.target? target = none) : m.updateTarget? target g = none := by
  cases m with
  | property p =>
    refine Option.map_eq_none_iff.2 (updateFirst?_eq_none fun i hi => ?_)
    exact Option.map_eq_none_iff.2 (List.findSome?_eq_none_iff.1 (Option.map_eq_none_iff.1 h) i hi)
  | method f =>
    simp only [target?] at h
    split at h
    · cases h
    · exact if_neg ‹_›
  | traitUse _ => rfl
  | other _ => rfl

/-! ### Updates that leave the array alone -/

theorem PropertyItem.updateTarget?_eq_self {i : PropertyItem} {a : ArrayLit Expr} (ha : i.target? target = some a)
    (hg : g a = a) : i.updateTarget? target g = some i := by
  have hdefault : i.default = some (.array a) := by
    unfold target? at ha
    split at ha
    · obtain ⟨e, he, hea⟩ := Option.bind_eq_some_iff.1 ha
      cases e with
      | array b =>
        cases hea
        exact he
      | _ => cases hea
    · cases ha
  rw [updateTarget?, ha, Option.map_some, hg, ← hdefault]

theorem ReturnStmt.updateArray?_eq_self {r : ReturnStmt} {a : ArrayLit Expr} (ha : r.array? = some a) (hg : g a = a) :
    r.updateArray? g = some r := by
  have hexpr : r.expr = some (.array a) := by
    obtain ⟨e, he, hea⟩ := Option.bind_eq_some_iff.1 ha
    cases e with
    | array b =>
      cases hea
      exact he
    | _ => cases hea
  rw [updateArray?, ha, Option.map_some, hg, ← hexpr]

theorem updateReturned_eq_self {α : Type} {k : α → Option ReturnStmt} {w : ReturnStmt → α}
    (hk : ∀ s r, k s = some r → s = w r) {ss : List α}
    (hg : ∀ a, ss.findSome? (fun s => (k s).bind ReturnStmt.array?) = some a → g a = a) :
    updateFirst (fun s => (k s).bind fun r => (r.updateArray? g).map w) ss = ss := by
  refine updateFirst_eq_self (k := fun s => (k s).bind ReturnStmt.array?) (fun s hs => updateArray?_eq_none hs w)
    fun a ha s hs => ?_
  obtain ⟨r, hr, hra⟩ := Option.bind_eq_some_iff.1 hs
  rw [hr, Option.bind_some, ReturnStmt.updateArray?_eq_self hra (hg a ha), Option.map_some, ← hk s r hr]

theorem BodyStmt.eq_of_return? (s : BodyStmt) (r : ReturnStmt) (h : s.return? = some r) : s = .ret r := by
  cases s with
  | ret _ =>
    cases h
    rfl
  | other _ => cases h

theorem Stmt.eq_of_return? (s : Stmt) (r : ReturnStmt) (h : s.return? = some r) : s = .ret r := by
  cases s with
  | ret _ =>
    cases h
    rfl
  | _ => cases h

theorem Method.updateReturned_eq_self {m : Method} (hg : ∀ a, m.returnedArray? = some a → g a = a) :
    m.updateReturned g = m := by
  unfold updateReturned
  cases hb : m.body with
  | none => rw [Option.map_none, ← hb]
  | some b =>
    have hstmts : updateFirst (fun s => s.return?.bind fun r => (r.updateArray? g).map .ret) b.stmts = b.stmts :=
      Graft.updateReturned_eq_self BodyStmt.eq_of_return? fun a ha => hg a (by rw [returnedArray?, hb]; exact ha)
    rw [Option.map_some, hstmts, ← hb]

theorem Member.updateTarget?_eq_self {m : Member} {x : Option (ArrayLit Expr)} (hx : m.target? target = some x)
    (hg : ∀ a, x = some a → g a = a) : m.updateTarget? target g = some m := by
  cases m with
  | property p =>
    obtain ⟨a, ha, rfl⟩ := Option.map_eq_some_iff.1 hx
    have hitems : updateFirst? (·.updateTarget? target g) p.items = some p.items :=
      updateFirst?_eq_self (fun i hi => Option.map_eq_none_iff.2 hi) ha fun i hi =>
        PropertyItem.updateTarget?_eq_self hi (hg a rfl)
    rw [updateTarget?, hitems, Option.map_some]
  | method f =>
    simp only [target?] at hx
    split at hx
    · rename_i hname
      cases hx
      rw [updateTarget?, if_pos hname, Method.updateReturned_eq_self hg]
    · cases hx
  | traitUse _ => cases hx
  | other _ => cases hx

/-- An update that leaves the array alone that a target addresses. -/
theorem ClassLike.updateTarget_eq_self {c : ClassLike} (hg : ∀ a, c.targetArray? target = some a → g a = a) :
    c.updateTarget target g = c := by
  have hmembers : updateFirst (·.updateTarget? target g) c.members = c.members := by
    refine updateFirst_eq_self (k := Member.target? target) (fun m hm => Member.updateTarget?_eq_none hm)
      fun x hx m hm => Member.updateTarget?_eq_self hm fun a ha => hg a ?_
    rw [targetArray?, hx, ha]
    rfl
  rw [updateTarget, hmembers]

/-- An update that leaves the array alone that a file returns. -/
theorem File.onReturnedArray_eq_self {f : File} (hg : ∀ a, f.returnedArray? = some a → g a = a) :
    f.onReturnedArray g = f := by
  obtain ⟨hole, hstmts⟩ := f.exists_fill
  rw [onReturnedArray, UnitHole.updateUnit_fill hstmts, updateReturned_eq_self Stmt.eq_of_return? hg, ← hstmts]

end Self

/-! ### Files -/

/-- Two updates of the array that a file returns are one. -/
theorem File.onReturnedArray_onReturnedArray (f : File) :
    (f.onReturnedArray h).onReturnedArray g = f.onReturnedArray (g ∘ h) := by
  have hstmts := (composes_return (k := Stmt.return?) (w := .ret) g h fun _ => rfl).updateFirst
  exact (updateUnit_updateUnit _ _ f).trans (congrArg (updateUnit · f) (funext hstmts))

/-! ### Places -/

/-- A member of a class with an array in it, and the member with any other array in its place. -/
inductive Member.HoldsArray (a : ArrayLit Expr) : Member → (ArrayLit Expr → Member) → Prop where
  | property (p : Property) (l r : List PropertyItem) (i : PropertyItem) (hitems : p.items = l ++ i :: r)
      (hdefault : i.default = some (.array a)) :
      HoldsArray a (.property p) fun b => .property { p with items := l ++ { i with default := some (.array b) } :: r }
  | method (m : Method) (d : Block) (l r : List BodyStmt) (s : ReturnStmt) (hbody : m.body = some d)
      (hstmts : d.stmts = l ++ .ret s :: r) (hexpr : s.expr = some (.array a)) :
      HoldsArray a (.method m) fun b =>
        .method { m with body := some { d with stmts := l ++ .ret { s with expr := some (.array b) } :: r } }

/-- A class with an array in it, and its members with any other array in its place. -/
inductive ClassLike.HoldsArray (c : ClassLike) (a : ArrayLit Expr) : (ArrayLit Expr → List Member) → Prop where
  | member (l r : List Member) (m : Member) (put : ArrayLit Expr → Member) (hmembers : c.members = l ++ m :: r)
      (hput : m.HoldsArray a put) : HoldsArray c a fun b => l ++ put b :: r

/-- A file with an array in it, and the file with any other array in its place. -/
inductive File.HoldsArray (f : File) (a : ArrayLit Expr) : (ArrayLit Expr → File) → Prop where
  | inClass (c : ClassLike) (k : ClassLike → File) (put : ArrayLit Expr → List Member) (hc : f.Holds c k)
      (hput : c.HoldsArray a put) : HoldsArray f a fun b => k { c with members := put b }
  | returned (hole : UnitHole) (l r : List Stmt) (s : ReturnStmt) (hstmts : f.stmts = hole.fill (l ++ .ret s :: r))
      (hexpr : s.expr = some (.array a)) :
      HoldsArray f a fun b => { f with stmts := hole.fill (l ++ .ret { s with expr := some (.array b) } :: r) }

/-! ### The places of arrays that are found -/

section Places

variable {target} {a : ArrayLit Expr}

theorem Expr.eq_array {e : Option Expr} (h : e.bind Expr.array? = some a) : e = some (.array a) := by
  obtain ⟨e, rfl, he⟩ := Option.bind_eq_some_iff.1 h
  cases e with
  | array b =>
    cases he
    rfl
  | _ => cases he

/-- The first array that a statement of a list returns, where some of the elements are return statements. -/
theorem exists_returned {α : Type} {k : α → Option ReturnStmt} {w : ReturnStmt → α} {ss : List α}
    (hk : ∀ s r, k s = some r → s = w r) (h : ss.findSome? (fun s => (k s).bind ReturnStmt.array?) = some a) :
    ∃ l s r, ss = l ++ w s :: r ∧ s.expr = some (.array a) ∧
      ∀ g, updateFirst (fun s => (k s).bind fun r => (r.updateArray? g).map w) ss =
        l ++ w { s with expr := some (.array (g a)) } :: r := by
  obtain ⟨l, x, r, rfl, hx, hl⟩ := List.findSome?_eq_some_iff.1 h
  obtain ⟨s, hs, ha⟩ := Option.bind_eq_some_iff.1 hx
  obtain rfl := hk x s hs
  have hexpr : s.expr = some (.array a) := Expr.eq_array ha
  refine ⟨l, s, r, rfl, hexpr, fun g => ?_⟩
  have hsome : ((k (w s)).bind fun r => (r.updateArray? g).map w) = some (w { s with expr := some (.array (g a)) }) := by
    rw [hs, Option.bind_some, ReturnStmt.updateArray?, ha]
    rfl
  rw [updateFirst, updateFirst?_append (fun y hy => updateArray?_eq_none (hl y hy) w) hsome, Option.getD_some]

theorem Member.exists_holdsArray {m : Member} (h : m.target? target = some (some a)) :
    ∃ put, m.HoldsArray a put ∧ ∀ g, m.updateTarget? target g = some (put (g a)) := by
  cases m with
  | property p =>
    obtain ⟨b, hb, hba⟩ := Option.map_eq_some_iff.1 h
    cases hba
    obtain ⟨l, i, r, hitems, hi, hl⟩ := List.findSome?_eq_some_iff.1 hb
    have hdefault : i.default = some (.array a) := by
      unfold PropertyItem.target? at hi
      split at hi
      · exact Expr.eq_array hi
      · cases hi
    refine ⟨_, .property p l r i hitems hdefault, fun g => ?_⟩
    have hsome : i.updateTarget? target g = some { i with default := some (.array (g a)) } := by
      rw [PropertyItem.updateTarget?, hi, Option.map_some]
    have hnone : ∀ j ∈ l, j.updateTarget? target g = none := fun j hj => Option.map_eq_none_iff.2 (hl j hj)
    rw [updateTarget?, hitems, updateFirst?_append hnone hsome, Option.map_some]
  | method m =>
    simp only [target?] at h
    split at h
    · rename_i hname
      obtain ⟨d, hbody, hd⟩ := Option.bind_eq_some_iff.1 (Option.some.inj h)
      obtain ⟨l, s, r, hstmts, hexpr, hupdate⟩ := exists_returned BodyStmt.eq_of_return? hd
      refine ⟨_, .method m d l r s hbody hstmts hexpr, fun g => ?_⟩
      rw [updateTarget?, if_pos hname, Method.updateReturned, hbody, Option.map_some, hupdate]
    · cases h
  | traitUse _ => cases h
  | other _ => cases h

/-- The array that a target addresses has a place in the class, and an update of the target updates it there. -/
theorem ClassLike.exists_holdsArray {c : ClassLike} (h : c.targetArray? target = some a) :
    ∃ put, c.HoldsArray a put ∧ ∀ g, c.updateTarget target g = { c with members := put (g a) } := by
  have hfound : c.members.findSome? (·.target? target) = some (some a) := Option.join_eq_some_iff.1 h
  obtain ⟨l, m, r, hmembers, hm, hl⟩ := List.findSome?_eq_some_iff.1 hfound
  obtain ⟨put, hput, hupdate⟩ := Member.exists_holdsArray hm
  refine ⟨_, .member l r m put hmembers hput, fun g => ?_⟩
  have hfirst := updateFirst?_append (fun n hn => Member.updateTarget?_eq_none (g := g) (hl n hn)) (hupdate g) (r := r)
  rw [updateTarget, hmembers, updateFirst, hfirst, Option.getD_some]

/-- The array that a file returns has a place in the file, and an update of it updates it there. -/
theorem File.exists_holdsArray {f : File} (h : f.returnedArray? = some a) :
    ∃ put, f.HoldsArray a put ∧ ∀ g, f.onReturnedArray g = put (g a) := by
  obtain ⟨hole, hstmts⟩ := f.exists_fill
  obtain ⟨l, s, r, hunit, hexpr, hupdate⟩ := exists_returned Stmt.eq_of_return? h
  refine ⟨_, .returned hole l r s (hunit ▸ hstmts) hexpr, fun g => ?_⟩
  rw [onReturnedArray, UnitHole.updateUnit_fill hstmts, hupdate]

end Places

end Graft
