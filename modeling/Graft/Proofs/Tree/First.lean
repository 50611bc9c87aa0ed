/-
Updates of first elements, and of the unit that a file declares.

A file is its declaration unit with what stands around it: nothing, or the rest of its first namespace and the statements
before and behind it.

* `updateFirst?_map`, `map_of_updateFirst?` — mapped lists;
* `Composes.updateFirst` — an update behind another one that changes the same element;
* `KeepsFirst` — changes of lists for which it is all the same whether an update is run before or behind them;
* `UnitHole`, `File.exists_fill` — every file is a hole that its unit fills;
* `UnitHole.updateUnit_fill` — an update of the unit fills the same hole;
* `File.updateUnit_updateUnit` — two updates of the unit are one.
-/
import Mathlib.Logic.Function.Conjugate
import Graft.Tree.File
import Graft.Tree.First
import Graft.Tree.Order

namespace Graft

variable {α β : Type} {f g : α → Option α}

/-! ### What is found -/

theorem updateFirst?_cons_none {a : α} (h : f a = none) (as : List α) :
    updateFirst? f (a :: as) = (updateFirst? f as).map (a :: ·) := by
  rw [updateFirst?, h]

theorem updateFirst_cons_none {a : α} (h : f a = none) (as : List α) :
    updateFirst f (a :: as) = a :: updateFirst f as := by
  unfold updateFirst
  rw [updateFirst?_cons_none h]
  cases updateFirst? f as <;> rfl

theorem updateFirst_cons_some {a b : α} (h : f a = some b) (as : List α) : updateFirst f (a :: as) = b :: as := by
  simp only [updateFirst, updateFirst?, h, Option.getD_some]

theorem updateFirst?_eq_none {as : List α} (h : ∀ a ∈ as, f a = none) : updateFirst? f as = none := by
  induction as with
  | nil => rfl
  | cons a as ih => simp [updateFirst?, h a (by simp), ih fun b hb => h b (by simp [hb])]

theorem updateFirst?_append {l r : List α} {a b : α} (hl : ∀ x ∈ l, f x = none) (ha : f a = some b) :
    updateFirst? f (l ++ a :: r) = some (l ++ b :: r) :=
  updateFirst?_eq_some_iff.2 ⟨l, a, b, r, rfl, rfl, ha, hl⟩

theorem forall_of_updateFirst?_eq_none {as : List α} (h : updateFirst? f as = none) : ∀ a ∈ as, f a = none := by
  intro a ha
  obtain ⟨l, r, rfl⟩ := List.append_of_mem ha
  induction l with
  | nil =>
    cases hfa : f a with
    | none => rfl
    | some b => simp [updateFirst?, hfa] at h
  | cons b l ih =>
    cases hfb : f b with
    | none => exact ih (by simpa [updateFirst?, hfb] using h) (by simp)
    | some c => simp [updateFirst?, hfb] at h

/-- The first element is in the first list or else in the second one. -/
theorem updateFirst?_append_eq (l r : List α) : updateFirst? f (l ++ r) =
    ((updateFirst? f l).map (· ++ r)).or ((updateFirst? f r).map (l ++ ·)) := by
  induction l with
  | nil => simp [updateFirst?]
  | cons a l ih =>
    rw [List.cons_append, updateFirst?, updateFirst?, ih]
    cases f a with
    | some b => rfl
    | none =>
      cases updateFirst? f l with
      | some l' => rfl
      | none => simp [Function.comp_def]

/-! ### Mapped lists -/

theorem updateFirst?_map {f' : β → Option β} {k : α → β} (h : ∀ a, f' (k a) = (f a).map k) (as : List α) :
    updateFirst? f' (as.map k) = (updateFirst? f as).map (List.map k) := by
  induction as with
  | nil => rfl
  | cons a as ih =>
    rw [List.map_cons, updateFirst?, updateFirst?, h]
    cases f a with
    | some b => rfl
    | none =>
      simp only [Option.map_none, ih, Option.map_map]
      rfl

/-- What an update leaves alone in an element it leaves alone in the list. -/
theorem map_of_updateFirst? {k : α → β} (hk : ∀ a b, f a = some b → k b = k a) {as bs : List α}
    (h : updateFirst? f as = some bs) : bs.map k = as.map k := by
  obtain ⟨l, a, b, r, rfl, rfl, ha, -⟩ := updateFirst?_eq_some_iff.1 h
  simp only [List.map_append, List.map_cons, hk a b ha]

theorem filterMap_eq_of_map_eq {k : α → Option β} {as bs : List α} (h : as.map k = bs.map k) :
    as.filterMap k = bs.filterMap k := by
  have hid := congrArg (List.filterMap id) h
  rwa [List.filterMap_map, List.filterMap_map] at hid

theorem filterMap_of_updateFirst? {k : α → Option β} (hk : ∀ a b, f a = some b → k b = k a) {as bs : List α}
    (h : updateFirst? f as = some bs) : bs.filterMap k = as.filterMap k :=
  filterMap_eq_of_map_eq (map_of_updateFirst? hk h)

/-! ### Updates that change nothing -/

/-- The first element that `k` finds something in is left alone. -/
theorem updateFirst?_eq_self {k : α → Option β} {as : List α} (hnone : ∀ a, k a = none → f a = none) {x : β}
    (hx : as.findSome? k = some x) (hself : ∀ a, k a = some x → f a = some a) : updateFirst? f as = some as := by
  obtain ⟨l, a, r, rfl, ha, hl⟩ := List.findSome?_eq_some_iff.1 hx
  exact updateFirst?_append (fun b hb => hnone b (hl b hb)) (hself a ha)

theorem updateFirst_eq_self {k : α → Option β} {as : List α} (hnone : ∀ a, k a = none → f a = none)
    (hself : ∀ x, as.findSome? k = some x → ∀ a, k a = some x → f a = some a) : updateFirst f as = as := by
  unfold updateFirst
  cases hx : as.findSome? k with
  | none => rw [updateFirst?_eq_none fun a ha => hnone a (List.findSome?_eq_none_iff.1 hx a ha), Option.getD_none]
  | some x => rw [updateFirst?_eq_self hnone hx (hself x hx), Option.getD_some]

/-- A list stays as it is when none of its elements is changed or taken away. -/
theorem filterMap_eq_self_iff {α : Type} {w : α → Option α} {as : List α} :
    as.filterMap w = as ↔ ∀ a ∈ as, w a = some a := by
  induction as with
  | nil => exact ⟨fun _ => nofun, fun _ => rfl⟩
  | cons a as ih =>
    rw [List.forall_mem_cons]
    cases ha : w a with
    | none =>
      rw [List.filterMap_cons_none ha]
      refine ⟨fun h => ?_, fun h => nomatch h.1⟩
      -- The list has become shorter.
      have hle := List.length_filterMap_le w as
      rw [h, List.length_cons] at hle
      omega
    | some b => rw [List.filterMap_cons_some ha, List.cons.injEq, Option.some.injEq, ih]

/-! ### Updates behind updates -/

/-- The update `k` is `g` behind `f`: they answer the same elements, and `g` answers what `f` has made. -/
structure Composes (f g k : α → Option α) : Prop where
  none {a : α} : f a = none → g a = none ∧ k a = none
  some {a b : α} : f a = some b → ∃ c, g b = some c ∧ k a = some c

theorem Composes.updateFirst? {k : α → Option α} (h : Composes f g k) :
    Composes (updateFirst? f) (updateFirst? g) (updateFirst? k) where
  none {as} has := by
    have hnone := forall_of_updateFirst?_eq_none has
    exact ⟨updateFirst?_eq_none fun a ha => (h.none (hnone a ha)).1,
      updateFirst?_eq_none fun a ha => (h.none (hnone a ha)).2⟩
  some {as bs} has := by
    obtain ⟨l, a, b, r, rfl, rfl, ha, hl⟩ := updateFirst?_eq_some_iff.1 has
    obtain ⟨c, hb, hc⟩ := h.some ha
    exact ⟨_, updateFirst?_append (fun x hx => (h.none (hl x hx)).1) hb,
      updateFirst?_append (fun x hx => (h.none (hl x hx)).2) hc⟩

theorem Composes.updateFirst {k : α → Option α} (h : Composes f g k) (as : List α) :
    updateFirst g (updateFirst f as) = updateFirst k as := by
  unfold Graft.updateFirst
  cases has : Graft.updateFirst? f as with
  | none =>
    obtain ⟨hg, hk⟩ := h.updateFirst?.none has
    rw [Option.getD_none, hg, hk]
  | some bs =>
    obtain ⟨cs, hg, hk⟩ := h.updateFirst?.some has
    rw [Option.getD_some, hg, hk]
    rfl

/-! ### Changes that keep the first element -/

/-- It is all the same whether the first element that `f` answers is changed before the list is changed by `F` or
behind it. -/
def KeepsFirst (f : α → Option α) (F : List α → List α) : Prop :=
  ∀ as, updateFirst? f (F as) = (updateFirst? f as).map F

theorem KeepsFirst.commute {F : List α → List α} (h : KeepsFirst f F) : Function.Commute (updateFirst f) F := by
  intro as
  unfold updateFirst
  rw [h as]
  cases updateFirst? f as <;> rfl

theorem keepsFirst_id : KeepsFirst f id := by
  intro as
  rw [id_eq, Option.map_id, id_eq]

/-- A change may be another one on every list, as long as it is the same one on what the update makes of the list. -/
theorem keepsFirst_of_forall {F : List α → List α}
    (h : ∀ as, ∃ G, KeepsFirst f G ∧ F as = G as ∧ ∀ bs, updateFirst? f as = some bs → F bs = G bs) :
    KeepsFirst f F := by
  intro as
  obtain ⟨G, hG, has, hbs⟩ := h as
  rw [has, hG as]
  cases hupdate : updateFirst? f as with
  | none => rfl
  | some bs => rw [Option.map_some, Option.map_some, hbs bs hupdate]

/-- The elements that `f` answers and its answers are among those that `p` accepts. -/
def StaysIn (f : α → Option α) (p : α → Prop) : Prop := ∀ a b, f a = some b → p a ∧ p b

theorem StaysIn.eq_none {p : α → Prop} (h : StaysIn f p) {a : α} (ha : ¬p a) : f a = none :=
  Option.eq_none_iff_forall_ne_some.2 fun b hb => ha (h a b hb).1

theorem StaysIn.mono {p q : α → Prop} (h : StaysIn f p) (hpq : ∀ a, p a → q a) : StaysIn f q :=
  fun a b hab => ⟨hpq a (h a b hab).1, hpq b (h a b hab).2⟩

/-- Where `w` takes elements away and changes others, it takes none away that `f` answers, it makes none of another one,
and `f` answers what becomes of it. -/
structure Spares (w f : α → Option α) : Prop where
  none {a b : α} : f a = none → w a = some b → f b = none
  some {a b : α} : f a = some b → ∃ a' b', w a = some a' ∧ w b = some b' ∧ f a' = some b'

theorem Spares.keepsFirst {w : α → Option α} (h : Spares w f) : KeepsFirst f (List.filterMap w) := by
  intro as
  induction as with
  | nil => rfl
  | cons a as ih =>
    cases ha : f a with
    | some b =>
      obtain ⟨a', b', hwa, hwb, hf⟩ := h.some ha
      simp only [updateFirst?, ha, Option.map_some, List.filterMap_cons, hwa, hwb, hf]
    | none =>
      rw [updateFirst?_cons_none ha, Option.map_map]
      cases hwa : w a with
      | none =>
        rw [List.filterMap_cons_none hwa, ih]
        exact congrArg (Option.map · _) (funext fun bs => (List.filterMap_cons_none hwa).symm)
      | some a' =>
        rw [List.filterMap_cons_some hwa, updateFirst?_cons_none (h.none ha hwa), ih, Option.map_map]
        exact congrArg (Option.map · _) (funext fun bs => (List.filterMap_cons_some hwa).symm)

/-- What an update stays in is spared where nothing of it is taken away and nothing is added. -/
theorem StaysIn.spares {p : α → Prop} {w : α → Option α} (hf : StaysIn f p) (hw : ∀ a, p a → w a = some a)
    (hw' : ∀ a b, w a = some b → p b → p a) : Spares w f where
  none {a b} ha hab := by
    refine Option.eq_none_iff_forall_ne_some.2 fun c hc => ?_
    have hpa : p a := hw' a b hab (hf b c hc).1
    obtain rfl : a = b := Option.some.inj ((hw a hpa).symm.trans hab)
    rw [ha] at hc
    cases hc
  some {a b} hab := ⟨a, b, hw a (hf a b hab).1, hw b (hf a b hab).2, hab⟩

theorem StaysIn.keepsFirst_filter {p : α → Prop} {q : α → Bool} (hf : StaysIn f p) (hq : ∀ a, p a → q a = true) :
    KeepsFirst f (List.filter q) := by
  have hw : KeepsFirst f (List.filterMap (Option.guard q)) :=
    Spares.keepsFirst (hf.spares (fun a ha => Option.guard_eq_some_iff.2 ⟨rfl, hq a ha⟩) fun a b hab hb => by
      obtain ⟨rfl, -⟩ := Option.guard_eq_some_iff.1 hab
      exact hb)
  rwa [List.filterMap_eq_filter] at hw

/-- Two updates of different elements. -/
theorem StaysIn.keepsFirst_updateFirst {p : α → Prop} (hf : StaysIn f p) (hg : StaysIn g fun a => ¬p a) :
    KeepsFirst f (updateFirst g) := by
  intro as
  induction as with
  | nil => rfl
  | cons a as ih =>
    by_cases ha : p a
    · -- The other update passes over the element and over what becomes of it.
      have hga : g a = none := hg.eq_none (not_not_intro ha)
      rw [updateFirst_cons_none hga]
      cases hfa : f a with
      | none =>
        rw [updateFirst?_cons_none hfa, updateFirst?_cons_none hfa, ih, Option.map_map, Option.map_map]
        exact congrArg (Option.map · _) (funext fun bs => (updateFirst_cons_none hga bs).symm)
      | some b =>
        have hgb : g b = none := hg.eq_none (not_not_intro (hf a b hfa).2)
        simp only [updateFirst?, hfa, Option.map_some, updateFirst_cons_none hgb]
    · have hfa : f a = none := hf.eq_none ha
      rw [updateFirst?_cons_none hfa, Option.map_map]
      cases hga : g a with
      | none =>
        rw [updateFirst_cons_none hga, updateFirst?_cons_none hfa, ih, Option.map_map]
        exact congrArg (Option.map · _) (funext fun bs => (updateFirst_cons_none hga bs).symm)
      | some b =>
        have hfb : f b = none := hf.eq_none (hg a b hga).2
        rw [updateFirst_cons_some hga, updateFirst?_cons_none hfb]
        exact congrArg (Option.map · _) (funext fun bs => (updateFirst_cons_some hga bs).symm)

/-- A new last element that is passed over. -/
theorem keepsFirst_append {x : α} (hx : f x = none) : KeepsFirst f (· ++ [x]) := by
  intro as
  rw [updateFirst?_append_eq]
  simp [updateFirst?, hx]

/-- A new element that is passed over. -/
theorem keepsFirst_insertAt {x : α} (hx : f x = none) (i : Nat) : KeepsFirst f (insertAt i x) := by
  intro as
  induction as generalizing i with
  | nil => cases i <;> simp [insertAt, updateFirst?, hx]
  | cons a as ih =>
    cases i with
    | zero =>
      show updateFirst? f (x :: a :: as) = _
      rw [updateFirst?, hx]
      rfl
    | succ i =>
      have hcons : ∀ (b : α) (bs : List α), insertAt (i + 1) x (b :: bs) = b :: insertAt i x bs := fun _ _ => rfl
      rw [hcons, updateFirst?, updateFirst?]
      cases f a with
      | some b => simp only [Option.map_some, hcons]
      | none =>
        rw [ih i, Option.map_map, Option.map_map]
        rfl

end Graft

/-! ### The place of the declaration unit -/

namespace Graft

/-- What stands around the declaration unit of a file. -/
inductive UnitHole where
  /-- The unit is all there is. -/
  | whole
  /-- The unit is the body of a namespace, behind statements and before others. -/
  | inside (l : List Stmt) (n : Namespace) (r : List TopStmt)

namespace UnitHole

/-- The statements of a file with a unit. -/
def fill : UnitHole → List Stmt → List TopStmt
  | whole, ss => ss.map .plain
  | inside l n r, ss => l.map .plain ++ .inside { n with stmts := ss } :: r

theorem filterMap_plain?_map (ss : List Stmt) : (ss.map TopStmt.plain).filterMap TopStmt.plain? = ss := by
  simp [List.filterMap_map, Function.comp_def, TopStmt.plain?]

theorem updateInside?_plain {g : List Stmt → List Stmt} {s : TopStmt} (h : s ∈ List.map TopStmt.plain l) :
    s.updateInside? g = none := by
  obtain ⟨_, -, rfl⟩ := List.mem_map.1 h
  rfl

/-- An update of the unit fills the same hole. -/
theorem updateUnit_fill {h : UnitHole} {f : File} {ss : List Stmt} (hf : f.stmts = h.fill ss)
    (g : List Stmt → List Stmt) : f.updateUnit g = { f with stmts := h.fill (g ss) } := by
  unfold File.updateUnit
  rw [hf]
  cases h with
  | whole =>
    have hnone : updateFirst? (TopStmt.updateInside? g) (ss.map .plain) = none :=
      updateFirst?_eq_none fun s hs => updateInside?_plain hs
    simp only [fill, hnone, Option.getD_none, filterMap_plain?_map]
  | inside l n r =>
    have hfirst : updateFirst? (TopStmt.updateInside? g) (fill (inside l n r) ss) = some (fill (inside l n r) (g ss)) :=
      updateFirst?_append (fun s hs => updateInside?_plain hs) rfl
    simp only [hfirst, Option.getD_some]

end UnitHole

/-- Statements are plain, or some of them are and a namespace is behind these. -/
theorem exists_fill (ss : List TopStmt) : ∃ (h : UnitHole) (unit : List Stmt), ss = h.fill unit := by
  induction ss with
  | nil => exact ⟨.whole, [], rfl⟩
  | cons s ss ih =>
    cases s with
    | inside n => exact ⟨.inside [] n ss, n.stmts, rfl⟩
    | plain s =>
      obtain ⟨h, unit, rfl⟩ := ih
      cases h with
      | whole => exact ⟨.whole, s :: unit, rfl⟩
      | inside l n r => exact ⟨.inside (s :: l) n r, unit, rfl⟩

namespace File

/-- The file is a hole that its unit fills. -/
theorem exists_fill (f : File) : ∃ h : UnitHole, f.stmts = h.fill f.unit := by
  obtain ⟨h, unit, hunit⟩ := Graft.exists_fill f.stmts
  have hsame : f.updateUnit id = f := by rw [UnitHole.updateUnit_fill hunit, id_eq, ← hunit]
  have hconst : f.updateUnit (fun _ => unit) = f := by rw [UnitHole.updateUnit_fill hunit, ← hunit]
  have hval : f.unit = unit := by
    have := unit_updateUnit (fun _ => unit) f
    rwa [hconst] at this
  exact ⟨h, by rw [hval, hunit]⟩

/-- Two updates of the unit are one. -/
theorem updateUnit_updateUnit (g h : List Stmt → List Stmt) (f : File) :
    (f.updateUnit g).updateUnit h = f.updateUnit (h ∘ g) := by
  obtain ⟨hole, hf⟩ := f.exists_fill
  rw [UnitHole.updateUnit_fill hf, UnitHole.updateUnit_fill rfl, UnitHole.updateUnit_fill hf, Function.comp_apply]

theorem updateUnit_commute {g h : List Stmt → List Stmt} (hgh : Function.Commute g h) :
    Function.Commute (updateUnit g) (updateUnit h) := by
  intro f
  rw [updateUnit_updateUnit, updateUnit_updateUnit, hgh.comp_eq]

end File

end Graft
