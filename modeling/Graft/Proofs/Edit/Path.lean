/-
Values at paths.

A path of keys leads through the first entry of each key to the value of the last one.  A value that is set at a path is
found there, and at every path that parts from this one what was there before is found.  In an array on the way no entry
moves: the value of the first entry of a key becomes another one, or an entry is put behind the others.

* `ArrayLit.value?_setEntry`, `ArrayLit.value?_setEntry_of_ne` — the values of an array of which one is set;
* `ArrayLit.follow?_setPath`, `ArrayLit.follow?_setPath_of_apart` — what paths lead to;
* `ArrayLit.sets_setPath` — the arrays on the way;
* `setConfig_lens` — a value that is set in the array that a file returns.
-/
import Graft.Proofs.Edit.Prepared
import Graft.Proofs.Edit.Repeat
import Graft.Proofs.Print.Reindent
import Graft.Parse.File

namespace Graft

/-! ### Paths -/

/-- The value of the first entry with the string literal `key`. -/
def ArrayLit.value? (a : ArrayLit Expr) (key : Text) : Option Expr := (a.entry? key).map (·.value)

/-- What a path of keys leads to from an expression: each key to the value of its first entry. -/
def Expr.follow? : List Text → Expr → Option Expr
  | [], e => some e
  | key :: path, e => (e.array?.bind (·.value? key)).bind (follow? path)

/-- What a path of keys leads to from the array that the file returns. -/
def File.follow? (path : List Text) (f : File) : Option Expr := f.returnedArray?.bind fun a => (Expr.array a).follow? path

/-- The array that an expression is, or else an empty one. -/
def arrayOr (e : Option Expr) : ArrayLit Expr := (e.bind Expr.array?).getD (.fresh [])

/-- The array `b` is the array `a` with a value set: that of the first entry of the key, or else that of a new entry,
which is the last one. -/
inductive ArrayLit.Sets (key : Text) (a : ArrayLit Expr) : ArrayLit Expr → Prop
  | first {l r : List (ArrayItem Expr)} {i : ArrayItem Expr} (value : Expr) (hitems : a.items = l ++ i :: r)
      (hkey : i.hasKey key = true) (hfirst : ∀ j ∈ l, j.hasKey key = false) :
      Sets key a { a with items := l ++ { i with value } :: r }
  | last (value : Expr) (hnone : ∀ j ∈ a.items, j.hasKey key = false) :
      Sets key a { a with items := a.items ++ [.fresh (some (.freshString key)) value] }

/-! ### Values that are set -/

theorem ArrayItem.eq_of_hasKey {i : ArrayItem Expr} {key other : Text} (h : i.hasKey key = true)
    (ho : i.hasKey other = true) : other = key := by
  have hkey : i.key.bind Expr.string? = some key := eq_of_beq h
  have hother : i.key.bind Expr.string? = some other := eq_of_beq ho
  rw [hkey] at hother
  exact (Option.some.inj hother).symm

namespace ArrayLit

variable {key other : Text} {f : Option Expr → Expr} {a : ArrayLit Expr}

/-- An entry has the key and the first one is changed, or none has it and a new one is put behind the others. -/
theorem setEntry_cases (key : Text) (f : Option Expr → Expr) (a : ArrayLit Expr) :
    (∃ l i r, a.items = l ++ i :: r ∧ i.hasKey key = true ∧ (∀ j ∈ l, j.hasKey key = false) ∧
      a.setEntry key f = { a with items := l ++ { i with value := f (some i.value) } :: r }) ∨
    ((∀ j ∈ a.items, j.hasKey key = false) ∧
      a.setEntry key f = { a with items := a.items ++ [.fresh (some (.freshString key)) (f none)] }) := by
  have hnone : ∀ j, ArrayItem.withValue? key f j = none → j.hasKey key = false := by
    intro j hj
    by_contra hkey
    rw [ArrayItem.withValue?, if_pos ((Bool.not_eq_false _).mp hkey)] at hj
    cases hj
  rw [setEntry_eq]
  cases h : updateFirst? (ArrayItem.withValue? key f) a.items with
  | some items =>
    obtain ⟨l, i, j, r, hitems, rfl, hi, hl⟩ := updateFirst?_eq_some_iff.1 h
    have hkey : i.hasKey key = true := by
      by_contra hkey
      rw [ArrayItem.withValue?, if_neg hkey] at hi
      cases hi
    rw [ArrayItem.withValue?, if_pos hkey] at hi
    cases hi
    exact .inl ⟨l, i, r, hitems, hkey, fun j hj => hnone j (hl j hj), rfl⟩
  | none => exact .inr ⟨fun j hj => hnone j (forall_of_updateFirst?_eq_none h j hj), rfl⟩

theorem sets_setEntry (key : Text) (f : Option Expr → Expr) (a : ArrayLit Expr) : Sets key a (a.setEntry key f) := by
  rcases setEntry_cases key f a with ⟨l, i, r, hitems, hkey, hl, h⟩ | ⟨hnone, h⟩
  · rw [h]
    exact .first _ hitems hkey hl
  · rw [h]
    exact .last _ hnone

theorem find?_eq_none {is : List (ArrayItem Expr)} (h : ∀ j ∈ is, j.hasKey key = false) :
    is.find? (·.hasKey key) = none :=
  List.find?_eq_none.2 fun j hj => by rw [h j hj]; exact Bool.false_ne_true

/-- The value that is set is found. -/
theorem value?_setEntry (key : Text) (f : Option Expr → Expr) (a : ArrayLit Expr) :
    (a.setEntry key f).value? key = some (f (a.value? key)) := by
  rcases setEntry_cases key f a with ⟨l, i, r, hitems, hkey, hl, h⟩ | ⟨hnone, h⟩
  · have hbefore : (i :: r).find? (·.hasKey key) = some i := List.find?_cons_of_pos hkey
    have hafter : (({ i with value := f (some i.value) } : ArrayItem Expr) :: r).find? (·.hasKey key) =
      some { i with value := f (some i.value) } := List.find?_cons_of_pos hkey
    simp only [h, value?, entry?, hitems, List.find?_append, find?_eq_none hl, Option.none_or, hbefore, hafter,
      Option.map_some]
  · have hafter : [ArrayItem.fresh (some (Expr.freshString key)) (f none)].find? (·.hasKey key) =
      some (.fresh (some (.freshString key)) (f none)) := List.find?_cons_of_pos (ArrayItem.hasKey_fresh key _)
    simp only [h, value?, entry?, List.find?_append, find?_eq_none hnone, Option.none_or, hafter, Option.map_some,
      Option.map_none]
    rfl

/-- The values of other keys stay. -/
theorem Sets.value?_of_ne {b : ArrayLit Expr} (h : Sets key a b) (hne : other ≠ key) :
    b.value? other = a.value? other := by
  cases h with
  | @first l r i value hitems hkey hfirst =>
    have hi : ¬i.hasKey other = true := fun ho => hne (ArrayItem.eq_of_hasKey hkey ho)
    have hbefore : (i :: r).find? (·.hasKey other) = r.find? (·.hasKey other) := List.find?_cons_of_neg hi
    have hafter : (({ i with value } : ArrayItem Expr) :: r).find? (·.hasKey other) = r.find? (·.hasKey other) :=
      List.find?_cons_of_neg hi
    simp only [value?, entry?, hitems, List.find?_append, hbefore, hafter]
  | last value hnone =>
    have hfresh : [ArrayItem.fresh (some (Expr.freshString key)) value].find? (·.hasKey other) = none :=
      List.find?_cons_of_neg fun ho => hne (ArrayItem.eq_of_hasKey (ArrayItem.hasKey_fresh key value) ho)
    simp only [value?, entry?, List.find?_append, hfresh, Option.or_none]

end ArrayLit

/-! ### What paths lead to -/

section Follow

variable {key : Text} {path : List Text}

theorem Expr.follow?_array_cons (key : Text) (path : List Text) (a : ArrayLit Expr) :
    (Expr.array a).follow? (key :: path) = (a.value? key).bind (follow? path) := rfl

/-- An empty array in place of what is no array has nothing in it. -/
theorem follow?_arrayOr (hpath : path ≠ []) (e : Option Expr) :
    (Expr.array (arrayOr e)).follow? path = e.bind (Expr.follow? path) := by
  obtain ⟨key, path, rfl⟩ := List.exists_cons_of_ne_nil hpath
  cases e with
  | none => rfl
  | some e => cases e <;> rfl

theorem arrayOr_follow?_arrayOr (path : List Text) (e : Option Expr) :
    arrayOr ((Expr.array (arrayOr e)).follow? path) = arrayOr (e.bind (Expr.follow? path)) := by
  cases path with
  | nil => cases e <;> rfl
  | cons key path => rw [follow?_arrayOr (List.cons_ne_nil key path)]

namespace ArrayLit

variable {value : Scalar}

theorem setPath_cons_cons (key next : Text) (rest : List Text) (value : Scalar) (a : ArrayLit Expr) :
    setPath (key :: next :: rest) value a =
      a.setEntry key fun e => .array (setPath (next :: rest) value (arrayOr e)) := rfl

/-- The first key of a path is set. -/
theorem sets_setPath_cons (key : Text) (rest : List Text) (value : Scalar) (a : ArrayLit Expr) :
    Sets key a (setPath (key :: rest) value a) := by
  cases rest with
  | nil => exact sets_setEntry key _ a
  | cons next rest => exact sets_setEntry key _ a

theorem isHeldBy_overwrite (value : Scalar) (e : Option Expr) : value.isHeldBy (overwrite value e) = true := by
  cases e with
  | none => exact value.isHeldBy_toExpr
  | some e =>
    simp only [overwrite]
    split
    · assumption
    · exact value.isHeldBy_toExpr

/-- A path leads to the value that was set at it. -/
theorem follow?_setPath (hpath : path ≠ []) (value : Scalar) (a : ArrayLit Expr) :
    ∃ e, (Expr.array (setPath path value a)).follow? path = some e ∧ value.isHeldBy e = true := by
  induction path generalizing a with
  | nil => exact absurd rfl hpath
  | cons key rest ih =>
    cases rest with
    | nil =>
      refine ⟨overwrite value (a.value? key), ?_, isHeldBy_overwrite value _⟩
      rw [Expr.follow?_array_cons, setPath, value?_setEntry]
      rfl
    | cons next rest =>
      obtain ⟨e, he, hheld⟩ := ih (List.cons_ne_nil next rest) (arrayOr (a.value? key))
      refine ⟨e, ?_, hheld⟩
      rw [Expr.follow?_array_cons, setPath_cons_cons, value?_setEntry]
      exact he

/-- A path that parts from the one at which a value was set leads to what it led to before. -/
theorem follow?_setPath_of_apart {other : List Text} (hother : ¬other <+: path) (hpath : ¬path <+: other)
    (value : Scalar) (a : ArrayLit Expr) :
    (Expr.array (setPath path value a)).follow? other = (Expr.array a).follow? other := by
  induction path generalizing other a with
  | nil => exact absurd (List.nil_prefix) hpath
  | cons key rest ih =>
    cases other with
    | nil => exact absurd (List.nil_prefix) hother
    | cons k ks =>
      rw [Expr.follow?_array_cons, Expr.follow?_array_cons]
      by_cases hk : k = key
      · subst hk
        rw [List.cons_prefix_cons, and_iff_right rfl] at hother hpath
        -- The paths part behind this key, so that there is an array on both.
        cases rest with
        | nil => exact absurd (List.nil_prefix) hpath
        | cons next rest =>
          have hks : ks ≠ [] := by
            rintro rfl
            exact hother (List.nil_prefix)
          rw [setPath_cons_cons, value?_setEntry, Option.bind_some, ih hother hpath, follow?_arrayOr hks]
      · rw [(sets_setPath_cons key rest value a).value?_of_ne hk]

/-- In an array on the way the next key of the path is set. -/
theorem sets_setPath {before : List Text} (h : before ++ [key] <+: path) (value : Scalar) (a : ArrayLit Expr) :
    ∃ b, (Expr.array (setPath path value a)).follow? before = some (.array b) ∧
      Sets key (arrayOr ((Expr.array a).follow? before)) b := by
  induction before generalizing path a with
  | nil =>
    obtain ⟨rest, rfl⟩ := h
    exact ⟨_, rfl, sets_setPath_cons key rest value a⟩
  | cons k ks ih =>
    obtain ⟨rest, rfl⟩ := h
    obtain ⟨next, more, hnext⟩ : ∃ next more, ks ++ [key] ++ rest = next :: more :=
      List.exists_cons_of_ne_nil (by simp)
    obtain ⟨b, hb, hsets⟩ := ih (List.prefix_append (ks ++ [key]) rest) (arrayOr (a.value? k))
    refine ⟨b, ?_, ?_⟩
    · rw [List.cons_append, List.cons_append, hnext, Expr.follow?_array_cons, setPath_cons_cons, value?_setEntry,
        Option.bind_some, ← hnext]
      exact hb
    · rw [arrayOr_follow?_arrayOr] at hsets
      exact hsets

end ArrayLit

end Follow

/-! ### The array that a file returns -/

theorem ReturnStmt.array?_updateArray {r s : ReturnStmt} {g : ArrayLit Expr → ArrayLit Expr}
    (h : r.updateArray? g = some s) : s.array? = r.array?.map g := by
  obtain ⟨a, ha, rfl⟩ := Option.map_eq_some_iff.1 h
  rw [ha]
  rfl

/-- The array that a file returns, changed, is the one that it returns then. -/
theorem File.returnedArray?_onReturnedArray (g : ArrayLit Expr → ArrayLit Expr) (f : File) :
    (f.onReturnedArray g).returnedArray? = f.returnedArray?.map g := by
  unfold onReturnedArray returnedArray?
  rw [unit_updateUnit]
  induction f.unit with
  | nil => rfl
  | cons s ss ih =>
    cases hr : s.return?.bind ReturnStmt.array? with
    | none =>
      have hnone : (s.return?.bind fun r => (r.updateArray? g).map Stmt.ret) = none := by
        cases hs : s.return? with
        | none => rfl
        | some r =>
          rw [hs, Option.bind_some] at hr
          rw [Option.bind_some, ReturnStmt.updateArray?, hr]
          rfl
      rw [updateFirst_cons_none hnone, List.findSome?_cons_of_isNone (by rw [hr]; rfl),
        List.findSome?_cons_of_isNone (by rw [hr]; rfl), ih]
    | some a =>
      obtain ⟨r, hs, ha⟩ := Option.bind_eq_some_iff.1 hr
      have hsome : (s.return?.bind fun r => (r.updateArray? g).map Stmt.ret) =
          some (.ret { r with expr := some (.array (g a)) }) := by
        rw [hs, Option.bind_some, ReturnStmt.updateArray?, ha]
        rfl
      rw [updateFirst_cons_some hsome, List.findSome?_cons, List.findSome?_cons, hr]
      rfl

theorem pathOf_ne_nil {dotted : Text} (h : dotted ≠ []) : pathOf dotted ≠ [] := by
  obtain ⟨line, lines, hsplit, -⟩ := dotted.splitOn_eq '.'
  rw [pathOf, if_neg (by rw [List.isEmpty_iff]; exact h), hsplit]
  exact List.cons_ne_nil line lines

/-- A value that is set at a path of a file which returns an array.  The path leads to the value, and every path that
parts from it leads to what it led to before.  In each array on the way the value of the first entry of the next key is
another one, or there is one more entry at the end.  Setting the value again changes nothing. -/
theorem setConfig_lens {f : File} {dotted : Text} (value : Scalar) (hf : f.returnedArray?.isSome = true)
    (hdotted : dotted ≠ []) :
    (∃ e, (setConfig dotted value f).follow? (pathOf dotted) = some e ∧ value.isHeldBy e = true) ∧
    (∀ other, ¬other <+: pathOf dotted → ¬pathOf dotted <+: other →
      (setConfig dotted value f).follow? other = f.follow? other) ∧
    (∀ before key, before ++ [key] <+: pathOf dotted → ∃ b,
      (setConfig dotted value f).follow? before = some (.array b) ∧ (arrayOr (f.follow? before)).Sets key b) ∧
    setConfig dotted value (setConfig dotted value f) = setConfig dotted value f := by
  obtain ⟨a, ha⟩ := Option.isSome_iff_exists.1 hf
  have hbefore : ∀ path, f.follow? path = (Expr.array a).follow? path := fun path => by
    rw [File.follow?, ha, Option.bind_some]
  have hafter : ∀ path, (setConfig dotted value f).follow? path =
      (Expr.array (ArrayLit.setPath (pathOf dotted) value a)).follow? path := fun path => by
    rw [File.follow?, setConfig, File.returnedArray?_onReturnedArray, ha, Option.map_some, Option.bind_some]
  refine ⟨?_, fun other hother hpath => ?_, fun before key hkey => ?_, setConfig_setConfig dotted value f⟩
  · rw [hafter]
    exact ArrayLit.follow?_setPath (pathOf_ne_nil hdotted) value a
  · rw [hafter, hbefore]
    exact ArrayLit.follow?_setPath_of_apart hother hpath value a
  · rw [hafter, hbefore]
    exact ArrayLit.sets_setPath hkey value a

/-- A value in the way of a path becomes an array, while the entry before it and the second one of its key stay. -/
theorem setConfig_lens_nested : ∃ f,
    (Arena.empty.parseFile "<?php return ['a' => 1, 'b' => 2, 'b' => ['c' => 3]];".toList).1 = .ok f ∧
      f.returnedArray?.isSome = true ∧ "b.c".toList ≠ [] ∧
      (∃ e, (setConfig "b.c".toList (.int 4) f).follow? ["b".toList, "c".toList] = some e ∧
        (Scalar.int 4).isHeldBy e = true) ∧
      (setConfig "b.c".toList (.int 4) f).follow? ["a".toList] = f.follow? ["a".toList] ∧
      ∃ b, (setConfig "b.c".toList (.int 4) f).follow? ["b".toList] = some (.array b) ∧
        (arrayOr (f.follow? ["b".toList])).Sets "c".toList b := by
  obtain ⟨f, hf, hreturned⟩ := exists_of_parseFile
    (show (Arena.empty.parseFile "<?php return ['a' => 1, 'b' => 2, 'b' => ['c' => 3]];".toList).1.toOption.map
      (·.returnedArray?.isSome) = some true by decide +kernel)
  have hpath : pathOf "b.c".toList = ["b".toList, "c".toList] := by decide
  have hdotted : "b.c".toList ≠ [] := by decide
  obtain ⟨hvalue, hother, harrays, -⟩ := setConfig_lens (.int 4) hreturned hdotted
  rw [hpath] at hvalue hother harrays
  exact ⟨f, hf, hreturned, hdotted, hvalue, hother ["a".toList] (by decide) (by decide),
    harrays ["b".toList] "c".toList (by decide)⟩

end Graft
