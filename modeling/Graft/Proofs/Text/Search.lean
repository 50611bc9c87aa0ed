/-
The parts of a text.

A search answers with the part that was looked for and with what stands before and behind it, so that the pieces put
together are the text.  An offset cuts a text when it stands between two of its characters, or at an end.  Slices
between cuts behave as one expects of parts of a text, which slices between arbitrary offsets do not.

* `strip?_eq_some`, `startsWith_iff`, `locate?_eq_some`, `cut?_eq_some_iff`, `afterLast?_eq_some` — one part;
* `not_mem_of_mem_splitOn`, `subset_of_mem_splitOn` — the parts between separators;
* `splitOn_append`, `splitOn_join`, `join_splitOn` — the parts of texts that are put together;
* `slice_append_slice` — two slices that meet are one;
* `slice_append_right`, `slice_append_add` — slices of one part of a text.
-/
import Graft.Text

namespace Graft.Text

/-! ### One part -/

theorem strip?_eq_some {p t u : Text} (h : strip? p t = some u) : t = p ++ u := by
  induction p generalizing t with
  | nil => exact Option.some.inj h
  | cons c p ih =>
    cases t with
    | nil => cases h
    | cons d t =>
      rw [strip?] at h
      split at h
      · rename_i hcd
        rw [hcd, ih h, List.cons_append]
      · cases h

theorem exists_of_startsWith {p t : Text} (h : startsWith t p = true) : ∃ u, t = p ++ u := by
  obtain ⟨u, hu⟩ := Option.isSome_iff_exists.1 h
  exact ⟨u, strip?_eq_some hu⟩

theorem strip?_append (p t : Text) : strip? p (p ++ t) = some t := by
  induction p with
  | nil => rfl
  | cons c p ih => rw [List.cons_append, strip?, if_pos rfl, ih]

theorem startsWith_iff {t p : Text} : startsWith t p = true ↔ p <+: t := by
  constructor
  · intro h
    obtain ⟨u, rfl⟩ := exists_of_startsWith h
    exact List.prefix_append p u
  · rintro ⟨u, rfl⟩
    rw [startsWith, strip?_append]
    rfl

/-- The part that was searched for stands behind as many characters as were counted. -/
theorem locate?_eq_some {p t : Text} {n : Nat} (h : locate? p t = some n) : ∃ a u, t = a ++ (p ++ u) ∧ a.length = n := by
  induction t generalizing n with
  | nil =>
    rw [locate?] at h
    split at h
    · rename_i hp
      obtain rfl : p = [] := List.isEmpty_iff.1 hp
      cases h
      exact ⟨[], [], rfl, rfl⟩
    · cases h
  | cons c t ih =>
    rw [locate?] at h
    split at h
    · rename_i hstart
      obtain ⟨u, hu⟩ := exists_of_startsWith hstart
      cases h
      exact ⟨[], u, hu, rfl⟩
    · obtain ⟨m, hm, rfl⟩ := Option.map_eq_some_iff.1 h
      obtain ⟨a, u, rfl, rfl⟩ := ih hm
      exact ⟨c :: a, u, rfl, rfl⟩

theorem cut?_eq_some {sep : Char} {t a b : Text} (h : cut? sep t = some (a, b)) : t = a ++ sep :: b := by
  induction t generalizing a with
  | nil => cases h
  | cons c t ih =>
    rw [cut?] at h
    split at h
    · rename_i hc
      cases h
      rw [hc, List.nil_append]
    · obtain ⟨⟨a', b'⟩, hcut, heq⟩ := Option.map_eq_some_iff.1 h
      cases heq
      rw [ih hcut, List.cons_append]

/-- A text is cut at the first separator. -/
theorem cut?_eq_some_iff {sep : Char} {t a b : Text} : cut? sep t = some (a, b) ↔ t = a ++ sep :: b ∧ sep ∉ a := by
  constructor
  · intro h
    refine ⟨cut?_eq_some h, ?_⟩
    induction t generalizing a with
    | nil => cases h
    | cons c t ih =>
      rw [cut?] at h
      by_cases hc : c = sep
      · rw [if_pos hc] at h
        cases h
        exact List.not_mem_nil
      · rw [if_neg hc] at h
        obtain ⟨⟨a', b'⟩, hcut, heq⟩ := Option.map_eq_some_iff.1 h
        cases heq
        rw [List.mem_cons, not_or]
        exact ⟨Ne.symm hc, ih hcut⟩
  · rintro ⟨rfl, ha⟩
    induction a with
    | nil => exact if_pos rfl
    | cons c a ih =>
      rw [List.mem_cons, not_or] at ha
      rw [List.cons_append, cut?, if_neg (Ne.symm ha.1), ih ha.2]
      rfl

theorem cut?_eq_none_iff {sep : Char} {t : Text} : cut? sep t = none ↔ sep ∉ t := by
  constructor
  · intro h hmem
    obtain ⟨a, b, rfl, ha⟩ := List.eq_append_cons_of_mem hmem
    rw [cut?_eq_some_iff.2 ⟨rfl, ha⟩] at h
    cases h
  · intro h
    cases hcut : cut? sep t with
    | none => rfl
    | some ab =>
      rw [cut?_eq_some hcut] at h
      exact absurd (List.mem_append_right _ List.mem_cons_self) h

theorem afterLast?_eq_none {sep : Char} {t : Text} (h : afterLast? sep t = none) : sep ∉ t := by
  induction t with
  | nil => exact List.not_mem_nil
  | cons c t ih =>
    rw [afterLast?] at h
    obtain ⟨hrest, hc⟩ := Option.or_eq_none_iff.1 h
    have hne : c ≠ sep := fun heq => by
      rw [if_pos heq] at hc
      cases hc
    exact fun hmem => (List.mem_cons.1 hmem).elim (fun heq => hne heq.symm) (ih hrest)

/-- What stands behind the last separator holds none. -/
theorem afterLast?_eq_some {sep : Char} {t u : Text} (h : afterLast? sep t = some u) :
    (∃ a, t = a ++ sep :: u) ∧ sep ∉ u := by
  induction t with
  | nil => cases h
  | cons c t ih =>
    rw [afterLast?] at h
    cases hrest : afterLast? sep t with
    | some v =>
      rw [hrest, Option.some_or] at h
      obtain ⟨⟨a, ha⟩, hmem⟩ := ih (hrest.trans h)
      exact ⟨⟨c :: a, by rw [ha, List.cons_append]⟩, hmem⟩
    | none =>
      rw [hrest, Option.none_or] at h
      split at h
      · rename_i hc
        cases h
        exact ⟨⟨[], by rw [hc, List.nil_append]⟩, afterLast?_eq_none hrest⟩
      · cases h

/-! ### Parts between separators -/

theorem not_mem_of_mem_splitOn {sep : Char} {t p : Text} (h : p ∈ splitOn sep t) : sep ∉ p := by
  induction t generalizing p with
  | nil =>
    rw [splitOn, List.mem_singleton] at h
    rw [h]
    exact List.not_mem_nil
  | cons c t ih =>
    rw [splitOn] at h
    split at h
    · rcases List.mem_cons.1 h with rfl | h
      · exact List.not_mem_nil
      · exact ih h
    · rename_i hc
      split at h
      · rw [List.mem_singleton.1 h, List.mem_singleton]
        exact fun heq => hc heq.symm
      · rename_i q qs hqs
        rcases List.mem_cons.1 h with rfl | h
        · -- The character goes to the front of the first part.
          have hq : sep ∉ q := ih (by rw [hqs]; exact List.mem_cons_self)
          exact fun hmem => (List.mem_cons.1 hmem).elim (fun heq => hc heq.symm) hq
        · exact ih (by rw [hqs]; exact List.mem_cons_of_mem _ h)

/-- The parts hold characters of the text. -/
theorem subset_of_mem_splitOn {sep : Char} {t p : Text} (h : p ∈ splitOn sep t) : p ⊆ t := by
  induction t generalizing p with
  | nil =>
    rw [splitOn, List.mem_singleton] at h
    rw [h]
    exact List.Subset.refl []
  | cons c t ih =>
    rw [splitOn] at h
    split at h
    · rcases List.mem_cons.1 h with rfl | h
      · exact List.nil_subset _
      · exact List.subset_cons_of_subset c (ih h)
    · split at h
      · rw [List.mem_singleton.1 h]
        exact List.cons_subset_cons c (List.nil_subset t)
      · rename_i q qs hqs
        rcases List.mem_cons.1 h with rfl | h
        · exact List.cons_subset_cons c (ih (by rw [hqs]; exact List.mem_cons_self))
        · exact List.subset_cons_of_subset c (ih (by rw [hqs]; exact List.mem_cons_of_mem _ h))

theorem splitOn_ne_nil (sep : Char) (t : Text) : splitOn sep t ≠ [] := by
  cases t with
  | nil => exact List.cons_ne_nil _ _
  | cons c t =>
    rw [splitOn]
    split
    · exact List.cons_ne_nil _ _
    · split <;> exact List.cons_ne_nil _ _

/-- A text without separators is one part. -/
theorem splitOn_of_not_mem {sep : Char} {t : Text} (h : sep ∉ t) : splitOn sep t = [t] := by
  induction t with
  | nil => rfl
  | cons c t ih =>
    rw [List.mem_cons, not_or] at h
    rw [splitOn, if_neg (Ne.symm h.1), ih h.2]

/-- The parts before a separator and those behind it. -/
theorem splitOn_append (sep : Char) (s t : Text) : splitOn sep (s ++ sep :: t) = splitOn sep s ++ splitOn sep t := by
  induction s with
  | nil => simp only [List.nil_append, splitOn, if_true, List.singleton_append]
  | cons c s ih =>
    rw [List.cons_append, splitOn, splitOn, ih]
    split
    · rw [List.cons_append]
    · cases hs : splitOn sep s with
      | nil => exact absurd hs (splitOn_ne_nil sep s)
      | cons p ps => rfl

/-- Parts without separators are found again. -/
theorem splitOn_join {sep : Char} {ps : List Text} (hne : ps ≠ []) (h : ∀ p ∈ ps, sep ∉ p) :
    splitOn sep (join [sep] ps) = ps := by
  induction ps with
  | nil => exact absurd rfl hne
  | cons p ps ih =>
    obtain ⟨hp, hps⟩ := List.forall_mem_cons.1 h
    cases ps with
    | nil => exact splitOn_of_not_mem hp
    | cons q ps =>
      rw [join, List.append_assoc, List.singleton_append, splitOn_append, splitOn_of_not_mem hp,
        ih (List.cons_ne_nil _ _) hps, List.singleton_append]

/-- One more part goes behind a separator. -/
theorem join_concat (sep : Text) {ps : List Text} (hne : ps ≠ []) (q : Text) :
    join sep (ps ++ [q]) = join sep ps ++ sep ++ q := by
  induction ps with
  | nil => exact absurd rfl hne
  | cons p ps ih =>
    cases ps with
    | nil => rfl
    | cons p' ps =>
      show p ++ sep ++ join sep (p' :: ps ++ [q]) = p ++ sep ++ join sep (p' :: ps) ++ sep ++ q
      rw [ih (List.cons_ne_nil _ _), ← List.append_assoc, ← List.append_assoc]

/-- The parts put together again are the text. -/
theorem join_splitOn (sep : Char) (t : Text) : join [sep] (splitOn sep t) = t := by
  induction t with
  | nil => rfl
  | cons c t ih =>
    obtain ⟨p, ps, hparts⟩ := List.exists_cons_of_ne_nil (splitOn_ne_nil sep t)
    rw [hparts] at ih
    by_cases hc : c = sep
    · rw [splitOn, if_pos hc, hparts, join, ih, hc]
      rfl
    · -- The character goes to the front of the first part, which is the front of what is put together.
      rw [splitOn, if_neg hc, hparts, ← ih]
      cases ps <;> rfl

/-! ### Cuts -/

section Cuts

/-- The offset stands between two characters of the text, or at an end. -/
def IsCut (t : Text) (x : Nat) : Prop := ∃ p q, t = p ++ q ∧ p.size = x

variable {t u : Text} {x y z : Nat}

theorem isCut_zero (t : Text) : IsCut t 0 := ⟨[], t, rfl, rfl⟩

theorem isCut_size (t : Text) : IsCut t t.size := ⟨t, [], by simp, rfl⟩

theorem IsCut.le_size (h : IsCut t x) : x ≤ t.size := by
  obtain ⟨p, q, rfl, rfl⟩ := h
  simp

theorem IsCut.append (h : IsCut t x) (u : Text) : IsCut (t ++ u) x := by
  obtain ⟨p, q, rfl, rfl⟩ := h
  exact ⟨p, q ++ u, by simp, rfl⟩

theorem IsCut.append_left (h : IsCut t x) (u : Text) : IsCut (u ++ t) (u.size + x) := by
  obtain ⟨p, q, rfl, rfl⟩ := h
  exact ⟨u ++ p, q, by simp, by simp⟩

/-- Of two initial parts of a text the shorter one is part of the longer one. -/
theorem exists_append_of_size_le {p q p' q' : Text} (h : p ++ q = p' ++ q') (hle : size p ≤ size p') :
    ∃ m, p' = p ++ m ∧ q = m ++ q' := by
  induction p generalizing p' with
  | nil => exact ⟨p', rfl, h⟩
  | cons c p ih =>
    cases p' with
    | nil =>
      have := Char.utf8Size_pos c
      simp only [size_cons, size_nil] at hle
      omega
    | cons d p' =>
      obtain ⟨rfl, htail⟩ := List.cons.inj h
      simp only [size_cons] at hle
      obtain ⟨m, rfl, rfl⟩ := ih htail (by omega)
      exact ⟨m, rfl, rfl⟩

/-- A text in three parts at two cuts. -/
theorem IsCut.split (hx : IsCut t x) (hy : IsCut t y) (hxy : x ≤ y) :
    ∃ a b c, t = a ++ (b ++ c) ∧ size a = x ∧ size a + size b = y := by
  obtain ⟨p, q, rfl, rfl⟩ := hx
  obtain ⟨p', q', h, rfl⟩ := hy
  obtain ⟨m, rfl, rfl⟩ := exists_append_of_size_le h hxy
  exact ⟨p, m, q', rfl, rfl, by simp⟩

/-! ### Slices between cuts -/

/-- Two slices that meet are one. -/
theorem slice_append_slice (hx : IsCut t x) (hy : IsCut t y) (hz : IsCut t z) (hxy : x ≤ y) (hyz : y ≤ z) :
    slice t x y ++ slice t y z = slice t x z := by
  obtain ⟨a, b, c, rfl, rfl, rfl⟩ := hx.split hy hxy
  obtain ⟨d, e, f, h, hd, rfl⟩ := hy.split hz hyz
  obtain ⟨m, rfl, hm⟩ := exists_append_of_size_le (p := a ++ b) (q := c) (by simpa using h) (by simp; omega)
  have hnil : m = [] := by
    cases m with
    | nil => rfl
    | cons ch m =>
      have := Char.utf8Size_pos ch
      simp only [size_append, size_cons] at hd
      omega
  subst hnil
  obtain rfl : c = e ++ f := hm
  have h₁ := slice_append a b (e ++ f)
  have h₂ := slice_append (a ++ b) e f
  have h₃ := slice_append a (b ++ e) f
  simp only [List.append_assoc, List.append_nil, size_append] at h₁ h₂ h₃ ⊢
  rw [h₁, h₂, Nat.add_assoc, h₃]

/-- The slice between the ends is the text. -/
theorem slice_zero_size (t : Text) : slice t 0 t.size = t := by
  have h := slice_append [] t []
  simpa using h

/-! ### Slices of one part -/

theorem drop?_append_of_le {n : Nat} (h : n ≤ t.size) (u : Text) : drop? n (t ++ u) = (drop? n t).map (· ++ u) := by
  induction t generalizing n with
  | nil =>
    obtain rfl : n = 0 := Nat.le_zero.1 h
    cases u <;> rfl
  | cons c t ih =>
    cases n with
    | zero => rfl
    | succ n =>
      simp only [List.cons_append, drop?]
      split
      · exact ih (by simp only [size_cons] at h; omega)
      · rfl

theorem take?_append_of_le {n : Nat} (h : n ≤ t.size) (u : Text) : take? n (t ++ u) = take? n t := by
  induction t generalizing n with
  | nil =>
    obtain rfl : n = 0 := Nat.le_zero.1 h
    cases u <;> rfl
  | cons c t ih =>
    cases n with
    | zero => rfl
    | succ n =>
      simp only [List.cons_append, take?]
      split
      · rw [ih (by simp only [size_cons] at h; omega)]
      · rfl

theorem drop?_append_add (t u : Text) (n : Nat) : drop? (t.size + n) (t ++ u) = drop? n u := by
  induction t with
  | nil => rw [size_nil, Nat.zero_add]; rfl
  | cons c t ih =>
    have hc := Char.utf8Size_pos c
    obtain ⟨m, hm⟩ : ∃ m, size (c :: t) + n = m + 1 := ⟨size (c :: t) + n - 1, by simp only [size_cons]; omega⟩
    have hs : m + 1 - c.utf8Size = size t + n := by rw [← hm, size_cons]; omega
    rw [hm, List.cons_append, drop?, hs, ih, if_pos (by rw [← hm, size_cons]; omega)]

theorem take?_append_add (t u : Text) (n : Nat) : take? (t.size + n) (t ++ u) = (take? n u).map (t ++ ·) := by
  induction t with
  | nil =>
    rw [size_nil, Nat.zero_add, List.nil_append]
    cases take? n u <;> rfl
  | cons c t ih =>
    have hc := Char.utf8Size_pos c
    obtain ⟨m, hm⟩ : ∃ m, size (c :: t) + n = m + 1 := ⟨size (c :: t) + n - 1, by simp only [size_cons]; omega⟩
    have hs : m + 1 - c.utf8Size = size t + n := by rw [← hm, size_cons]; omega
    rw [hm, List.cons_append, take?, hs, ih, if_pos (by rw [← hm, size_cons]; omega), Option.map_map]
    rfl

/-- A text that can be cut at an offset is what stands on its two sides. -/
theorem take?_append_drop? {n : Nat} {p : Text} (h : take? n t = some p) : ∃ q, drop? n t = some q ∧ p ++ q = t := by
  induction t generalizing n p with
  | nil =>
    cases n with
    | zero => cases h; exact ⟨[], rfl, rfl⟩
    | succ n => cases h
  | cons c t ih =>
    cases n with
    | zero => cases h; exact ⟨c :: t, rfl, rfl⟩
    | succ n =>
      simp only [take?] at h
      split at h
      · rename_i hc
        obtain ⟨p', hp', rfl⟩ := Option.map_eq_some_iff.1 h
        obtain ⟨q, hq, hpq⟩ := ih hp'
        exact ⟨q, by rw [drop?, if_pos hc, hq], by rw [List.cons_append, hpq]⟩
      · cases h

theorem drop?_eq_none {n : Nat} (h : take? n t = none) : drop? n t = none := by
  induction t generalizing n with
  | nil =>
    cases n with
    | zero => cases h
    | succ n => rfl
  | cons c t ih =>
    cases n with
    | zero => cases h
    | succ n =>
      simp only [take?] at h
      rw [drop?]
      split
      · rename_i hc
        rw [if_pos hc] at h
        exact ih (Option.map_eq_none_iff.1 h)
      · rfl

theorem size_of_drop? {n : Nat} {q : Text} (h : drop? n t = some q) : q.size + n = t.size := by
  induction t generalizing n with
  | nil =>
    cases n with
    | zero => cases h; rfl
    | succ n => cases h
  | cons c t ih =>
    cases n with
    | zero => cases h; rfl
    | succ n =>
      rw [drop?] at h
      split at h
      · have := ih h
        rw [size_cons]
        omega
      · cases h

/-- A slice of the first part of a text. -/
theorem slice_append_right (hy : y ≤ t.size) (u : Text) : slice (t ++ u) x y = slice t x y := by
  unfold slice
  split
  · rename_i hxy
    rw [drop?_append_of_le (Nat.le_trans hxy hy)]
    cases hq : drop? x t with
    | none => rfl
    | some q =>
      have := size_of_drop? hq
      rw [Option.map_some, Option.bind_some, Option.bind_some, take?_append_of_le (by omega)]
  · rfl

/-- A slice of the last part of a text. -/
theorem slice_append_add (t u : Text) (x y : Nat) : slice (t ++ u) (t.size + x) (t.size + y) = slice u x y := by
  simp only [slice, drop?_append_add, Nat.add_sub_add_left, Nat.add_le_add_iff_left]

end Cuts

end Graft.Text
