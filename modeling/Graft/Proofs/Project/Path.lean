/-
The order of paths, and where their texts lead.

Paths are ordered part by part and parts character by character, which are both cases of one order on lists.  Where a
text leads does not depend on what is there, as long as it can be gone at all, and the text of a file seen from a
directory leads below the directory.

* `Orders` — a total order, with `Orders.lexicographic` for lists, and `Path.orders_le`;
* `Path.IsName` — what a file can be called;
* `Path.ofText` — where a text leads, and `Path.ofText_join` for a file seen from a directory.
-/
import Graft.Project.Path
import Graft.Proofs.Text.Search

namespace Graft

/-! ### Orders -/

/-- The comparison is a total order. -/
structure Orders {α : Type} (le : α → α → Bool) : Prop where
  total : ∀ a b, le a b = true ∨ le b a = true
  trans : ∀ a b c, le a b = true → le b c = true → le a c = true
  antisymm : ∀ a b, le a b = true → le b a = true → a = b

/-- Lists in the order of their first elements that differ. -/
def lexicographic {α : Type} [DecidableEq α] (le : α → α → Bool) : List α → List α → Bool
  | [], _ => true
  | _ :: _, [] => false
  | a :: as, b :: bs => if a = b then lexicographic le as bs else le a b

section

variable {α : Type} [DecidableEq α] {le : α → α → Bool}

theorem lexicographic_cons {a b : α} {as bs : List α} : lexicographic le (a :: as) (b :: bs) = true ↔
    a = b ∧ lexicographic le as bs = true ∨ a ≠ b ∧ le a b = true := by
  rw [lexicographic]
  split <;> simp [*]

theorem Orders.lexicographic (h : Orders le) : Orders (lexicographic le) where
  total := by
    intro as bs
    fun_induction Graft.lexicographic le as bs with
    | case1 => exact .inl rfl
    | case2 => exact .inr rfl
    | case3 as a bs ih => exact ih.imp_right fun h => lexicographic_cons.2 (.inl ⟨rfl, h⟩)
    | case4 a as b bs hne => exact (h.total a b).imp_right fun h => lexicographic_cons.2 (.inr ⟨Ne.symm hne, h⟩)
  trans := by
    intro as bs cs hab hbc
    induction as generalizing bs cs with
    | nil => rfl
    | cons a as ih =>
      rcases bs with _ | ⟨b, bs⟩
      · cases hab
      rcases cs with _ | ⟨c, cs⟩
      · cases hbc
      rw [lexicographic_cons] at hab hbc ⊢
      rcases hab with ⟨rfl, hab⟩ | ⟨hne, hab⟩
      · exact hbc.imp_left fun ⟨hac, hbc⟩ => ⟨hac, ih bs cs hab hbc⟩
      · rcases hbc with ⟨rfl, -⟩ | ⟨-, hbc⟩
        · exact .inr ⟨hne, hab⟩
        · refine .inr ⟨?_, h.trans a b c hab hbc⟩
          rintro rfl
          exact hne (h.antisymm a b hab hbc)
  antisymm := by
    intro as bs hab hba
    induction as generalizing bs with
    | nil =>
      cases bs with
      | nil => rfl
      | cons b bs => cases hba
    | cons a as ih =>
      rcases bs with _ | ⟨b, bs⟩
      · cases hab
      rw [lexicographic_cons] at hab hba
      rcases hab with ⟨rfl, hab⟩ | ⟨hne, hab⟩
      · rw [ih bs hab (hba.resolve_right fun h => h.1 rfl).2]
      · exact absurd (h.antisymm a b hab (hba.resolve_left fun h => hne h.1.symm).2) hne

end

theorem orders_char : Orders fun c d : Char => decide (c ≤ d) where
  total c d := by simpa using Char.le_total c d
  trans c d e hcd hde := decide_eq_true (Char.le_trans (of_decide_eq_true hcd) (of_decide_eq_true hde))
  antisymm c d hcd hdc := Char.le_antisymm (of_decide_eq_true hcd) (of_decide_eq_true hdc)

theorem Text.le_eq (s t : Text) : s.le t = lexicographic (fun c d => decide (c ≤ d)) s t := by
  fun_induction Text.le s t with
  | case1 => rfl
  | case2 => rfl
  | case3 s c t ih => rw [lexicographic, if_pos rfl, ih]
  | case4 c s d t hne =>
    rw [lexicographic, if_neg hne, decide_eq_decide]
    constructor
    · exact fun hlt => (Char.le_total c d).resolve_right fun hle => Char.not_lt.2 hle hlt
    · exact fun hle => Decidable.byContradiction fun hlt => hne (Char.le_antisymm hle (Char.not_lt.1 hlt))

theorem Path.le_eq (p q : Path) : p.le q = lexicographic Text.le p q := by
  fun_induction Path.le p q with
  | case1 => rfl
  | case2 => rfl
  | case3 p a q ih => rw [lexicographic, if_pos rfl, ih]
  | case4 a p b q hne => rw [lexicographic, if_neg hne]

theorem Path.orders_le : Orders Path.le := by
  have htext : Orders Text.le := by
    rw [funext fun s => funext (Text.le_eq s)]
    exact orders_char.lexicographic
  rw [funext fun p => funext (Path.le_eq p)]
  exact htext.lexicographic

/-! ### Texts of paths -/

namespace Path

theorem below?_eq_some {dir p r : Path} : below? dir p = some r ↔ p = dir ++ r := by
  constructor
  · intro h
    rw [below?] at h
    split at h
    · rename_i hdir
      obtain ⟨s, rfl⟩ := List.isPrefixOf_iff_prefix.1 hdir
      rw [List.drop_left] at h
      rw [Option.some.inj h]
    · cases h
  · rintro rfl
    exact below?_append dir r

/-- What a file or a directory can be called: neither nothing nor dots that lead elsewhere, and no slash. -/
structure IsName (part : Text) : Prop where
  ne_nil : part ≠ []
  ne_dot : part ≠ ['.']
  ne_upward : part ≠ upward
  slash : '/' ∉ part

instance : DecidablePred IsName := fun part =>
  decidable_of_iff (part ≠ [] ∧ part ≠ ['.'] ∧ part ≠ upward ∧ '/' ∉ part)
    ⟨fun ⟨hnil, hdot, hupward, hslash⟩ => ⟨hnil, hdot, hupward, hslash⟩,
      fun h => ⟨h.ne_nil, h.ne_dot, h.ne_upward, h.slash⟩⟩

/-- Where a text leads: from the root, or from the directory of the project on. -/
def ofText (path : Text) : Path :=
  (Text.splitOn '/' path).foldl push (if path.startsWith ['/'] then root else [])

variable {p r : Path} {part path : Text}

theorem push_of_isName (h : IsName part) (p : Path) : p.push part = p ++ [part] := by
  have hidle : (part.isEmpty || part == ['.']) = false := by simp [h.ne_nil, h.ne_dot]
  rw [push, hidle, if_neg Bool.false_ne_true, if_neg (by simp [h.ne_upward])]

theorem foldl_push (h : ∀ part ∈ r, IsName part) (p : Path) : r.foldl push p = p ++ r := by
  induction r generalizing p with
  | nil => exact (List.append_nil p).symm
  | cons part r ih =>
    obtain ⟨hpart, hr⟩ := List.forall_mem_cons.1 h
    rw [List.foldl_cons, push_of_isName hpart, ih hr, List.append_assoc, List.singleton_append]

theorem head?_toText (hne : r ≠ []) (h : ∀ part ∈ r, IsName part) : ∃ c t, r.toText = c :: t ∧ c ≠ '/' := by
  obtain ⟨part, r, rfl⟩ := List.exists_cons_of_ne_nil hne
  have hpart := h part List.mem_cons_self
  obtain ⟨c, part, rfl⟩ := List.exists_cons_of_ne_nil hpart.ne_nil
  have hc : c ≠ '/' := fun hc => hpart.slash (hc ▸ List.mem_cons_self)
  cases r with
  | nil => exact ⟨c, part, rfl, hc⟩
  | cons q r => exact ⟨c, _, rfl, hc⟩

theorem startsWith_slash (c : Char) (t : Text) : Text.startsWith (c :: t) ['/'] = decide (c = '/') := by
  by_cases hc : c = '/'
  · rw [hc]
    rfl
  · simp [Text.startsWith, Text.strip?, Ne.symm hc, hc]

/-- A file that is seen from a directory is below it. -/
theorem ofText_join (path : Text) (hne : r ≠ []) (h : ∀ part ∈ r, IsName part) :
    ofText (join path r.toText) = ofText path ++ r := by
  have hsplit : Text.splitOn '/' r.toText = r := Text.splitOn_join hne fun part hpart => (h part hpart).slash
  obtain ⟨d, t, ht, hd⟩ := head?_toText hne h
  have hbelow : Text.startsWith r.toText ['/'] = false := by rw [ht, startsWith_slash, decide_eq_false hd]
  rcases path with _ | ⟨c, path⟩
  · rw [join, if_pos (by simp), ofText, hsplit, hbelow, if_neg Bool.false_ne_true, foldl_push h]
    rfl
  rw [join, hbelow, if_neg (by simp)]
  split
  · -- The slash at the end makes an idle part, behind which the names would go on.
    rename_i hlast
    obtain ⟨s, hs⟩ := List.getLast?_eq_some_iff.1 hlast
    have hparts : Text.splitOn '/' (c :: path ++ r.toText) = Text.splitOn '/' s ++ r := by
      rw [hs, List.append_assoc, List.singleton_append, Text.splitOn_append, hsplit]
    have hidle : Text.splitOn '/' (c :: path) = Text.splitOn '/' s ++ [[]] := by
      rw [hs, Text.splitOn_append]
      rfl
    rw [ofText, ofText, hparts, hidle, List.foldl_append, List.foldl_append, foldl_push h, List.cons_append,
      startsWith_slash, startsWith_slash]
    rfl
  · rw [ofText, ofText, Text.splitOn_append, hsplit, List.foldl_append, foldl_push h, List.cons_append,
      startsWith_slash, startsWith_slash]

end Path

end Graft
