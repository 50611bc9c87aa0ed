/-
Double-quoted literals that interpolate.

A literal in double quotes has no value of its own when it interpolates a variable.  Where it does is seen from left to
right: a backslash takes an escape with it, whose extent depends on what follows, and only outside of the escapes a
dollar sign or a brace can open an interpolation.

* `Escape` — what a backslash takes with it, and `Escape.drop`, by which the text decides how far that goes;
* `Interpolates` — an interpolation is opened outside of the escapes;
* `decode?_eq_none_iff` — a double-quoted literal has no value exactly when it interpolates.

The table of the tokens lets the name of a variable begin with any character beyond ASCII, and the value of a literal is
refused only for the letters among them: `decode?_symbol` is a literal that is given a value although the name of a
variable stands in it.
-/
import Graft.Literal.Quoted
import Graft.Proofs.Token.Closing

namespace Graft.Literal

open TokenTable (isLabelStart)

/-! ### Runs of digits -/

/-- The longest run of at most `n` characters of a class, where `u` goes on behind it. -/
structure Run (p : Char → Bool) (n : Nat) (ds u : Text) : Prop where
  all : ∀ d ∈ ds, p d = true
  length_le : ds.length ≤ n
  longest : ds.length = n ∨ u.head?.any p = false

theorem exists_run (p : Char → Bool) (n : Nat) (t : Text) : ∃ ds u, t = ds ++ u ∧ Run p n ds u := by
  induction n generalizing t with
  | zero => exact ⟨[], t, rfl, by simp, Nat.le_refl _, .inl rfl⟩
  | succ n ih =>
    by_cases hhead : t.head?.any p = true
    · obtain ⟨c, t, rfl⟩ : ∃ c u, t = c :: u := by
        cases t with
        | nil => cases hhead
        | cons c t => exact ⟨c, t, rfl⟩
      obtain ⟨ds, u, rfl, hrun⟩ := ih t
      refine ⟨c :: ds, u, rfl, List.forall_mem_cons.2 ⟨hhead, hrun.all⟩, Nat.succ_le_succ hrun.length_le, ?_⟩
      exact hrun.longest.imp_left (congrArg Nat.succ)
    · exact ⟨[], t, rfl, by simp, Nat.zero_le _, .inr (Bool.eq_false_iff.2 hhead)⟩

/-- The run is what is counted. -/
theorem Run.takeWhile_take {p : Char → Bool} {n : Nat} {ds u : Text} (h : Run p n ds u) :
    ((ds ++ u).take n).takeWhile p = ds := by
  rw [List.take_append, List.take_of_length_le h.length_le, List.takeWhile_append_of_pos h.all]
  rcases h.longest with hlength | hhead
  · rw [hlength, Nat.sub_self, List.take_zero, List.takeWhile_nil, List.append_nil]
  · cases u with
    | nil => rw [List.take_nil, List.takeWhile_nil, List.append_nil]
    | cons c u =>
      have hc : ¬ p c = true := Bool.eq_false_iff.1 hhead
      cases n - ds.length with
      | zero => rw [List.take_zero, List.takeWhile_nil, List.append_nil]
      | succ k => rw [List.take_succ_cons, List.takeWhile_cons_of_neg hc, List.append_nil]

/-! ### Escapes -/

/-- A backslash takes the text `e` with it where `u` follows. -/
inductive Escape : Text → Text → Prop where
  /-- The backslash is the last character. -/
  | stop : Escape [] []
  /-- One character, when no longer escape begins with it. -/
  | plain {c : Char} {u : Text} (hoctal : isOctalDigit c = false) (hhex : ¬ (c = 'x' ∧ u.head?.any isHexDigit = true))
      (hpoint : ¬ (c = 'u' ∧ u.head? = some '{')) : Escape [c] u
  /-- One to three octal digits. -/
  | octal {c : Char} {ds u : Text} (hc : isOctalDigit c = true) (hds : Run isOctalDigit 2 ds u) : Escape (c :: ds) u
  /-- One or two hexadecimal digits. -/
  | hex {ds u : Text} (hne : ds ≠ []) (hds : Run isHexDigit 2 ds u) : Escape ('x' :: ds) u
  /-- A code point in braces. -/
  | point {ds u : Text} (hds : '}' ∉ ds) : Escape ('u' :: '{' :: (ds ++ ['}'])) u
  /-- A brace that is not closed takes all that is left. -/
  | openPoint {ds : Text} (hds : '}' ∉ ds) : Escape ('u' :: '{' :: ds) []

theorem exists_escape (t : Text) : ∃ e u, t = e ++ u ∧ Escape e u := by
  cases t with
  | nil => exact ⟨[], [], rfl, .stop⟩
  | cons c t =>
    by_cases hoctal : isOctalDigit c = true
    · obtain ⟨ds, u, rfl, hrun⟩ := exists_run isOctalDigit 2 t
      exact ⟨c :: ds, u, rfl, .octal hoctal hrun⟩
    by_cases hhex : c = 'x' ∧ t.head?.any isHexDigit = true
    · obtain ⟨rfl, hhead⟩ := hhex
      obtain ⟨ds, u, rfl, hrun⟩ := exists_run isHexDigit 2 t
      refine ⟨'x' :: ds, u, rfl, .hex ?_ hrun⟩
      rintro rfl
      rcases hrun.longest with hlength | hu
      · cases hlength
      · rw [List.nil_append, hu] at hhead
        cases hhead
    by_cases hpoint : c = 'u' ∧ t.head? = some '{'
    · obtain ⟨rfl, hhead⟩ := hpoint
      obtain ⟨t, rfl⟩ := List.head?_eq_some_iff.1 hhead
      by_cases hclose : '}' ∈ t
      · obtain ⟨ds, u, rfl, hds⟩ := List.eq_append_cons_of_mem hclose
        exact ⟨_, u, by simp, .point hds⟩
      · exact ⟨_, [], by simp, .openPoint hclose⟩
    · exact ⟨[c], t, rfl, .plain (Bool.eq_false_iff.2 hoctal) hhex hpoint⟩

/-- The number of characters that are counted for an escape. -/
theorem snd_escape (c : Char) (t : Text) :
    (escape (c :: t)).2 =
      if c = 'u' ∧ t.head? = some '{' then (t.tail.takeWhile (· ≠ '}')).length + 3
      else if isOctalDigit c = true then ((t.take 2).takeWhile isOctalDigit).length + 1
      else if c = 'x' ∧ t.head?.any isHexDigit = true then ((t.take 2).takeWhile isHexDigit).length + 1
      else 1 := by
  unfold escape
  split
  case h_1 heq => cases heq
  case h_11 heq =>
    cases heq
    simp only [List.head?_cons, and_self, if_true, List.tail_cons]
    omega
  case h_12 hpoint heq =>
    cases heq
    have hbrace : ¬ (c = 'u' ∧ t.head? = some '{') := by
      rintro ⟨rfl, hhead⟩
      obtain ⟨t, rfl⟩ := List.head?_eq_some_iff.1 hhead
      exact hpoint t rfl rfl
    rw [if_neg hbrace]
    split
    · rfl
    · split
      · exact Nat.add_comm _ _
      · rfl
  -- The characters that have an escape of their own begin no longer one.
  all_goals
    rename_i heq
    cases heq
    rfl

/-- What follows an escape is what is left when the characters that are counted for it have been read. -/
theorem Escape.drop {e u : Text} (h : Escape e u) : (e ++ u).drop (escape (e ++ u)).2 = u := by
  cases h with
  | stop => rfl
  | @plain c u hoctal hhex hpoint =>
    rw [List.singleton_append, snd_escape, if_neg hpoint, if_neg (Bool.eq_false_iff.1 hoctal), if_neg hhex]
    rfl
  | @octal c ds u hc hds =>
    have hu : c ≠ 'u' := by
      rintro rfl
      cases hc
    rw [List.cons_append, snd_escape, if_neg fun h => hu h.1, if_pos hc, hds.takeWhile_take, List.drop_succ_cons,
      List.drop_left]
  | @hex ds u hne hds =>
    have hhead : (ds ++ u).head?.any isHexDigit = true := by
      obtain ⟨d, ds, rfl⟩ := List.exists_cons_of_ne_nil hne
      exact hds.all d List.mem_cons_self
    rw [List.cons_append, snd_escape, if_neg fun h => absurd h.1 (by decide), if_neg (by decide), if_pos ⟨rfl, hhead⟩,
      hds.takeWhile_take, List.drop_succ_cons, List.drop_left]
  | @point ds u hds =>
    have hall : ∀ d ∈ ds, decide (d ≠ '}') = true := fun d hd => decide_eq_true fun h => hds (h ▸ hd)
    have htake : (ds ++ '}' :: u).takeWhile (· ≠ '}') = ds := by
      rw [List.takeWhile_append_of_pos hall, List.takeWhile_cons_of_neg (by decide), List.append_nil]
    have htext : 'u' :: '{' :: (ds ++ ['}']) ++ u = 'u' :: '{' :: (ds ++ '}' :: u) := by simp
    rw [htext, snd_escape, if_pos ⟨rfl, rfl⟩, List.tail_cons, htake, List.drop_succ_cons, List.drop_succ_cons,
      List.drop_append, List.drop_eq_nil_of_le (Nat.le_succ _), Nat.add_sub_cancel_left]
    rfl
  | @openPoint ds hds =>
    have hall : ∀ d ∈ ds, decide (d ≠ '}') = true := fun d hd => decide_eq_true fun h => hds (h ▸ hd)
    have htake : ds.takeWhile (· ≠ '}') = ds := by
      rw [← List.append_nil ds, List.takeWhile_append_of_pos hall, List.takeWhile_nil]
    rw [List.append_nil, snd_escape, if_pos ⟨rfl, rfl⟩, List.tail_cons, htake]
    exact List.drop_eq_nil_of_le (Nat.le_succ _)

/-! ### Interpolation -/

/-- `Outside t u`: the text `t` goes on with `u` where the latter begins outside of the escapes. -/
inductive Outside : Text → Text → Prop where
  | here (t : Text) : Outside t t
  | plain {c : Char} {t u : Text} (hc : c ≠ '\\') (h : Outside t u) : Outside (c :: t) u
  | escape {e t u : Text} (he : Escape e t) (h : Outside t u) : Outside ('\\' :: (e ++ t)) u

/-- Two characters open an interpolation, when names begin with the characters of a class: a dollar sign before a brace or
a name, or a brace before a dollar sign. -/
def Opens (begins : Char → Prop) (c d : Char) : Prop := c = '$' ∧ (d = '{' ∨ begins d) ∨ c = '{' ∧ d = '$'

/-- An interpolation is opened outside of the escapes. -/
def Interpolates (begins : Char → Prop) (t : Text) : Prop := ∃ c d u, Outside t (c :: d :: u) ∧ Opens begins c d

section

variable {begins : Char → Prop} {c : Char} {e t u : Text}

theorem interpolates_nil : ¬ Interpolates begins [] := by
  rintro ⟨c, d, u, h, -⟩
  cases h

/-- No interpolation is opened in an escape. -/
theorem interpolates_escape (he : Escape e t) : Interpolates begins ('\\' :: (e ++ t)) ↔ Interpolates begins t := by
  constructor
  · rintro ⟨c, d, u, h, hopens⟩
    generalize hw : '\\' :: (e ++ t) = w at h
    cases h with
    | here =>
      obtain ⟨rfl, -⟩ := List.cons.inj hw
      rcases hopens with ⟨h, -⟩ | ⟨h, -⟩ <;> cases h
    | plain hc _ => exact absurd (List.cons.inj hw).1.symm hc
    | @escape e' t' _ he' h =>
      -- Both escapes begin at the same backslash and leave the same text.
      have hsame : e ++ t = e' ++ t' := (List.cons.inj hw).2
      obtain rfl : t = t' := by rw [← he.drop, ← he'.drop, hsame]
      exact ⟨c, d, u, h, hopens⟩
  · rintro ⟨c, d, u, h, hopens⟩
    exact ⟨c, d, u, .escape he h, hopens⟩

theorem interpolates_cons (hc : c ≠ '\\') :
    Interpolates begins (c :: t) ↔ (∃ d, t.head? = some d ∧ Opens begins c d) ∨ Interpolates begins t := by
  constructor
  · rintro ⟨c', d, u, h, hopens⟩
    cases h with
    | here => exact .inl ⟨d, rfl, hopens⟩
    | plain _ h => exact .inr ⟨c', d, u, h, hopens⟩
    | escape => exact absurd rfl hc
  · rintro (⟨d, hd, hopens⟩ | ⟨c', d, u, h, hopens⟩)
    · obtain ⟨t, rfl⟩ := List.head?_eq_some_iff.1 hd
      exact ⟨c, d, t, .here _, hopens⟩
    · exact ⟨c', d, u, .plain hc h, hopens⟩

end

/-- A text between double quotes has no value exactly when it interpolates, as far as the characters go that are taken to
begin the name of a variable. -/
theorem decodeDouble?_eq_none_iff (k : Nat) (t : Text) :
    decodeDouble? k t = none ↔ Interpolates (fun d => startsInterpolation d = true) (t.drop k) := by
  fun_induction decodeDouble? k t with
  | case1 k =>
    rw [List.drop_nil]
    exact ⟨nofun, fun h => absurd h interpolates_nil⟩
  | case2 k c t ih => rw [List.drop_succ_cons, ih]
  | case3 t ih =>
    obtain ⟨e, u, rfl, he⟩ := exists_escape t
    rw [Option.map_eq_none_iff, ih, he.drop, List.drop_zero, interpolates_escape he]
  | case4 c t hc h =>
    obtain ⟨d, hd, hstarts⟩ := (Option.any_eq_true ..).1 h.2
    exact ⟨fun _ => (interpolates_cons hc).2 (.inl ⟨d, hd, .inl ⟨h.1, .inr hstarts⟩⟩), fun _ => rfl⟩
  | case5 c t hc _ h =>
    exact ⟨fun _ => (interpolates_cons hc).2 (.inl ⟨'$', h.2, .inr ⟨h.1, rfl⟩⟩), fun _ => rfl⟩
  | case6 c t hc hdollar hbrace ih =>
    rw [Option.map_eq_none_iff, ih, List.drop_zero, List.drop_zero, interpolates_cons hc]
    refine ⟨.inr, fun h => h.resolve_left ?_⟩
    rintro ⟨d, hd, ⟨rfl, hstarts⟩ | ⟨rfl, rfl⟩⟩
    · refine hdollar ⟨rfl, (Option.any_eq_true ..).2 ⟨d, hd, ?_⟩⟩
      rcases hstarts with rfl | hstarts
      · rfl
      · exact hstarts
    · exact hbrace ⟨rfl, hd⟩

/-! ### Names of variables -/

/-- Names of variables begin with the character, and it is a letter or an underscore when it is not beyond ASCII, and a
letter when it is. -/
def BeginsName (c : Char) : Prop := isLabelStart c = true ∧ (c.toNat < 0x80 ∨ Text.isAlphabetic c = true)

theorem startsInterpolation_iff (c : Char) : startsInterpolation c = true ↔ c = '{' ∨ BeginsName c := by
  by_cases hc : c.toNat < 0x80
  · rw [BeginsName, and_iff_left (.inl hc), startsInterpolation, isLabelStart, decide_eq_false (Nat.not_le_of_lt hc),
      Bool.or_false, Bool.or_assoc, Bool.or_eq_true, Bool.or_eq_true, Text.isAlphabetic_iff_isAlpha hc, beq_iff_eq,
      Bool.or_eq_true, or_comm (a := c.isAlpha = true)]
  · have hne : ∀ d, d.toNat < 0x80 → c ≠ d := fun d hd h => hc (h ▸ hd)
    have hstart : isLabelStart c = true := by
      rw [isLabelStart, decide_eq_true (Nat.le_of_not_lt hc), Bool.or_true]
    rw [startsInterpolation, beq_eq_false_iff_ne.2 (hne '{' (by decide)), beq_eq_false_iff_ne.2 (hne '_' (by decide)),
      Bool.false_or, Bool.false_or, BeginsName, and_iff_right hstart, or_iff_right hc, or_iff_right (hne '{' (by decide))]

/-- A literal in double quotes has no value exactly when an interpolation is opened outside of its escapes: by a dollar
sign before a brace or the name of a variable, or by a brace before a dollar sign.  Of the characters beyond ASCII, with
all of which names begin, the letters alone are taken for the beginning of one. -/
theorem decode?_eq_none_iff (t : Text) : decode? ('"' :: (t ++ ['"'])) = none ↔ Interpolates BeginsName t := by
  have hsingle : unquote? '\'' ('"' :: (t ++ ['"'])) = none := by
    obtain ⟨d, u, hdu⟩ := List.exists_cons_of_ne_nil (List.append_ne_nil_of_right_ne_nil t (List.cons_ne_nil '"' []))
    rw [hdu, unquote?, if_neg fun h => absurd h.1 (by decide)]
  have hopens : ∀ c d, Opens (fun d => startsInterpolation d = true) c d ↔ Opens BeginsName c d := by
    intro c d
    simp only [Opens, startsInterpolation_iff, or_self_left]
  simp only [decode?, hsingle, unquote?_append, Option.bind_some, decodeDouble?_eq_none_iff, List.drop_zero, Interpolates,
    hopens]

/-- A sign beyond ASCII that is no letter begins a name, and yet the literal with such a variable is given a value. -/
theorem decode?_symbol : Interpolates (fun c => isLabelStart c = true) "$€".toList ∧
    decode? "\"$€\"".toList = some "$€".toList := by
  refine ⟨⟨'$', '€', [], .here _, .inl ⟨rfl, .inr ?_⟩⟩, ?_⟩
  · decide
  · decide +kernel

end Graft.Literal
