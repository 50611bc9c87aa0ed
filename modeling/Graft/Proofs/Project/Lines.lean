/-
Blocks and variables in the lines of a text.

A block runs from a start marker through the next end marker, or through the last line; a start marker within a block
belongs to it.  Removing walks over the lines with one bit, whether a block goes on.  Here blocks are given by the
numbers of their lines, without the walk.

* `isMarker_iff` — what a marker line looks like, and `StartMarker.not_endMarker`;
* `exists_isBlock_iff` — the lines in blocks, from the markers before them;
* `picks_outside` — the walk keeps the lines that no block holds;
* `removeBlock_stripBlock_spec` — what both operations keep, and what they do one after the other.

A line sets a variable when it begins with the key and an equals sign.  Setting a variable puts one and the same line in
place of each such line, or behind the text when there is none.  On the lines of the text that is `setLines`, for which
the laws are proved; a text and its lines determine each other as long as the new line is one line.

* `splitOn_setVariable` — setting on a text and on its lines;
* `setLines_setLines`, `setLines_comm_iff` — a variable that is set twice, and two variables;
* `setVariable_spec` — reading, framing, overwriting and commuting.
-/
import Mathlib.Data.List.TakeWhile
import Mathlib.Data.Nat.Find
import Graft.Project.Lines
import Graft.Proofs.Text.Search

namespace Graft.Lines

open Text

/-! ### Marker lines -/

/-- A line that is the marker `@tag` in a comment on its own.  Blanks may stand around the comment and within it, and
one brace on either side of it. -/
def MarkerLine (tag line : Text) : Prop :=
  ∃ indent opening blanks blanks' closing trail : Text,
    line = indent ++ opening ++ "/*".toList ++ blanks ++ '@' :: tag ++ blanks' ++ "*/".toList ++ closing ++ trail ∧
      (opening = [] ∨ opening = ['{']) ∧ (closing = [] ∨ closing = ['}']) ∧
      ∀ c ∈ indent ++ blanks ++ blanks' ++ trail, isSpace c = true

/-- The line opens a block of the tag. -/
def StartMarker (tag line : Text) : Prop := MarkerLine tag line

/-- The line closes a block of the tag. -/
def EndMarker (tag line : Text) : Prop := MarkerLine ("end-".toList ++ tag) line

/-- One character may stand in front. -/
theorem exists_of_dropOne (c : Char) (t : Text) : ∃ o, t = o ++ dropOne c t ∧ (o = [] ∨ o = [c]) := by
  cases t with
  | nil => exact ⟨[], rfl, .inl rfl⟩
  | cons d t =>
    by_cases h : d = c
    · exact ⟨[c], by rw [dropOne, if_pos h, h]; rfl, .inr rfl⟩
    · exact ⟨[], by rw [dropOne, if_neg h]; rfl, .inl rfl⟩

theorem dropOne_append {c : Char} {o t : Text} (ho : o = [] ∨ o = [c]) (ht : t.head? ≠ some c) :
    dropOne c (o ++ t) = t := by
  rcases ho with rfl | rfl
  · cases t with
    | nil => rfl
    | cons d t =>
      have hd : d ≠ c := fun h => ht (by rw [h]; rfl)
      rw [List.nil_append, dropOne, if_neg hd]
  · rw [List.singleton_append, dropOne, if_pos rfl]

/-- Blanks are dropped up to the first character that is none. -/
theorem dropWhile_blanks {b t : Text} (hb : ∀ c ∈ b, isSpace c = true)
    (ht : ∀ c, t.head? = some c → isSpace c = false) : (b ++ t).dropWhile isSpace = t := by
  rw [List.dropWhile_append_of_pos hb]
  cases t with
  | nil => rfl
  | cons c t => exact List.dropWhile_cons_of_neg (by rw [ht c rfl]; exact Bool.false_ne_true)

/-- Reading a line from the left, piece by piece. -/
theorem isMarker_eq_true {tag line : Text} :
    isMarker tag line = true ↔
      ∃ t₁ t₂ t₃, strip? "/*".toList (dropOne '{' (line.dropWhile isSpace)) = some t₁ ∧
        strip? ('@' :: tag) (t₁.dropWhile isSpace) = some t₂ ∧ strip? "*/".toList (t₂.dropWhile isSpace) = some t₃ ∧
        (dropOne '}' t₃).all isSpace = true := by
  rw [isMarker, Option.getD_eq_iff]
  constructor
  · rintro (hread | ⟨-, hfalse⟩)
    · obtain ⟨t₁, h₁, hread⟩ := Option.bind_eq_some_iff.1 hread
      obtain ⟨t₂, h₂, hread⟩ := Option.bind_eq_some_iff.1 hread
      obtain ⟨t₃, h₃, hread⟩ := Option.bind_eq_some_iff.1 hread
      exact ⟨t₁, t₂, t₃, h₁, h₂, h₃, Option.some.inj hread⟩
    · exact absurd hfalse Bool.false_ne_true
  · rintro ⟨t₁, t₂, t₃, h₁, h₂, h₃, hall⟩
    refine .inl (Option.bind_eq_some_iff.2 ⟨t₁, h₁, ?_⟩)
    refine Option.bind_eq_some_iff.2 ⟨t₂, h₂, ?_⟩
    exact Option.bind_eq_some_iff.2 ⟨t₃, h₃, congrArg some hall⟩

/-- A marker line is what the pieces of a marker put together are. -/
theorem isMarker_iff {tag line : Text} : isMarker tag line = true ↔ MarkerLine tag line := by
  rw [isMarker_eq_true]
  constructor
  · rintro ⟨t₁, t₂, t₃, h₁, h₂, h₃, hall⟩
    obtain ⟨o, ho, hopening⟩ := exists_of_dropOne '{' (line.dropWhile isSpace)
    obtain ⟨c, hc, hclosing⟩ := exists_of_dropOne '}' t₃
    refine ⟨line.takeWhile isSpace, o, t₁.takeWhile isSpace, t₂.takeWhile isSpace, c, dropOne '}' t₃, ?_, hopening,
      hclosing, ?_⟩
    · calc line = line.takeWhile isSpace ++ (o ++ ("/*".toList ++ t₁)) := by
            rw [← strip?_eq_some h₁, ← ho, List.takeWhile_append_dropWhile]
        _ = line.takeWhile isSpace ++ (o ++ ("/*".toList ++ (t₁.takeWhile isSpace ++ ('@' :: tag ++ t₂)))) := by
            rw [← strip?_eq_some h₂, List.takeWhile_append_dropWhile]
        _ = line.takeWhile isSpace ++ (o ++ ("/*".toList ++ (t₁.takeWhile isSpace ++ ('@' :: tag ++
              (t₂.takeWhile isSpace ++ ("*/".toList ++ (c ++ dropOne '}' t₃))))))) := by
            rw [← hc, ← strip?_eq_some h₃, List.takeWhile_append_dropWhile]
        _ = _ := by simp only [List.append_assoc]
    · intro d hd
      simp only [List.mem_append] at hd
      rcases hd with ((hd | hd) | hd) | hd
      · exact List.mem_takeWhile_imp hd
      · exact List.mem_takeWhile_imp hd
      · exact List.mem_takeWhile_imp hd
      · exact List.all_eq_true.1 hall d hd
  · rintro ⟨indent, o, b, b', c, trail, rfl, ho, hc, hblank⟩
    simp only [List.mem_append] at hblank
    refine ⟨b ++ ('@' :: tag ++ (b' ++ ("*/".toList ++ (c ++ trail)))), b' ++ ("*/".toList ++ (c ++ trail)), c ++ trail,
      ?_, ?_, ?_, ?_⟩
    · have hhead : ∀ (t : Text) d, (o ++ ("/*".toList ++ t)).head? = some d → isSpace d = false := by
        rcases ho with rfl | rfl <;> · rintro t d ⟨⟩; rfl
      simp only [List.append_assoc]
      rw [dropWhile_blanks (fun d hd => hblank d (.inl (.inl (.inl hd)))) (hhead _), dropOne_append ho (by simp),
        strip?_append]
    · rw [dropWhile_blanks (fun d hd => hblank d (.inl (.inl (.inr hd)))) (by rintro d ⟨⟩; rfl), strip?_append]
    · rw [dropWhile_blanks (fun d hd => hblank d (.inl (.inr hd))) (by rintro d ⟨⟩; rfl), strip?_append]
    · have htrail : trail.head? ≠ some '}' := fun h =>
        absurd (hblank '}' (.inr (List.mem_of_mem_head? h))) (by decide)
      rw [dropOne_append hc htrail]
      exact List.all_eq_true.2 fun d hd => hblank d (.inr hd)

/-- Only the tag brings an `e` to a marker line. -/
theorem MarkerLine.count_eq {tag line : Text} (h : MarkerLine tag line) : line.count 'e' = tag.count 'e' := by
  obtain ⟨indent, o, b, b', c, trail, rfl, ho, hc, hblank⟩ := h
  have hnone : (indent ++ b ++ b' ++ trail).count 'e' = 0 :=
    List.count_eq_zero.2 fun hmem => absurd (hblank 'e' hmem) (by decide)
  have hopening : o.count 'e' = 0 := by rcases ho with rfl | rfl <;> rfl
  have hclosing : c.count 'e' = 0 := by rcases hc with rfl | rfl <;> rfl
  simp only [List.count_append] at hnone
  have hmarks : "/*".toList.count 'e' = 0 ∧ "*/".toList.count 'e' = 0 := by decide
  have hat : ('@' :: tag).count 'e' = tag.count 'e' := List.count_cons_of_ne (by decide)
  simp only [List.count_append]
  omega

/-- No line opens and closes a block: the marker that closes it has one `e` more. -/
theorem StartMarker.not_endMarker {tag line : Text} (h : StartMarker tag line) : ¬ EndMarker tag line := by
  intro hend
  have hstart : line.count 'e' = tag.count 'e' := MarkerLine.count_eq h
  have hmore : line.count 'e' = ("end-".toList ++ tag).count 'e' := MarkerLine.count_eq hend
  have hone : "end-".toList.count 'e' = 1 := by decide
  rw [List.count_append] at hmore
  omega

/-! ### Numbers of lines -/

/-- `kept` are the lines of `ls` whose numbers satisfy `keep`, in their order. -/
def Picks (keep : Nat → Prop) (ls kept : List Text) : Prop :=
  ∃ ns : List Nat, ns.Pairwise (· < ·) ∧ (∀ k, k ∈ ns ↔ k < ls.length ∧ keep k) ∧ ns.map (ls[·]?) = kept.map some

theorem picks_nil (keep : Nat → Prop) : Picks keep [] [] :=
  ⟨[], List.Pairwise.nil, fun k => by simp, rfl⟩

theorem Picks.congr {keep keep' : Nat → Prop} {ls kept : List Text} (h : Picks keep ls kept)
    (hkeep : ∀ k < ls.length, (keep k ↔ keep' k)) : Picks keep' ls kept := by
  obtain ⟨ns, hns, hmem, heq⟩ := h
  exact ⟨ns, hns, fun k => (hmem k).trans (and_congr_right (hkeep k)), heq⟩

/-- A line in front is kept or not, and the numbers of the others move up. -/
theorem Picks.cons {keep : Nat → Prop} {l : Text} {ls kept : List Text} (h : Picks (fun k => keep (k + 1)) ls kept) :
    (keep 0 → Picks keep (l :: ls) (l :: kept)) ∧ (¬ keep 0 → Picks keep (l :: ls) kept) := by
  obtain ⟨ns, hns, hmem, heq⟩ := h
  have hup : (ns.map (· + 1)).Pairwise (· < ·) := List.pairwise_map.2 (hns.imp fun hlt => Nat.succ_lt_succ hlt)
  have hup_mem : ∀ k, k + 1 ∈ ns.map (· + 1) ↔ k < ls.length ∧ keep (k + 1) := by
    intro k
    rw [← hmem k, List.mem_map]
    constructor
    · rintro ⟨n, hn, hnk⟩
      rwa [← Nat.succ.inj hnk]
    · intro hk
      exact ⟨k, hk, rfl⟩
  have hup_eq : (ns.map (· + 1)).map ((l :: ls)[·]?) = kept.map some := by
    rw [← heq, List.map_map]
    rfl
  constructor
  · intro h0
    refine ⟨0 :: ns.map (· + 1), List.pairwise_cons.2 ⟨?_, hup⟩, ?_, ?_⟩
    · intro k hk
      obtain ⟨n, -, rfl⟩ := List.mem_map.1 hk
      exact Nat.succ_pos n
    · intro k
      cases k with
      | zero => simp [h0]
      | succ k =>
        simp only [List.mem_cons, Nat.succ_ne_zero, false_or, hup_mem k, List.length_cons, Nat.succ_lt_succ_iff]
    · rw [List.map_cons, hup_eq]
      rfl
  · intro h0
    refine ⟨ns.map (· + 1), hup, ?_, hup_eq⟩
    intro k
    cases k with
    | zero => simp [h0]
    | succ k => rw [hup_mem k, List.length_cons, Nat.succ_lt_succ_iff]

/-- A filter keeps the numbers of the lines that pass. -/
theorem picks_filter (p : Text → Bool) (ls : List Text) :
    Picks (fun k => ∃ l ∈ ls[k]?, p l = true) ls (ls.filter p) := by
  induction ls with
  | nil => exact picks_nil _
  | cons l ls ih =>
    have hrest : Picks (fun k => ∃ l' ∈ (l :: ls)[k + 1]?, p l' = true) ls (ls.filter p) := ih
    by_cases hp : p l = true
    · rw [List.filter_cons_of_pos hp]
      exact hrest.cons.1 ⟨l, rfl, hp⟩
    · rw [List.filter_cons_of_neg hp]
      refine hrest.cons.2 ?_
      rintro ⟨l', hl', hp'⟩
      exact hp (Option.some.inj hl' ▸ hp')

theorem Picks.mem {keep : Nat → Prop} {ls kept : List Text} (h : Picks keep ls kept) {l : Text} (hl : l ∈ kept) :
    ∃ k, keep k ∧ l ∈ ls[k]? := by
  obtain ⟨ns, -, hmem, heq⟩ := h
  have hsome : some l ∈ ns.map (ls[·]?) := by
    rw [heq]
    exact List.mem_map_of_mem hl
  obtain ⟨k, hk, hkl⟩ := List.mem_map.1 hsome
  exact ⟨k, ((hmem k).1 hk).2, hkl⟩

/-! ### Blocks -/

/-- Line `k` opens a block. -/
def StartsAt (tag : Text) (ls : List Text) (k : Nat) : Prop := ∃ l ∈ ls[k]?, StartMarker tag l

/-- Line `k` closes a block. -/
def EndsAt (tag : Text) (ls : List Text) (k : Nat) : Prop := ∃ l ∈ ls[k]?, EndMarker tag l

/-- The lines `i` to `j` are a block.  It runs through the next end marker or the last line, and its own start marker is
in no block that opened before. -/
structure IsBlock (tag : Text) (ls : List Text) (i j : Nat) : Prop where
  starts : StartsAt tag ls i
  first : ∀ i' < i, StartsAt tag ls i' → ∃ n, i' < n ∧ n < i ∧ EndsAt tag ls n
  le : i ≤ j
  inner : ∀ n, i < n → n < j → ¬ EndsAt tag ls n
  ends : i < j ∧ EndsAt tag ls j ∨ j + 1 = ls.length

/-- Line `k` is in a block, where `inside` tells whether one goes on at line `0`. -/
def Covered (tag : Text) (inside : Prop) (ls : List Text) (k : Nat) : Prop :=
  (inside ∧ ∀ n < k, ¬ EndsAt tag ls n) ∨
    ∃ i ≤ k, StartsAt tag ls i ∧ ∀ n, i < n → n < k → ¬ EndsAt tag ls n

section
variable {tag l : Text} {ls : List Text} {inside : Prop}

theorem startsAt_cons_zero : StartsAt tag (l :: ls) 0 ↔ StartMarker tag l :=
  ⟨fun ⟨_, hl, h⟩ => Option.some.inj hl ▸ h, fun h => ⟨l, rfl, h⟩⟩

theorem endsAt_cons_zero : EndsAt tag (l :: ls) 0 ↔ EndMarker tag l :=
  ⟨fun ⟨_, hl, h⟩ => Option.some.inj hl ▸ h, fun h => ⟨l, rfl, h⟩⟩

theorem covered_cons_zero : Covered tag inside (l :: ls) 0 ↔ inside ∨ StartMarker tag l := by
  constructor
  · rintro (⟨h, -⟩ | ⟨i, hi, hstart, -⟩)
    · exact .inl h
    · obtain rfl : i = 0 := Nat.le_zero.1 hi
      exact .inr (startsAt_cons_zero.1 hstart)
  · rintro (h | h)
    · exact .inl ⟨h, fun n hn => absurd hn (Nat.not_lt_zero n)⟩
    · exact .inr ⟨0, le_rfl, startsAt_cons_zero.2 h, fun n _ hn => absurd hn (Nat.not_lt_zero n)⟩

/-- What the first line leaves behind for the next ones. -/
theorem covered_cons_succ {k : Nat} :
    Covered tag inside (l :: ls) (k + 1) ↔ Covered tag (StartMarker tag l ∨ inside ∧ ¬ EndMarker tag l) ls k := by
  constructor
  · rintro (⟨h, hends⟩ | ⟨i, hi, hstart, hends⟩)
    · have hl : ¬ EndMarker tag l := fun hend => hends 0 (Nat.succ_pos k) (endsAt_cons_zero.2 hend)
      exact .inl ⟨.inr ⟨h, hl⟩, fun n hn => hends (n + 1) (Nat.succ_lt_succ hn)⟩
    · cases i with
      | zero =>
        exact .inl ⟨.inl (startsAt_cons_zero.1 hstart),
          fun n hn => hends (n + 1) (Nat.succ_pos n) (Nat.succ_lt_succ hn)⟩
      | succ i =>
        exact .inr ⟨i, Nat.le_of_succ_le_succ hi, hstart,
          fun n hin hnk => hends (n + 1) (Nat.succ_lt_succ hin) (Nat.succ_lt_succ hnk)⟩
  · rintro (⟨hl | ⟨h, hl⟩, hends⟩ | ⟨i, hi, hstart, hends⟩)
    · refine .inr ⟨0, Nat.zero_le _, startsAt_cons_zero.2 hl, ?_⟩
      intro n hn hnk
      obtain ⟨m, rfl⟩ := Nat.exists_eq_add_one_of_ne_zero (Nat.ne_of_gt hn)
      exact hends m (Nat.lt_of_succ_lt_succ hnk)
    · refine .inl ⟨h, ?_⟩
      intro n hn
      cases n with
      | zero => exact fun hend => hl (endsAt_cons_zero.1 hend)
      | succ n => exact hends n (Nat.lt_of_succ_lt_succ hn)
    · refine .inr ⟨i + 1, Nat.succ_le_succ hi, hstart, ?_⟩
      intro n hin hnk
      obtain ⟨m, rfl⟩ := Nat.exists_eq_add_one_of_ne_zero (Nat.ne_of_gt (Nat.lt_of_le_of_lt (Nat.zero_le _) hin))
      exact hends m (Nat.lt_of_succ_lt_succ hin) (Nat.lt_of_succ_lt_succ hnk)

end

/-- The lines in blocks are those with a start marker before them or at them, behind which no block ends before them. -/
theorem exists_isBlock_iff {tag : Text} {ls : List Text} {k : Nat} (hk : k < ls.length) :
    (∃ i j, IsBlock tag ls i j ∧ i ≤ k ∧ k ≤ j) ↔ Covered tag False ls k := by
  constructor
  · rintro ⟨i, j, hblock, hik, hkj⟩
    exact .inr ⟨i, hik, hblock.starts, fun n hin hnk => hblock.inner n hin (by omega)⟩
  · rintro (⟨h, -⟩ | hopen)
    · exact h.elim
    · classical
      -- The first such start marker is in no block that opened before.
      have hi := Nat.find_spec hopen
      have hleast : ∀ i' < Nat.find hopen, ¬ _ := fun i' => Nat.find_min hopen
      generalize Nat.find hopen = i at hi hleast
      obtain ⟨hik, hstart, hopen'⟩ := hi
      have hfirst : ∀ i' < i, StartsAt tag ls i' → ∃ n, i' < n ∧ n < i ∧ EndsAt tag ls n := by
        intro i' hi' hstart'
        by_contra hnone
        refine hleast i' hi' ⟨by omega, hstart', ?_⟩
        intro n hn hnk hend
        rcases Nat.lt_trichotomy n i with hlt | rfl | hgt
        · exact hnone ⟨n, hn, hlt, hend⟩
        · obtain ⟨l, hl, hstartl⟩ := hstart
          obtain ⟨l', hl', hendl⟩ := hend
          obtain rfl : l = l' := Option.mem_unique hl hl'
          exact hstartl.not_endMarker hendl
        · exact hopen' n hgt hnk hend
      by_cases hends : ∃ j, i < j ∧ EndsAt tag ls j
      · -- The first end marker behind it closes the block, and line `k` does not stand behind that.
        have hj := Nat.find_spec hends
        have hbefore : ∀ n < Nat.find hends, ¬ _ := fun n => Nat.find_min hends
        generalize Nat.find hends = j at hj hbefore
        have hkj : k ≤ j := by
          by_contra hlt
          exact hopen' j hj.1 (by omega) hj.2
        exact ⟨i, j, ⟨hstart, hfirst, by omega, fun n hin hnj hend => hbefore n hnj ⟨hin, hend⟩, .inl hj⟩, hik, hkj⟩
      · refine ⟨i, ls.length - 1, ⟨hstart, hfirst, by omega, ?_, .inr (by omega)⟩, hik, by omega⟩
        intro n hin _ hend
        exact hends ⟨n, hin, hend⟩

/-! ### The walk -/

/-- The walk keeps the lines that are in no block. -/
theorem picks_outside (tag : Text) (inside : Bool) (ls : List Text) :
    Picks (fun k => ¬ Covered tag (inside = true) ls k) ls (outside tag inside ls) := by
  induction ls generalizing inside with
  | nil => exact picks_nil _
  | cons l ls ih =>
    -- What the next lines see of the first one is the bit it leaves.
    have hnext : ∀ b : Bool, (b = true ↔ StartMarker tag l ∨ inside = true ∧ ¬ EndMarker tag l) →
        Picks (fun k => ¬ Covered tag (inside = true) (l :: ls) (k + 1)) ls (outside tag b ls) := by
      intro b hb
      refine (ih b).congr fun k _ => ?_
      rw [covered_cons_succ, hb]
    rw [outside]
    by_cases hstart : isStart tag l = true
    · have hl : StartMarker tag l := isMarker_iff.1 hstart
      rw [if_pos hstart]
      refine (hnext true (by simp [hl])).cons.2 ?_
      rw [not_not, covered_cons_zero]
      exact .inr hl
    · have hl : ¬ StartMarker tag l := fun h => hstart (isMarker_iff.2 h)
      rw [if_neg hstart]
      cases inside with
      | true =>
        have hbit : (!isEnd tag l) = true ↔ ¬ EndMarker tag l := by
          rw [Bool.not_eq_true', ← Bool.not_eq_true]
          exact not_congr isMarker_iff
        rw [if_pos rfl]
        refine (hnext _ (by simp [hl, hbit])).cons.2 ?_
        rw [not_not, covered_cons_zero]
        exact .inl rfl
      | false =>
        rw [if_neg Bool.false_ne_true]
        refine (hnext false (by simp [hl])).cons.1 ?_
        rw [covered_cons_zero]
        simp [hl]

/-- The filter of the marker lines keeps the lines that are none. -/
theorem picks_unmarked (tag : Text) (ls : List Text) :
    Picks (fun k => ¬ StartsAt tag ls k ∧ ¬ EndsAt tag ls k) ls
      (ls.filter fun l => !isStart tag l && !isEnd tag l) := by
  refine (picks_filter _ ls).congr fun k hk => ?_
  have hline : ls[k]? = some ls[k] := List.getElem?_eq_getElem hk
  simp only [StartsAt, EndsAt, hline, Option.mem_some_iff, exists_eq_left', StartMarker, EndMarker, ← isMarker_iff]
  simp [isStart, isEnd]

/-- Without start markers nothing is removed. -/
theorem outside_eq_self {tag : Text} {ls : List Text} (h : ∀ l ∈ ls, ¬ StartMarker tag l) :
    outside tag false ls = ls := by
  induction ls with
  | nil => rfl
  | cons l ls ih =>
    obtain ⟨hl, hls⟩ := List.forall_mem_cons.1 h
    have hstart : ¬ isStart tag l = true := fun hmark => hl (isMarker_iff.1 hmark)
    rw [outside, if_neg hstart, if_neg Bool.false_ne_true, ih hls]

/-- A line that is kept opens no block. -/
theorem not_startMarker_of_mem_outside {tag l : Text} {ls : List Text} (h : l ∈ outside tag false ls) :
    ¬ StartMarker tag l := by
  obtain ⟨k, hk, hl⟩ := (picks_outside tag false ls).mem h
  intro hstart
  exact hk (.inr ⟨k, le_rfl, ⟨l, hl, hstart⟩, fun n hkn hnk => absurd (hkn.trans hnk) (lt_irrefl k)⟩)

/-! ### Texts -/

/-- The empty line is no marker. -/
theorem not_markerLine_nil (tag : Text) : ¬ MarkerLine tag [] := by
  rintro ⟨indent, o, b, b', c, trail, h, -⟩
  have hlength := congrArg List.length h
  simp at hlength

/-- `u` is put together from the lines of `t` whose numbers satisfy `keep`.  These are its lines, unless there are none:
then it is empty. -/
def KeepsLines (keep : Nat → Prop) (t u : Text) : Prop :=
  ∃ kept, Picks keep (splitOn '\n' t) kept ∧ u = join ['\n'] kept ∧ (kept ≠ [] → splitOn '\n' u = kept)

/-- The lines of a text that was put together from some of the lines of another are those. -/
theorem splitOn_onLines {g : List Text → List Text} {keep : Nat → Prop} {t : Text}
    (h : Picks keep (splitOn '\n' t) (g (splitOn '\n' t))) (hne : g (splitOn '\n' t) ≠ []) :
    splitOn '\n' (onLines g t) = g (splitOn '\n' t) := by
  refine splitOn_join hne fun l hl => ?_
  obtain ⟨k, -, hk⟩ := h.mem hl
  exact not_mem_of_mem_splitOn (List.mem_of_getElem? hk)

theorem keepsLines_onLines {g : List Text → List Text} {keep : Nat → Prop} {t : Text}
    (h : Picks keep (splitOn '\n' t) (g (splitOn '\n' t))) : KeepsLines keep t (onLines g t) :=
  ⟨g (splitOn '\n' t), h, rfl, splitOn_onLines h⟩

/-- A change of the lines that leaves alone what is kept, and the one line of the empty text, does nothing more. -/
theorem onLines_onLines {g g' : List Text → List Text} {keep : Nat → Prop} {t : Text}
    (h : Picks keep (splitOn '\n' t) (g (splitOn '\n' t))) (hnil : g' [[]] = [[]])
    (hself : g' (g (splitOn '\n' t)) = g (splitOn '\n' t)) : onLines g' (onLines g t) = onLines g t := by
  by_cases hne : g (splitOn '\n' t) = []
  · rw [onLines, onLines, hne]
    show join ['\n'] (g' [[]]) = []
    rw [hnil]
    rfl
  · rw [onLines, splitOn_onLines h hne, hself]
    rfl

/-- Removing the blocks of a tag keeps the lines that are in no block, and stripping the marker lines of a tag keeps the
lines that are none.  Neither leaves anything to do for itself, and stripping leaves nothing to remove. -/
theorem removeBlock_stripBlock_spec (tag t : Text) :
    KeepsLines (fun k => ¬ ∃ i j, IsBlock tag (splitOn '\n' t) i j ∧ i ≤ k ∧ k ≤ j) t (removeBlock tag t) ∧
      KeepsLines (fun k => ¬ StartsAt tag (splitOn '\n' t) k ∧ ¬ EndsAt tag (splitOn '\n' t) k) t (stripBlock tag t) ∧
      removeBlock tag (removeBlock tag t) = removeBlock tag t ∧
      stripBlock tag (stripBlock tag t) = stripBlock tag t ∧
      removeBlock tag (stripBlock tag t) = stripBlock tag t := by
  have hremove := picks_outside tag false (splitOn '\n' t)
  have hstrip := picks_unmarked tag (splitOn '\n' t)
  have hempty : outside tag false [[]] = [[]] :=
    outside_eq_self fun l hl => by rw [List.mem_singleton.1 hl]; exact not_markerLine_nil tag
  refine ⟨keepsLines_onLines (hremove.congr fun k hk => ?_), keepsLines_onLines hstrip, ?_, ?_, ?_⟩
  · rw [exists_isBlock_iff hk, Bool.false_eq_true]
  · exact onLines_onLines hremove hempty (outside_eq_self fun l hl => not_startMarker_of_mem_outside hl)
  · refine onLines_onLines hstrip ?_ ?_
    · have hmark : ∀ tag, isMarker tag [] = false := fun tag =>
        Bool.eq_false_iff.2 fun h => not_markerLine_nil tag (isMarker_iff.1 h)
      rw [List.filter_cons_of_pos (by rw [isStart, isEnd, hmark, hmark]; rfl), List.filter_nil]
    · rw [List.filter_filter]
      simp only [Bool.and_self]
  · refine onLines_onLines hstrip hempty (outside_eq_self fun l hl hstart => ?_)
    have hmark : isStart tag l = true := isMarker_iff.2 hstart
    simp [hmark] at hl

/-! ### Lines that set a variable -/

/-- The line that sets a variable. -/
def assignment (key value : Text) : Text := key ++ ['='] ++ value

/-- The line sets the variable. -/
def sets (key line : Text) : Bool := line.startsWith (key ++ ['='])

/-- The lines with a variable set. -/
def setLines (key value : Text) (ls : List Text) : List Text :=
  if ls.any (sets key) then ls.map fun l => if sets key l then assignment key value else l
  else ls ++ [assignment key value]

theorem sets_assignment (key value : Text) : sets key (assignment key value) = true :=
  startsWith_iff.2 (List.prefix_append _ _)

/-- A line sets one variable at most, for keys without equals signs. -/
theorem eq_of_sets {key key' l : Text} (hkey : '=' ∉ key) (hkey' : '=' ∉ key') (h : sets key l = true)
    (h' : sets key' l = true) : key = key' := by
  -- The key is what stands before the first equals sign.
  have hread : ∀ k : Text, '=' ∉ k → sets k l = true → l.takeWhile (· ≠ '=') = k := by
    intro k hk hl
    obtain ⟨u, rfl⟩ := exists_of_startsWith hl
    have hall : ∀ c ∈ k, decide (c ≠ '=') = true := by
      intro c hc
      simp only [decide_eq_true_eq]
      rintro rfl
      exact hk hc
    rw [List.append_assoc, List.takeWhile_append_of_pos hall]
    simp
  rw [← hread key hkey h, hread key' hkey' h']

theorem not_mem_assignment {key value : Text} (hkey : '\n' ∉ key) (hvalue : '\n' ∉ value) :
    '\n' ∉ assignment key value := by
  simp [assignment, hkey, hvalue]

/-! ### Setting on lines -/

section
variable {key value key' value' : Text} {ls : List Text}

theorem setLines_of_sets (h : ∃ l ∈ ls, sets key l = true) :
    setLines key value ls = ls.map fun l => if sets key l then assignment key value else l :=
  if_pos (List.any_eq_true.2 h)

theorem setLines_of_not_sets (h : ¬ ∃ l ∈ ls, sets key l = true) :
    setLines key value ls = ls ++ [assignment key value] :=
  if_neg fun hany => h (List.any_eq_true.1 hany)

/-- A line that was set, or one that was there and sets another variable or none. -/
theorem mem_setLines {l : Text} (h : l ∈ setLines key value ls) :
    l = assignment key value ∨ l ∈ ls ∧ sets key l = false := by
  by_cases hsets : ∃ l ∈ ls, sets key l = true
  · rw [setLines_of_sets hsets] at h
    obtain ⟨l', hl', rfl⟩ := List.mem_map.1 h
    by_cases hl : sets key l' = true
    · exact .inl (if_pos hl)
    · rw [if_neg hl]
      exact .inr ⟨hl', Bool.eq_false_iff.2 hl⟩
  · rw [setLines_of_not_sets hsets] at h
    rcases List.mem_append.1 h with hl | hl
    · exact .inr ⟨hl, Bool.eq_false_iff.2 fun hl' => hsets ⟨l, hl, hl'⟩⟩
    · exact .inl (List.mem_singleton.1 hl)

theorem assignment_mem_setLines (key value : Text) (ls : List Text) : assignment key value ∈ setLines key value ls := by
  by_cases hsets : ∃ l ∈ ls, sets key l = true
  · obtain ⟨l, hl, hlsets⟩ := hsets
    rw [setLines_of_sets ⟨l, hl, hlsets⟩]
    exact List.mem_map.2 ⟨l, hl, if_pos hlsets⟩
  · rw [setLines_of_not_sets hsets]
    exact List.mem_append_right _ (List.mem_singleton_self _)

theorem eq_assignment_of_mem {l : Text} (h : l ∈ setLines key value ls) (hl : sets key l = true) :
    l = assignment key value := by
  rcases mem_setLines h with heq | ⟨-, hnot⟩
  · exact heq
  · rw [hl] at hnot
    exact absurd hnot.symm Bool.false_ne_true

/-- The other lines stay. -/
theorem filter_setLines : (setLines key value ls).filter (fun l => !sets key l) = ls.filter (fun l => !sets key l) := by
  by_cases hsets : ∃ l ∈ ls, sets key l = true
  · rw [setLines_of_sets hsets]
    clear hsets
    induction ls with
    | nil => rfl
    | cons l ls ih =>
      rw [List.map_cons]
      by_cases hl : sets key l = true
      · rw [if_pos hl, List.filter_cons_of_neg (by simp [sets_assignment]), List.filter_cons_of_neg (by simp [hl]), ih]
      · rw [if_neg hl, List.filter_cons_of_pos (by simp [hl]), List.filter_cons_of_pos (by simp [hl]), ih]
  · rw [setLines_of_not_sets hsets, List.filter_append, List.filter_cons_of_neg (by simp [sets_assignment]),
      List.filter_nil, List.append_nil]

/-- A variable that is set again has its last value, where it was put the first time. -/
theorem setLines_setLines (key value other : Text) (ls : List Text) :
    setLines key other (setLines key value ls) = setLines key other ls := by
  rw [setLines_of_sets ⟨_, assignment_mem_setLines key value ls, sets_assignment key value⟩]
  by_cases hsets : ∃ l ∈ ls, sets key l = true
  · rw [setLines_of_sets hsets, setLines_of_sets hsets, List.map_map]
    refine List.map_congr_left fun l _ => ?_
    by_cases hl : sets key l = true
    · simp [hl, sets_assignment]
    · simp [hl]
  · have hself : ls.map (fun l => if sets key l then assignment key other else l) = ls := by
      refine (List.map_congr_left fun l hl => if_neg fun hl' => hsets ⟨l, hl, hl'⟩).trans ?_
      exact List.map_id' ls
    rw [setLines_of_not_sets hsets, setLines_of_not_sets hsets, List.map_append, hself, List.map_singleton,
      if_pos (sets_assignment key value)]

/-! Two variables are apart when no line sets both. -/

theorem exists_sets_setLines (hapart : ∀ l, sets key l = true → ¬ sets key' l = true) :
    (∃ l ∈ setLines key' value' ls, sets key l = true) ↔ ∃ l ∈ ls, sets key l = true := by
  constructor
  · rintro ⟨l, hl, hsets⟩
    rcases mem_setLines hl with rfl | ⟨hmem, -⟩
    · exact absurd (sets_assignment key' value') (hapart _ hsets)
    · exact ⟨l, hmem, hsets⟩
  · rintro ⟨l, hl, hsets⟩
    have hmem : l ∈ (setLines key' value' ls).filter fun l => !sets key' l := by
      rw [filter_setLines]
      exact List.mem_filter.2 ⟨hl, by simpa using hapart l hsets⟩
    exact ⟨l, (List.mem_filter.1 hmem).1, hsets⟩

/-- A variable that is there stays where it is, and one that is not goes behind the lines. -/
theorem setLines_comm_of_not_sets (hapart : ∀ l, sets key l = true → ¬ sets key' l = true)
    (h : ∃ l ∈ ls, sets key l = true) (h' : ¬ ∃ l ∈ ls, sets key' l = true) :
    setLines key value (setLines key' value' ls) = setLines key' value' (setLines key value ls) := by
  have hnew : ¬ sets key (assignment key' value') = true := fun hsets => hapart _ hsets (sets_assignment key' value')
  have habsent : ¬ ∃ l ∈ setLines key value ls, sets key' l = true := fun hsets =>
    h' ((exists_sets_setLines fun l hl' hl => hapart l hl hl').1 hsets)
  rw [setLines_of_sets ((exists_sets_setLines hapart).2 h), setLines_of_not_sets h', setLines_of_not_sets habsent,
    setLines_of_sets h, List.map_append, List.map_singleton, if_neg hnew]

/-- Two variables are set in either order, unless both of them are new. -/
theorem setLines_comm_iff (hapart : ∀ l, sets key l = true → ¬ sets key' l = true) :
    setLines key value (setLines key' value' ls) = setLines key' value' (setLines key value ls) ↔
      (∃ l ∈ ls, sets key l = true) ∨ ∃ l ∈ ls, sets key' l = true := by
  have hapart' : ∀ l, sets key' l = true → ¬ sets key l = true := fun l hl' hl => hapart l hl hl'
  by_cases h : ∃ l ∈ ls, sets key l = true
  · refine iff_of_true ?_ (.inl h)
    by_cases h' : ∃ l ∈ ls, sets key' l = true
    · rw [setLines_of_sets ((exists_sets_setLines hapart).2 h), setLines_of_sets h',
        setLines_of_sets ((exists_sets_setLines hapart').2 h'), setLines_of_sets h, List.map_map, List.map_map]
      refine List.map_congr_left fun l _ => ?_
      have hnew : ¬ sets key (assignment key' value') = true := hapart' _ (sets_assignment key' value')
      have hnew' : ¬ sets key' (assignment key value) = true := hapart _ (sets_assignment key value)
      by_cases hl : sets key l = true
      · simp [hl, hapart l hl, hnew']
      · by_cases hl' : sets key' l = true
        · simp [hl, hl', hnew]
        · simp [hl, hl']
    · exact setLines_comm_of_not_sets hapart h h'
  · by_cases h' : ∃ l ∈ ls, sets key' l = true
    · exact iff_of_true (setLines_comm_of_not_sets hapart' h' h).symm (.inr h')
    · refine iff_of_false (fun heq => ?_) (not_or.2 ⟨h, h'⟩)
      -- The last line is the one of the variable that was set last.
      rw [setLines_of_not_sets (mt (exists_sets_setLines hapart).1 h), setLines_of_not_sets h',
        setLines_of_not_sets (mt (exists_sets_setLines hapart').1 h'), setLines_of_not_sets h] at heq
      have hlast : assignment key value = assignment key' value' := by simpa using congrArg List.getLast? heq
      exact hapart _ (sets_assignment key value) (hlast ▸ sets_assignment key' value')

end

/-! ### Texts and their lines -/

/-- Setting a variable in a text is setting it on its lines. -/
theorem setVariable_eq (key value t : Text) : setVariable key value t = onLines (setLines key value) t := by
  rw [onLines, setLines]
  by_cases hset : (splitOn '\n' t).any (sets key) = true
  · rw [if_pos hset]
    exact if_pos hset
  · rw [if_neg hset, join_concat _ (splitOn_ne_nil _ _), join_splitOn, List.append_assoc]
    exact if_neg hset

/-- The lines of a text with a variable set. -/
theorem splitOn_setVariable {key value : Text} (hkey : '\n' ∉ key) (hvalue : '\n' ∉ value) (t : Text) :
    splitOn '\n' (setVariable key value t) = setLines key value (splitOn '\n' t) := by
  rw [setVariable_eq]
  refine splitOn_join (List.ne_nil_of_mem (assignment_mem_setLines _ _ _)) fun l hl => ?_
  rcases mem_setLines hl with rfl | ⟨hmem, -⟩
  · exact not_mem_assignment hkey hvalue
  · exact not_mem_of_mem_splitOn hmem

/-- What setting a variable makes of lines: all that set the variable become one and the same line, where they are; a
new line is the last one; the others stay as they are. -/
structure VariableSet (key value : Text) (ls ls' : List Text) : Prop where
  present : ∃ l ∈ ls', sets key l = true
  unique : ∀ l ∈ ls', sets key l = true → l = assignment key value
  others : ls'.filter (fun l => !sets key l) = ls.filter (fun l => !sets key l)
  replaced : (∃ l ∈ ls, sets key l = true) →
    ∀ i : Nat, ls'[i]? = ls[i]?.map fun l => if sets key l then assignment key value else l
  appended : (¬ ∃ l ∈ ls, sets key l = true) → ls' = ls ++ [assignment key value]

theorem variableSet_setLines (key value : Text) (ls : List Text) :
    VariableSet key value ls (setLines key value ls) where
  present := ⟨_, assignment_mem_setLines key value ls, sets_assignment key value⟩
  unique := fun _ hl hsets => eq_assignment_of_mem hl hsets
  others := filter_setLines
  replaced := fun h i => by rw [setLines_of_sets h, List.getElem?_map]
  appended := fun h => setLines_of_not_sets h

/-- A variable that is set in a text is read back, and nothing else changes.  Setting it again overwrites it, with no
trace of the value before.  Two variables can be set in either order, unless both of them are new. -/
theorem setVariable_spec {key value : Text} (hkey : '\n' ∉ key) (hvalue : '\n' ∉ value) (t : Text) :
    VariableSet key value (splitOn '\n' t) (splitOn '\n' (setVariable key value t)) ∧
      setVariable key value (setVariable key value t) = setVariable key value t ∧
      (∀ other, '\n' ∉ other → setVariable key other (setVariable key value t) = setVariable key other t) ∧
      ∀ key' value', '\n' ∉ key' → '\n' ∉ value' → key ≠ key' → '=' ∉ key → '=' ∉ key' →
        (setVariable key value (setVariable key' value' t) = setVariable key' value' (setVariable key value t) ↔
          (∃ l ∈ splitOn '\n' t, sets key l = true) ∨ ∃ l ∈ splitOn '\n' t, sets key' l = true) := by
  -- What is set twice is put together from lines that were set twice.
  have htwice : ∀ {k v : Text}, '\n' ∉ k → '\n' ∉ v → ∀ k' v', setVariable k' v' (setVariable k v t) =
      join ['\n'] (setLines k' v' (setLines k v (splitOn '\n' t))) := by
    intro k v hk hv k' v'
    rw [setVariable_eq k' v', onLines, splitOn_setVariable hk hv]
  have hover : ∀ other, setVariable key other (setVariable key value t) = setVariable key other t := by
    intro other
    rw [htwice hkey hvalue, setLines_setLines, setVariable_eq key other, onLines]
  refine ⟨?_, hover value, fun other _ => hover other, ?_⟩
  · rw [splitOn_setVariable hkey hvalue]
    exact variableSet_setLines key value _
  · intro key' value' hkey' hvalue' hne heq heq'
    have hapart : ∀ l, sets key l = true → ¬ sets key' l = true := fun l hl hl' => hne (eq_of_sets heq heq' hl hl')
    rw [← setLines_comm_iff hapart]
    constructor
    · intro h
      have hlines := congrArg (splitOn '\n') h
      rwa [splitOn_setVariable hkey hvalue, splitOn_setVariable hkey' hvalue', splitOn_setVariable hkey' hvalue',
        splitOn_setVariable hkey hvalue] at hlines
    · intro h
      rw [htwice hkey' hvalue', htwice hkey hvalue, h]

/-- A key that stands on two lines, beside a longer one that begins with it, and another key that is new. -/
theorem setVariable_spec_repeated :
    let t := "APP=\nAPPS=x\nAPP=y".toList
    VariableSet "APP".toList "1".toList ["APP=".toList, "APPS=x".toList, "APP=y".toList]
        ["APP=1".toList, "APPS=x".toList, "APP=1".toList] ∧
      setVariable "APP".toList "1".toList (setVariable "DB".toList "2".toList t) =
        setVariable "DB".toList "2".toList (setVariable "APP".toList "1".toList t) := by
  intro t
  have hkey : '\n' ∉ "APP".toList := by decide
  have hvalue : '\n' ∉ "1".toList := by decide
  obtain ⟨hset, -, -, hcomm⟩ := setVariable_spec hkey hvalue t
  have hold : splitOn '\n' t = ["APP=".toList, "APPS=x".toList, "APP=y".toList] := by decide
  have hnew : splitOn '\n' (setVariable "APP".toList "1".toList t) =
      ["APP=1".toList, "APPS=x".toList, "APP=1".toList] := by decide
  refine ⟨by rwa [hold, hnew] at hset, ?_⟩
  refine (hcomm "DB".toList "2".toList (by decide) (by decide) (by decide) (by decide) (by decide)).2 (.inl ?_)
  exact ⟨"APP=".toList, by decide, by decide⟩

end Graft.Lines
