/-
Where block comments and heredocs end.

A block comment ends with the first closing mark behind its opener.  A heredoc needs an opening line, and it ends on the
first later line that closes it: blanks and the label of the opening line, behind which no name goes on.  When there is no
such mark or line, nothing is found.  What stands before the end decides that no earlier place closes them, so that another
text behind the end changes nothing; only a label must not go on there.

* `BlockComment.extent?_append` — comments before another text;
* `Heredoc.opening?_append`, `Heredoc.closing?_append` — the first and the last line of a heredoc;
* `Heredoc.extent?_append` — heredocs before another text;
* `Text.le_of_locate?`, `Text.not_infix_of_locate?` — the first place of a part, and none;
* `BlockComment.IsExtent` — what a comment holds behind its opener;
* `Heredoc.ClosingLine`, `Heredoc.exists_closingLine`, `Heredoc.not_closingLine` — the first line that closes a heredoc,
  and none;
* `Heredoc.IsExtent`, `Heredoc.IsClosed` — what a heredoc holds behind its opener, and whether it is one;
* `Heredoc.extent?_eq_some_iff`, `Heredoc.exists_extent?_iff` — both decide what is found.
-/
import Graft.Proofs.Token.Front

namespace Graft

/-! ### Searching -/

namespace Text

/-- A part that ends within the first text is found there, whatever follows. -/
theorem locate?_append {p u w w' : Text} {n : Nat} (h : locate? p (u ++ w) = some n) (hn : n + p.length ≤ u.length) :
    locate? p (u ++ w') = some n := by
  induction u generalizing n with
  | nil =>
    rw [List.length_nil, Nat.le_zero, Nat.add_eq_zero_iff] at hn
    obtain rfl : p = [] := List.length_eq_zero_iff.1 hn.2
    rw [hn.1]
    cases w' <;> rfl
  | cons c u ih =>
    rw [List.cons_append, locate?] at h ⊢
    by_cases hstart : p <+: c :: (u ++ w)
    · rw [if_pos (startsWith_iff.2 hstart)] at h
      cases h
      have hwithin : p <+: c :: u := List.prefix_of_prefix_length_le hstart (List.prefix_append (c :: u) w) (by omega)
      have hstart' : p <+: c :: (u ++ w') := hwithin.trans (List.prefix_append (c :: u) w')
      rw [if_pos (startsWith_iff.2 hstart')]
    · rw [if_neg fun hs => hstart (startsWith_iff.1 hs)] at h
      obtain ⟨m, hm, rfl⟩ := Option.map_eq_some_iff.1 h
      have hm' : m + p.length ≤ u.length := by
        rw [List.length_cons] at hn
        omega
      have hlater : ¬ p <+: c :: (u ++ w') := by
        intro hstart'
        refine hstart ((List.prefix_of_prefix_length_le hstart' (List.prefix_append (c :: u) w') ?_).trans
          (List.prefix_append (c :: u) w))
        rw [List.length_cons]
        omega
      rw [if_neg fun hs => hlater (startsWith_iff.1 hs), ih hm hm']
      rfl

end Text

/-! ### Block comments -/

theorem BlockComment.extent?_append {u w w' : Text} (h : extent? (u ++ w) = some u.length) :
    extent? (u ++ w') = some u.length := by
  obtain ⟨n, hn, hlength⟩ := Option.map_eq_some_iff.1 h
  rw [extent?, Text.locate?_append hn (Nat.le_of_eq hlength), ← hlength]
  rfl

/-! ### Heredocs -/

namespace Heredoc

open TokenTable (isLabelPart)

/-- A label neither begins with a quote nor with a blank. -/
theorem ne_of_isLabelPart {c : Char} (h : isLabelPart c = true) : c ≠ '\'' ∧ c ≠ '"' ∧ Text.isIndent c = false := by
  refine ⟨?_, ?_, ?_⟩
  · rintro rfl
    exact absurd h (by decide)
  · rintro rfl
    exact absurd h (by decide)
  · cases hc : Text.isIndent c with
    | false => rfl
    | true =>
      rw [Text.isIndent, Bool.or_eq_true, beq_iff_eq, beq_iff_eq] at hc
      rcases hc with rfl | rfl
      · exact absurd h (by decide)
      · exact absurd h (by decide)

theorem takeWhile_append_stop {p : Char → Bool} {s t : Text} (hs : ∀ c ∈ s, p c = true) (ht : t.head?.any p = false) :
    (s ++ t).takeWhile p = s ∧ (s ++ t).dropWhile p = t := by
  rw [List.takeWhile_append_of_pos hs, List.dropWhile_append_of_pos hs]
  cases t with
  | nil => exact ⟨List.append_nil s, rfl⟩
  | cons c t =>
    have hc : p c = false := ht
    rw [List.takeWhile_cons_of_neg (by rw [hc]; exact Bool.false_ne_true),
      List.dropWhile_cons_of_neg (by rw [hc]; exact Bool.false_ne_true), List.append_nil]
    exact ⟨rfl, rfl⟩

/-- An opening line: blanks, a label in quotes or in none, and a line break. -/
structure Opening (blanks quote label break_ : Text) : Prop where
  blanks : ∀ c ∈ blanks, Text.isIndent c = true
  quote : quote = [] ∨ quote = ['\''] ∨ quote = ['"']
  ne_nil : label ≠ []
  label : ∀ c ∈ label, isLabelPart c = true
  break_ : break_ = ['\n'] ∨ break_ = ['\r', '\n']

/-- The number of characters of an opening line. -/
def Opening.length (blanks quote label break_ : Text) : Nat :=
  blanks.length + 2 * quote.length + label.length + break_.length

/-- An opening line is recognized, whatever follows. -/
theorem Opening.opening? {blanks quote label break_ : Text} (h : Opening blanks quote label break_) (rest : Text) :
    Heredoc.opening? (blanks ++ (quote ++ (label ++ (quote ++ (break_ ++ rest))))) =
      some (label, Opening.length blanks quote label break_) := by
  obtain ⟨hblanks, hquote, hne, hlabel, hbreak⟩ := h
  obtain ⟨c, name, rfl⟩ := List.exists_cons_of_ne_nil hne
  have hc := ne_of_isLabelPart (hlabel c List.mem_cons_self)
  have hindent : (quote ++ (c :: name ++ (quote ++ (break_ ++ rest)))).head?.any Text.isIndent = false := by
    rcases hquote with rfl | rfl | rfl
    · exact hc.2.2
    · rfl
    · rfl
  obtain ⟨htake, hdrop⟩ := takeWhile_append_stop hblanks hindent
  have hstop : (quote ++ (break_ ++ rest)).head?.any isLabelPart = false := by
    rcases hquote with rfl | rfl | rfl
    · rcases hbreak with rfl | rfl
      · exact (by decide : isLabelPart '\n' = false)
      · exact (by decide : isLabelPart '\r' = false)
    · exact (by decide : isLabelPart '\'' = false)
    · exact (by decide : isLabelPart '"' = false)
  obtain ⟨hname, hafter⟩ := takeWhile_append_stop hlabel hstop
  unfold Heredoc.opening?
  simp only [htake, hdrop]
  -- The quote is told by the first character behind the blanks.
  rcases hquote with rfl | rfl | rfl
  · split
    · rename_i heq
      exact absurd (List.cons.inj heq).1 hc.1
    · rename_i heq
      exact absurd (List.cons.inj heq).1 hc.2.1
    · simp only [List.nil_append] at hname hafter ⊢
      simp only [hname, hafter]
      rcases hbreak with rfl | rfl <;> rfl
  · simp only [List.singleton_append] at hname hafter ⊢
    simp only [hname, hafter]
    rcases hbreak with rfl | rfl <;> rfl
  · simp only [List.singleton_append] at hname hafter ⊢
    simp only [hname, hafter]
    rcases hbreak with rfl | rfl <;> rfl

/-- What is recognized is an opening line. -/
theorem exists_opening {t label : Text} {n : Nat} (h : opening? t = some (label, n)) :
    ∃ blanks quote break_ rest, Opening blanks quote label break_ ∧
      t = blanks ++ (quote ++ (label ++ (quote ++ (break_ ++ rest)))) ∧ n = Opening.length blanks quote label break_ := by
  unfold opening? at h
  extract_lets blanks line at h
  split at h
  rename_i q r hpair
  have hquote : line = q ++ r ∧ (q = [] ∨ q = ['\''] ∨ q = ['"']) := by
    clear_value line
    split at hpair <;> cases hpair <;> simp
  extract_lets name after at h
  split at h
  · cases h
  rename_i hne
  have hopening : ∀ break_ rest, break_ = ['\n'] ∨ break_ = ['\r', '\n'] →
      Text.strip? q after = some (break_ ++ rest) → Opening blanks q name break_ ∧
        t = blanks ++ (q ++ (name ++ (q ++ (break_ ++ rest)))) := by
    intro break_ rest hbreak hstrip
    refine ⟨⟨fun c hc => List.all_eq_true.1 List.all_takeWhile c hc, hquote.2,
      fun hnil => hne (List.isEmpty_iff.2 hnil), fun c hc => List.all_eq_true.1 List.all_takeWhile c hc, hbreak⟩, ?_⟩
    rw [← Text.strip?_eq_some hstrip, List.takeWhile_append_dropWhile, ← hquote.1, List.takeWhile_append_dropWhile]
  split at h
  · cases h
  · rename_i rest hafter
    obtain ⟨rfl, rfl⟩ := Prod.mk.inj (Option.some.inj h)
    obtain ⟨hparts, ht⟩ := hopening ['\n'] rest (.inl rfl) hafter
    exact ⟨blanks, q, ['\n'], rest, hparts, ht, rfl⟩
  · rename_i rest hafter
    obtain ⟨rfl, rfl⟩ := Prod.mk.inj (Option.some.inj h)
    obtain ⟨hparts, ht⟩ := hopening ['\r', '\n'] rest (.inr rfl) hafter
    exact ⟨blanks, q, ['\r', '\n'], rest, hparts, ht, rfl⟩
  · cases h

/-- An opening line is recognized by its own characters. -/
theorem opening?_append {u w w' label : Text} {n : Nat} (h : opening? (u ++ w) = some (label, n)) (hn : n ≤ u.length) :
    opening? (u ++ w') = some (label, n) := by
  obtain ⟨blanks, quote, break_, rest, hparts, ht, rfl⟩ := exists_opening h
  have hline : blanks ++ (quote ++ (label ++ (quote ++ break_))) <+: u := by
    have htext : blanks ++ (quote ++ (label ++ (quote ++ break_))) <+: u ++ w := by
      refine ⟨rest, ?_⟩
      rw [ht]
      simp only [List.append_assoc]
    refine List.prefix_of_prefix_length_le htext (List.prefix_append u w) ?_
    simp only [Opening.length, List.length_append] at hn ⊢
    omega
  obtain ⟨v, rfl⟩ := hline
  have hopening := hparts.opening? (v ++ w')
  simp only [List.append_assoc] at hopening ⊢
  exact hopening

/-- A closing line: blanks and the label, behind which no name goes on. -/
theorem closing?_iff {label line : Text} {n : Nat} (hlabel : ∀ c ∈ label.head?, Text.isIndent c = false)
    (hne : label ≠ []) : closing? label line = some n ↔
      ∃ blanks after, line = blanks ++ (label ++ after) ∧ (∀ c ∈ blanks, Text.isIndent c = true) ∧
        after.head?.any isLabelPart = false ∧ n = blanks.length + label.length := by
  constructor
  · intro h
    unfold closing? at h
    split at h
    · cases h
    · rename_i after hstrip
      split at h
      · cases h
      · rename_i hany
        cases h
        refine ⟨line.takeWhile Text.isIndent, after, ?_, fun c hc => List.all_eq_true.1 List.all_takeWhile c hc,
          Bool.not_eq_true _ ▸ hany, rfl⟩
        rw [← Text.strip?_eq_some hstrip, List.takeWhile_append_dropWhile]
  · rintro ⟨blanks, after, rfl, hblanks, hafter, rfl⟩
    obtain ⟨c, name, rfl⟩ := List.exists_cons_of_ne_nil hne
    have hc : Text.isIndent c = false := hlabel c rfl
    obtain ⟨htake, hdrop⟩ := takeWhile_append_stop (t := c :: name ++ after) hblanks hc
    rw [closing?, htake, hdrop, Text.strip?_append]
    simp only [hafter, Bool.false_eq_true, if_false]

variable {label u w w' : Text}

theorem isIndent_head? (h : ∀ c ∈ label, isLabelPart c = true) : ∀ c ∈ label.head?, Text.isIndent c = false :=
  fun c hc => (ne_of_isLabelPart (h c (List.mem_of_mem_head? hc))).2.2

/-- No name goes on behind the closing label. -/
theorem head?_behind_body {t : Text} {atStart : Bool} {n : Nat} (hlabel : ∀ c ∈ label.head?, Text.isIndent c = false)
    (hne : label ≠ []) (h : body? label atStart t = some n) : (t.drop n).head?.any isLabelPart = false := by
  have hclosing : ∀ {t : Text} {n : Nat}, closing? label t = some n → (t.drop n).head?.any isLabelPart = false := by
    intro t n h
    obtain ⟨blanks, after, rfl, -, hafter, rfl⟩ := (closing?_iff hlabel hne).1 h
    rwa [← List.append_assoc, ← List.length_append, List.drop_left]
  induction t generalizing atStart n with
  | nil =>
    rw [body?] at h
    split at h
    · exact hclosing h
    · cases h
  | cons c t ih =>
    rw [body?] at h
    split at h
    · rename_i m hm
      cases h
      split at hm
      · exact hclosing hm
      · cases hm
    · obtain ⟨m, hm, rfl⟩ := Option.map_eq_some_iff.1 h
      exact ih hm

/-- A line that does not close a heredoc, which a later label closes, closes it with no other text behind that label. -/
theorem closing?_append {before : Text} {c : Char} (hlabel : ∀ c ∈ label.head?, Text.isIndent c = false)
    (hne : label ≠ []) (hw : w.head?.any isLabelPart = false)
    (h : closing? label (c :: (before ++ label) ++ w) = none) : closing? label (c :: (before ++ label) ++ w') = none := by
  refine Option.eq_none_iff_forall_ne_some.2 fun n hn => ?_
  obtain ⟨blanks, after, hline, hblanks, hafter, -⟩ := (closing?_iff hlabel hne).1 hn
  -- The blanks end before the later label, which does not begin with one.
  have hle : blanks.length ≤ (c :: before).length := by
    refine Nat.le_of_not_lt fun hlt => ?_
    obtain ⟨d, name, rfl⟩ := List.exists_cons_of_ne_nil hne
    have hd : blanks[(c :: before).length]? = some d := by
      have hget := congrArg (·[(c :: before).length]?) hline
      simp only [List.getElem?_append_left hlt] at hget
      rw [← hget]
      simp
    have hindent := hblanks d (List.mem_of_getElem? hd)
    rw [hlabel d rfl] at hindent
    cases hindent
  have hwithin : blanks ++ label <+: c :: (before ++ label) := by
    have htext : blanks ++ label <+: c :: (before ++ label) ++ w' := by
      refine ⟨after, ?_⟩
      rw [List.append_assoc]
      exact hline.symm
    refine List.prefix_of_prefix_length_le htext (List.prefix_append _ _) ?_
    simp only [List.length_append, List.length_cons] at hle ⊢
    omega
  obtain ⟨v, hv⟩ := hwithin
  rw [← hv, List.append_assoc, List.append_assoc, List.append_cancel_left_eq, List.append_cancel_left_eq] at hline
  have hbehind : (v ++ w).head?.any isLabelPart = false := by
    cases v with
    | nil => exact hw
    | cons d v =>
      rw [← hline] at hafter
      exact hafter
  have hsome := (closing?_iff hlabel hne).2 ⟨blanks, v ++ w, rfl, hblanks, hbehind, rfl⟩
  rw [← hv, List.append_assoc, List.append_assoc, hsome] at h
  cases h

theorem body?_append {atStart : Bool} (hlabel : ∀ c ∈ label.head?, Text.isIndent c = false) (hne : label ≠ [])
    (hw : w'.head?.any isLabelPart = false) (h : body? label atStart (u ++ w) = some u.length) :
    body? label atStart (u ++ w') = some u.length := by
  have hbehind := head?_behind_body hlabel hne h
  rw [List.drop_left] at hbehind
  induction u generalizing atStart with
  | nil =>
    obtain ⟨before, after, -, hlength⟩ := body?_eq_some h
    rw [List.length_nil] at hlength
    exact absurd (List.length_eq_zero_iff.1 (by omega)) hne
  | cons c u ih =>
    rw [List.cons_append, body?] at h ⊢
    have hline : ∀ n, closing? label (c :: (u ++ w)) = some n → n = u.length + 1 →
        closing? label (c :: (u ++ w')) = some n := by
      intro n hn hlength
      obtain ⟨blanks, after, hsplit, hblanks, -, rfl⟩ := (closing?_iff hlabel hne).1 hn
      rw [← List.append_assoc, ← List.cons_append] at hsplit
      obtain ⟨hu, -⟩ := List.append_inj hsplit (by simp [hlength])
      exact (closing?_iff hlabel hne).2 ⟨blanks, w', by rw [← List.append_assoc, ← hu, List.cons_append], hblanks, hw, rfl⟩
    split at h
    · rename_i n hn
      cases h
      split at hn
      · rename_i hstart
        rw [if_pos hstart, hline _ hn rfl]
      · cases hn
    · rename_i hnone
      obtain ⟨m, hm, hlength⟩ := Option.map_eq_some_iff.1 h
      obtain rfl : m = u.length := Nat.succ.inj hlength
      have hlater : (if atStart = true then closing? label (c :: (u ++ w')) else none) = none := by
        split
        · rename_i hstart
          rw [if_pos hstart] at hnone
          obtain ⟨before, after, hsplit, hlen⟩ := body?_eq_some hm
          rw [← List.append_assoc] at hsplit
          obtain ⟨rfl, -⟩ := List.append_inj hsplit (by rw [hlen, List.length_append])
          exact closing?_append hlabel hne hbehind hnone
        · rfl
      rw [hlater]
      simp only [ih hm, Option.map_some]
      rfl

/-- No name goes on behind a heredoc. -/
theorem head?_behind_extent (h : extent? (u ++ w) = some u.length) : w.head?.any isLabelPart = false := by
  obtain ⟨⟨label, n⟩, hopening, hbody⟩ := Option.bind_eq_some_iff.1 h
  obtain ⟨k, hk, hlength⟩ := Option.map_eq_some_iff.1 hbody
  obtain ⟨hne, hparts, -⟩ := opening?_eq_some hopening
  have hbehind := head?_behind_body (isIndent_head? hparts) hne hk
  rwa [List.drop_drop, hlength, List.drop_left] at hbehind

/-- A heredoc ends where it ends, whatever follows but a name that goes on. -/
theorem extent?_append (hw : w'.head?.any isLabelPart = false) (h : extent? (u ++ w) = some u.length) :
    extent? (u ++ w') = some u.length := by
  obtain ⟨⟨label, n⟩, hopening, hbody⟩ := Option.bind_eq_some_iff.1 h
  obtain ⟨k, hk, hlength⟩ := Option.map_eq_some_iff.1 hbody
  have hn : n ≤ u.length := by omega
  obtain ⟨hne, hparts, -⟩ := opening?_eq_some hopening
  have hdrop : ∀ v, (u ++ v).drop n = u.drop n ++ v := fun v => List.drop_append_of_le_length hn
  simp only [hdrop] at hk
  obtain rfl : k = (u.drop n).length := by
    rw [List.length_drop]
    omega
  have hbody' : body? label true ((u ++ w').drop n) = some (u.drop n).length := by
    rw [hdrop]
    exact body?_append (isIndent_head? hparts) hne hw hk
  rw [extent?, opening?_append hopening hn, Option.bind_some]
  simp only [hbody', Option.map_some]
  exact congrArg some hlength

end Heredoc

/-! ### The first place of a part -/

namespace Text

/-- No earlier place of the part is passed over. -/
theorem le_of_locate? {p t a u : Text} {n : Nat} (h : locate? p t = some n) (ht : t = a ++ (p ++ u)) : n ≤ a.length := by
  induction t generalizing a n with
  | nil =>
    rw [locate?] at h
    split at h
    · cases h
      exact Nat.zero_le _
    · cases h
  | cons c t ih =>
    rw [locate?] at h
    split at h
    · cases h
      exact Nat.zero_le _
    · rename_i hstart
      obtain ⟨m, hm, rfl⟩ := Option.map_eq_some_iff.1 h
      cases a with
      | nil => exact absurd (startsWith_iff.2 ⟨u, ht.symm⟩) hstart
      | cons d a => exact Nat.succ_le_succ (ih hm (List.cons.inj ht).2)

/-- A part that is not found is nowhere. -/
theorem not_infix_of_locate? {p t : Text} (h : locate? p t = none) : ¬p <:+: t := by
  rintro ⟨a, u, ht⟩
  rw [List.append_assoc] at ht
  induction t generalizing a with
  | nil =>
    rw [locate?] at h
    split at h
    · cases h
    · rename_i hne
      obtain ⟨-, hrest⟩ := List.append_eq_nil_iff.1 ht
      exact hne (List.isEmpty_iff.2 (List.append_eq_nil_iff.1 hrest).1)
  | cons c t ih =>
    rw [locate?] at h
    split at h
    · cases h
    · rename_i hstart
      cases a with
      | nil => exact hstart (startsWith_iff.2 ⟨u, ht⟩)
      | cons d a => exact ih (Option.map_eq_none_iff.1 h) a (List.cons.inj ht).2

end Text

/-! ### The extent of a block comment -/

namespace BlockComment

/-- A comment whose opener stands before `x ++ rest` ends behind `x`: with a closing mark, and with no earlier one. -/
def IsExtent (x rest : Text) : Prop :=
  ∃ body, x = body ++ "*/".toList ∧ ∀ a u, x ++ rest = a ++ ("*/".toList ++ u) → body.length ≤ a.length

theorem exists_isExtent {t : Text} {n : Nat} (h : extent? t = some n) :
    ∃ x rest, t = x ++ rest ∧ x.length = n ∧ IsExtent x rest := by
  obtain ⟨m, hm, rfl⟩ := Option.map_eq_some_iff.1 h
  obtain ⟨body, rest, rfl, rfl⟩ := Text.locate?_eq_some hm
  refine ⟨body ++ "*/".toList, rest, by rw [List.append_assoc], by rw [List.length_append]; rfl, body, rfl, fun a u hau => ?_⟩
  rw [List.append_assoc] at hau
  exact Text.le_of_locate? hm hau

theorem not_infix_of_extent? {t : Text} (h : extent? t = none) : ¬"*/".toList <:+: t :=
  Text.not_infix_of_locate? (Option.map_eq_none_iff.1 h)

end BlockComment

/-! ### The extent of a heredoc -/

namespace Heredoc

open TokenTable (isLabelPart)

/-- A line begins behind `before`; `atStart` tells that one begins where `before` does. -/
def ToLineStart (atStart : Bool) (before : Text) : Prop := (before = [] ∧ atStart = true) ∨ before.getLast? = some '\n'

/-- The line behind `before` closes the heredoc: it has blanks and the label, and no name goes on there. -/
structure ClosingLine (label : Text) (atStart : Bool) (body before indent : Text) : Prop where
  start : ToLineStart atStart before
  blanks : ∀ c ∈ indent, Text.isIndent c = true
  closes : ∃ after, body = before ++ (indent ++ (label ++ after)) ∧ after.head?.any isLabelPart = false

section Lines

variable {label t before indent : Text} {atStart : Bool} {c : Char} {n : Nat}

theorem toLineStart_cons : ToLineStart atStart (c :: before) ↔ ToLineStart (c == '\n') before := by
  cases before with
  | nil => simp [ToLineStart]
  | cons d before => simp [ToLineStart]

/-- A closing line further behind is one of the text behind the first character. -/
theorem closingLine_cons {d : Char} : ClosingLine label atStart (c :: t) (d :: before) indent ↔
    d = c ∧ ClosingLine label (c == '\n') t before indent := by
  constructor
  · rintro ⟨hstart, hindent, after, hbody, hafter⟩
    obtain ⟨rfl, ht⟩ := List.cons.inj hbody
    exact ⟨rfl, toLineStart_cons.1 hstart, hindent, after, ht, hafter⟩
  · rintro ⟨rfl, hstart, hindent, after, ht, hafter⟩
    exact ⟨toLineStart_cons.2 hstart, hindent, after, congrArg _ ht, hafter⟩

/-- The first line is recognized where one begins. -/
theorem closingLine_nil (hlabel : ∀ c ∈ label.head?, Text.isIndent c = false) (hne : label ≠ []) :
    (∃ indent, ClosingLine label atStart t [] indent ∧ n = indent.length + label.length) ↔
      (if atStart then closing? label t else none) = some n := by
  cases atStart with
  | false =>
    constructor
    · rintro ⟨indent, ⟨⟨-, hstart⟩ | hstart, -, -⟩, -⟩ <;> cases hstart
    · exact nofun
  | true =>
    rw [if_pos rfl, closing?_iff hlabel hne]
    constructor
    · rintro ⟨indent, ⟨-, hindent, after, ht, hafter⟩, rfl⟩
      exact ⟨indent, after, ht, hindent, hafter, rfl⟩
    · rintro ⟨indent, after, ht, hindent, hafter, rfl⟩
      exact ⟨indent, ⟨.inl ⟨rfl, rfl⟩, hindent, after, ht, hafter⟩, rfl⟩

/-- The body that was found ends on the first line that closes it. -/
theorem exists_closingLine (hlabel : ∀ c ∈ label.head?, Text.isIndent c = false) (hne : label ≠ [])
    (h : body? label atStart t = some n) : ∃ before indent, ClosingLine label atStart t before indent ∧
      n = before.length + (indent.length + label.length) ∧
      ∀ before' indent', ClosingLine label atStart t before' indent' → before.length ≤ before'.length := by
  have first : ∀ {atStart : Bool} {t : Text} {n : Nat}, (if atStart then closing? label t else none) = some n →
      ∃ before indent, ClosingLine label atStart t before indent ∧ n = before.length + (indent.length + label.length) ∧
        ∀ before' indent', ClosingLine label atStart t before' indent' → before.length ≤ before'.length := by
    intro atStart t n hn
    obtain ⟨indent, hline, rfl⟩ := (closingLine_nil hlabel hne).2 hn
    exact ⟨[], indent, hline, (Nat.zero_add _).symm, fun _ _ _ => Nat.zero_le _⟩
  induction t generalizing atStart n with
  | nil => exact first (by rwa [body?] at h)
  | cons c t ih =>
    rw [body?] at h
    split at h
    · rename_i m hm
      cases h
      exact first hm
    · rename_i hnone
      obtain ⟨m, hm, rfl⟩ := Option.map_eq_some_iff.1 h
      obtain ⟨before, indent, hline, rfl, hfirst⟩ := ih hm
      refine ⟨c :: before, indent, closingLine_cons.2 ⟨rfl, hline⟩, by rw [List.length_cons]; omega, ?_⟩
      intro before' indent' hline'
      cases before' with
      | nil =>
        have hsome := (closingLine_nil hlabel hne).1 ⟨indent', hline', rfl⟩
        rw [hnone] at hsome
        cases hsome
      | cons d before' => exact Nat.succ_le_succ (hfirst before' indent' (closingLine_cons.1 hline').2)

/-- A body that is not found has no line that closes it. -/
theorem not_closingLine (hlabel : ∀ c ∈ label.head?, Text.isIndent c = false) (hne : label ≠ [])
    (h : body? label atStart t = none) : ¬ClosingLine label atStart t before indent := by
  intro hline
  induction t generalizing atStart before with
  | nil =>
    rw [body?] at h
    -- Behind an empty text nothing begins.
    have hbefore : before = [] := by
      obtain ⟨after, hbody, -⟩ := hline.closes
      exact (List.append_eq_nil_iff.1 hbody.symm).1
    subst hbefore
    have hsome := (closingLine_nil hlabel hne).1 ⟨indent, hline, rfl⟩
    rw [h] at hsome
    cases hsome
  | cons c t ih =>
    rw [body?] at h
    split at h
    · cases h
    · rename_i hnone
      cases before with
      | nil =>
        have hsome := (closingLine_nil hlabel hne).1 ⟨indent, hline, rfl⟩
        rw [hnone] at hsome
        cases hsome
      | cons d before => exact ih (Option.map_eq_none_iff.1 h) (closingLine_cons.1 hline).2

end Lines

/-- The text begins with an opening line for the label, and `body` is behind it. -/
def Opens (t label body : Text) : Prop :=
  ∃ blanks quote break_, Opening blanks quote label break_ ∧ t = blanks ++ (quote ++ (label ++ (quote ++ (break_ ++ body))))

/-- A heredoc is closed: behind its opening line there is a line that closes it. -/
def IsClosed (t : Text) : Prop :=
  ∃ label body before indent, Opens t label body ∧ ClosingLine label true body before indent

/-- A heredoc whose opener stands before `x ++ rest` ends behind `x`: with the label on the first line that closes it. -/
def IsExtent (x rest : Text) : Prop :=
  ∃ label body before indent, Opens (x ++ rest) label body ∧ body = before ++ (indent ++ (label ++ rest)) ∧
    ClosingLine label true body before indent ∧
    ∀ before' indent', ClosingLine label true body before' indent' → before.length ≤ before'.length

/-- An opening line is recognized, and the body is what is behind it. -/
theorem Opens.exists_opening? {t label body : Text} (h : Opens t label body) :
    ∃ n, opening? t = some (label, n) ∧ t.drop n = body := by
  obtain ⟨blanks, quote, break_, hopening, rfl⟩ := h
  refine ⟨_, hopening.opening? body, ?_⟩
  have hline : blanks ++ (quote ++ (label ++ (quote ++ (break_ ++ body)))) =
      (blanks ++ (quote ++ (label ++ (quote ++ break_)))) ++ body := by
    simp only [List.append_assoc]
  rw [hline]
  refine List.drop_left' ?_
  simp only [Opening.length, List.length_append]
  omega

/-- The label of an opening line is a name. -/
theorem Opens.label {t label body : Text} (h : Opens t label body) : label ≠ [] ∧ ∀ c ∈ label, isLabelPart c = true := by
  obtain ⟨_, _, _, hopening, -⟩ := h
  exact ⟨hopening.ne_nil, hopening.label⟩

theorem opens_of_opening? {t label : Text} {n : Nat} (h : opening? t = some (label, n)) : Opens t label (t.drop n) := by
  obtain ⟨blanks, quote, break_, body, hopening, ht, rfl⟩ := exists_opening h
  have hopens : Opens t label body := ⟨blanks, quote, break_, hopening, ht⟩
  obtain ⟨n, hn, hdrop⟩ := hopens.exists_opening?
  rw [h] at hn
  cases hn
  rwa [hdrop]

/-- What is found of a heredoc goes through the first closing label. -/
theorem exists_isExtent {t : Text} {n : Nat} (h : extent? t = some n) :
    ∃ x rest, t = x ++ rest ∧ x.length = n ∧ IsExtent x rest := by
  obtain ⟨⟨label, m⟩, hopening, hbody⟩ := Option.bind_eq_some_iff.1 h
  obtain ⟨k, hk, rfl⟩ := Option.map_eq_some_iff.1 hbody
  have hopens := opens_of_opening? hopening
  obtain ⟨hne, hparts⟩ := hopens.label
  obtain ⟨before, indent, hline, rfl, hfirst⟩ := exists_closingLine (isIndent_head? hparts) hne hk
  obtain ⟨rest, hrest, -⟩ := hline.closes
  have hm : m ≤ t.length := (opening?_eq_some hopening).2.2
  have ht : t = t.take m ++ (before ++ (indent ++ label)) ++ rest := by
    calc t = t.take m ++ t.drop m := (List.take_append_drop m t).symm
      _ = t.take m ++ (before ++ (indent ++ label)) ++ rest := by rw [hrest]; simp only [List.append_assoc]
  refine ⟨t.take m ++ (before ++ (indent ++ label)), rest, ht, ?_, label, t.drop m, before, indent, ?_, hrest, hline, hfirst⟩
  · simp only [List.length_append, List.length_take, Nat.min_eq_left hm]
  · rwa [← ht]

/-- A heredoc that is not found is not closed. -/
theorem not_isClosed {t : Text} (h : extent? t = none) : ¬IsClosed t := by
  rintro ⟨label, body, before, indent, hopens, hline⟩
  obtain ⟨n, hopening, rfl⟩ := hopens.exists_opening?
  obtain ⟨hne, hparts⟩ := hopens.label
  rw [extent?, hopening, Option.bind_some, Option.map_eq_none_iff] at h
  exact not_closingLine (isIndent_head? hparts) hne h hline

/-- A text opens one heredoc. -/
theorem Opens.unique {t label label' body body' : Text} (h : Opens t label body) (h' : Opens t label' body') :
    label = label' ∧ body = body' := by
  obtain ⟨n, hopening, rfl⟩ := h.exists_opening?
  obtain ⟨n', hopening', rfl⟩ := h'.exists_opening?
  obtain ⟨rfl, rfl⟩ := Prod.mk.inj (Option.some.inj (hopening.symm.trans hopening'))
  exact ⟨rfl, rfl⟩

/-- A heredoc has one end: no two lines are the first one that closes it. -/
theorem IsExtent.unique {x x' rest rest' : Text} (h : IsExtent x rest) (h' : IsExtent x' rest')
    (ht : x ++ rest = x' ++ rest') : x = x' := by
  obtain ⟨label, body, before, indent, hopens, hbody, hline, hfirst⟩ := h
  obtain ⟨label', body', before', indent', hopens', hbody', hline', hfirst'⟩ := h'
  rw [ht] at hopens
  obtain ⟨rfl, rfl⟩ := hopens.unique hopens'
  have hlength : before.length = before'.length :=
    Nat.le_antisymm (hfirst before' indent' hline') (hfirst' before indent hline)
  obtain ⟨-, hlines⟩ := List.append_inj (hbody.symm.trans hbody') hlength
  -- The blanks of a line end where its label begins.
  have hblanks : ∀ {indent rest : Text}, (∀ c ∈ indent, Text.isIndent c = true) →
      (indent ++ (label ++ rest)).dropWhile Text.isIndent = label ++ rest := by
    intro indent rest hindent
    obtain ⟨hne, hparts⟩ := hopens'.label
    obtain ⟨c, name, rfl⟩ := List.exists_cons_of_ne_nil hne
    have hc : Text.isIndent c = false := isIndent_head? hparts c rfl
    exact (takeWhile_append_stop (t := c :: name ++ rest) hindent hc).2
  have hrest := congrArg (List.dropWhile Text.isIndent) hlines
  rw [hblanks hline.blanks, hblanks hline'.blanks, List.append_cancel_left_eq] at hrest
  rw [hrest] at ht
  exact List.append_cancel_right ht

theorem IsExtent.isClosed {x rest : Text} (h : IsExtent x rest) : IsClosed (x ++ rest) := by
  obtain ⟨label, body, before, indent, hopens, -, hline, -⟩ := h
  exact ⟨label, body, before, indent, hopens, hline⟩

/-- What is found of a heredoc is its extent, whatever else the text holds. -/
theorem extent?_eq_some_iff {t : Text} {n : Nat} :
    extent? t = some n ↔ n ≤ t.length ∧ IsExtent (t.take n) (t.drop n) := by
  constructor
  · intro h
    obtain ⟨x, rest, rfl, rfl, hextent⟩ := exists_isExtent h
    rw [List.take_left, List.drop_left]
    exact ⟨by rw [List.length_append]; omega, hextent⟩
  · rintro ⟨hn, hextent⟩
    cases h : extent? t with
    | none =>
      have hclosed := hextent.isClosed
      rw [List.take_append_drop] at hclosed
      exact absurd hclosed (not_isClosed h)
    | some m =>
      obtain ⟨x, rest, ht, rfl, hextent'⟩ := exists_isExtent h
      have hx := hextent.unique hextent' (by rw [List.take_append_drop, ht])
      rw [← hx, List.length_take, Nat.min_eq_left hn]

/-- A heredoc is found exactly where one is closed. -/
theorem exists_extent?_iff {t : Text} : (∃ n, extent? t = some n) ↔ IsClosed t := by
  constructor
  · rintro ⟨n, h⟩
    have hclosed := (extent?_eq_some_iff.1 h).2.isClosed
    rwa [List.take_append_drop] at hclosed
  · intro hclosed
    refine Option.ne_none_iff_exists'.1 fun hnone => ?_
    exact not_isClosed hnone hclosed

example : Heredoc.extent? " 'EOT'\r\nEOTX\nx EOT\n\t EOT;\nEOT".toList = some 24 := by decide

end Heredoc

end Graft
