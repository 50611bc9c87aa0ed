/-
Trivia, character by character.

A text of whitespace and comments can be told by a machine with six states that sees one character at a time.  So a
text of trivia may be cut anywhere and its pieces be put together in another way: what counts is the state that a
piece ends in.

* `Scan`, `Scan.run` — the machine;
* `Lexer.significant_of_run` — what it goes through is read as trivia, whatever follows;
* `Lexer.Reads.exists_run` — it goes through all trivia that are read.
-/
import Graft.Proofs.Token.Passage

namespace Graft

/-- The text begins with a line break. -/
def Text.BeginsLine (t : Text) : Prop := t.head? = some '\n' ∨ ['\r', '\n'] <+: t

instance (t : Text) : Decidable t.BeginsLine := inferInstanceAs (Decidable (_ ∨ _))

/-- A line that begins with a text begins whatever follows the text. -/
theorem Text.BeginsLine.append {t : Text} (h : t.BeginsLine) (w : Text) : (t ++ w).BeginsLine := by
  rcases h with h | h
  · obtain ⟨u, rfl⟩ := List.head?_eq_some_iff.1 h
    exact .inl rfl
  · exact .inr (h.trans (List.prefix_append _ _))

/-! ### The machine -/

/-- What has been seen of trivia. -/
inductive Scan where
  /-- No comment is open. -/
  | free
  /-- A slash that must begin a comment. -/
  | slash
  /-- A number sign, which a bracket may not follow. -/
  | sharp
  | line
  | block
  /-- An asterisk in a block comment. -/
  | star
deriving DecidableEq, Repr

namespace Scan

def step : Scan → Char → Option Scan
  | .free, c =>
    if TokenTable.isSpace c then some .free else if c = '/' then some .slash else if c = '#' then some .sharp else none
  | .slash, c => if c = '/' then some .line else if c = '*' then some .block else none
  | .sharp, c => if c = '[' then none else if c = '\n' then some .free else some .line
  | .line, c => if c = '\n' then some .free else some .line
  | .block, c => if c = '*' then some .star else some .block
  | .star, c => if c = '/' then some .free else if c = '*' then some .star else some .block

/-- The state behind a text, if the text is trivia so far. -/
def run (s : Scan) (t : Text) : Option Scan := t.foldlM step s

/-- The states in which a line may end: no block comment is open. -/
def closed (s : Scan) : Bool := s == .free || s == .line || s == .sharp

theorem run_nil (s : Scan) : s.run [] = some s := rfl

theorem run_cons (s : Scan) (c : Char) (t : Text) : s.run (c :: t) = (s.step c).bind fun s' => s'.run t := rfl

theorem run_append (s : Scan) (t u : Text) : s.run (t ++ u) = (s.run t).bind fun s' => s'.run u := by
  rw [run, List.foldlM_append]
  rfl

/-- Whitespace leaves the machine free. -/
theorem run_space {t : Text} (h : ∀ c ∈ t, TokenTable.isSpace c = true) : Scan.free.run t = some .free := by
  induction t with
  | nil => rfl
  | cons c t ih =>
    obtain ⟨hc, ht⟩ := List.forall_mem_cons.1 h
    rw [run_cons, step, if_pos hc]
    exact ih ht

/-- A line comment lasts as long as the line. -/
theorem run_line {t : Text} (h : '\n' ∉ t) : Scan.line.run t = some .line := by
  induction t with
  | nil => rfl
  | cons c t ih =>
    rw [List.mem_cons, not_or] at h
    rw [run_cons, step, if_neg fun hc => h.1 hc.symm]
    exact ih h.2

/-- A line break ends a line comment. -/
theorem run_break {s : Scan} (hs : s.closed = true) {t : Text} (ht : t.BeginsLine) :
    s.run t = Scan.free.run t := by
  rcases ht with ht | ⟨u, rfl⟩
  · obtain ⟨u, rfl⟩ := List.head?_eq_some_iff.1 ht
    cases s <;> first | rfl | cases hs
  · cases s <;> first | rfl | cases hs

/-- Where a break follows, or the machine is free, it goes on as if it was free. -/
theorem run_behind {s : Scan} (hs : s.closed = true) {x w : Text} (hx : x ≠ [])
    (h : s = .free ∨ x ++ w = [] ∨ (x ++ w).head? = some '\n') : s.run x = free.run x := by
  obtain ⟨c, x, rfl⟩ := List.exists_cons_of_ne_nil hx
  rcases h with rfl | hnil | hhead
  · rfl
  · cases hnil
  · exact run_break hs (.inl hhead)

/-- The machine leaves a block comment with its first closing mark. -/
theorem exists_of_run_block {t : Text} {s : Scan} (hs : s.closed = true) :
    (Scan.block.run t = some s → ∃ a r, t = a ++ (['*', '/'] ++ r) ∧
      Text.locate? ['*', '/'] (a ++ ['*', '/']) = some a.length ∧ Scan.free.run r = some s) ∧
    (Scan.star.run t = some s → ∃ a r, '*' :: t = a ++ (['*', '/'] ++ r) ∧
      Text.locate? ['*', '/'] (a ++ ['*', '/']) = some a.length ∧ Scan.free.run r = some s) := by
  induction t with
  | nil =>
    constructor
    · intro h
      cases h
      cases hs
    · intro h
      cases h
      cases hs
  | cons c t ih =>
    have hlater : ∀ {a : Text} {d : Char}, ¬ ['*', '/'] <+: d :: (a ++ ['*', '/']) →
        Text.locate? ['*', '/'] (a ++ ['*', '/']) = some a.length →
          Text.locate? ['*', '/'] (d :: a ++ ['*', '/']) = some (d :: a).length := by
      intro a d hd ha
      rw [List.cons_append, Text.locate?, if_neg fun h => hd (Text.startsWith_iff.1 h), ha]
      rfl
    constructor
    · intro h
      rw [run_cons, step] at h
      split at h
      · rename_i hc
        rw [hc]
        exact ih.2 h
      · rename_i hc
        obtain ⟨a, r, rfl, ha, hr⟩ := ih.1 h
        refine ⟨c :: a, r, rfl, hlater (fun h => hc ?_) ha, hr⟩
        exact (List.cons_prefix_cons.1 h).1.symm
    · intro h
      rw [run_cons, step] at h
      split at h
      · rename_i hc
        rw [hc]
        exact ⟨[], t, rfl, rfl, h⟩
      · rename_i hslash
        split at h
        · rename_i hc
          rw [hc] at hslash ⊢
          obtain ⟨a, r, heq, ha, hr⟩ := ih.2 h
          refine ⟨'*' :: a, r, by rw [heq]; rfl, hlater (fun h => ?_) ha, hr⟩
          -- The next character is an asterisk, no slash.
          obtain ⟨v, hv⟩ := (List.cons_prefix_cons.1 h).2
          rw [← List.append_assoc, ← hv] at heq
          cases heq
        · rename_i hc
          obtain ⟨a, r, rfl, ha, hr⟩ := ih.1 h
          have hc' : ¬ ['*', '/'] <+: c :: (a ++ ['*', '/']) := fun h => hc (List.cons_prefix_cons.1 h).1.symm
          refine ⟨'*' :: c :: a, r, rfl, hlater (fun h => hslash ?_) (hlater hc' ha), hr⟩
          exact (List.cons_prefix_cons.1 (List.cons_prefix_cons.1 h).2).1.symm

/-- The machine is free behind the first closing mark. -/
theorem run_block {t : Text} {n : Nat} (hn : n + 2 = t.length) :
    (Text.locate? ['*', '/'] t = some n → Scan.block.run t = some .free) ∧
      ∀ u, t = '*' :: u → Text.locate? ['*', '/'] t = some n → Scan.star.run u = some .free := by
  induction t generalizing n with
  | nil => exact absurd hn (by simp)
  | cons c t ih =>
    have hlocate : Text.locate? ['*', '/'] (c :: t) = some n → ¬ ['*', '/'] <+: c :: t →
        ∃ m, Text.locate? ['*', '/'] t = some m ∧ m + 2 = t.length := by
      intro h hstart
      rw [Text.locate?, if_neg fun hs => hstart (Text.startsWith_iff.1 hs)] at h
      obtain ⟨m, hm, rfl⟩ := Option.map_eq_some_iff.1 h
      exact ⟨m, hm, by rw [List.length_cons] at hn; omega⟩
    have hstar : ∀ u, c :: t = '*' :: u → Text.locate? ['*', '/'] (c :: t) = some n → Scan.star.run u = some .free := by
      intro u hu h
      obtain ⟨rfl, rfl⟩ := List.cons.inj hu
      cases t with
      | nil => exact absurd hn (by simp)
      | cons d t =>
        by_cases hd : d = '/'
        · subst hd
          -- The mark is found at once, so that it ends the text.
          have hzero : Text.locate? ['*', '/'] ('*' :: '/' :: t) = some 0 := rfl
          cases hzero.symm.trans h
          obtain rfl : t = [] := List.length_eq_zero_iff.1 (by simpa using hn)
          rfl
        · obtain ⟨m, hm, hlength⟩ := hlocate h fun hs => hd (List.cons_prefix_cons.1 (List.cons_prefix_cons.1 hs).2).1.symm
          rw [run_cons, step, if_neg hd]
          split
          · rename_i hc
            subst hc
            exact (ih hlength).2 t rfl hm
          · rename_i hc
            have hrun := (ih hlength).1 hm
            rw [run_cons, step, if_neg hc] at hrun
            exact hrun
    refine ⟨fun h => ?_, hstar⟩
    rw [run_cons, step]
    split
    · rename_i hc
      subst hc
      exact hstar t rfl h
    · rename_i hc
      obtain ⟨m, hm, hlength⟩ := hlocate h fun hs => hc (List.cons_prefix_cons.1 hs).1.symm
      exact (ih hlength).1 hm

end Scan

namespace Lexer

open TokenTable Pattern

/-! ### Lexemes of trivia -/

/-- What a rule matches is found when every other match is shorter. -/
theorem longestOf_eq {k : TokenKind} {p : Pattern} {x t : Text} (hp : (k, p) ∈ rules) (hx : x <+: t) (hm : Matches p x)
    (hmax : ∀ rule ∈ rules, ∀ s, s <+: t → Matches rule.2 s → s.length ≤ x.length)
    (hothers : ∀ rule ∈ rules, rule.1 ≠ k → ∀ s, s <+: t → Matches rule.2 s → s.length < x.length) :
    longestOf rules t = some (k, x.length) := by
  have htake : t.take x.length = x := (List.prefix_iff_eq_take.1 hx).symm
  cases hlong : p.longest? t with
  | none => exact absurd (htake.symm ▸ hm) (longest?_eq_none_iff.1 hlong x.length)
  | some m =>
    have hxm : x.length ≤ m := by
      refine Nat.le_of_not_lt fun hlt => ?_
      exact (longest?_eq_some_iff.1 hlong).2.2 x.length hlt hx.length_le (htake.symm ▸ hm)
    obtain ⟨l, n, hbest, hmn⟩ := le_of_longestOf (r := (k, p)) hp hlong
    obtain ⟨q, hq, hn⟩ := longestOf_eq_some hbest
    obtain ⟨hnt, hmatch, -⟩ := longest?_eq_some_iff.1 hn
    have hlength : (t.take n).length = n := by rw [List.length_take, Nat.min_eq_left hnt]
    have hle := hmax (l, q) hq _ (List.take_prefix n t) hmatch
    have hk : l = k := by
      refine Decidable.byContradiction fun hk => ?_
      have := hothers (l, q) hq hk _ (List.take_prefix n t) hmatch
      omega
    rw [hbest, hk, show n = x.length by omega]

/-- What a rule matches of a text begins like the text. -/
theorem head?_of_matches {rule : TokenKind × Pattern} {c : Char} {s t : Text} (hrule : rule ∈ rules) (hs : s <+: c :: t)
    (hm : Matches rule.2 s) : ∃ u, s = c :: u ∧ u <+: t := by
  cases s with
  | nil =>
    have hnull := nullable_rules rule hrule
    rw [← nullable_iff, hnull] at hm
    cases hm
  | cons d s =>
    obtain ⟨rfl, hrest⟩ := List.cons_prefix_cons.1 hs
    exact ⟨s, rfl, hrest⟩

/-- A run of blanks is one lexeme. -/
theorem lexeme_whitespace {x w : Text} (hx : x ≠ []) (hspace : ∀ c ∈ x, isSpace c = true)
    (hw : w.head?.any isSpace = false) : lexeme (x ++ w) = ⟨.whitespace, x⟩ := by
  have hkind : ∀ rule ∈ rules, ∀ s, s <+: x ++ w → Matches rule.2 s → rule.1 = .whitespace := by
    intro rule hrule s hs hm
    obtain ⟨c, x, rfl⟩ := List.exists_cons_of_ne_nil hx
    obtain ⟨u, rfl, -⟩ := head?_of_matches hrule hs hm
    refine Decidable.byContradiction fun hk => ?_
    exact hm.head?_ne (step_space_rules _ hrule (by simpa using hk) c (mem_of_isSpace (hspace c List.mem_cons_self))) rfl
  have hfound : longestOf rules (x ++ w) = some (.whitespace, x.length) := by
    refine longestOf_eq (p := plus (.one isSpace)) List.mem_cons_self (List.prefix_append x w)
      (matches_whitespace.2 ⟨hx, hspace⟩) (fun rule hrule s hs hm => ?_)
      fun rule hrule hk s hs hm => absurd (hkind rule hrule s hs hm) hk
    obtain ⟨k, p⟩ := rule
    obtain rfl : k = .whitespace := hkind _ hrule s hs hm
    obtain rfl : p = plus (.one isSpace) := by simpa [rules] using hrule
    refine Nat.le_of_not_lt fun hlt => ?_
    obtain ⟨d, hd, hbegins⟩ := exists_of_length_lt hs hlt
    rw [hd, Option.any_some, (matches_whitespace.1 hm).2 d (hbegins.subset (by simp))] at hw
    cases hw
  refine (lexeme_append hx).2 ?_
  rw [front, hfound]
  rfl

/-- The rest of a line behind two slashes, or behind a number sign that opens no attribute, is one lexeme. -/
theorem lexeme_lineComment {x w : Text} (hx : Matches lineComment x) (hw : w = [] ∨ w.head? = some '\n') :
    lexeme (x ++ w) = ⟨.lineComment, x⟩ := by
  obtain ⟨hbreak, hopener⟩ := matches_lineComment.1 hx
  have hne : x ≠ [] := by rcases hopener with ⟨u, rfl⟩ | ⟨u, rfl, -⟩ <;> simp
  have hothers : ∀ rule ∈ rules, rule.1 ≠ .lineComment → ∀ s, s <+: x ++ w → Matches rule.2 s → s.length < x.length := by
    intro rule hrule hk s hs hm
    refine Nat.lt_of_not_le fun hle => ?_
    have hxs : x <+: s := List.prefix_of_prefix_length_le (List.prefix_append x w) hs hle
    obtain ⟨v, rfl⟩ := hxs
    rcases hopener with ⟨u, rfl⟩ | ⟨u, rfl, hbracket⟩
    · have hstep := (matches_step '/' _ _).2 ((matches_step '/' _ _).2 hm)
      cases (step_slash_rules rule hrule hk).symm.trans hstep.isFail_eq
    · obtain ⟨k, p⟩ := rule
      by_cases hattr : k = .attrOpen
      · subst hattr
        obtain rfl : p = lit "#[".toList := by simpa [rules] using hrule
        have htext : '#' :: (u ++ v) = ['#', '['] := matches_lit.1 hm
        have htail := (List.cons.inj htext).2
        cases u with
        | nil =>
          -- The bracket would stand where nothing or a line break stands.
          rw [List.nil_append] at htail
          subst htail
          have hhead : w.head? = some '[' := by
            obtain ⟨r, hr⟩ := hs
            have hw : '[' :: r = w := (List.cons.inj hr).2
            rw [← hw]
            rfl
          rcases hw with rfl | hw
          · cases hhead
          · cases hw.symm.trans hhead
        | cons c u =>
          obtain ⟨rfl, -⟩ := List.cons.inj htail
          exact hbracket rfl
      · exact hm.head?_ne (step_sharp_rules _ hrule (by simpa using ⟨hk, hattr⟩)) rfl
  have hfound : longestOf rules (x ++ w) = some (.lineComment, x.length) := by
    refine longestOf_eq (p := lineComment) (by simp [rules]) (List.prefix_append x w) hx
      (fun rule hrule s hs hm => ?_) hothers
    by_cases hk : rule.1 = .lineComment
    · obtain ⟨k, p⟩ := rule
      obtain rfl : k = .lineComment := hk
      obtain rfl : p = lineComment := by simpa [rules] using hrule
      refine Nat.le_of_not_lt fun hlt => ?_
      obtain ⟨d, hd, hbegins⟩ := exists_of_length_lt hs hlt
      rcases hw with rfl | hw
      · cases hd
      · cases hw.symm.trans hd
        exact (matches_lineComment.1 hm).1 (hbegins.subset (by simp))
    · exact Nat.le_of_lt (hothers rule hrule hk s hs hm)
  refine (lexeme_append hne).2 ?_
  rw [front, hfound]
  rfl

/-- A block comment through its first closing mark is one lexeme. -/
theorem lexeme_blockComment {a : Text} (ha : Text.locate? ['*', '/'] (a ++ ['*', '/']) = some a.length) (w : Text) :
    lexeme (['/', '*'] ++ (a ++ ['*', '/']) ++ w) = ⟨.blockComment, ['/', '*'] ++ (a ++ ['*', '/'])⟩ := by
  have hothers : ∀ rule ∈ rules, rule.1 ≠ .blockComment → ∀ s, s <+: ['/', '*'] ++ (a ++ ['*', '/'] ++ w) →
      Matches rule.2 s → s.length < (['/', '*']).length := by
    intro rule hrule hk s hs hm
    refine Nat.lt_of_not_le fun hle => ?_
    obtain ⟨v, rfl⟩ := List.prefix_of_prefix_length_le (List.prefix_append _ _) hs hle
    have hstep := (matches_step '*' _ _).2 ((matches_step '/' _ _).2 hm)
    cases (step_star_rules rule hrule hk).symm.trans hstep.isFail_eq
  have hfound : longestOf rules (['/', '*'] ++ (a ++ ['*', '/'] ++ w)) = some (.blockComment, 2) := by
    refine longestOf_eq (p := lit ['/', '*']) (by simp [rules]) (List.prefix_append _ _) (matches_lit.2 rfl)
      (fun rule hrule s hs hm => ?_) hothers
    by_cases hk : rule.1 = .blockComment
    · obtain ⟨k, p⟩ := rule
      obtain rfl : k = .blockComment := hk
      obtain rfl : p = lit ['/', '*'] := by simpa [rules] using hrule
      rw [matches_lit.1 hm]
    · exact Nat.le_of_lt (hothers rule hrule hk s hs hm)
  have hextent : BlockComment.extent? (a ++ ['*', '/'] ++ w) = some (a.length + 2) := by
    have hlocate : Text.locate? ['*', '/'] (a ++ ['*', '/'] ++ []) = some a.length := by rwa [List.append_nil]
    have hbehind : Text.locate? ['*', '/'] (a ++ ['*', '/'] ++ w) = some a.length :=
      Text.locate?_append hlocate (Nat.le_of_eq (by rw [List.length_append]))
    show (Text.locate? ['*', '/'] (a ++ ['*', '/'] ++ w)).map (· + 2) = _
    rw [hbehind]
    rfl
  have hfront : front (['/', '*'] ++ (a ++ ['*', '/'] ++ w)) = (.blockComment, 2 + (a.length + 2)) := by
    rw [front, hfound]
    have hdrop : (['/', '*'] ++ (a ++ ['*', '/'] ++ w)).drop 2 = a ++ ['*', '/'] ++ w := rfl
    simp only [extend, hdrop, hextent]
  have hne : ['/', '*'] ++ (a ++ ['*', '/']) ≠ [] := by simp
  rw [← List.append_assoc] at hfront
  rw [(lexeme_append hne).2 (hfront.trans (by rw [List.length_append, List.length_append]; rfl))]

/-! ### Trivia before other text -/

/-- A lexeme of trivia is left out. -/
theorem splits_of_lexeme {x w : Text} {k : TokenKind} (hx : x ≠ []) (hk : k.isTrivia = true)
    (h : lexeme (x ++ w) = ⟨k, x⟩) : Splits .code x w [] .code := by
  have hclose : k ≠ .closeTag := by
    rintro rfl
    cases hk
  have hreads : Reads .code x w [⟨k, x⟩] .code := .single (l := ⟨k, x⟩) hx (next_of_lexeme hclose h)
  have hsplits := hreads.splits
  rwa [List.filter_cons_of_neg (by simp [hk])] at hsplits

/-- A blank before a text of code changes nothing. -/
theorem solid_space {c : Char} (hc : isSpace c = true) (w : Text) : solid .code (c :: w) = solid .code w := by
  have hrun : ∀ (x : Text), x ≠ [] → (∀ d ∈ x, isSpace d = true) → ∀ v : Text, v.head?.any isSpace = false →
      solid .code (x ++ v) = solid .code v := by
    intro x hx hspace v hv
    rw [solid, lexemesOf_cons .code (by simp [hx])]
    simp only [next, lexeme_whitespace hx hspace hv, List.drop_left]
    rw [List.filter_cons_of_neg (by simp)]
    rfl
  have hsplit : w = w.takeWhile isSpace ++ w.dropWhile isSpace := List.takeWhile_append_dropWhile.symm
  have hspace : ∀ d ∈ w.takeWhile isSpace, isSpace d = true := fun d hd => List.all_eq_true.1 List.all_takeWhile d hd
  have hhead : (w.dropWhile isSpace).head?.any isSpace = false := by
    have hnot := List.head?_dropWhile_not isSpace w
    cases hd : (w.dropWhile isSpace).head? with
    | none => rfl
    | some d =>
      rw [hd] at hnot
      simpa using hnot
  have hcons : solid .code (c :: w) = solid .code (w.dropWhile isSpace) := by
    have h := hrun (c :: w.takeWhile isSpace) (List.cons_ne_nil _ _) (List.forall_mem_cons.2 ⟨hc, hspace⟩) _ hhead
    rwa [List.cons_append, ← hsplit] at h
  rw [hcons]
  by_cases hnil : w.takeWhile isSpace = []
  · rw [hnil, List.nil_append] at hsplit
    rw [← hsplit]
  · have h := hrun _ hnil hspace _ hhead
    rw [← hsplit] at h
    exact h.symm

theorem splits_space {c : Char} (hc : isSpace c = true) (w : Text) : Splits .code [c] w [] .code :=
  ⟨[], solid_space hc w, rfl⟩

theorem significant_space {c : Char} (hc : isSpace c = true) (w : Text) :
    significant .code (c :: w) = significant .code w := (splits_space hc w).significant

/-- Blanks are read by themselves. -/
theorem splits_blank {t : Text} (ht : ∀ c ∈ t, isSpace c = true) (w : Text) : Splits .code t w [] .code := by
  induction t with
  | nil => exact .nil
  | cons c t ih =>
    obtain ⟨hc, ht⟩ := List.forall_mem_cons.1 ht
    exact (splits_space hc (t ++ w)).append (ih ht)

/-- A line comment before a line break, or before nothing, is read by itself. -/
theorem splits_lineComment {x w : Text} (hx : Matches lineComment x) (hw : w = [] ∨ w.head? = some '\n') :
    Splits .code x w [] .code := by
  have hne : x ≠ [] := by rcases (matches_lineComment.1 hx).2 with ⟨u, rfl⟩ | ⟨u, rfl, -⟩ <;> simp
  exact splits_of_lexeme hne rfl (lexeme_lineComment hx hw)

theorem exists_line (t : Text) : ∃ v r : Text, t = v ++ r ∧ '\n' ∉ v ∧ (r = [] ∨ ∃ u, r = '\n' :: u) := by
  induction t with
  | nil => exact ⟨[], [], rfl, List.not_mem_nil, .inl rfl⟩
  | cons c t ih =>
    by_cases hc : c = '\n'
    · exact ⟨[], c :: t, rfl, List.not_mem_nil, .inr ⟨t, by rw [hc]⟩⟩
    · obtain ⟨v, r, rfl, hv, hr⟩ := ih
      refine ⟨c :: v, r, rfl, fun hmem => ?_, hr⟩
      rcases List.mem_cons.1 hmem with hmem | hmem
      · exact hc hmem.symm
      · exact hv hmem

/-- What the machine goes through is read as trivia.  A line comment that is open at the end must be closed by a break,
or end with the text. -/
theorem splits_of_run {t w : Text} {s : Scan} (hs : s.closed = true) (ht : Scan.free.run t = some s)
    (hw : s = .free ∨ w = [] ∨ w.head? = some '\n') : Splits .code t w [] .code := by
  induction hn : t.length using Nat.strongRecOn generalizing t with
  | _ n ih =>
    subst hn
    -- A line comment goes on to the next break, or to the end.
    have hline : ∀ o u, t = o ++ u → o ≠ [] → Scan.line.run u = some s →
        (∀ v, '\n' ∉ v → Matches lineComment (o ++ v)) → Splits .code (o ++ u) w [] .code := by
      intro o u hsplit ho hu hcomment
      obtain ⟨v, r, rfl, hv, rfl | ⟨r, rfl⟩⟩ := exists_line u
      · rw [List.append_nil] at hu ⊢
        cases (Scan.run_line hv).symm.trans hu
        exact splits_lineComment (hcomment v hv) (hw.resolve_left nofun)
      · rw [Scan.run_append, Scan.run_line hv] at hu
        rw [← List.append_assoc]
        refine (splits_lineComment (hcomment v hv) (.inr rfl)).append ((splits_space (by decide) (r ++ w)).append ?_)
        refine ih r.length ?_ hu rfl
        have := List.length_pos_iff.2 ho
        simp only [hsplit, List.length_append, List.length_cons]
        omega
    cases t with
    | nil => exact .nil
    | cons c t =>
      rw [Scan.run_cons, Scan.step] at ht
      split at ht
      · rename_i hc
        exact (splits_space hc (t ++ w)).append (ih t.length (by simp) ht rfl)
      · split at ht
        · rename_i hc
          subst hc
          cases t with
          | nil =>
            cases ht
            cases hs
          | cons d t =>
            rw [Option.bind_some, Scan.run_cons, Scan.step] at ht
            split at ht
            · rename_i hd
              subst hd
              exact hline ['/', '/'] t rfl (List.cons_ne_nil _ _) ht fun v hv =>
                matches_lineComment.2 ⟨by simpa using hv, .inl ⟨v, rfl⟩⟩
            · split at ht
              · rename_i hd
                subst hd
                obtain ⟨a, r, rfl, ha, hr⟩ := (Scan.exists_of_run_block hs).1 ht
                have hcomment := splits_of_lexeme (by simp) rfl (lexeme_blockComment ha (r ++ w))
                have hsplit : '/' :: '*' :: (a ++ (['*', '/'] ++ r)) = ['/', '*'] ++ (a ++ ['*', '/']) ++ r := by
                  simp
                rw [hsplit]
                refine hcomment.append (ih r.length ?_ hr rfl)
                simp only [List.length_cons, List.length_append]
                omega
              · cases ht
        · split at ht
          · rename_i hc
            subst hc
            have hsharp : Matches lineComment ['#'] := matches_lineComment.2 ⟨by decide, .inr ⟨[], rfl, nofun⟩⟩
            cases t with
            | nil =>
              cases ht
              exact splits_lineComment hsharp (hw.resolve_left nofun)
            | cons d t =>
              rw [Option.bind_some, Scan.run_cons, Scan.step] at ht
              split at ht
              · cases ht
              · rename_i hbracket
                split at ht
                · rename_i hd
                  subst hd
                  refine (splits_lineComment (w := '\n' :: (t ++ w)) hsharp (.inr rfl)).append
                    ((splits_space (by decide) (t ++ w)).append (ih t.length ?_ ht rfl))
                  rw [List.length_cons, List.length_cons]
                  omega
                · rename_i hd
                  refine hline ['#', d] t rfl (List.cons_ne_nil _ _) ht fun v hv =>
                    matches_lineComment.2 ⟨?_, .inr ⟨d :: v, rfl, fun h => hbracket (Option.some.inj h)⟩⟩
                  simp only [List.mem_append, List.mem_cons, List.not_mem_nil, or_false, not_or]
                  exact ⟨⟨by decide, fun h => hd h.symm⟩, hv⟩
          · cases ht

theorem significant_of_run {t w : Text} {s : Scan} (hs : s.closed = true) (ht : Scan.free.run t = some s)
    (hw : s = .free ∨ w = [] ∨ w.head? = some '\n') : significant .code (t ++ w) = significant .code w :=
  (splits_of_run hs ht hw).significant

/-- The same where the break of the next line takes two characters. -/
theorem significant_of_closed {t w : Text} {s : Scan} (hs : s.closed = true) (ht : Scan.free.run t = some s)
    (hw : s = .free ∨ w = [] ∨ w.BeginsLine) : significant .code (t ++ w) = significant .code w := by
  rcases hw with hfree | hnil | hhead | ⟨u, rfl⟩
  · exact significant_of_run hs ht (.inl hfree)
  · exact significant_of_run hs ht (.inr (.inl hnil))
  · exact significant_of_run hs ht (.inr (.inr hhead))
  · have hbreak : Scan.free.run (t ++ ['\r', '\n']) = some .free := by
      rw [Scan.run_append, ht, Option.bind_some, Scan.run_break hs (.inr (List.prefix_refl _))]
      rfl
    rw [← List.append_assoc, significant_of_run (s := .free) rfl hbreak (.inl rfl),
      significant_of_run (s := .free) rfl (t := ['\r', '\n']) rfl (.inl rfl)]

/-! ### The machine on trivia that were read -/

section Fronts

variable {k : TokenKind} {x w : Text} (hfront : front (x ++ w) = (k, x.length))

include hfront

theorem run_whitespace (hk : k = .whitespace) : Scan.free.run x = some .free := by
  subst hk
  obtain ⟨p, z, y, hp, rfl, hz, hm, hextend, -⟩ := exists_rule hfront nofun
  obtain rfl : p = plus (.one isSpace) := by simpa [rules] using hp
  have hlength : (z ++ y).length = z.length := congrArg Prod.snd (hfront.symm.trans hextend)
  obtain rfl : y = [] := by
    rw [List.length_append] at hlength
    exact List.length_eq_zero_iff.1 (by omega)
  rw [List.append_nil]
  exact Scan.run_space (matches_whitespace.1 hm).2

theorem run_blockComment (hk : k = .blockComment) : Scan.free.run x = some .free := by
  subst hk
  obtain ⟨p, z, y, hp, rfl, hz, hm, hextend, -⟩ := exists_rule hfront nofun
  obtain rfl : p = lit ['/', '*'] := by simpa [rules] using hp
  obtain rfl : z = ['/', '*'] := matches_lit.1 hm
  rw [hfront] at hextend
  have hdrop : (['/', '*'] ++ y ++ w).drop ['/', '*'].length = y ++ w := rfl
  simp only [extend, hdrop] at hextend
  split at hextend
  · rename_i m hextent
    obtain ⟨n, hn, rfl⟩ := Option.map_eq_some_iff.1 hextent
    have hlength : n + 2 = y.length := by
      have := congrArg Prod.snd hextend
      simp only [List.length_append, List.length_cons, List.length_nil] at this
      omega
    have hlocate : Text.locate? ['*', '/'] (y ++ []) = some n := Text.locate?_append hn (Nat.le_of_eq hlength)
    rw [List.append_nil] at hlocate
    exact (Scan.run_block hlength).1 hlocate
  · cases hextend

/-- A line comment leaves the machine in a line, and a break or nothing follows. -/
theorem run_lineComment (hk : k = .lineComment) :
    (∃ s, s.closed = true ∧ Scan.free.run x = some s) ∧ (w = [] ∨ w.head? = some '\n') := by
  subst hk
  obtain ⟨p, z, y, hp, rfl, hz, hm, hextend, -⟩ := exists_rule hfront nofun
  obtain rfl : p = lineComment := by simpa [rules] using hp
  have hlength : (z ++ y).length = z.length := congrArg Prod.snd (hfront.symm.trans hextend)
  obtain rfl : y = [] := by
    rw [List.length_append] at hlength
    exact List.length_eq_zero_iff.1 (by omega)
  simp only [List.append_nil] at hfront ⊢
  obtain ⟨hbreak, hopener⟩ := matches_lineComment.1 hm
  constructor
  · rcases hopener with ⟨u, rfl⟩ | ⟨u, rfl, hbracket⟩
    · exact ⟨.line, rfl, Scan.run_line (by simpa using hbreak)⟩
    · cases u with
      | nil => exact ⟨.sharp, rfl, rfl⟩
      | cons c u =>
        simp only [List.mem_cons, not_or] at hbreak
        refine ⟨.line, rfl, ?_⟩
        show Scan.sharp.run (c :: u) = some .line
        rw [Scan.run_cons, Scan.step, if_neg fun h => hbracket (congrArg some h), if_neg fun h => hbreak.2.1 h.symm]
        exact Scan.run_line hbreak.2.2
  · -- Another character would belong to the comment.
    cases w with
    | nil => exact .inl rfl
    | cons c w =>
      refine .inr (Decidable.byContradiction fun hc => ?_)
      have hlonger : Matches lineComment (z ++ [c]) := by
        refine matches_lineComment.2 ⟨?_, ?_⟩
        · simp only [List.mem_append, List.mem_singleton, not_or]
          exact ⟨hbreak, fun h => hc (congrArg some h.symm)⟩
        · rcases hopener with ⟨u, rfl⟩ | ⟨u, rfl, hbracket⟩
          · exact .inl ⟨u ++ [c], rfl⟩
          · refine .inr ⟨u ++ [c], rfl, ?_⟩
            cases u with
            | nil =>
              -- With a bracket the lexeme would open an attribute.
              rintro hhead
              obtain rfl : c = '[' := Option.some.inj hhead
              have hle := length_le_of_front hfront nofun (r := (.attrOpen, lit "#[".toList)) (s := ['#', '['])
                (by simp [rules]) (by simp) (matches_lit.2 rfl)
              exact absurd hle (by decide)
            | cons d u => exact hbracket
      have hle := length_le_of_front hfront nofun (r := (.lineComment, lineComment)) (s := z ++ [c])
        (by simp [rules]) (by simp) hlonger
      rw [List.length_append, List.length_singleton] at hle
      omega

end Fronts

/-- The machine goes through a lexeme of trivia.  Behind it the machine is free, or it is in a line comment that a break
or the end of the text closes. -/
theorem exists_run_lexeme {l : Lexeme} {w : Text} (hl : l.text ≠ []) (hk : l.kind.isTrivia = true)
    (h : lexeme (l.text ++ w) = l) : ∃ s : Scan, s.closed = true ∧ Scan.free.run l.text = some s ∧
      (s = .free ∨ w = [] ∨ w.head? = some '\n') := by
  have hfront := (lexeme_append hl).1 h
  have hkinds : l.kind = .whitespace ∨ l.kind = .blockComment ∨ l.kind = .lineComment := by
    revert hk
    cases l.kind <;> decide
  rcases hkinds with hkind | hkind | hkind
  · exact ⟨.free, rfl, run_whitespace hfront hkind, .inl rfl⟩
  · exact ⟨.free, rfl, run_blockComment hfront hkind, .inl rfl⟩
  · obtain ⟨⟨s, hs, hrun⟩, hbehind⟩ := run_lineComment hfront hkind
    exact ⟨s, hs, hrun, .inr hbehind⟩

/-- A lexeme of trivia does not leave the code. -/
theorem next_of_isTrivia {l : Lexeme} {t : Text} {m : Mode} (h : next .code t = (l, m)) (hk : l.kind.isTrivia = true) :
    m = .code := by
  have hclose : l.kind ≠ .closeTag := by
    intro h
    rw [h] at hk
    cases hk
  have hlexeme : lexeme t = l := congrArg Prod.fst h
  simp only [next, hlexeme, if_neg hclose] at h
  exact (congrArg Prod.snd h).symm

/-- In code every skipped lexeme is trivia. -/
theorem Reads.isTrivia_of_isSkipped {t w : Text} {ls : List Lexeme} {m : Mode} (h : Reads .code t w ls m)
    (hskipped : ∀ l ∈ ls, l.kind.isSkipped = true) : ∀ l ∈ ls, l.kind.isTrivia = true := by
  generalize hm : Mode.code = m' at h
  induction h with
  | nil => exact nofun
  | @cons m m' m'' l x w ls hl hnext hrest ih =>
    subst hm
    obtain ⟨hk, hls⟩ := List.forall_mem_cons.1 hskipped
    have htrivia : l.kind.isTrivia = true := by
      by_cases herror : l.kind = .error
      · rw [herror] at hk
        cases hk
      · have htag := (kind_of_next_code hnext hl herror).1
        simp only [List.mem_cons, List.not_mem_nil, or_false, not_or] at htag
        simpa [TokenKind.isSkipped, htag.2] using hk
    exact List.forall_mem_cons.2 ⟨htrivia, ih hls (next_of_isTrivia hnext htrivia).symm⟩

/-- The machine goes through trivia.  Behind them it is free, or it is in a line comment that a break or the end of the
text closes. -/
theorem Reads.exists_run {t w : Text} {ls : List Lexeme} {m : Mode} (h : Reads .code t w ls m)
    (htrivia : ∀ l ∈ ls, l.kind.isTrivia = true) : m = .code ∧ ∃ s : Scan, s.closed = true ∧ Scan.free.run t = some s ∧
      (s = .free ∨ w = [] ∨ w.head? = some '\n') := by
  generalize hm : Mode.code = m' at h
  induction h with
  | nil =>
    subst hm
    exact ⟨rfl, .free, rfl, rfl, .inl rfl⟩
  | @cons m m' m'' l x w ls hl hnext hrest ih =>
    subst hm
    obtain ⟨hk, hls⟩ := List.forall_mem_cons.1 htrivia
    have hmode := next_of_isTrivia hnext hk
    obtain ⟨hlast, s, hs, hrun, hend⟩ := ih hls hmode.symm
    obtain ⟨s', hs', hrun', hbehind⟩ := exists_run_lexeme hl hk (congrArg Prod.fst hnext)
    refine ⟨hlast.trans hmode, ?_⟩
    cases ls with
    | nil =>
      cases hrest
      exact ⟨s', hs', by rwa [List.append_nil], hbehind⟩
    | cons k ls =>
      refine ⟨s, hs, ?_, hend⟩
      rw [Scan.run_append, hrun', Option.bind_some, Scan.run_behind hs' hrest.ne_nil (hbehind), hrun]

end Lexer

end Graft
