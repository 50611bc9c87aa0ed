/-
Code is read by the longest match.

The rules of the table overlap, and the order in which they stand must not matter.  Rules of different kinds never match
the same text: a word of the finite rules is checked against the whole table, and of the other rules each tells itself
apart by the first character, but for integers and floats, which differ in a letter or a point further behind.

* `kind_unique` — rules of different kinds match different texts;
* `Emits` — the lexeme that a longest match becomes: comments and heredocs are extended;
* `lex_longest_match` — what stands at the front of a text of code that some rule matches;
* `lexeme_heredoc` — what the opener of a heredoc becomes.
-/
import Graft.Proofs.Token.Closing
import Graft.Proofs.Token.Literal
import Graft.Proofs.Token.Modes

namespace Graft

/-! ### Rules of different kinds -/

namespace TokenTable

open Pattern
open Lexer (steps matches_steps)

/-- The kinds whose rules match texts without end. -/
def wideKinds : List TokenKind := [.whitespace, .lineComment, .varName, .ident, .int, .float, .string, .shellExec]

/-- The texts that are the only ones of their rules, with the kinds of these. -/
def fixedWords : List (TokenKind × Text) :=
  [(.blockComment, "/*".toList), (.closeTag, "?>".toList), (.heredoc, "<<<".toList), (.attrOpen, "#[".toList),
    (.lParen, "(".toList), (.rParen, ")".toList), (.lBracket, "[".toList), (.rBracket, "]".toList),
    (.lBrace, "\x7b".toList), (.rBrace, "\x7d".toList), (.semi, ";".toList), (.comma, ",".toList),
    (.backslash, "\\".toList), (.fatArrow, "=>".toList), (.eq, "=".toList), (.doubleColon, "::".toList),
    (.colon, ":".toList), (.amp, "&".toList), (.ellipsis, "...".toList), (.question, "?".toList),
    (.dollar, "$".toList)]

/-- The texts that rules match which are not wide. -/
def words : List (TokenKind × Text) := fixedWords ++ operators.map fun o => (.op, o.toList)

variable {s : Text} {rule rule' : TokenKind × Pattern}

theorem filter_rules : rules.filter (fun rule => !wideKinds.contains rule.1) =
    fixedWords.map (fun word => (word.1, lit word.2)) ++ [(.op, any (operators.map fun o => lit o.toList))] := rfl

/-- A rule that is not wide matches words. -/
theorem mem_words (hrule : rule ∈ rules) (hk : rule.1 ∉ wideKinds) (hm : Matches rule.2 s) : (rule.1, s) ∈ words := by
  have hmem : rule ∈ rules.filter fun rule => !wideKinds.contains rule.1 :=
    List.mem_filter.2 ⟨hrule, by simpa using hk⟩
  rw [filter_rules, List.mem_append, List.mem_map, List.mem_singleton] at hmem
  rcases hmem with ⟨word, hword, rfl⟩ | rfl
  · obtain rfl := matches_lit.1 hm
    exact List.mem_append_left _ hword
  · obtain ⟨p, hp, hm⟩ := matches_any.1 hm
    obtain ⟨o, ho, rfl⟩ := List.mem_map.1 hp
    obtain rfl := matches_lit.1 hm
    exact List.mem_append_right _ (List.mem_map.2 ⟨o, ho, rfl⟩)

/-- No rule of another kind matches a word. -/
theorem words_rules : ∀ word ∈ words, ∀ rule ∈ rules, (steps rule.2 word.2).nullable = true → rule.1 = word.1 := by
  decide +kernel

theorem kind_of_words {word : TokenKind × Text} (hword : word ∈ words) (hrule : rule ∈ rules)
    (hm : Matches rule.2 word.2) : rule.1 = word.1 := by
  refine words_rules word hword rule hrule ((nullable_iff _).2 (matches_steps.2 ?_))
  rwa [List.append_nil]

/-! ### Wide rules -/

/-- The characters that texts of a wide kind begin with; names begin with characters of a class. -/
def headsOf : TokenKind → Text
  | .whitespace => [' ', '\t', '\r', '\n', '\x0c']
  | .lineComment => ['/', '#']
  | .varName => ['$']
  | .int => "0123456789".toList
  | .float => '.' :: "0123456789".toList
  | .string => ['\'', '"']
  | .shellExec => ['`']
  | _ => []

/-- No other wide rule begins with one of these characters, but that both kinds of numbers begin with digits. -/
theorem step_heads_rules : ∀ k ∈ wideKinds, ∀ rule ∈ rules, rule.1 ∈ wideKinds → rule.1 ≠ k →
    (k ∈ [TokenKind.int, .float] → rule.1 ∉ [.int, .float]) → ((headsOf k).all fun c => (rule.2.step c).isFail) = true := by
  decide +kernel

/-- What the pattern matches begins with one of the characters. -/
def Begins (p : Pattern) (cs : Text) : Prop := ∀ t, Matches p t → ∃ c ∈ cs, t.head? = some c

section Begins

variable {p q : Pattern} {cs : Text}

theorem Begins.seq (h : Begins p cs) : Begins (.seq p q) cs := by
  intro t ht
  obtain ⟨u, v, rfl, hu, -⟩ := matches_seq.1 ht
  obtain ⟨c, hc, hhead⟩ := h u hu
  obtain ⟨d, u, rfl⟩ := List.exists_cons_of_ne_nil (List.ne_nil_of_mem (List.mem_of_mem_head? hhead))
  exact ⟨c, hc, hhead⟩

theorem Begins.alt (hp : Begins p cs) (hq : Begins q cs) : Begins (.alt p q) cs :=
  fun t ht => (matches_alt.1 ht).elim (hp t) (hq t)

theorem begins_lit {c : Char} {t : Text} (hc : c ∈ cs) : Begins (lit (c :: t)) cs := by
  intro u hu
  obtain rfl := matches_lit.1 hu
  exact ⟨c, hc, rfl⟩

theorem begins_digits (hcs : "0123456789".toList ⊆ cs) : Begins decimalDigits cs := by
  refine .seq fun t ht => ?_
  obtain ⟨c, rfl, hc⟩ := matches_one.1 ht
  exact ⟨c, hcs (mem_of_isDigit hc), rfl⟩

theorem begins_quoted {c : Char} (hc : c ∈ cs) : Begins (quoted c) cs := fun _ ht => ⟨c, hc, head?_quoted ht⟩

end Begins

theorem begins_whitespace : Begins (plus (.one isSpace)) (headsOf .whitespace) := by
  refine .seq fun t ht => ?_
  obtain ⟨c, rfl, hc⟩ := matches_one.1 ht
  exact ⟨c, mem_of_isSpace hc, rfl⟩

theorem begins_lineComment : Begins lineComment (headsOf .lineComment) :=
  .alt (.seq (begins_lit (by decide))) (.seq (begins_lit (by decide)))

theorem begins_int : Begins intLiteral (headsOf .int) :=
  .alt (begins_digits (List.Subset.refl _)) (.alt (.seq (begins_lit (by decide)))
    (.alt (.seq (begins_lit (by decide))) (.seq (begins_lit (by decide)))))

theorem begins_float : Begins floatLiteral (headsOf .float) :=
  have hdigits : Begins decimalDigits (headsOf .float) := begins_digits (List.subset_cons_self _ _)
  .alt (.seq hdigits) (.alt (.seq (begins_lit (by decide))) (.seq hdigits))

/-- What a wide rule matches, but for names, begins with one of its characters. -/
theorem begins_rules (hrule : rule ∈ rules) (hk : rule.1 ∈ wideKinds) (hident : rule.1 ≠ .ident) :
    Begins rule.2 (headsOf rule.1) := by
  have hmem : rule ∈ rules.filter fun rule => wideKinds.contains rule.1 && rule.1 != .ident :=
    List.mem_filter.2 ⟨hrule, by simp [hk, hident]⟩
  have hwide : rules.filter (fun rule => wideKinds.contains rule.1 && rule.1 != .ident) =
      [(.whitespace, plus (.one isSpace)), (.lineComment, lineComment), (.varName, .seq (lit "$".toList) label),
        (.int, intLiteral), (.float, floatLiteral), (.string, .alt (quoted '\'') (quoted '"')),
        (.shellExec, quoted '`')] := rfl
  rw [hwide] at hmem
  simp only [List.mem_cons, List.not_mem_nil, or_false] at hmem
  rcases hmem with rfl | rfl | rfl | rfl | rfl | rfl | rfl
  · exact begins_whitespace
  · exact begins_lineComment
  · exact .seq (begins_lit (by decide))
  · exact begins_int
  · exact begins_float
  · exact .alt (begins_quoted (by decide)) (begins_quoted (by decide))
  · exact begins_quoted (by decide)

/-! ### Numbers -/

/-- Integers and floats differ: a float has a point or an exponent, which no decimal integer has, and other integers
have the letter of a base, which no float has. -/
theorem not_int_and_float (hint : Matches intLiteral s) (hfloat : Matches floatLiteral s) : False := by
  have hdigits : (['.', 'e', 'E'].any decimalDigits.occurs) = false := by decide
  have hletters : ("xXbBoO".toList.any floatLiteral.occurs) = false := by decide
  have base : ∀ {cs : Text} {p : Pattern}, cs ⊆ "xXbBoO".toList → ¬Matches (all [lit "0".toList, oneOf cs, p]) s := by
    intro cs p hcs hm
    obtain ⟨s₁, s₂, rfl, -, hm⟩ := matches_seq.1 hm
    obtain ⟨s₂, s₃, rfl, hm, -⟩ := matches_seq.1 hm
    obtain ⟨c, rfl, hc⟩ := matches_one.1 hm
    have hoccurs := hfloat.occurs (c := c) (by simp)
    exact List.any_eq_false.1 hletters c (hcs (List.contains_iff_mem.1 hc)) hoccurs
  obtain ⟨p, hp, hm⟩ := matches_any.1 hint
  simp only [List.mem_cons, List.not_mem_nil, or_false] at hp
  rcases hp with rfl | rfl | rfl | rfl
  · obtain ⟨c, hc, hmem⟩ := exists_of_matches_float hfloat
    exact List.any_eq_false.1 hdigits c hmem (hm.occurs hc)
  · exact base (by decide) hm
  · exact base (by decide) hm
  · exact base (by decide) hm

/-! ### All rules -/

/-- There is one rule for numbers of each kind. -/
theorem eq_of_number {p : Pattern} : ((.int, p) ∈ rules → p = intLiteral) ∧ ((.float, p) ∈ rules → p = floatLiteral) := by
  constructor
  · intro h
    simpa [rules] using h
  · intro h
    simpa [rules] using h

/-- Wide rules of different kinds match different texts. -/
theorem kind_unique_wide (hrule : rule ∈ rules) (hrule' : rule' ∈ rules) (hk : rule.1 ∈ wideKinds)
    (hk' : rule'.1 ∈ wideKinds) (hident : rule.1 ≠ .ident) (hm : Matches rule.2 s) (hm' : Matches rule'.2 s) :
    rule.1 = rule'.1 := by
  refine Decidable.byContradiction fun hne => ?_
  by_cases hnumbers : rule.1 ∈ [TokenKind.int, .float] → rule'.1 ∉ [TokenKind.int, .float]
  · -- The first character tells the two apart.
    obtain ⟨c, hc, hhead⟩ := begins_rules hrule hk hident s hm
    have hfail := step_heads_rules _ hk rule' hrule' hk' (Ne.symm hne) hnumbers
    exact hm'.head?_ne (List.all_eq_true.1 hfail c hc) hhead
  · rw [Classical.not_imp, not_not] at hnumbers
    obtain ⟨hnumber, hnumber'⟩ := hnumbers
    obtain ⟨k, p⟩ := rule
    obtain ⟨k', p'⟩ := rule'
    simp only [List.mem_cons, List.not_mem_nil, or_false] at hnumber hnumber' hne hm hm'
    rcases hnumber with rfl | rfl <;> rcases hnumber' with rfl | rfl
    · exact hne rfl
    · rw [eq_of_number.1 hrule] at hm
      rw [eq_of_number.2 hrule'] at hm'
      exact not_int_and_float hm hm'
    · rw [eq_of_number.2 hrule] at hm
      rw [eq_of_number.1 hrule'] at hm'
      exact not_int_and_float hm' hm
    · exact hne rfl

/-- Rules of different kinds match different texts. -/
theorem kind_unique (hrule : rule ∈ rules) (hrule' : rule' ∈ rules) (hm : Matches rule.2 s) (hm' : Matches rule'.2 s) :
    rule.1 = rule'.1 := by
  by_cases hk : rule.1 ∈ wideKinds
  · by_cases hk' : rule'.1 ∈ wideKinds
    · by_cases hident : rule.1 = .ident
      · by_cases hident' : rule'.1 = .ident
        · rw [hident, hident']
        · exact (kind_unique_wide hrule' hrule hk' hk hident' hm' hm).symm
      · exact kind_unique_wide hrule hrule' hk hk' hident hm hm'
    · exact kind_of_words (mem_words hrule' hk' hm') hrule hm
  · exact (kind_of_words (mem_words hrule hk hm) hrule' hm').symm

end TokenTable

/-! ### The lexeme of a longest match -/

namespace Lexer

open TokenTable Pattern

/-- What becomes of a longest match `s` before `after`.  Behind the opener of a comment or of a heredoc the lexeme goes
on to its end, and without one the opener is an error; every other match is a lexeme. -/
inductive Emits (s after : Text) : TokenKind → Lexeme → Prop
  | plain {k : TokenKind} (hk : k ∉ [.blockComment, .heredoc]) : Emits s after k ⟨k, s⟩
  | comment {x rest : Text} (hafter : after = x ++ rest) (hx : BlockComment.IsExtent x rest) :
    Emits s after .blockComment ⟨.blockComment, s ++ x⟩
  | openComment (hopen : ¬"*/".toList <:+: after) : Emits s after .blockComment ⟨.error, s⟩
  | heredoc {x rest : Text} (hafter : after = x ++ rest) (hx : Heredoc.IsExtent x rest) :
    Emits s after .heredoc ⟨.heredoc, s ++ x⟩
  | openHeredoc (hopen : ¬Heredoc.IsClosed after) : Emits s after .heredoc ⟨.error, s⟩

theorem emits_extend (s after : Text) (k : TokenKind) :
    Emits s after k ⟨(extend (s ++ after) (k, s.length)).1, (s ++ after).take (extend (s ++ after) (k, s.length)).2⟩ := by
  have hextent : ∀ x rest, (s ++ (x ++ rest)).take (s.length + x.length) = s ++ x := by
    intro x rest
    rw [← List.append_assoc]
    exact List.take_left' (List.length_append ..)
  by_cases hk : k ∈ [TokenKind.blockComment, .heredoc]
  · simp only [List.mem_cons, List.not_mem_nil, or_false] at hk
    rcases hk with rfl | rfl
    · cases hx : BlockComment.extent? after with
      | none =>
        simp only [extend, List.drop_left, hx, List.take_left]
        exact .openComment (BlockComment.not_infix_of_extent? hx)
      | some n =>
        obtain ⟨x, rest, rfl, rfl, hend⟩ := BlockComment.exists_isExtent hx
        simp only [extend, List.drop_left, hx, hextent]
        exact .comment rfl hend
    · cases hx : Heredoc.extent? after with
      | none =>
        simp only [extend, List.drop_left, hx, List.take_left]
        exact .openHeredoc (Heredoc.not_isClosed hx)
      | some n =>
        obtain ⟨x, rest, rfl, rfl, hend⟩ := Heredoc.exists_isExtent hx
        simp only [extend, List.drop_left, hx, hextent]
        exact .heredoc rfl hend
  · rw [extend_of_not_mem hk, List.take_left]
    exact .plain hk

/-- What the table finds is a match, it is the longest one, and no rule of another kind has a match of its length. -/
theorem longest_of_longestOf {t : Text} {k : TokenKind} {n : Nat} (h : longestOf rules t = some (k, n)) :
    ∃ p s after, (k, p) ∈ rules ∧ t = s ++ after ∧ s.length = n ∧ Matches p s ∧ ∀ rule ∈ rules, ∀ s', s' <+: t →
      Matches rule.2 s' → s'.length ≤ s.length ∧ (s'.length = s.length → rule.1 = k) := by
  obtain ⟨p, hp, hlong⟩ := longestOf_eq_some h
  obtain ⟨hn, hm, -⟩ := longest?_eq_some_iff.1 hlong
  have hlength : (t.take n).length = n := by rw [List.length_take, Nat.min_eq_left hn]
  refine ⟨p, t.take n, t.drop n, hp, (List.take_append_drop n t).symm, hlength, hm, fun rule hrule s' hs' hm' => ?_⟩
  rw [hlength]
  refine ⟨length_le_of_longestOf h hrule hs' hm', fun heq => kind_unique hrule hp ?_ hm⟩
  rwa [← heq, ← List.prefix_iff_eq_take.1 hs']

/-- The lexeme of a text of code that some rule matches comes from the longest match. -/
theorem emits_lexeme {t : Text} (hmatch : ∃ rule ∈ rules, ∃ s, s <+: t ∧ Matches rule.2 s) :
    ∃ k p s after, (k, p) ∈ rules ∧ t = s ++ after ∧ Matches p s ∧
      (∀ rule ∈ rules, ∀ s', s' <+: t → Matches rule.2 s' →
        s'.length ≤ s.length ∧ (s'.length = s.length → rule.1 = k)) ∧ Emits s after k (lexeme t) := by
  obtain ⟨rule, hrule, s, hs, hm⟩ := hmatch
  have hne : t ≠ [] := by
    rintro rfl
    rw [List.prefix_nil.1 hs, ← nullable_iff, nullable_rules rule hrule] at hm
    cases hm
  obtain ⟨k, n, hfound⟩ : ∃ k n, longestOf rules t = some (k, n) := by
    cases hlong : rule.2.longest? t with
    | none =>
      refine absurd ?_ (longest?_eq_none_iff.1 hlong s.length)
      rwa [← List.prefix_iff_eq_take.1 hs]
    | some m =>
      obtain ⟨k, n, hfound, -⟩ := le_of_longestOf hrule hlong
      exact ⟨k, n, hfound⟩
  obtain ⟨p, s, after, hp, rfl, rfl, hm, hmax⟩ := longest_of_longestOf hfound
  refine ⟨k, p, s, after, hp, rfl, hm, hmax, ?_⟩
  have hfront : front (s ++ after) = extend (s ++ after) (k, s.length) := by rw [front, hfound]
  rw [lexeme_eq_take hne, hfront]
  exact emits_extend s after k

/-- A token of code where some rule matches is what becomes of the longest match there: it has the kind of the rule, which
is the kind of every rule with a match of that length. -/
theorem lex_longest_match {src : Text} {pre post : List Token} {t : Token} (h : lex src = pre ++ t :: post)
    (hhtml : t.kind ≠ .inlineHtml) (htag : t.kind ≠ .openTag)
    (hmatch : ∃ rule ∈ rules, ∃ s, s <+: t.text ++ post.flatMap Token.text ∧ Matches rule.2 s) :
    src = pre.flatMap Token.text ++ (t.text ++ post.flatMap Token.text) ∧
    t.start = Text.size (pre.flatMap Token.text) ∧
    ∃ k p s after, (k, p) ∈ rules ∧ t.text ++ post.flatMap Token.text = s ++ after ∧ Matches p s ∧
      (∀ rule ∈ rules, ∀ s', s' <+: t.text ++ post.flatMap Token.text → Matches rule.2 s' →
        s'.length ≤ s.length ∧ (s'.length = s.length → rule.1 = k)) ∧
      Emits s after k t.lexeme := by
  obtain ⟨hsrc, hstart, hne, n, n', -, hnext⟩ := exists_next_of_lex h
  refine ⟨hsrc, hstart, ?_⟩
  obtain rfl := eq_code_of_next hnext htag hhtml
  have hlexeme : lexeme (t.text ++ post.flatMap Token.text) = t.lexeme := congrArg Prod.fst hnext
  rw [← hlexeme]
  exact emits_lexeme hmatch

/-- A heredoc whose closing label is indented, where the operator for shifts matches as well. -/
theorem lex_longest_match_heredoc : ∃ src pre t post,
    src = "<?php <<<X\nXY\n X;".toList ∧ lex src = pre ++ t :: post ∧
    t.lexeme = ⟨.heredoc, "<<<X\nXY\n X".toList⟩ ∧ t.start = Text.size (pre.flatMap Token.text) ∧
    ∃ k p s after, (k, p) ∈ rules ∧ t.text ++ post.flatMap Token.text = s ++ after ∧ Matches p s ∧
      (∀ rule ∈ rules, ∀ s', s' <+: t.text ++ post.flatMap Token.text → Matches rule.2 s' →
        s'.length ≤ s.length ∧ (s'.length = s.length → rule.1 = k)) ∧
      Emits s after k t.lexeme := by
  obtain ⟨src, hsrc, pre, hsplit⟩ : ∃ src, src = "<?php <<<X\nXY\n X;".toList ∧ ∃ pre,
      lex src = pre ++ ⟨.heredoc, 6, "<<<X\nXY\n X".toList⟩ :: [⟨.semi, 16, ";".toList⟩] :=
    ⟨_, rfl, (lex "<?php <<<X\nXY\n X;".toList).take 2, by decide +kernel⟩
  obtain ⟨-, hstart, hlongest⟩ := lex_longest_match hsplit (by decide) (by decide)
    ⟨(.op, any (operators.map fun o => lit o.toList)), by simp [rules], "<<".toList, by decide,
      matches_any.2 ⟨_, List.mem_map.2 ⟨"<<", by decide, rfl⟩, matches_lit.2 rfl⟩⟩
  exact ⟨src, pre, _, _, hsrc, hsplit, rfl, hstart, hlongest⟩

/-! ### Heredocs -/

/-- No rule of another kind gets as far as the opener of a heredoc. -/
theorem step_heredoc_rules : ∀ rule ∈ rules, rule.1 ≠ .heredoc → (steps rule.2 "<<<".toList).isFail = true := by
  decide +kernel

/-- Code that begins with the opener of a heredoc is read as a heredoc through its end, or as a lone opener. -/
theorem lexeme_heredoc_eq (t : Text) : lexeme ("<<<".toList ++ t) = match Heredoc.extent? t with
    | some n => ⟨.heredoc, "<<<".toList ++ t.take n⟩
    | none => ⟨.error, "<<<".toList⟩ := by
  have hothers : ∀ rule ∈ rules, rule.1 ≠ .heredoc → ∀ s, s <+: "<<<".toList ++ t → Matches rule.2 s →
      s.length < "<<<".toList.length := by
    intro rule hrule hk s hs hm
    refine Nat.lt_of_not_le fun hle => ?_
    obtain ⟨v, rfl⟩ := List.prefix_of_prefix_length_le (List.prefix_append _ t) hs hle
    cases (step_heredoc_rules rule hrule hk).symm.trans (matches_steps.2 hm).isFail_eq
  have hfound : longestOf rules ("<<<".toList ++ t) = some (.heredoc, "<<<".toList.length) := by
    refine longestOf_eq (p := lit "<<<".toList) (by simp [rules]) (List.prefix_append _ t) (matches_lit.2 rfl)
      (fun rule hrule s hs hm => ?_) hothers
    by_cases hk : rule.1 = .heredoc
    · obtain ⟨k, p⟩ := rule
      obtain rfl : k = .heredoc := hk
      obtain rfl : p = lit "<<<".toList := by simpa [rules] using hrule
      rw [matches_lit.1 hm]
    · exact Nat.le_of_lt (hothers rule hrule hk s hs hm)
  have hne : "<<<".toList ++ t ≠ [] := List.append_ne_nil_of_left_ne_nil (by decide) t
  rw [lexeme_eq_take hne, front, hfound]
  simp only [extend, List.drop_left]
  cases Heredoc.extent? t with
  | none => rw [List.take_left]
  | some n => rw [List.take_length_add_append]

/-- Behind its opener a heredoc is found exactly where there is an opening line and a later line that closes it, and it
ends with the label on the first such line; the lexeme goes on up to there, and without one the opener is an error. -/
theorem lexeme_heredoc (t : Text) :
    ((∃ n, Heredoc.extent? t = some n) ↔ Heredoc.IsClosed t) ∧
    (∀ n, Heredoc.extent? t = some n ↔ n ≤ t.length ∧ Heredoc.IsExtent (t.take n) (t.drop n)) ∧
    lexeme ("<<<".toList ++ t) = match Heredoc.extent? t with
      | some n => ⟨.heredoc, "<<<".toList ++ t.take n⟩
      | none => ⟨.error, "<<<".toList⟩ :=
  ⟨Heredoc.exists_extent?_iff, fun _ => Heredoc.extent?_eq_some_iff, lexeme_heredoc_eq t⟩

end Lexer

end Graft
