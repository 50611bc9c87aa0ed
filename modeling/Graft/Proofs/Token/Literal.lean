/-
Literals as lexemes.

A literal that stands between two edges of the code is cut where it was written: quoted text, digits and words are one
lexeme each, and a minus before digits is a lexeme of its own.

* `Firm` — a lexeme that is read unless a longer one begins there;
* `firm_quote`, `firm_digits`, `firm_word`, `lexeme_minus` — the parts of literals;
* `lexemesOf_quote` — a quoted value is read back, whatever follows it;
* `Spelling` — the lexemes that a value is written as.
-/
import Graft.Edit.Scalar
import Graft.Print.Fresh
import Graft.Proofs.Literal.Number
import Graft.Proofs.Token.Trivia

namespace Graft

/-! ### What the rules match -/

namespace TokenTable

open Pattern

theorem mem_of_isDigit {c : Char} (h : c.isDigit = true) : c ∈ "0123456789".toList := by
  have hall : ∀ n, n ≤ '9'.toNat → '0'.toNat ≤ n → Char.ofNat n ∈ "0123456789".toList := by decide
  simp only [Char.isDigit, Bool.and_eq_true, decide_eq_true_eq] at h
  have hc := hall c.toNat (UInt32.le_iff_toNat_le.1 h.2) (UInt32.le_iff_toNat_le.1 h.1)
  rwa [Char.ofNat_toNat] at hc

/-- Only numbers begin with a digit. -/
theorem step_digit_rules : ∀ rule ∈ rules, rule.1 ∉ [.int, .float] →
    ("0123456789".toList.all fun c => (rule.2.step c).isFail) = true := by decide

/-- Only names begin with one of these letters. -/
theorem step_letter_rules : ∀ rule ∈ rules, rule.1 ≠ .ident →
    (['t', 'f', 'n', 'r'].all fun c => (rule.2.step c).isFail) = true := by decide

/-- Only operators begin with a minus. -/
theorem step_minus_rules : ∀ rule ∈ rules, rule.1 ≠ .op → (rule.2.step '-').isFail = true := by decide

/-- In no operator a digit follows a minus. -/
theorem minus_operators : ∀ o ∈ operators, o.toList.head? = some '-' →
    (o.toList[1]?.all fun c => !c.isDigit) = true := by decide

theorem matches_digits {t : Text} (hne : t ≠ []) (h : ∀ c ∈ t, c.isDigit = true) : Matches intLiteral t := by
  obtain ⟨c, t, rfl⟩ := List.exists_cons_of_ne_nil hne
  obtain ⟨hc, ht⟩ := List.forall_mem_cons.1 h
  refine matches_any.2 ⟨decimalDigits, List.mem_cons_self, ?_⟩
  refine matches_seq.2 ⟨[c], t, rfl, .one hc, matches_star_one.2 fun d hd => ?_⟩
  rw [isDigitPart, ht d hd, Bool.true_or]

/-- A float has a point or an exponent. -/
theorem exists_of_matches_float {t : Text} (h : Matches floatLiteral t) : ∃ c ∈ t, c ∈ ['.', 'e', 'E'] := by
  have point : ∀ {s : Text}, Matches (lit ".".toList) s → ∃ c ∈ s, c ∈ ['.', 'e', 'E'] := by
    intro s hs
    rw [matches_lit.1 hs]
    exact ⟨'.', by decide, by decide⟩
  have letter : ∀ {s : Text}, Matches exponent s → ∃ c ∈ s, c ∈ ['.', 'e', 'E'] := by
    intro s hs
    obtain ⟨s₁, s₂, rfl, h₁, -⟩ := matches_seq.1 hs
    obtain ⟨c, rfl, hc⟩ := matches_one.1 h₁
    have hletters : "eE".toList ⊆ ['.', 'e', 'E'] := by decide
    exact ⟨c, List.mem_append_left _ (List.mem_singleton_self c), hletters (List.contains_iff_mem.1 hc)⟩
  have left : ∀ {s u : Text}, (∃ c ∈ s, c ∈ ['.', 'e', 'E']) → ∃ c ∈ s ++ u, c ∈ ['.', 'e', 'E'] := by
    rintro s u ⟨c, hc, hmem⟩
    exact ⟨c, List.mem_append_left _ hc, hmem⟩
  have right : ∀ {s u : Text}, (∃ c ∈ u, c ∈ ['.', 'e', 'E']) → ∃ c ∈ s ++ u, c ∈ ['.', 'e', 'E'] := by
    rintro s u ⟨c, hc, hmem⟩
    exact ⟨c, List.mem_append_right _ hc, hmem⟩
  obtain ⟨p, hp, hm⟩ := matches_any.1 h
  simp only [List.mem_cons, List.not_mem_nil, or_false] at hp
  rcases hp with rfl | rfl | rfl
  · obtain ⟨s₁, s₂, rfl, -, h₂⟩ := matches_seq.1 hm
    obtain ⟨s₃, s₄, rfl, h₃, -⟩ := matches_seq.1 h₂
    exact right (left (point h₃))
  · obtain ⟨s₁, s₂, rfl, h₁, -⟩ := matches_seq.1 hm
    exact left (point h₁)
  · obtain ⟨s₁, s₂, rfl, -, h₂⟩ := matches_seq.1 hm
    exact right (letter h₂)

/-- An escaped text stands between quotes. -/
theorem matches_escapeSingle (t : Text) : Matches (quotedBody '\'') (Literal.escapeSingle t) := by
  induction t with
  | nil => exact .stop
  | cons c t ih =>
    have hcons : Literal.escapeSingle (c :: t) =
        (if c = '\\' ∨ c = '\'' then ['\\', c] else [c]) ++ Literal.escapeSingle t := rfl
    rw [hcons]
    split
    · exact matches_quotedBody_cons.2 (.inr ⟨rfl, c, _, rfl, ih⟩)
    · rename_i hc
      rw [not_or] at hc
      exact matches_quotedBody_cons.2 (.inl ⟨hc.2, hc.1, ih⟩)

theorem matches_quote (t : Text) : Matches (quoted '\'') (Literal.quote t) :=
  .seq (s := ['\'']) (matches_lit.2 rfl) (.seq (matches_escapeSingle t) (matches_lit.2 rfl))

end TokenTable

/-! ### Firm lexemes -/

namespace Lexer

open TokenTable Pattern

/-- Where the text of the lexeme stands in code it is read as the lexeme, unless a longer one begins there. -/
def Firm (l : Lexeme) : Prop :=
  l.text ≠ [] ∧ ∀ w, (lexeme (l.text ++ w)).text.length ≤ l.text.length → lexeme (l.text ++ w) = l

/-- A text that a rule matches is firm when no rule of another kind matches it. -/
theorem firm_of_matches {k : TokenKind} {p : Pattern} {x : Text} (hp : (k, p) ∈ rules) (hm : Matches p x)
    (hkind : ∀ rule ∈ rules, Matches rule.2 x → rule.1 = k) (hk : k ∉ [.blockComment, .heredoc]) :
    Firm ⟨k, x⟩ := by
  have hx : x ≠ [] := by
    intro hnil
    have hnull := nullable_rules _ hp
    rw [hnil, ← nullable_iff, hnull] at hm
    cases hm
  refine ⟨hx, fun w hlength => ?_⟩
  simp only at hlength ⊢
  have hne : x ++ w ≠ [] := by simp [hx]
  have htake : (x ++ w).take x.length = x := List.take_left
  rw [lexeme_eq_take hne, List.length_take, Nat.min_eq_left (bounds_of_front hne).2] at hlength
  refine (lexeme_append hx).2 ?_
  cases hlong : p.longest? (x ++ w) with
  | none => exact absurd (htake.symm ▸ hm) (longest?_eq_none_iff.1 hlong x.length)
  | some m =>
    obtain ⟨l, n, hbest, -⟩ := le_of_longestOf (r := (k, p)) hp hlong
    have hxn : x.length ≤ n := length_le_of_longestOf hbest hp (List.prefix_append x w) hm
    have hfront : front (x ++ w) = extend (x ++ w) (l, n) := by rw [front, hbest]
    have hle := le_extend (x ++ w) (l, n)
    rw [← hfront] at hle
    obtain rfl : n = x.length := Nat.le_antisymm (Nat.le_trans hle hlength) hxn
    obtain ⟨q, hq, hn⟩ := longestOf_eq_some hbest
    have hmatch := (longest?_eq_some_iff.1 hn).2.1
    rw [htake] at hmatch
    obtain rfl : l = k := hkind _ hq hmatch
    rw [hfront, extend_of_not_mem hk]

/-- A quoted text is one lexeme whatever follows it: the table matches it, and no rule matches more. -/
theorem lexeme_quote (t w : Text) : lexeme (Literal.quote t ++ w) = ⟨.string, Literal.quote t⟩ := by
  have hne : Literal.quote t ≠ [] := List.cons_ne_nil _ _
  have hkind : ∀ rule ∈ rules, ∀ s, s <+: Literal.quote t ++ w → Matches rule.2 s → rule.1 = .string := by
    intro rule hrule s hs hm
    obtain ⟨u, rfl, -⟩ := head?_of_matches hrule hs hm
    refine Decidable.byContradiction fun hk => ?_
    exact hm.head?_ne ((step_quote_rules rule hrule).1 (by simpa using hk)).1 rfl
  have hfound : longestOf rules (Literal.quote t ++ w) = some (.string, (Literal.quote t).length) := by
    refine longestOf_eq (p := .alt (quoted '\'') (quoted '"')) (by simp [rules]) (List.prefix_append _ w)
      (.left (matches_quote t)) (fun rule hrule s hs hm => ?_)
      fun rule hrule hk s hs hm => absurd (hkind rule hrule s hs hm) hk
    obtain ⟨k, p⟩ := rule
    obtain rfl : k = .string := hkind _ hrule s hs hm
    obtain rfl : p = .alt (quoted '\'') (quoted '"') := by simpa [rules] using hrule
    have hquoted : Matches (quoted '\'') s := by
      obtain ⟨u, rfl, -⟩ := head?_of_matches hrule hs hm
      refine (matches_alt.1 hm).resolve_right fun hdouble => ?_
      cases head?_quoted hdouble
    -- A longer match would go on behind the closing quote.
    refine Nat.le_of_not_lt fun hlt => ?_
    obtain ⟨v, rfl⟩ := List.prefix_of_prefix_length_le (List.prefix_append _ w) hs (Nat.le_of_lt hlt)
    rw [quoted_unique (by decide) (matches_quote t) hquoted, List.append_nil] at hlt
    exact Nat.lt_irrefl _ hlt
  refine (lexeme_append hne).2 ?_
  rw [front, hfound]
  rfl

theorem firm_quote (t : Text) : Firm ⟨.string, Literal.quote t⟩ :=
  ⟨List.cons_ne_nil _ _, fun w _ => lexeme_quote t w⟩

/-- Writing a value in quotes is undone by reading: whatever follows, code that begins with the quoted value begins with
that one lexeme and goes on behind it, and the value of the lexeme is the one that was written. -/
theorem lexemesOf_quote (t w : Text) :
    lexemesOf .code (Literal.quote t ++ w) = ⟨.string, Literal.quote t⟩ :: lexemesOf .code w ∧
      Literal.decode? (Literal.quote t) = some t := by
  have hnext : next .code (Literal.quote t ++ w) = (⟨.string, Literal.quote t⟩, .code) := by
    simp only [next, lexeme_quote]
    rfl
  have hne : Literal.quote t ++ w ≠ [] := List.append_ne_nil_of_left_ne_nil (List.cons_ne_nil _ _) w
  refine ⟨?_, Literal.decode?_quote t⟩
  rw [lexemesOf_cons .code hne, hnext, List.drop_left]

theorem firm_digits {t : Text} (hne : t ≠ []) (h : ∀ c ∈ t, c.isDigit = true) : Firm ⟨.int, t⟩ := by
  refine firm_of_matches (p := intLiteral) (by simp [rules]) (matches_digits hne h) (fun rule hrule hm => ?_) (by decide)
  obtain ⟨c, t, rfl⟩ := List.exists_cons_of_ne_nil hne
  refine Decidable.byContradiction fun hk => ?_
  by_cases hfloat : rule.1 = .float
  · have hp : rule.2 = floatLiteral := by
      obtain ⟨k, p⟩ := rule
      obtain rfl : k = .float := hfloat
      simpa [rules] using hrule
    obtain ⟨d, hd, hmem⟩ := exists_of_matches_float (hp ▸ hm)
    have hall : (['.', 'e', 'E'].all fun c => !c.isDigit) = true := by decide
    have hdigit := List.all_eq_true.1 hall d hmem
    rw [h d hd] at hdigit
    cases hdigit
  · have hfail := step_digit_rules rule hrule (by simp [hk, hfloat])
    exact hm.head?_ne (List.all_eq_true.1 hfail c (mem_of_isDigit (h c List.mem_cons_self))) rfl

theorem firm_word {c : Char} {t : Text} (hc : c ∈ ['t', 'f', 'n', 'r']) (ht : t.all isLabelPart = true) :
    Firm ⟨.ident, c :: t⟩ := by
  have hstarts : ['t', 'f', 'n', 'r'].all isLabelStart = true := by decide
  have hstart := List.all_eq_true.1 hstarts c hc
  refine firm_of_matches (p := label) (by simp [rules])
    (matches_seq.2 ⟨[c], t, rfl, .one hstart, matches_star_one.2 (List.all_eq_true.1 ht)⟩) (fun rule hrule hm => ?_)
    (by decide)
  refine Decidable.byContradiction fun hk => hm.head?_ne ?_ rfl
  exact List.all_eq_true.1 (step_letter_rules rule hrule hk) c hc

theorem firm_arrow : Firm ⟨.fatArrow, "=>".toList⟩ := by
  have hall : ∀ rule ∈ rules, (steps rule.2 "=>".toList).nullable = true → rule.1 = .fatArrow := by decide
  refine firm_of_matches (p := lit "=>".toList) (by simp [rules]) (matches_lit.2 rfl) (fun rule hrule hm => ?_) (by decide)
  exact hall rule hrule ((nullable_iff _).2 (matches_steps.2 (by rwa [List.append_nil])))

/-- A passage of code with the text of a firm lexeme is that lexeme. -/
theorem Firm.eq_of_reads {l : Lexeme} {w : Text} {ls : List Lexeme} {m : Mode} (hl : Firm l)
    (h : Reads .code l.text w ls m) : ls = [l] := by
  generalize hx : l.text = x at h
  cases h with
  | nil => exact absurd hx hl.1
  | @cons _ m' _ k y _ ls hk hnext hrest =>
    have hlexeme : lexeme (l.text ++ w) = k := by
      rw [hx, List.append_assoc]
      exact congrArg Prod.fst hnext
    have hsame : k = l := by
      rw [← hlexeme]
      refine hl.2 w ?_
      rw [hlexeme, hx, List.length_append]
      exact Nat.le_add_right _ _
    subst hsame
    obtain rfl : y = [] := List.append_cancel_left (hx.symm.trans (List.append_nil _).symm)
    cases ls with
    | nil => rfl
    | cons l' ls => exact absurd rfl hrest.ne_nil

/-- A firm lexeme stands before a text over whose beginning nothing goes on. -/
theorem Firm.lexeme_eq {l : Lexeme} {w : Text} (hl : Firm l) (hkind : l.kind ∈ [.string, .int, .ident, .fatArrow])
    (hw : Parts w) : lexeme (l.text ++ w) = l := by
  have hnil : lexeme (l.text ++ []) = l := by
    refine hl.2 [] ?_
    rw [lexeme_eq_take (by simp [hl.1]), List.length_take, List.append_nil]
    exact Nat.min_le_right _ _
  have hkinds : ∀ k ∈ [TokenKind.string, .int, .ident, .fatArrow],
      k ∉ [.error, .op, .question] ∧ k ∉ [.whitespace, .lineComment] := by decide
  obtain ⟨hk, hrun⟩ := hkinds _ hkind
  simp only [List.mem_cons, List.not_mem_nil, or_false, not_or] at hk
  -- A slash and a question mark are lexemes of other kinds.
  have hsingle : ∀ c k, l.text = [c] → lexeme [c] = ⟨k, [c]⟩ → l.kind = k := by
    intro c k htext hc
    rw [htext, List.append_nil, hc] at hnil
    exact congrArg Lexeme.kind hnil.symm
  refine (lexeme_append hl.1).2 (front_of_agrees ((lexeme_append hl.1).1 hnil) hk.1 hl.1 hw.agrees
    (.inr (.inr ⟨hrun, .inr ⟨fun htext => ?_, fun htext => ?_⟩⟩)))
  · exact hk.2.1 (hsingle '/' .op htext (by decide))
  · exact hk.2.2 (hsingle '?' .question htext (by decide))

theorem Firm.splits {l : Lexeme} {w : Text} (hl : Firm l) (hkind : l.kind ∈ [.string, .int, .ident, .fatArrow])
    (hw : Parts w) : Splits .code l.text w [l] .code := by
  have hkinds : ∀ k ∈ [TokenKind.string, .int, .ident, .fatArrow], k ≠ .closeTag ∧ k.isTrivia = false := by decide
  obtain ⟨hclose, htrivia⟩ := hkinds _ hkind
  exact splits_of_next hl.1 (next_of_lexeme hclose (hl.lexeme_eq hkind hw)) htrivia

theorem Firm.significant_append {l : Lexeme} {w : Text} (hl : Firm l)
    (hkind : l.kind ∈ [.string, .int, .ident, .fatArrow]) (hw : Parts w) :
    significant .code (l.text ++ w) = l :: significant .code w := (hl.splits hkind hw).significant

/-- A minus before a digit stands alone. -/
theorem lexeme_minus {c : Char} (hc : c.isDigit = true) (w : Text) : lexeme ('-' :: c :: w) = ⟨.op, ['-']⟩ := by
  have hbegins : ∀ rule ∈ rules, ∀ s, s <+: '-' :: c :: w → Matches rule.2 s → rule.1 = .op := by
    intro rule hrule s hs hm
    obtain ⟨u, rfl, -⟩ := head?_of_matches hrule hs hm
    exact Decidable.byContradiction fun hk => hm.head?_ne (step_minus_rules rule hrule hk) rfl
  have hlength : ∀ rule ∈ rules, ∀ s, s <+: '-' :: c :: w → Matches rule.2 s → s.length ≤ 1 := by
    intro rule hrule s hs hm
    have hkind := hbegins rule hrule s hs hm
    obtain ⟨k, p⟩ := rule
    obtain rfl : k = .op := hkind
    obtain rfl : p = any (operators.map fun s => lit s.toList) := by simpa [rules] using hrule
    obtain ⟨q, hq, hm⟩ := matches_any.1 hm
    obtain ⟨o, ho, rfl⟩ := List.mem_map.1 hq
    rw [matches_lit.1 hm] at hs ⊢
    -- A second character would be the digit.
    refine Nat.le_of_not_lt fun hlt => ?_
    obtain ⟨d, e, u, ho'⟩ : ∃ d e u, o.toList = d :: e :: u := by
      rcases h : o.toList with _ | ⟨d, _ | ⟨e, u⟩⟩
      · simp [h] at hlt
      · simp [h] at hlt
      · exact ⟨d, e, u, rfl⟩
    rw [ho'] at hs
    obtain ⟨hd, hs⟩ := List.cons_prefix_cons.1 hs
    obtain ⟨he, -⟩ := List.cons_prefix_cons.1 hs
    have hdigit := minus_operators o ho (by rw [ho', hd]; rfl)
    simp [ho', he, hc] at hdigit
  have hfound : longestOf rules ('-' :: c :: w) = some (.op, 1) := by
    refine longestOf_eq (x := ['-']) (p := any (operators.map fun s => lit s.toList)) (by simp [rules])
      (List.prefix_append ['-'] _) ?_ hlength fun rule hrule hk s hs hm => absurd (hbegins rule hrule s hs hm) hk
    exact matches_any.2 ⟨lit ['-'], List.mem_map.2 ⟨"-", by decide, rfl⟩, matches_lit.2 rfl⟩
  refine (lexeme_append (x := ['-']) (List.cons_ne_nil _ _)).2 ?_
  rw [front, List.singleton_append, hfound]
  rfl

/-- A separator or a bracket is read before any text. -/
theorem splits_closer {l : Lexeme} (hl : l ∈ closers) (hclose : l.kind ≠ .closeTag) (w : Text) :
    Splits .code l.text w [l] .code := by
  have htrivia : ∀ l ∈ closers, l.kind.isTrivia = false := by decide
  exact splits_of_next (longestOf_closers l hl).2.2.1 (next_of_lexeme hclose (lexeme_closer hl w)) (htrivia l hl)

theorem significant_closer {l : Lexeme} (hl : l ∈ closers) (hclose : l.kind ≠ .closeTag) (w : Text) :
    significant .code (l.text ++ w) = l :: significant .code w := (splits_closer hl hclose w).significant

/-! ### Literals in code -/

/-- The lexemes that a value is written as. -/
inductive Spelling : Scalar → List Lexeme → Prop
  | string (t : Text) : Spelling (.string t) [⟨.string, Literal.quote t⟩]
  | natural (n : Nat) : Spelling (.int n) [⟨.int, Text.ofNat n⟩]
  | negative (n : Nat) : Spelling (.int (.negSucc n)) [⟨.op, ['-']⟩, ⟨.int, Text.ofNat (n + 1)⟩]
  | yes : Spelling (.bool true) [⟨.ident, "true".toList⟩]
  | no : Spelling (.bool false) [⟨.ident, "false".toList⟩]
  | null : Spelling .null [⟨.ident, "null".toList⟩]

/-- The text of the lexemes is the literal. -/
theorem Spelling.flatMap {v : Scalar} {ls : List Lexeme} (h : Spelling v ls) (p : Page) :
    ls.flatMap Lexeme.text = p.literal v.toExpr := by
  cases h <;> simp [Scalar.toExpr, Page.literal, Expr.freshConst, Name.fresh, Text.ofInt]

/-- The parsers see all lexemes of a literal. -/
theorem Spelling.isSkipped {v : Scalar} {ls : List Lexeme} (h : Spelling v ls) :
    ∀ l ∈ ls, l.kind.isSkipped = false := by
  cases h <;> simp [TokenKind.isSkipped, TokenKind.isTrivia]

theorem firm_ofNat (n : Nat) : Firm ⟨.int, Text.ofNat n⟩ :=
  firm_digits (Text.ofNat_ne_nil n) fun _ hc => Text.isDigit_of_mem_ofNat hc

/-- The last lexeme of a literal is firm, and before it there is at most a minus. -/
theorem Spelling.exists_firm {v : Scalar} {ls : List Lexeme} (h : Spelling v ls) :
    ∃ l, Firm l ∧ l.kind ∈ [.string, .int, .ident, .fatArrow] ∧
      (ls = [l] ∨ ls = [⟨.op, ['-']⟩, l] ∧ ∃ c t, l.text = c :: t ∧ c.isDigit = true) := by
  cases h with
  | string t => exact ⟨_, firm_quote t, by simp, .inl rfl⟩
  | natural n => exact ⟨_, firm_ofNat n, by simp, .inl rfl⟩
  | negative n =>
    obtain ⟨c, t, htext⟩ := List.exists_cons_of_ne_nil (Text.ofNat_ne_nil (n + 1))
    have hc : c ∈ Text.ofNat (n + 1) := by simp [htext]
    exact ⟨_, firm_ofNat (n + 1), by simp, .inr ⟨rfl, c, t, htext, Text.isDigit_of_mem_ofNat hc⟩⟩
  | yes => exact ⟨_, firm_word (c := 't') (t := ['r', 'u', 'e']) (by decide) (by decide), by decide, .inl rfl⟩
  | no => exact ⟨_, firm_word (c := 'f') (t := ['a', 'l', 's', 'e']) (by decide) (by decide), by decide, .inl rfl⟩
  | null => exact ⟨_, firm_word (c := 'n') (t := ['u', 'l', 'l']) (by decide) (by decide), by decide, .inl rfl⟩

/-- A passage of code with the text of a literal is read as the lexemes that the value is written as. -/
theorem Spelling.eq_of_reads {v : Scalar} {ls ks : List Lexeme} {w : Text} {m : Mode} (hv : Spelling v ls)
    (h : Reads .code (ls.flatMap Lexeme.text) w ks m) : ks = ls := by
  obtain ⟨l, hl, -, rfl | ⟨rfl, c, t, htext, hc⟩⟩ := hv.exists_firm
  · rw [List.flatMap_singleton] at h
    exact hl.eq_of_reads h
  · rw [List.flatMap_cons, List.flatMap_singleton] at h
    generalize hx : ['-'] ++ l.text = x at h
    cases h with
    | nil => cases hx
    | @cons _ m' _ k y _ ls hk hnext hrest =>
      have hminus : lexeme (k.text ++ (y ++ w)) = ⟨.op, ['-']⟩ := by
        rw [← List.append_assoc, ← hx, htext]
        exact lexeme_minus hc _
      have hsame : k = ⟨.op, ['-']⟩ := (congrArg Prod.fst hnext).symm.trans hminus
      subst hsame
      obtain rfl : l.text = y := List.append_cancel_left hx
      have hmode : m' = .code := by
        have hsnd := congrArg Prod.snd hnext
        simp only [next, hminus] at hsnd
        exact hsnd.symm
      subst hmode
      rw [hl.eq_of_reads hrest]

/-- A literal before a text over whose beginning nothing goes on is read as the lexemes that the value is written as. -/
theorem Spelling.splits {v : Scalar} {ls : List Lexeme} (hv : Spelling v ls) {w : Text} (hw : Parts w) :
    Splits .code (ls.flatMap Lexeme.text) w ls .code := by
  obtain ⟨l, hl, hkind, hls⟩ := hv.exists_firm
  have hlast : Splits .code l.text w [l] .code := hl.splits hkind hw
  rcases hls with rfl | ⟨rfl, c, t, htext, hc⟩
  · rwa [List.flatMap_singleton]
  · have hminus : lexeme (['-'] ++ (l.text ++ w)) = ⟨.op, ['-']⟩ := by
      rw [htext]
      exact lexeme_minus hc _
    have hsign : Splits .code ['-'] (l.text ++ w) [⟨.op, ['-']⟩] .code :=
      splits_of_next (l := ⟨.op, ['-']⟩) (List.cons_ne_nil _ _) (next_of_lexeme nofun hminus) rfl
    rw [List.flatMap_cons, List.flatMap_singleton]
    exact hsign.append hlast

/-- Every value but a float is written. -/
theorem exists_spelling {v : Scalar} (hv : ∀ x, v ≠ .float x) : ∃ ls, Spelling v ls := by
  rcases v with t | n | x | b | _
  · exact ⟨_, .string t⟩
  · cases n with
    | ofNat n => exact ⟨_, .natural n⟩
    | negSucc n => exact ⟨_, .negative n⟩
  · exact absurd rfl (hv x)
  · cases b
    · exact ⟨_, .no⟩
    · exact ⟨_, .yes⟩
  · exact ⟨_, .null⟩

end Lexer

end Graft
