/-
Tokens keep line breaks whole.

Only whitespace begins with a line feed, and only whitespace and comments end with a carriage return.  In a text whose
line feeds all follow carriage returns no break is cut, then, by a token that matters.

* `Pattern.canEnd`, `Matches.canEnd` — the last characters of what a pattern matches;
* `head?_lexeme`, `getLast?_lexeme` — the ends of a lexeme of code;
* `keeps_lex` — the ends of all tokens of a text.
-/
import Graft.Proofs.Text.LineBreak
import Graft.Proofs.Token.Front

namespace Graft

/-! ### The ends of what a pattern matches -/

/-- The pattern may match a text that ends with the character. -/
def Pattern.canEnd (c : Char) : Pattern → Bool
  | .fail => false
  | .empty => false
  | .one p => p c
  | .seq a b => b.canEnd c || (b.nullable && a.canEnd c)
  | .alt a b => a.canEnd c || b.canEnd c
  | .star a => a.canEnd c

namespace Pattern

/-- A text in two parts ends as the second one does, or, when that is empty, as the first one does. -/
theorem getLast?_append_cases {s t : Text} {c : Char} (h : (s ++ t).getLast? = some c) :
    t.getLast? = some c ∨ (t = [] ∧ s.getLast? = some c) := by
  rw [List.getLast?_append] at h
  cases ht : t.getLast? with
  | none =>
    rw [ht, Option.none_or] at h
    exact .inr ⟨List.getLast?_eq_none_iff.1 ht, h⟩
  | some d =>
    rw [ht, Option.some_or] at h
    exact .inl h

theorem Matches.canEnd {p : Pattern} {t : Text} {c : Char} (h : Matches p t) (hc : t.getLast? = some c) :
    p.canEnd c = true := by
  induction h with
  | empty => cases hc
  | one hp =>
    cases hc
    exact hp
  | @seq a b s t hs ht ihs iht =>
    rw [Pattern.canEnd, Bool.or_eq_true, Bool.and_eq_true]
    rcases getLast?_append_cases hc with hlast | ⟨rfl, hlast⟩
    · exact .inl (iht hlast)
    · exact .inr ⟨(nullable_iff b).2 ht, ihs hlast⟩
  | left _ ih =>
    rw [Pattern.canEnd, Bool.or_eq_true]
    exact .inl (ih hc)
  | right _ ih =>
    rw [Pattern.canEnd, Bool.or_eq_true]
    exact .inr (ih hc)
  | stop => cases hc
  | more _ _ ihs iht =>
    rcases getLast?_append_cases hc with hlast | ⟨-, hlast⟩
    · exact iht hlast
    · exact ihs hlast

/-- A pattern that nothing may follow a character in matches no text that begins with it. -/
theorem Matches.head?_ne {p : Pattern} {t : Text} {c : Char} (h : Matches p t) (hc : (p.step c).isFail = true) :
    t.head? ≠ some c := by
  intro hhead
  cases t with
  | nil => cases hhead
  | cons d t =>
    cases hhead
    have hstep := (matches_step c p t).2 h
    cases hp : p.step c with
    | fail =>
      rw [hp] at hstep
      exact matches_fail hstep
    | _ =>
      rw [hp] at hc
      cases hc

end Pattern

/-! ### The ends of a lexeme -/

namespace Lexer

open TokenTable

/-- Only whitespace begins with a line feed. -/
theorem step_rules : ∀ rule ∈ rules, rule.1 ≠ .whitespace → (rule.2.step '\n').isFail = true := by decide

/-- Only whitespace and comments end with a carriage return. -/
theorem canEnd_rules : ∀ rule ∈ rules, rule.1.isTrivia = false → rule.2.canEnd '\r' = false := by decide

variable {t : Text}

/-- A lexeme that was found is left as it is, or a comment or heredoc is extended. -/
theorem extend_cases {found : TokenKind × Nat} (herror : (extend t found).1 ≠ .error) :
    extend t found = found ∨ (found.1 = .blockComment ∧ (extend t found).1 = .blockComment) ∨
      (found.1 = .heredoc ∧
        ∃ m, Heredoc.extent? (t.drop found.2) = some m ∧ extend t found = (.heredoc, found.2 + m)) := by
  unfold extend at herror ⊢
  split at herror
  · split at herror
    · exact .inr (.inl ⟨rfl, rfl⟩)
    · exact absurd rfl herror
  · split at herror
    · rename_i m hm
      exact .inr (.inr ⟨rfl, m, hm, rfl⟩)
    · exact absurd rfl herror
  · exact .inl rfl

/-- What was found is what the table finds, extended. -/
theorem longestOf_of_front (herror : (front t).1 ≠ .error) :
    ∃ n, longestOf rules t = some ((front t).1, n) ∧ front t = extend t ((front t).1, n) := by
  cases hfound : longestOf rules t with
  | none =>
    have hfront : front t = (.error, errorLength t) := by rw [front, hfound]
    rw [hfront] at herror
    exact absurd rfl herror
  | some found =>
    obtain ⟨k, n⟩ := found
    have hfront : front t = extend t (k, n) := by rw [front, hfound]
    rw [hfront] at herror
    -- A lexeme that is extended keeps its kind.
    have hkind : (extend t (k, n)).1 = k := by
      rcases extend_cases herror with hkept | ⟨hcomment, hkind⟩ | ⟨hheredoc, m, -, hkind⟩
      · rw [hkept]
      · rw [hkind]
        exact hcomment.symm
      · rw [hkind]
        exact hheredoc.symm
    rw [hfront, hkind]
    exact ⟨n, rfl, rfl⟩

/-- What was found begins with the longest match of a rule for its kind. -/
theorem rule_of_front (herror : (front t).1 ≠ .error) :
    ∃ p n, ((front t).1, p) ∈ rules ∧ p.longest? t = some n ∧ front t = extend t ((front t).1, n) := by
  obtain ⟨n, hfound, hfront⟩ := longestOf_of_front herror
  obtain ⟨p, hp, hn⟩ := longestOf_eq_some hfound
  exact ⟨p, n, hp, hn, hfront⟩

theorem kind_lexeme (hne : t ≠ []) : (lexeme t).kind = (front t).1 := by rw [lexeme_eq_take hne]

/-- Only whitespace and errors begin with a line feed. -/
theorem head?_lexeme (hne : t ≠ []) (herror : (lexeme t).kind ≠ .error) (hspace : (lexeme t).kind ≠ .whitespace) :
    t.head? ≠ some '\n' := by
  rw [kind_lexeme hne] at herror hspace
  obtain ⟨p, n, hp, hn, -⟩ := rule_of_front herror
  obtain ⟨-, hmatch, -⟩ := Pattern.longest?_eq_some_iff.1 hn
  have hhead := hmatch.head?_ne (step_rules _ hp hspace)
  cases n with
  | zero =>
    -- No rule matches the empty text.
    have hnull := nullable_rules _ hp
    rw [List.take_zero, ← Pattern.nullable_iff, hnull] at hmatch
    cases hmatch
  | succ n =>
    cases t with
    | nil => exact absurd rfl hne
    | cons c t => exact hhead

/-- Only whitespace, comments and errors end with a carriage return. -/
theorem getLast?_lexeme (hne : t ≠ []) (herror : (lexeme t).kind ≠ .error) (htrivia : (lexeme t).kind.isTrivia = false) :
    (lexeme t).text.getLast? ≠ some '\r' := by
  rw [kind_lexeme hne] at herror htrivia
  obtain ⟨p, n, hp, hn, hfront⟩ := rule_of_front herror
  obtain ⟨-, hmatch, -⟩ := Pattern.longest?_eq_some_iff.1 hn
  have hend := canEnd_rules _ hp htrivia
  have hkept := extend_cases (hfront ▸ herror)
  rw [← hfront] at hkept
  rw [lexeme_eq_take hne]
  intro hlast
  rcases hkept with hfound | ⟨hcomment, -⟩ | ⟨-, m, hm, hfound⟩
  · rw [hfound] at hlast
    rw [hmatch.canEnd hlast] at hend
    cases hend
  · have hkind : (front t).1 = .blockComment := hcomment
    rw [hkind] at htrivia
    cases htrivia
  · -- A heredoc ends with its label.
    obtain ⟨before, label, after, hdrop, rfl, hlabel, hparts⟩ := Heredoc.extent?_eq_some hm
    have htake : t.take (n + (before.length + label.length)) = t.take n ++ before ++ label := by
      rw [List.take_add, hdrop, ← List.append_assoc before, List.take_left' (List.length_append ..), List.append_assoc]
    rw [hfound] at hlast
    simp only [htake] at hlast
    rw [Text.getLast?_append_of_ne_nil _ hlabel] at hlast
    have hpart := hparts _ (List.mem_of_getLast? hlast)
    revert hpart
    decide

/-- The name of a variable stands behind a dollar sign. -/
theorem text_of_varName (hne : t ≠ []) (hkind : (lexeme t).kind = .varName) : ∃ name, (lexeme t).text = '$' :: name := by
  rw [kind_lexeme hne] at hkind
  obtain ⟨p, n, hp, hn, hfront⟩ := rule_of_front (by rw [hkind]; decide)
  rw [hkind] at hp hfront
  obtain rfl : p = .seq (.lit "$".toList) label := by simpa [rules] using hp
  obtain ⟨-, hmatch, -⟩ := Pattern.longest?_eq_some_iff.1 hn
  have hfront : front t = (.varName, n) := hfront
  rw [lexeme_eq_take hne, hfront]
  obtain ⟨s, u, htake, hs, -⟩ := Pattern.matches_seq.1 hmatch
  obtain ⟨s₁, s₂, rfl, hs₁, hs₂⟩ := Pattern.matches_seq.1 hs
  cases hs₂
  cases hs₁ with
  | one hc =>
    rw [beq_iff_eq] at hc
    exact ⟨u, by rw [htake, hc]; rfl⟩

/-! ### The ends of an opening tag and of text before it -/

theorem getLast?_openTag {n : Nat} (h : openTag? t = some n) : (t.take n).getLast? ≠ some '\r' := by
  unfold openTag? at h
  split at h
  · cases h
    show some '=' ≠ some '\r'
    decide
  · rename_i p g q rest hequals
    split at h
    · rename_i htag
      cases h
      intro hlast
      have hq : q = '\r' := Option.some.inj hlast
      subst hq
      have hlower := congrArg List.getLast? htag.1
      cases hlower
    · cases h
  · cases h

/-- Text outside of the code ends where an opening tag begins, or with the text. -/
theorem head?_drop_html (t : Text) : (t.drop (html t).length).head? ≠ some '\n' := by
  induction t with
  | nil => exact nofun
  | cons c t ih =>
    rw [html]
    split
    · rename_i htag
      intro hhead
      have hc : c = '\n' := Option.some.inj hhead
      subst hc
      cases htag
    · exact ih

/-! ### The ends of all tokens -/

end Lexer

/-- The token cuts no break of the text: not where it begins, unless it is whitespace, and not where it ends, unless
it is whitespace or a comment; and not behind the dollar sign of a variable. -/
structure Token.Keeps (s : Text) (u : Token) : Prop where
  start : u.kind ≠ .whitespace → s.Clear u.start
  stop : u.kind.isTrivia = false → s.Clear u.stop
  name : u.kind = .varName → s.Clear (u.start + 1)

namespace Lexer

open Text

/-- A break is not cut behind a text that does not end with a carriage return. -/
theorem head?_of_getLast? {s t : Text} (h : Crlf (s ++ t)) (hlast : s.getLast? ≠ some '\r') : t.head? ≠ some '\n' :=
  fun hhead => hlast (h.getLast?_of_head? hhead)

/-- What follows a token that matters does not begin with a line feed. -/
theorem head?_behind_next {mode : Mode} {pre t rest : Text} (hne : t ≠ []) (ht : (next mode t).1.text ++ rest = t)
    (h : Crlf (pre ++ t)) (herror : (next mode t).1.kind ≠ .error) (htrivia : (next mode t).1.kind.isTrivia = false) :
    rest.head? ≠ some '\n' := by
  have hrest : t.drop (next mode t).1.text.length = rest := by
    have hdrop : ((next mode t).1.text ++ rest).drop (next mode t).1.text.length = rest := List.drop_left
    rwa [ht] at hdrop
  -- Most tokens do not end with a carriage return.
  have hbehind : (next mode t).1.text.getLast? ≠ some '\r' → rest.head? ≠ some '\n' := by
    intro hlast
    have htext := (next_text mode hne).1
    rw [← ht, ← List.append_assoc] at h
    refine head?_of_getLast? h ?_
    rwa [getLast?_append_of_ne_nil _ htext]
  cases mode with
  | html =>
    simp only [next] at hrest hbehind
    cases htag : openTag? t with
    | some n =>
      rw [htag] at hbehind
      exact hbehind (getLast?_openTag htag)
    | none =>
      rw [htag] at hrest
      rw [← hrest]
      exact head?_drop_html t
  | code => exact hbehind (getLast?_lexeme hne herror htrivia)

/-- Only whitespace and errors begin with a line feed. -/
theorem head?_of_next {mode : Mode} {t : Text} (hne : t ≠ []) (hmode : mode = .html → t.head? ≠ some '\n')
    (herror : (next mode t).1.kind ≠ .error) (hspace : (next mode t).1.kind ≠ .whitespace) : t.head? ≠ some '\n' := by
  cases mode with
  | html => exact hmode rfl
  | code => exact head?_lexeme hne herror hspace

/-- The mode behind a token: text outside of the code begins with no line feed. -/
theorem head?_of_next_html {mode : Mode} {pre t rest : Text} (hne : t ≠ []) (ht : (next mode t).1.text ++ rest = t)
    (h : Crlf (pre ++ t)) (hmode : (next mode t).2 = .html) : rest.head? ≠ some '\n' := by
  refine head?_behind_next hne ht h ?_ ?_
  all_goals
    cases mode with
    | html =>
      simp only [next]
      cases openTag? t <;> simp [TokenKind.isTrivia]
    | code =>
      simp only [next] at hmode ⊢
      split at hmode
      · rename_i hclose
        rw [hclose]
        decide
      · cases hmode

theorem name_of_next {mode : Mode} {t : Text} (hne : t ≠ []) (hkind : (next mode t).1.kind = .varName) :
    ∃ name, (next mode t).1.text = '$' :: name := by
  cases mode with
  | html =>
    simp only [next] at hkind
    cases htag : openTag? t <;> rw [htag] at hkind <;> cases hkind
  | code => exact text_of_varName hne hkind

/-- The first token of a text keeps its breaks. -/
theorem keeps_next {mode : Mode} {pre t rest : Text} (hne : t ≠ []) (ht : (next mode t).1.text ++ rest = t)
    (h : Crlf (pre ++ t)) (hmode : mode = .html → t.head? ≠ some '\n') (herror : (next mode t).1.kind ≠ .error) :
    Token.Keeps (pre ++ t) ⟨(next mode t).1.kind, pre.size, (next mode t).1.text⟩ where
  start hspace := clear_of_head? (head?_of_next hne hmode herror hspace)
  stop htrivia := by
    have hhead := head?_behind_next hne ht h herror htrivia
    have hclear := clear_of_head? (s := pre ++ (next mode t).1.text) hhead
    rwa [List.append_assoc, ht, size_append] at hclear
  name hkind := by
    obtain ⟨name, hname⟩ := name_of_next hne hkind
    have hsplit : pre ++ t = (pre ++ ['$']) ++ (name ++ rest) := by
      rw [← ht, hname, List.append_assoc]
      rfl
    have hhead := head?_of_getLast? (hsplit ▸ h) (by rw [List.getLast?_concat]; decide)
    have hclear := clear_of_head? (s := pre ++ ['$']) hhead
    rwa [← hsplit, size_append] at hclear

/-- Reading on behind `pre`, every token keeps the breaks of the text. -/
theorem keeps_place {n : Nat} {mode : Mode} (pre : Text) {t : Text} (h : Crlf (pre ++ t))
    (hmode : mode = .html → t.head? ≠ some '\n') :
    ∀ u ∈ place pre.size (lexemes n mode t), u.kind ≠ .error → u.Keeps (pre ++ t) := by
  induction n generalizing mode pre t with
  | zero => exact nofun
  | succ n ih =>
    cases t with
    | nil => exact nofun
    | cons c t =>
      have hne : c :: t ≠ [] := List.cons_ne_nil c t
      obtain ⟨rest, hrest⟩ : ∃ rest, (c :: t).drop (next mode (c :: t)).1.text.length = rest := ⟨_, rfl⟩
      have ht : (next mode (c :: t)).1.text ++ rest = c :: t := hrest ▸ (next_text mode hne).2
      intro u hu herror
      simp only [lexemes, place, hrest] at hu
      rcases List.mem_cons.1 hu with rfl | hu
      · exact keeps_next hne ht h hmode herror
      · -- The rest is read behind the first token.
        have hsplit : pre ++ c :: t = (pre ++ (next mode (c :: t)).1.text) ++ rest := by rw [List.append_assoc, ht]
        rw [← size_append] at hu
        rw [hsplit]
        exact ih _ (hsplit ▸ h) (head?_of_next_html hne ht h) u hu herror

/-- The tokens of a text keep its breaks. -/
theorem keeps_lex {s : Text} (h : s.Crlf) : ∀ u ∈ lex s, u.kind ≠ .error → u.Keeps s :=
  keeps_place [] h fun _ => h.head?_ne

end Lexer

end Graft
