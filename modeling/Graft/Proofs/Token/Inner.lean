/-
Characters behind the first one of a lexeme.

Few patterns of the table hold blanks, brackets or separators behind their first character: those of whitespace and
line comments, which are runs, and those of quoted text, of which none is the beginning of another.

* `Pattern.inner`, `Matches.inner` — the characters behind the first one of what a pattern matches;
* `matches_whitespace`, `matches_lineComment` — the runs;
* `quoted_unique` — no quoted text is the beginning of another;
* `inner_rules` — what the other patterns hold no more of.
-/
import Graft.Proofs.Token.Ends

namespace Graft

/-! ### Characters behind the first one -/

namespace Pattern

/-- The character may stand in what the pattern matches. -/
def occurs (c : Char) : Pattern → Bool
  | .fail => false
  | .empty => false
  | .one p => p c
  | .seq a b => a.occurs c || b.occurs c
  | .alt a b => a.occurs c || b.occurs c
  | .star a => a.occurs c

/-- The character may stand behind the first one of what the pattern matches. -/
def inner (c : Char) : Pattern → Bool
  | .fail => false
  | .empty => false
  | .one _ => false
  | .seq a b => a.inner c || b.occurs c
  | .alt a b => a.inner c || b.inner c
  | .star a => a.occurs c

variable {p : Pattern} {c : Char} {t : Text}

theorem Matches.occurs (h : Matches p t) (hc : c ∈ t) : p.occurs c = true := by
  induction h with
  | empty => cases hc
  | one hp =>
    rw [List.mem_singleton] at hc
    rw [hc]
    exact hp
  | seq _ _ iha ihb =>
    rw [Pattern.occurs, Bool.or_eq_true]
    exact (List.mem_append.1 hc).imp iha ihb
  | left _ ih =>
    rw [Pattern.occurs, Bool.or_eq_true]
    exact .inl (ih hc)
  | right _ ih =>
    rw [Pattern.occurs, Bool.or_eq_true]
    exact .inr (ih hc)
  | stop => cases hc
  | more _ _ iha ihb => exact (List.mem_append.1 hc).elim iha ihb

theorem Matches.inner (h : Matches p t) (hc : c ∈ t.tail) : p.inner c = true := by
  induction h with
  | empty => cases hc
  | one hp => cases hc
  | @seq a b s u ha hb iha ihb =>
    rw [Pattern.inner, Bool.or_eq_true]
    cases s with
    | nil => exact .inr (hb.occurs (List.mem_of_mem_tail hc))
    | cons d s =>
      rcases List.mem_append.1 hc with hc | hc
      · exact .inl (iha hc)
      · exact .inr (hb.occurs hc)
  | left _ ih =>
    rw [Pattern.inner, Bool.or_eq_true]
    exact .inl (ih hc)
  | right _ ih =>
    rw [Pattern.inner, Bool.or_eq_true]
    exact .inr (ih hc)
  | stop => cases hc
  | more ha hb _ _ => exact (List.mem_append.1 (List.mem_of_mem_tail hc)).elim ha.occurs hb.occurs

/-- A pattern that matches a text has not failed. -/
theorem Matches.isFail_eq (h : Matches p t) : p.isFail = false := by
  cases h <;> rfl

/-- A run of one class matches the texts of its characters. -/
theorem matches_star_one {q : Char → Bool} : Matches (.star (.one q)) t ↔ ∀ c ∈ t, q c = true := by
  induction t with
  | nil => exact ⟨fun _ => nofun, fun _ => .stop⟩
  | cons c t ih =>
    rw [matches_star_cons, List.forall_mem_cons]
    constructor
    · rintro ⟨s, u, rfl, hs, hu⟩
      cases hs with
      | one hc => exact ⟨hc, ih.1 hu⟩
    · rintro ⟨hc, ht⟩
      exact ⟨[], t, rfl, .one hc, ih.2 ht⟩

theorem matches_one {q : Char → Bool} : Matches (.one q) t ↔ ∃ c, t = [c] ∧ q c = true := by
  constructor
  · intro h
    cases h with
    | one hc => exact ⟨_, rfl, hc⟩
  · rintro ⟨c, rfl, hc⟩
    exact .one hc

theorem matches_empty : Matches .empty t ↔ t = [] := by
  constructor
  · intro h
    cases h
    rfl
  · rintro rfl
    exact .empty

theorem matches_any {ps : List Pattern} : Matches (any ps) t ↔ ∃ p ∈ ps, Matches p t := by
  induction ps with
  | nil =>
    constructor
    · exact fun h => absurd h matches_fail
    · rintro ⟨p, hp, -⟩
      cases hp
  | cons p ps ih =>
    cases ps with
    | nil => exact ⟨fun h => ⟨p, List.mem_cons_self, h⟩, fun ⟨q, hq, h⟩ => List.mem_singleton.1 hq ▸ h⟩
    | cons q ps => simp only [any, matches_alt, ih, List.mem_cons (a := _) (b := p), or_and_right, exists_or, exists_eq_left]

theorem matches_lit {s : Text} : Matches (lit s) t ↔ t = s := by
  induction s generalizing t with
  | nil => exact matches_empty
  | cons c s ih =>
    rw [lit, matches_seq]
    constructor
    · rintro ⟨u, v, rfl, hu, hv⟩
      obtain ⟨d, rfl, hd⟩ := matches_one.1 hu
      rw [ih.1 hv, beq_iff_eq.1 hd]
      rfl
    · rintro rfl
      exact ⟨[c], s, rfl, .one (beq_self_eq_true c), ih.2 rfl⟩

end Pattern

/-! ### Runs -/

namespace TokenTable

open Pattern

theorem matches_whitespace {t : Text} : Matches (plus (.one isSpace)) t ↔ t ≠ [] ∧ ∀ c ∈ t, isSpace c = true := by
  rw [plus, matches_seq]
  constructor
  · rintro ⟨s, u, rfl, hs, hu⟩
    cases hs with
    | one hc => exact ⟨List.cons_ne_nil _ _, List.forall_mem_cons.2 ⟨hc, matches_star_one.1 hu⟩⟩
  · rintro ⟨hne, ht⟩
    cases t with
    | nil => exact absurd rfl hne
    | cons c t =>
      obtain ⟨hc, ht⟩ := List.forall_mem_cons.1 ht
      exact ⟨[c], t, rfl, .one hc, matches_star_one.2 ht⟩

/-- Two slashes, or a number sign without a bracket behind it, and the rest of a line. -/
theorem matches_lineComment {t : Text} : Matches lineComment t ↔
    '\n' ∉ t ∧ ((∃ u, t = '/' :: '/' :: u) ∨ ∃ u, t = '#' :: u ∧ u.head? ≠ some '[') := by
  have hrun : ∀ u : Text, Matches (.star (.one (· != '\n'))) u ↔ '\n' ∉ u := by
    intro u
    rw [matches_star_one]
    exact ⟨fun h hmem => by simpa using h _ hmem, fun h c hc => by
      rw [bne_iff_ne]
      rintro rfl
      exact h hc⟩
  have hsharp : ∀ u : Text, Matches (opt (.seq (.one fun c => c != '[' && c != '\n') (.star (.one (· != '\n'))))) u ↔
      '\n' ∉ u ∧ u.head? ≠ some '[' := by
    intro u
    rw [opt, matches_alt, matches_empty, matches_seq]
    constructor
    · rintro (⟨s, v, rfl, hs, hv⟩ | rfl)
      · obtain ⟨c, rfl, hc⟩ := matches_one.1 hs
        rw [Bool.and_eq_true, bne_iff_ne, bne_iff_ne] at hc
        have hv := (hrun v).1 hv
        exact ⟨by simpa using ⟨hc.2.symm, hv⟩, by simpa using hc.1⟩
      · exact ⟨List.not_mem_nil, nofun⟩
    · rintro ⟨hu, hhead⟩
      cases u with
      | nil => exact .inr rfl
      | cons c u =>
        rw [List.mem_cons, not_or] at hu
        refine .inl ⟨[c], u, rfl, .one ?_, (hrun u).2 hu.2⟩
        rw [Bool.and_eq_true, bne_iff_ne, bne_iff_ne]
        exact ⟨fun h => hhead (congrArg some h), fun h => hu.1 h.symm⟩
  show Matches (.alt (.seq (lit "//".toList) _) (.seq (lit "#".toList) _)) t ↔ _
  rw [matches_alt, matches_seq, matches_seq]
  constructor
  · rintro (⟨s, u, rfl, hs, hu⟩ | ⟨s, u, rfl, hs, hu⟩)
    · obtain rfl : s = ['/', '/'] := matches_lit.1 hs
      exact ⟨by simpa using (hrun u).1 hu, .inl ⟨u, rfl⟩⟩
    · obtain rfl : s = ['#'] := matches_lit.1 hs
      obtain ⟨hu, hhead⟩ := (hsharp u).1 hu
      exact ⟨by simpa using hu, .inr ⟨u, rfl, hhead⟩⟩
  · rintro ⟨hmem, ⟨u, rfl⟩ | ⟨u, rfl, hhead⟩⟩
    · exact .inl ⟨['/', '/'], u, rfl, matches_lit.2 rfl, (hrun u).2 (by simpa using hmem)⟩
    · exact .inr ⟨['#'], u, rfl, matches_lit.2 rfl, (hsharp u).2 ⟨by simpa using hmem, hhead⟩⟩

/-! ### Quoted text -/

/-- What stands between two quotes: a backslash takes a character with it, any other character but a quote stands
alone. -/
theorem matches_quotedBody_cons {q c : Char} {t : Text} : Matches (quotedBody q) (c :: t) ↔
    (c ≠ q ∧ c ≠ '\\' ∧ Matches (quotedBody q) t) ∨
      (c = '\\' ∧ ∃ d u, t = d :: u ∧ Matches (quotedBody q) u) := by
  rw [quotedBody, matches_star_cons]
  constructor
  · rintro ⟨s, u, rfl, hs, hu⟩
    rcases matches_alt.1 hs with hs | hs
    · obtain ⟨d, hd, hc⟩ := matches_one.1 hs
      obtain ⟨rfl, rfl⟩ := List.cons.inj hd
      rw [Bool.and_eq_true, bne_iff_ne, bne_iff_ne] at hc
      exact .inl ⟨hc.1, hc.2, hu⟩
    · obtain ⟨s₁, s₂, hsplit, hs₁, hs₂⟩ := matches_seq.1 hs
      obtain ⟨b, rfl, hb⟩ := matches_one.1 hs₁
      obtain ⟨d, rfl, -⟩ := matches_one.1 hs₂
      obtain ⟨rfl, rfl⟩ := List.cons.inj hsplit
      exact .inr ⟨beq_iff_eq.1 hb, d, u, rfl, hu⟩
  · rintro (⟨hq, hb, ht⟩ | ⟨rfl, d, u, rfl, hu⟩)
    · refine ⟨[], t, rfl, .left (.one ?_), ht⟩
      rw [Bool.and_eq_true, bne_iff_ne, bne_iff_ne]
      exact ⟨hq, hb⟩
    · exact ⟨[d], u, rfl, .right (.seq (.one rfl) (.one rfl)), hu⟩

/-- Two texts between quotes end at the same quote. -/
theorem quotedBody_unique {q : Char} (hq : q ≠ '\\') {s t u v : Text} (hs : Matches (quotedBody q) s)
    (ht : Matches (quotedBody q) t) (h : s ++ q :: u = t ++ q :: v) : s = t := by
  induction hn : s.length using Nat.strongRecOn generalizing s t with
  | _ n ih =>
    subst hn
    cases s with
    | nil =>
      cases t with
      | nil => rfl
      | cons c t =>
        obtain ⟨rfl, -⟩ := List.cons.inj h
        rcases matches_quotedBody_cons.1 ht with ⟨hne, -⟩ | ⟨hb, -⟩
        · exact absurd rfl hne
        · exact absurd hb hq
    | cons c s =>
      cases t with
      | nil =>
        obtain ⟨rfl, -⟩ := List.cons.inj h
        rcases matches_quotedBody_cons.1 hs with ⟨hne, -⟩ | ⟨hb, -⟩
        · exact absurd rfl hne
        · exact absurd hb hq
      | cons d t =>
        obtain ⟨rfl, hrest⟩ := List.cons.inj h
        rcases matches_quotedBody_cons.1 hs with ⟨-, hb, hs'⟩ | ⟨rfl, d, s, rfl, hs'⟩
        · rcases matches_quotedBody_cons.1 ht with ⟨-, -, ht'⟩ | ⟨hb', -⟩
          · rw [ih s.length (by simp) hs' ht' hrest rfl]
          · exact absurd hb' hb
        · rcases matches_quotedBody_cons.1 ht with ⟨-, hb, -⟩ | ⟨-, e, t, rfl, ht'⟩
          · exact absurd rfl hb
          · obtain ⟨rfl, htail⟩ := List.cons.inj hrest
            rw [ih s.length (by rw [List.length_cons, List.length_cons]; omega) hs' ht' htail rfl]

/-- Quoted text begins with its quote. -/
theorem head?_quoted {q : Char} {t : Text} (h : Matches (quoted q) t) : t.head? = some q := by
  obtain ⟨s, u, rfl, hs, -⟩ := matches_seq.1 h
  rw [matches_lit.1 hs]
  rfl

/-- No quoted text is the beginning of another. -/
theorem quoted_unique {q : Char} (hq : q ≠ '\\') {s t : Text} (hs : Matches (quoted q) s)
    (ht : Matches (quoted q) (s ++ t)) : t = [] := by
  have hquoted : ∀ {w : Text}, Matches (quoted q) w → ∃ b, w = q :: (b ++ [q]) ∧ Matches (quotedBody q) b := by
    intro w hw
    obtain ⟨w₁, w₂, rfl, h₁, h₂⟩ := matches_seq.1 hw
    obtain ⟨b, w₃, rfl, hb, h₃⟩ := matches_seq.1 h₂
    rw [matches_lit.1 h₁, matches_lit.1 h₃]
    exact ⟨b, rfl, hb⟩
  obtain ⟨b, rfl, hb⟩ := hquoted hs
  obtain ⟨b', heq, hb'⟩ := hquoted ht
  have hsame : b ++ q :: t = b' ++ q :: [] := by simpa using heq
  rw [quotedBody_unique hq hb hb' hsame, List.append_cancel_left_eq] at hsame
  exact (List.cons.inj hsame).2

/-! ### Characters that end a lexeme -/

/-- Blanks, separators, brackets and the characters that comments begin with. -/
def delimiters : Text := " \t\r\n\x0c;,()]\x7b\x7d/#".toList

/-- But for whitespace, comments and quoted text, no pattern goes on over a delimiter. -/
theorem inner_rules : ∀ rule ∈ rules, rule.1 ∉ [.whitespace, .lineComment, .string, .shellExec] →
    ∀ c ∈ delimiters, rule.2.inner c = false := by
  have hall : ∀ rule ∈ rules, rule.1 ∉ [.whitespace, .lineComment, .string, .shellExec] →
      delimiters.any rule.2.inner = false := by decide
  exact fun rule hrule hkind => by simpa using List.any_eq_false.1 (hall rule hrule hkind)

/-- But for those and the operators, no pattern goes on over a question mark. -/
theorem inner_question_rules : ∀ rule ∈ rules, rule.1 ∉ [.whitespace, .lineComment, .string, .shellExec, .op] →
    rule.2.inner '?' = false := by decide

/-- In an operator a question mark follows nothing but a question mark. -/
theorem question_operators : ∀ o ∈ operators, ∀ i ∈ List.range o.toList.length, 0 < i → o.toList[i]? = some '?' →
    o.toList.take i = ['?'] := by decide

/-- A square bracket opens behind nothing but the number sign of an attribute. -/
theorem inner_bracket_rules : ∀ rule ∈ rules,
    rule.1 ∉ [.whitespace, .lineComment, .string, .shellExec, .attrOpen] → rule.2.inner '[' = false := by decide

/-- Only whitespace begins with a blank. -/
theorem step_space_rules : ∀ rule ∈ rules, rule.1 ∉ [.whitespace] →
    ∀ c ∈ [' ', '\t', '\r', '\n', '\x0c'], (rule.2.step c).isFail = true := by
  have hall : ∀ rule ∈ rules, rule.1 ∉ [.whitespace] →
      ([' ', '\t', '\r', '\n', '\x0c'].all fun c => (rule.2.step c).isFail) = true := by decide
  exact fun rule hrule hkind => List.all_eq_true.1 (hall rule hrule hkind)

/-- Only line comments begin with two slashes. -/
theorem step_slash_rules : ∀ rule ∈ rules, rule.1 ≠ .lineComment → ((rule.2.step '/').step '/').isFail = true := by
  decide

/-- Only block comments begin with a slash and an asterisk. -/
theorem step_star_rules : ∀ rule ∈ rules, rule.1 ≠ .blockComment → ((rule.2.step '/').step '*').isFail = true := by
  decide

/-- Only line comments and attributes begin with a number sign. -/
theorem step_sharp_rules : ∀ rule ∈ rules, rule.1 ∉ [.lineComment, .attrOpen] → (rule.2.step '#').isFail = true := by
  decide

/-- A quote begins nothing but text in such quotes. -/
theorem step_quote_rules : ∀ rule ∈ rules, (rule.1 ∉ [.string] → (rule.2.step '\'').isFail = true ∧
    (rule.2.step '"').isFail = true) ∧ (rule.1 ∉ [.shellExec] → (rule.2.step '`').isFail = true) := by decide

theorem mem_of_isSpace {c : Char} (h : isSpace c = true) : c ∈ [' ', '\t', '\r', '\n', '\x0c'] := by
  simp only [isSpace, Bool.or_eq_true, beq_iff_eq] at h
  rcases h with (((rfl | rfl) | rfl) | rfl) | rfl <;> decide

theorem mem_delimiters_of_isSpace {c : Char} (h : isSpace c = true) : c ∈ '[' :: delimiters := by
  simp only [isSpace, Bool.or_eq_true, beq_iff_eq] at h
  rcases h with (((rfl | rfl) | rfl) | rfl) | rfl <;> decide

end TokenTable

end Graft
