/-
What is found at the front of a text of code.

The table answers a kind with one of its patterns and the length of that pattern's longest match; no pattern of the
table matches the empty text.  Comments and heredocs are then followed to their closing text, which lies within the
text.  So what is found has at least one character and no more than there are.

* `longestOf_eq_some` — the rule behind an answer of the table;
* `Heredoc.extent?_eq_some`, `BlockComment.extent?_eq_some` — how a heredoc and a comment end;
* `bounds_of_front`, `lexeme_eq_take` — the lexeme is what was found, neither more nor less.
-/
import Graft.Token.Lexer
import Graft.Proofs.Text.Search

namespace Graft

/-! ### Block comments -/

/-- A comment ends with the first closing mark. -/
theorem BlockComment.extent?_eq_some {t : Text} {n : Nat} (h : extent? t = some n) :
    ∃ a u, t = a ++ ("*/".toList ++ u) ∧ n = a.length + 2 := by
  obtain ⟨m, hm, rfl⟩ := Option.map_eq_some_iff.1 h
  obtain ⟨a, u, ht, rfl⟩ := Text.locate?_eq_some hm
  exact ⟨a, u, ht, rfl⟩

/-! ### Heredocs -/

namespace Heredoc

open TokenTable (isLabelPart)

/-- Behind the blanks and the quote of an opening line stand the label, the quote again and a line break. -/
theorem length_of_opening {t q r after : Text} (hquote : t.dropWhile Text.isIndent = q ++ r)
    (hafter : Text.strip? q (r.dropWhile isLabelPart) = some after) :
    t.length =
      (t.takeWhile Text.isIndent).length + 2 * q.length + (r.takeWhile isLabelPart).length + after.length := by
  have h₁ := congrArg List.length (List.takeWhile_append_dropWhile (p := Text.isIndent) (l := t))
  have h₂ := congrArg List.length (List.takeWhile_append_dropWhile (p := isLabelPart) (l := r))
  have h₃ := congrArg List.length (Text.strip?_eq_some hafter)
  rw [hquote] at h₁
  simp only [List.length_append] at h₁ h₂ h₃
  omega

/-- The opening line names a label, and there is as much text as it has. -/
theorem opening?_eq_some {t label : Text} {n : Nat} (h : opening? t = some (label, n)) :
    label ≠ [] ∧ (∀ c ∈ label, isLabelPart c = true) ∧ n ≤ t.length := by
  unfold opening? at h
  extract_lets blanks line at h
  split at h
  rename_i q r hpair
  -- The line begins with the quote, if there is one.
  have hquote : line = q ++ r := by
    clear_value line
    split at hpair <;> cases hpair <;> rfl
  extract_lets name after at h
  split at h
  · cases h
  rename_i hne
  have hname : name ≠ [] ∧ ∀ c ∈ name, isLabelPart c = true :=
    ⟨fun hnil => hne (List.isEmpty_iff.2 hnil), List.all_eq_true.1 List.all_takeWhile⟩
  have hlength : ∀ u, Text.strip? q after = some u → t.length = blanks.length + 2 * q.length + name.length + u.length :=
    fun u => length_of_opening hquote
  split at h
  · cases h
  · rename_i hafter
    obtain ⟨rfl, rfl⟩ := Prod.mk.inj (Option.some.inj h)
    refine ⟨hname.1, hname.2, ?_⟩
    rw [hlength _ hafter, List.length_cons]
    omega
  · rename_i hafter
    obtain ⟨rfl, rfl⟩ := Prod.mk.inj (Option.some.inj h)
    refine ⟨hname.1, hname.2, ?_⟩
    rw [hlength _ hafter, List.length_cons, List.length_cons]
    omega
  · cases h

/-- A closing line begins with blanks and the label. -/
theorem closing?_eq_some {label line : Text} {n : Nat} (h : closing? label line = some n) :
    ∃ blanks after, line = blanks ++ (label ++ after) ∧ n = blanks.length + label.length := by
  unfold closing? at h
  split at h
  · cases h
  · rename_i after hstrip
    split at h
    · cases h
    · cases h
      refine ⟨line.takeWhile Text.isIndent, after, ?_, rfl⟩
      rw [← Text.strip?_eq_some hstrip, List.takeWhile_append_dropWhile]

/-- The body ends with the label. -/
theorem body?_eq_some {label : Text} {atStart : Bool} {t : Text} {n : Nat} (h : body? label atStart t = some n) :
    ∃ before after, t = before ++ (label ++ after) ∧ n = before.length + label.length := by
  induction t generalizing atStart n with
  | nil =>
    rw [body?] at h
    split at h
    · exact closing?_eq_some h
    · cases h
  | cons c t ih =>
    rw [body?] at h
    split at h
    · rename_i m hm
      cases h
      split at hm
      · exact closing?_eq_some hm
      · cases hm
    · obtain ⟨m, hm, rfl⟩ := Option.map_eq_some_iff.1 h
      obtain ⟨before, after, rfl, rfl⟩ := ih hm
      refine ⟨c :: before, after, rfl, ?_⟩
      rw [List.length_cons]
      omega

/-- A heredoc ends with its label. -/
theorem extent?_eq_some {t : Text} {n : Nat} (h : extent? t = some n) :
    ∃ before label after, t = before ++ (label ++ after) ∧ n = before.length + label.length ∧ label ≠ [] ∧
      ∀ c ∈ label, isLabelPart c = true := by
  obtain ⟨⟨label, m⟩, hopening, hbody⟩ := Option.bind_eq_some_iff.1 h
  obtain ⟨k, hk, rfl⟩ := Option.map_eq_some_iff.1 hbody
  obtain ⟨hne, hparts, hm⟩ := opening?_eq_some hopening
  obtain ⟨before, after, hdrop, rfl⟩ := body?_eq_some hk
  refine ⟨t.take m ++ before, label, after, ?_, ?_, hne, hparts⟩
  · rw [List.append_assoc, ← hdrop, List.take_append_drop]
  · rw [List.length_append, List.length_take]
    omega

end Heredoc

/-! ### The table -/

namespace Lexer

open TokenTable

theorem longer_eq_some {a b : Option (TokenKind × Nat)} {found : TokenKind × Nat} (h : longer a b = some found) :
    a = some found ∨ b = some found := by
  unfold longer at h
  split at h
  · exact .inr h
  · exact .inl h
  · split at h
    · exact .inr h
    · exact .inl h

/-- The answer of a table is the longest match of one of its rules. -/
theorem longestOf_eq_some {table : List (TokenKind × Pattern)} {t : Text} {k : TokenKind} {n : Nat}
    (h : longestOf table t = some (k, n)) : ∃ p, (k, p) ∈ table ∧ p.longest? t = some n := by
  induction table with
  | nil => cases h
  | cons rule table ih =>
    obtain ⟨l, p⟩ := rule
    -- The answer is that of the first rule or that of the others.
    have hcases : (p.longest? t).map (fun m => (l, m)) = some (k, n) ∨ longestOf table t = some (k, n) :=
      longer_eq_some h
    rcases hcases with hfirst | hrest
    · obtain ⟨m, hm, heq⟩ := Option.map_eq_some_iff.1 hfirst
      cases heq
      exact ⟨p, List.mem_cons_self, hm⟩
    · obtain ⟨q, hq, hn⟩ := ih hrest
      exact ⟨q, List.mem_cons_of_mem _ hq, hn⟩

/-- No rule of the table matches the empty text. -/
theorem nullable_rules : ∀ rule ∈ rules, rule.2.nullable = false := by decide

/-- What the table finds has a character, and no more than the text. -/
theorem bounds_of_longestOf {t : Text} {k : TokenKind} {n : Nat} (h : longestOf rules t = some (k, n)) :
    0 < n ∧ n ≤ t.length := by
  obtain ⟨p, hp, hn⟩ := longestOf_eq_some h
  refine ⟨Nat.pos_of_ne_zero fun hzero => ?_, Pattern.longest?_le hn⟩
  subst hzero
  have hempty : p.Matches [] := (Pattern.longest?_eq_some_iff.1 hn).2.1
  have := nullable_rules (k, p) hp
  rw [(Pattern.nullable_iff p).2 hempty] at this
  cases this

/-- What a lexeme is extended by lies within the text. -/
theorem bounds_of_extend {t : Text} {found : TokenKind × Nat} (h : 0 < found.2 ∧ found.2 ≤ t.length) :
    0 < (extend t found).2 ∧ (extend t found).2 ≤ t.length := by
  obtain ⟨hpos, hle⟩ := h
  unfold extend
  split
  · split
    · rename_i n m hm
      obtain ⟨a, u, hdrop, rfl⟩ := BlockComment.extent?_eq_some hm
      have hlength := congrArg List.length hdrop
      simp only [List.length_drop, List.length_append, String.length_toList] at hlength
      have : ("*/" : String).length = 2 := rfl
      simp only at hpos hle ⊢
      omega
    · exact ⟨hpos, hle⟩
  · split
    · rename_i n m hm
      obtain ⟨before, label, after, hdrop, rfl, -⟩ := Heredoc.extent?_eq_some hm
      have hlength := congrArg List.length hdrop
      simp only [List.length_drop, List.length_append] at hlength
      simp only at hpos hle ⊢
      omega
    · exact ⟨hpos, hle⟩
  · exact ⟨hpos, hle⟩

/-- A character that begins no token makes an error of at least its own length. -/
theorem bounds_of_errorLength {t : Text} (hne : t ≠ []) : 0 < errorLength t ∧ errorLength t ≤ t.length := by
  cases t with
  | nil => exact absurd rfl hne
  | cons c t =>
    have hone : 0 < 1 ∧ 1 ≤ (c :: t).length := ⟨Nat.one_pos, by rw [List.length_cons]; omega⟩
    rw [errorLength]
    split
    · cases hn : (unclosed c).longest? (c :: t) with
      | none => exact hone
      | some n =>
        refine ⟨Nat.pos_of_ne_zero fun hzero => ?_, Pattern.longest?_le hn⟩
        -- The quote itself is part of the match.
        have hmatch := (Pattern.longest?_eq_some_iff.1 hn).2.1
        rw [show n = 0 from hzero, List.take_zero, ← Pattern.nullable_iff] at hmatch
        cases hmatch
    · exact hone

theorem bounds_of_front {t : Text} (hne : t ≠ []) : 0 < (front t).2 ∧ (front t).2 ≤ t.length := by
  unfold front
  split
  · rename_i found hfound
    exact bounds_of_extend (bounds_of_longestOf hfound)
  · exact bounds_of_errorLength hne

/-- The lexeme of code is what was found at the front. -/
theorem lexeme_eq_take {t : Text} (hne : t ≠ []) : lexeme t = ⟨(front t).1, t.take (front t).2⟩ := by
  have hpos := (bounds_of_front hne).1
  cases t with
  | nil => exact absurd rfl hne
  | cons c t =>
    obtain ⟨n, hn⟩ : ∃ n, (front (c :: t)).2 = n + 1 := ⟨_, (Nat.succ_pred_eq_of_pos hpos).symm⟩
    rw [lexeme, hn, List.take_succ_cons]
    rfl

end Lexer

end Graft
