/-
Names in code.

A name is made of labels with backslashes between them, perhaps with one more backslash before the first.  Where it is
written before anything that does not go on with it, it is read back label by label, and so are the statements and
clauses that are built around one name.

* `lexeme_label` — a label is one lexeme where no other character of a label follows it;
* `Spells` — names and the lexemes that they are read as;
* `Spells.reads`, `Import.reads_fresh`, `TraitUse.reads_fresh` — what is written of names is read back.
-/
import Graft.Proofs.Token.LongestMatch

namespace Graft

/-! ### Labels -/

namespace TokenTable

open Pattern

/-- No rule but that of names matches what begins with a character that names begin with. -/
theorem kind_of_isLabelStart {rule : TokenKind × Pattern} {c : Char} {s : Text} (hrule : rule ∈ rules)
    (hm : Matches rule.2 (c :: s)) (hc : isLabelStart c = true) : rule.1 = .ident := by
  have hwords : ∀ word ∈ words, word.2.head?.any isLabelStart = false := by decide
  have hheads : ∀ k ∈ wideKinds, (headsOf k).any isLabelStart = false := by decide
  refine Decidable.byContradiction fun hident => ?_
  by_cases hk : rule.1 ∈ wideKinds
  · obtain ⟨d, hd, hhead⟩ := begins_rules hrule hk hident _ hm
    cases hhead
    exact List.any_eq_false.1 (hheads _ hk) c hd hc
  · have hword := hwords _ (mem_words hrule hk hm)
    rw [List.head?_cons, Option.any_some, hc] at hword
    cases hword

theorem matches_label {s : Text} : Matches label s ↔
    ∃ c t, s = c :: t ∧ isLabelStart c = true ∧ ∀ d ∈ t, isLabelPart d = true := by
  rw [label, matches_seq]
  constructor
  · rintro ⟨u, t, rfl, hu, ht⟩
    obtain ⟨c, rfl, hc⟩ := matches_one.1 hu
    exact ⟨c, t, rfl, hc, matches_star_one.1 ht⟩
  · rintro ⟨c, t, rfl, hc, ht⟩
    exact ⟨[c], t, rfl, .one hc, matches_star_one.2 ht⟩

end TokenTable

namespace Lexer

open TokenTable Pattern

variable {x w : Text}

/-- A label is one lexeme where no other character of a label follows it. -/
theorem lexeme_label (hx : Matches label x) (hw : w.head?.any isLabelPart = false) : lexeme (x ++ w) = ⟨.ident, x⟩ := by
  obtain ⟨c, t, rfl, hc, ht⟩ := matches_label.1 hx
  have hkind : ∀ rule ∈ rules, ∀ s, s <+: c :: t ++ w → Matches rule.2 s → rule.1 = .ident := by
    intro rule hrule s hs hm
    obtain ⟨u, rfl, -⟩ := head?_of_matches hrule hs hm
    exact kind_of_isLabelStart hrule hm hc
  have hfound : longestOf rules (c :: t ++ w) = some (.ident, (c :: t).length) := by
    refine longestOf_eq (p := label) (by simp [rules]) (List.prefix_append _ w) hx (fun rule hrule s hs hm => ?_)
      fun rule hrule hk s hs hm => absurd (hkind rule hrule s hs hm) hk
    obtain ⟨k, p⟩ := rule
    obtain rfl : k = .ident := hkind _ hrule s hs hm
    obtain rfl : p = label := by simpa [rules] using hrule
    -- A longer match would hold the character behind the label.
    refine Nat.le_of_not_lt fun hlt => ?_
    obtain ⟨v, rfl⟩ := List.prefix_of_prefix_length_le (List.prefix_append _ w) hs (Nat.le_of_lt hlt)
    rw [List.prefix_append_right_inj] at hs
    obtain ⟨e, u, heq, -, hu⟩ := matches_label.1 hm
    obtain ⟨rfl, rfl⟩ := List.cons.inj heq
    cases v with
    | nil => exact absurd hlt (by simp)
    | cons d v =>
      obtain ⟨r, rfl⟩ := hs
      rw [List.cons_append, List.head?_cons, Option.any_some, hu d (by simp)] at hw
      cases hw
  refine (lexeme_append (List.cons_ne_nil c t)).2 ?_
  rw [front, hfound]
  rfl

/-- A backslash stands alone. -/
theorem lexeme_backslash (w : Text) : lexeme ('\\' :: w) = ⟨.backslash, ['\\']⟩ := by
  have hover : ∀ rule ∈ rules, isOver (steps rule.2 ['\\']) = true := by decide
  have hfound : longestOf rules ['\\'] = some (.backslash, 1) := by decide +kernel
  have hwithin : ∀ rule ∈ rules, ∀ s, s <+: ['\\'] ++ w → Matches rule.2 s → s.length ≤ ['\\'].length := by
    intro rule hrule s hs hm
    refine Nat.le_of_not_lt fun hlt => ?_
    obtain ⟨v, rfl⟩ := List.prefix_of_prefix_length_le (List.prefix_append ['\\'] w) hs (Nat.le_of_lt hlt)
    rw [eq_nil_of_isOver (hover rule hrule) (matches_steps.2 hm), List.append_nil] at hlt
    exact Nat.lt_irrefl _ hlt
  refine (lexeme_append (x := ['\\']) (List.cons_ne_nil _ _)).2 ?_
  rw [front, longestOf_congr fun rule hrule => longest?_append (hwithin rule hrule), hfound]
  rfl

/-! ### Passages of one lexeme -/

theorem reads_label (hx : Matches label x) (hw : w.head?.any isLabelPart = false) :
    Reads .code x w [⟨.ident, x⟩] .code := by
  obtain ⟨c, t, rfl, -⟩ := matches_label.1 hx
  exact .single (l := ⟨.ident, c :: t⟩) (List.cons_ne_nil c t) (next_of_lexeme nofun (lexeme_label hx hw))

theorem reads_backslash (w : Text) : Reads .code ['\\'] w [⟨.backslash, ['\\']⟩] .code :=
  .single (l := ⟨.backslash, ['\\']⟩) (List.cons_ne_nil _ _) (next_of_lexeme nofun (lexeme_backslash w))

theorem reads_space (hw : w.head?.any isSpace = false) : Reads .code [' '] w [⟨.whitespace, [' ']⟩] .code :=
  .single (l := ⟨.whitespace, [' ']⟩) (List.cons_ne_nil _ _)
    (next_of_lexeme nofun (lexeme_whitespace (List.cons_ne_nil _ _) (List.forall_mem_singleton.2 rfl) hw))

theorem reads_closer {l : Lexeme} (hl : l ∈ closers) (hclose : l.kind ≠ .closeTag) (w : Text) :
    Reads .code l.text w [l] .code :=
  .single (longestOf_closers l hl).2.2.1 (next_of_lexeme hclose (lexeme_closer hl w))

/-! ### Names -/

/-- The text is a name, and the lexemes are its labels and the backslashes. -/
inductive Spells : Text → List Lexeme → Prop
  | plain {x : Text} (hx : Matches label x) : Spells x [⟨.ident, x⟩]
  | qualified {x t : Text} {ls : List Lexeme} (hx : Matches label x) (h : Spells t ls) (hhead : t.head? ≠ some '\\') :
    Spells (x ++ '\\' :: t) (⟨.ident, x⟩ :: ⟨.backslash, ['\\']⟩ :: ls)
  | absolute {t : Text} {ls : List Lexeme} (h : Spells t ls) (hhead : t.head? ≠ some '\\') :
    Spells ('\\' :: t) (⟨.backslash, ['\\']⟩ :: ls)

variable {t : Text} {ls : List Lexeme}

theorem Spells.head? (h : Spells t ls) : ∃ c ∈ t.head?, isLabelStart c = true ∨ c = '\\' := by
  cases h with
  | plain hx =>
    obtain ⟨c, t, rfl, hc, -⟩ := matches_label.1 hx
    exact ⟨c, rfl, .inl hc⟩
  | qualified hx h =>
    obtain ⟨c, t, rfl, hc, -⟩ := matches_label.1 hx
    exact ⟨c, rfl, .inl hc⟩
  | absolute h => exact ⟨'\\', rfl, .inr rfl⟩

/-- A name is read back before whatever does not go on with it. -/
theorem Spells.reads (h : Spells t ls) (hw : w.head?.any isLabelPart = false) : Reads .code t w ls .code := by
  induction h with
  | plain hx => exact reads_label hx hw
  | @qualified x t ls hx h _ ih =>
    refine (reads_label hx (w := '\\' :: t ++ w) rfl).append ?_
    exact (reads_backslash (t ++ w)).append ih
  | @absolute t ls h _ ih => exact (reads_backslash (t ++ w)).append ih

/-- No blank stands in a name. -/
theorem Spells.isSpace (h : Spells t ls) : (t ++ w).head?.any isSpace = false := by
  obtain ⟨c, hc, hlabel⟩ := h.head?
  obtain ⟨u, rfl⟩ := List.head?_eq_some_iff.1 hc
  rw [List.cons_append, List.head?_cons, Option.any_some]
  refine Bool.eq_false_iff.2 fun hspace => ?_
  obtain ⟨hstart, hne⟩ : isLabelStart c = false ∧ c ≠ '\\' := by
    have hmem := mem_of_isSpace hspace
    simp only [List.mem_cons, List.not_mem_nil, or_false] at hmem
    rcases hmem with rfl | rfl | rfl | rfl | rfl <;> decide
  rcases hlabel with hlabel | hlabel
  · rw [hstart] at hlabel
    cases hlabel
  · exact hne hlabel

/-- The lexemes of a statement that names one thing. -/
def useLexemes (ls : List Lexeme) : List Lexeme := ⟨.ident, "use".toList⟩ :: ⟨.whitespace, [' ']⟩ :: (ls ++ [⟨.semi, [';']⟩])

/-- A statement that names one thing is read back before anything. -/
theorem Spells.reads_use (h : Spells t ls) (w : Text) : Reads .code ("use ".toList ++ t ++ [';']) w (useLexemes ls) .code := by
  have huse : Matches label "use".toList := matches_label.2 ⟨_, _, rfl, by decide, List.all_eq_true.1 rfl⟩
  have hname : Reads .code (t ++ [';']) w (ls ++ [⟨.semi, [';']⟩]) .code :=
    (h.reads (w := [';'] ++ w) rfl).append (reads_closer (l := ⟨.semi, [';']⟩) (by decide) nofun w)
  have hspace : Reads .code ([' '] ++ (t ++ [';'])) w (⟨.whitespace, [' ']⟩ :: (ls ++ [⟨.semi, [';']⟩])) .code :=
    (reads_space (by rw [List.append_assoc]; exact h.isSpace)).append hname
  exact (reads_label huse (w := [' '] ++ (t ++ [';']) ++ w) rfl).append hspace

end Lexer

/-! ### What is written of names -/

open Lexer (Spells useLexemes)

variable {t : Text} {ls : List Lexeme}

/-- The import of one name is read back before anything. -/
theorem Import.reads_fresh (h : Spells t ls) (w : Text) :
    Lexer.Reads .code (Import.fresh t).toText w (useLexemes ls) .code := by
  have hkind : ImportKind.normal.keyword = [] := rfl
  have htext : (Import.fresh t).toText = "use ".toList ++ t ++ [';'] := by
    simp [Import.toText, Import.fresh, hkind, ImportItem.toText, Name.fresh, Text.join]
  rw [htext]
  exact h.reads_use w

/-- The clause that uses one trait is read back before anything. -/
theorem TraitUse.reads_fresh (h : Spells t ls) (w : Text) :
    Lexer.Reads .code (TraitUse.fresh [.fresh t]).toText w (useLexemes ls) .code := by
  have htext : (TraitUse.fresh [.fresh t]).toText = "use ".toList ++ t ++ [';'] := by
    simp [TraitUse.toText, TraitUse.fresh, Name.fresh, Text.join]
  rw [htext]
  exact h.reads_use w

end Graft
