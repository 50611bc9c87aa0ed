/-
Passages of a text.

A passage is a part of a text that begins and ends where lexemes do.  What is read of it depends on the mode it begins
in and on what follows it; but a passage that ends with a bracket or a separator is read alike whatever follows, and
any other one when what follows agrees up to where it parts.

* `Reads` — a passage, its lexemes, and the modes before and behind it;
* `Reads.lexemesOf` — passages one behind the other make up a text;
* `Reads.exchange` — the same passage before another text.
-/
import Graft.Proofs.Reading.Lossless
import Graft.Proofs.Token.Lookahead

namespace Graft

namespace Lexer

open TokenTable Pattern

/-! ### All lexemes -/

/-- The lexemes of a text that begins in a mode. -/
def lexemesOf (mode : Mode) (t : Text) : List Lexeme := lexemes t.length mode t

/-- The lexemes that are no trivia. -/
def significant (mode : Mode) (t : Text) : List Lexeme := (lexemesOf mode t).filter (!·.kind.isTrivia)

theorem lexemesOf_cons (mode : Mode) {t : Text} (hne : t ≠ []) :
    lexemesOf mode t = (next mode t).1 :: lexemesOf (next mode t).2 (t.drop (next mode t).1.text.length) := by
  obtain ⟨c, t, rfl⟩ := List.exists_cons_of_ne_nil hne
  have hlt := length_drop_next_lt mode hne
  show lexemes (t.length + 1) mode (c :: t) = _
  rw [lexemes]
  exact congrArg _ (lexemes_of_length_le (Nat.le_of_lt_succ hlt) (Nat.le_refl _) _)

/-- The first lexeme of a text, when it is no trivia. -/
theorem significant_cons {m m' : Mode} {l : Lexeme} {t : Text} (hne : l.text ≠ []) (h : next m (l.text ++ t) = (l, m'))
    (hk : l.kind.isTrivia = false) : significant m (l.text ++ t) = l :: significant m' t := by
  rw [significant, lexemesOf_cons m (by simp [hne]), h, List.drop_left, List.filter_cons_of_pos (by simpa using hk)]
  rfl

/-! ### Passages -/

/-- The text `x` is read as the lexemes `ls` where `w` follows it; `m` and `m'` are the modes before and behind it. -/
inductive Reads : Mode → Text → Text → List Lexeme → Mode → Prop where
  | nil {m : Mode} {w : Text} : Reads m [] w [] m
  | cons {m m' m'' : Mode} {l : Lexeme} {x w : Text} {ls : List Lexeme} (hne : l.text ≠ [])
      (hnext : next m (l.text ++ (x ++ w)) = (l, m')) (hrest : Reads m' x w ls m'') :
      Reads m (l.text ++ x) w (l :: ls) m''

namespace Reads

variable {m m' m'' : Mode} {x y w w' : Text} {ls ls' : List Lexeme} {l : Lexeme}

theorem flatMap (h : Reads m x w ls m') : ls.flatMap Lexeme.text = x := by
  induction h with
  | nil => rfl
  | cons _ _ _ ih => rw [List.flatMap_cons, ih]

/-- What is read of a text is read of the passage, and then of what follows. -/
theorem lexemesOf (h : Reads m x w ls m') : lexemesOf m (x ++ w) = ls ++ Lexer.lexemesOf m' w := by
  induction h with
  | nil => rfl
  | @cons m m' m'' l x w ls hne hnext _ ih =>
    rw [List.append_assoc, lexemesOf_cons m (by simp [hne]), hnext, List.drop_left, ih]
    rfl

theorem single (hne : l.text ≠ []) (h : next m (l.text ++ w) = (l, m')) : Reads m l.text w [l] m' := by
  have hreads : Reads m (l.text ++ []) w [l] m' := .cons hne h .nil
  rwa [List.append_nil] at hreads

theorem append (h : Reads m x (y ++ w) ls m') (h' : Reads m' y w ls' m'') : Reads m (x ++ y) w (ls ++ ls') m'' := by
  generalize hv : y ++ w = v at h
  induction h with
  | nil => exact h'
  | cons hne hnext _ ih =>
    subst hv
    rw [List.append_assoc, List.cons_append]
    exact .cons hne (by rwa [List.append_assoc]) (ih h' rfl)

theorem of_append (h : Reads m x w (ls ++ ls') m'') :
    ∃ m', Reads m (ls.flatMap Lexeme.text) (ls'.flatMap Lexeme.text ++ w) ls m' ∧
      Reads m' (ls'.flatMap Lexeme.text) w ls' m'' := by
  induction ls generalizing m x with
  | nil =>
    rw [List.nil_append] at h
    refine ⟨m, .nil, ?_⟩
    rw [h.flatMap]
    exact h
  | cons l ls ih =>
    rw [List.cons_append] at h
    cases h with
    | cons hne hnext hrest =>
      obtain ⟨m', h₁, h₂⟩ := ih hrest
      refine ⟨m', ?_, h₂⟩
      rw [List.flatMap_cons]
      refine .cons hne ?_ h₁
      rw [← List.append_assoc (ls.flatMap _), ← List.flatMap_append, hrest.flatMap]
      exact hnext

/-- A whole text is a passage. -/
theorem whole (m : Mode) (t : Text) : ∃ m', Reads m t [] (Lexer.lexemesOf m t) m' := by
  induction hn : t.length using Nat.strongRecOn generalizing m t with
  | _ n ih =>
    subst hn
    by_cases hne : t = []
    · subst hne
      exact ⟨m, .nil⟩
    · obtain ⟨hl, ht⟩ := next_text m hne
      obtain ⟨m', h⟩ := ih _ (length_drop_next_lt m hne) (next m t).2 (t.drop (next m t).1.text.length) rfl
      refine ⟨m', ?_⟩
      rw [lexemesOf_cons m hne]
      have hnext : next m ((next m t).1.text ++ (t.drop (next m t).1.text.length ++ [])) = next m t := by
        rw [List.append_nil, ht]
      have hcons := Reads.cons hl hnext h
      rwa [ht] at hcons

/-- The lexemes of a passage of code are those of the text alone when nothing follows. -/
theorem eq_lexemesOf (h : Reads m x [] ls m') : ls = Lexer.lexemesOf m x := by
  have hall := h.lexemesOf
  rw [List.append_nil] at hall
  exact (hall.trans (List.append_nil ls)).symm

/-- The lexemes of a passage that are no trivia, and those behind it. -/
theorem significant_append (h : Reads m x w ls m') :
    significant m (x ++ w) = ls.filter (!·.kind.isTrivia) ++ significant m' w := by
  rw [significant, h.lexemesOf, List.filter_append]
  rfl

end Reads

/-! ### Passages but for whitespace -/

/-- The lexemes that are no whitespace. -/
def solid (mode : Mode) (t : Text) : List Lexeme := (lexemesOf mode t).filter (·.kind != .whitespace)

theorem significant_eq_filter (mode : Mode) (t : Text) :
    significant mode t = (solid mode t).filter (!·.kind.isTrivia) := by
  rw [solid, List.filter_filter, significant]
  refine List.filter_congr fun l _ => ?_
  cases hk : l.kind <;> rfl

/-- But for whitespace the text `x` is read by itself where `w` follows it: as the lexemes `ls` with comments between
them. -/
def Splits (m : Mode) (x w : Text) (ls : List Lexeme) (m' : Mode) : Prop :=
  ∃ ks, solid m (x ++ w) = ks ++ solid m' w ∧ ks.filter (!·.kind.isTrivia) = ls

namespace Splits

variable {m m' m'' : Mode} {x y w : Text} {ls ls' : List Lexeme}

theorem nil : Splits m [] w [] m := ⟨[], rfl, rfl⟩

theorem append (h : Splits m x (y ++ w) ls m') (h' : Splits m' y w ls' m'') : Splits m (x ++ y) w (ls ++ ls') m'' := by
  obtain ⟨ks, hks, rfl⟩ := h
  obtain ⟨ks', hks', rfl⟩ := h'
  exact ⟨ks ++ ks', by rw [List.append_assoc, hks, hks', List.append_assoc], List.filter_append _ _⟩

theorem significant (h : Splits m x w ls m') : significant m (x ++ w) = ls ++ Lexer.significant m' w := by
  obtain ⟨ks, hks, rfl⟩ := h
  rw [significant_eq_filter, hks, List.filter_append, ← significant_eq_filter]

end Splits

theorem Reads.splits {m m' : Mode} {x w : Text} {ls : List Lexeme} (h : Reads m x w ls m') :
    Splits m x w (ls.filter (!·.kind.isTrivia)) m' := by
  refine ⟨ls.filter (·.kind != .whitespace), ?_, ?_⟩
  · rw [solid, h.lexemesOf, List.filter_append]
    rfl
  · rw [List.filter_filter]
    refine List.filter_congr fun l _ => ?_
    cases hk : l.kind <;> rfl

/-- One lexeme that matters. -/
theorem splits_of_next {m m' : Mode} {l : Lexeme} {w : Text} (hne : l.text ≠ []) (h : next m (l.text ++ w) = (l, m'))
    (hk : l.kind.isTrivia = false) : Splits m l.text w [l] m' := by
  have hsplits := (Reads.single hne h).splits
  rwa [List.filter_cons_of_pos (by simpa using hk)] at hsplits

/-- A text that is read as the same tokens of code whatever follows it. -/
structure Sealed (t : Text) : Prop where
  ne_nil : t ≠ []
  significant (w : Text) : significant .code (t ++ w) = Lexer.significant .code t ++ Lexer.significant .code w

theorem Sealed.of_append {t : Text} {ls : List Lexeme} (hne : t ≠ [])
    (h : ∀ w, Lexer.significant .code (t ++ w) = ls ++ Lexer.significant .code w) : Sealed t := by
  refine ⟨hne, fun w => ?_⟩
  have hnil : Lexer.significant .code t = ls := by
    rw [← List.append_nil t, h []]
    exact List.append_nil ls
  rw [h w, hnil]

theorem Sealed.of_reads {t : Text} {ls : List Lexeme} (hne : t ≠ []) (h : ∀ w, Reads .code t w ls .code) : Sealed t :=
  .of_append hne fun w => (h w).significant_append

/-! ### One lexeme before another text -/

/-- In code one lexeme is read after the other. -/
theorem next_of_lexeme {l : Lexeme} {w : Text} (hclose : l.kind ≠ .closeTag) (h : lexeme (l.text ++ w) = l) :
    next .code (l.text ++ w) = (l, .code) := by
  simp only [next, h, if_neg hclose]

theorem lexeme_append {k : TokenKind} {x w : Text} (hx : x ≠ []) :
    lexeme (x ++ w) = ⟨k, x⟩ ↔ front (x ++ w) = (k, x.length) := by
  have hne : x ++ w ≠ [] := by simp [hx]
  rw [lexeme_eq_take hne]
  constructor
  · intro h
    obtain ⟨hkind, htext⟩ := Lexeme.mk.inj h
    have hlength := congrArg List.length htext
    rw [List.length_take, Nat.min_eq_left (bounds_of_front hne).2] at hlength
    rw [← hkind, ← hlength]
  · intro h
    rw [h, List.take_left' rfl]

/-- The word of an opening tag. -/
def TagWord (tag : Text) : Prop := Text.lower tag = "php".toList

theorem TagWord.eq {tag : Text} (h : TagWord tag) : ∃ p g q, tag = [p, g, q] := by
  have hlength : tag.length = 3 := by
    have hmap := congrArg List.length h
    rwa [Text.lower, List.length_map] at hmap
  match tag, hlength with
  | [p, g, q], _ => exact ⟨p, g, q, rfl⟩

/-- An opening tag is `<?=`, or `<?php` with a blank or nothing behind it. -/
theorem openTag?_iff {t : Text} {n : Nat} : openTag? t = some n ↔ (∃ r, t = ['<', '?', '='] ++ r ∧ n = 3) ∨
    ∃ tag r, t = '<' :: '?' :: tag ++ r ∧ TagWord tag ∧ r.head?.all isSpace = true ∧ n = 5 := by
  constructor
  · intro h
    unfold openTag? at h
    split at h
    · rename_i r
      cases h
      exact .inl ⟨r, rfl, rfl⟩
    · rename_i p g q r hequals
      split at h
      · rename_i htag
        cases h
        exact .inr ⟨[p, g, q], r, rfl, htag.1, htag.2, rfl⟩
      · cases h
    · cases h
  · rintro (⟨r, rfl, rfl⟩ | ⟨tag, r, rfl, htag, hspace, rfl⟩)
    · rfl
    · obtain ⟨p, g, q, rfl⟩ := htag.eq
      have hp : p ≠ '=' := by
        rintro rfl
        have hhead := congrArg List.head? htag
        cases hhead
      show openTag? ('<' :: '?' :: p :: g :: q :: r) = some 5
      unfold openTag?
      split
      · rename_i heq
        cases heq
        exact absurd rfl hp
      · rename_i heq
        cases heq
        rw [if_pos ⟨htag, hspace⟩]
      · rename_i hnone
        exact absurd rfl (hnone p g q r)

/-- A tag is an opening tag before any text that a blank begins, and one with an equals sign before any. -/
theorem openTag?_append {t w w' : Text} (h : openTag? (t ++ w) = some t.length)
    (hhead : t.length = 5 → w'.head?.all isSpace = true) : openTag? (t ++ w') = some t.length := by
  rcases openTag?_iff.1 h with ⟨r, ht, hlength⟩ | ⟨tag, r, ht, htag, -, hlength⟩
  · obtain ⟨rfl, -⟩ := List.append_inj ht hlength
    exact openTag?_iff.2 (.inl ⟨w', rfl, rfl⟩)
  · have hsplit : t ++ w = ('<' :: '?' :: tag) ++ r := ht
    have htaglength : tag.length = 3 := by
      obtain ⟨p, g, q, rfl⟩ := htag.eq
      rfl
    obtain ⟨rfl, -⟩ := List.append_inj hsplit (by rw [hlength, List.length_cons, List.length_cons, htaglength])
    exact openTag?_iff.2 (.inr ⟨tag, w', rfl, htag, hhead hlength, hlength⟩)

/-- Before two opening tags no other one begins, or before both of them. -/
theorem openTag?_before {b w w' : Text} {c : Char} (hw : (openTag? w).isSome) (hw' : (openTag? w').isSome)
    (h : openTag? (c :: (b ++ w)) = none) : openTag? (c :: (b ++ w')) = none := by
  have hstart : ∀ {v : Text}, (openTag? v).isSome → ∃ u, v = '<' :: u := by
    intro v hv
    obtain ⟨n, hn⟩ := Option.isSome_iff_exists.1 hv
    rcases openTag?_iff.1 hn with ⟨r, rfl, -⟩ | ⟨tag, r, rfl, -⟩
    · exact ⟨_, rfl⟩
    · exact ⟨_, rfl⟩
  obtain ⟨u, rfl⟩ := hstart hw
  obtain ⟨u', rfl⟩ := hstart hw'
  refine Option.eq_none_iff_forall_ne_some.2 fun n hn => ?_
  rcases openTag?_iff.1 hn with ⟨r, ht, -⟩ | ⟨tag, r, ht, htag, hspace, -⟩
  · match b, ht with
    | [], ht => cases ht
    | [_], ht => cases ht
    | _ :: _ :: b, ht =>
      cases ht
      cases h
  · obtain ⟨p, g, q, rfl⟩ := htag.eq
    match b, ht with
    | [], ht => cases ht
    | [_], ht =>
      cases ht
      cases congrArg (·[0]?) htag
    | [_, _], ht =>
      cases ht
      cases congrArg (·[1]?) htag
    | [_, _, _], ht =>
      cases ht
      cases congrArg (·[2]?) htag
    | [_, _, _, _], ht =>
      cases ht
      cases hspace
    | _ :: _ :: _ :: _ :: e :: b, ht =>
      cases ht
      have hsome : openTag? ('<' :: '?' :: [p, g, q] ++ (e :: (b ++ '<' :: u))) = some 5 :=
        openTag?_iff.2 (.inr ⟨[p, g, q], _, rfl, htag, hspace, rfl⟩)
      cases h.symm.trans hsome

/-- Text outside of the code ends before the same opening tag, or before another one. -/
theorem html_append {x w w' : Text} (hw : (openTag? w).isSome) (hw' : (openTag? w').isSome) (h : html (x ++ w) = x) :
    html (x ++ w') = x := by
  have hstop : ∀ {v : Text}, (openTag? v).isSome → html v = [] := by
    intro v hv
    cases v with
    | nil => rfl
    | cons c v => rw [html, if_pos hv]
  induction x with
  | nil => exact hstop hw'
  | cons c x ih =>
    rw [List.cons_append, html] at h ⊢
    split at h
    · cases h
    · rename_i hnone
      rw [openTag?_before hw hw' (Option.not_isSome_iff_eq_none.1 hnone), ih (List.cons.inj h).2]
      rfl

/-- Behind text outside of the code stands an opening tag, or nothing. -/
theorem openTag?_behind_html {t : Text} (h : t.drop (html t).length ≠ []) :
    (openTag? (t.drop (html t).length)).isSome := by
  induction t with
  | nil => exact absurd rfl h
  | cons c t ih =>
    rw [html] at h ⊢
    split
    · rename_i htag
      exact htag
    · rename_i hnone
      rw [if_neg hnone] at h
      exact ih h

/-! ### Separators, brackets and closing tags -/

/-- Lexemes with which no longer one begins. -/
def closers : List Lexeme :=
  [⟨.semi, [';']⟩, ⟨.comma, [',']⟩, ⟨.lParen, ['(']⟩, ⟨.rParen, [')']⟩, ⟨.lBracket, ['[']⟩, ⟨.rBracket, [']']⟩,
    ⟨.lBrace, ['\x7b']⟩, ⟨.rBrace, ['\x7d']⟩, ⟨.closeTag, ['?', '>']⟩]

/-- The pattern of what may follow a text. -/
def steps (p : Pattern) (t : Text) : Pattern := t.foldl (fun p c => p.step c) p

theorem matches_steps {p : Pattern} {t u : Text} : Matches (steps p t) u ↔ Matches p (t ++ u) := by
  induction t generalizing p with
  | nil => rfl
  | cons c t ih => exact ih.trans (matches_step c p (t ++ u))

/-- The pattern matches no text but perhaps the empty one. -/
def isOver : Pattern → Bool
  | .fail => true
  | .empty => true
  | _ => false

theorem eq_nil_of_isOver {p : Pattern} {t : Text} (h : isOver p = true) (ht : Matches p t) : t = [] := by
  cases p with
  | fail => exact absurd ht matches_fail
  | empty => exact matches_empty.1 ht
  | _ => cases h

theorem isOver_rules : ∀ l ∈ closers, ∀ rule ∈ rules, isOver (steps rule.2 l.text) = true := by decide

theorem longestOf_closers : ∀ l ∈ closers, l.kind ∉ [.inlineHtml, .openTag, .error] ∧
    l.kind ∉ [.blockComment, .heredoc] ∧ l.text ≠ [] ∧ longestOf rules l.text = some (l.kind, l.text.length) := by
  decide +kernel

theorem parts_closers : ∀ l ∈ closers, (∃ c ∈ '[' :: delimiters, l.text = [c]) ∨ l.text = ['?', '>'] := by
  have hall : ∀ l ∈ closers, (('[' :: delimiters).any fun c => l.text == [c]) = true ∨ l.text = ['?', '>'] := by decide
  exact fun l hl => (hall l hl).imp_left fun h => by simpa using h

theorem parts_closer {l : Lexeme} (hl : l ∈ closers) (w : Text) : Parts (l.text ++ w) := by
  rcases parts_closers l hl with ⟨c, hc, htext⟩ | htext
  · rw [htext]
    exact parts_cons hc w
  · rw [htext]
    exact .inr (List.prefix_append _ _)

/-- A separator, a bracket or a closing tag is read before any text. -/
theorem lexeme_closer {l : Lexeme} (hl : l ∈ closers) (w : Text) : lexeme (l.text ++ w) = l := by
  obtain ⟨-, hkind, hne, hfound⟩ := longestOf_closers l hl
  have hwithin : ∀ rule ∈ rules, ∀ s, s <+: l.text ++ w → Matches rule.2 s → s.length ≤ l.text.length := by
    intro rule hrule s hs hm
    refine Nat.le_of_not_lt fun hlt => ?_
    obtain ⟨v, rfl⟩ := List.prefix_of_prefix_length_le (List.prefix_append l.text w) hs (Nat.le_of_lt hlt)
    rw [eq_nil_of_isOver (isOver_rules l hl rule hrule) (matches_steps.2 hm), List.append_nil] at hlt
    exact Nat.lt_irrefl _ hlt
  refine (lexeme_append hne).2 ?_
  rw [front, longestOf_congr fun rule hrule => longest?_append (hwithin rule hrule), hfound]
  exact extend_of_not_mem hkind

theorem next_closer {l : Lexeme} (hl : l ∈ closers) (w w' : Text) :
    next .code (l.text ++ w) = next .code (l.text ++ w') := by
  simp only [next, lexeme_closer hl]

/-! ### Passages before another text -/

/-- What may stand behind the last lexeme of a passage instead of what stood there. -/
def Ends (l : Lexeme) (w w' : Text) : Prop :=
  l ∈ closers ∨ (l.kind = .openTag ∧ (l.text.length = 5 → w'.head?.all isSpace = true)) ∨
    (l.kind ∉ [.inlineHtml, .openTag, .error] ∧ Agrees w w' ∧ Follows l.kind l.text w w')

theorem next_html_of_openTag {l : Lexeme} {w w' : Text} {m : Mode} (h : next .html (l.text ++ w) = (l, m))
    (hkind : l.kind = .openTag) (hhead : l.text.length = 5 → w'.head?.all isSpace = true) :
    next .html (l.text ++ w') = (l, m) := by
  simp only [next] at h ⊢
  cases htag : openTag? (l.text ++ w) with
  | none =>
    rw [htag] at h
    cases hkind.symm.trans (congrArg (·.1.kind) h).symm
  | some n =>
    rw [htag] at h
    have htext : (l.text ++ w).take n = l.text := congrArg (·.1.text) h
    have hn : n = l.text.length := by
      have hlength := congrArg List.length htext
      rwa [List.length_take, Nat.min_eq_left (openTag?_pos htag).2] at hlength
    subst hn
    simp only [htext] at h
    rw [openTag?_append htag hhead]
    simp only [List.take_left]
    exact h

theorem head?_behind_openTag {l : Lexeme} {w : Text} {m : Mode} (h : next .html (l.text ++ w) = (l, m))
    (hkind : l.kind = .openTag) (hlength : l.text.length = 5) : w.head?.all isSpace = true := by
  simp only [next] at h
  cases htag : openTag? (l.text ++ w) with
  | none =>
    rw [htag] at h
    cases hkind.symm.trans (congrArg (·.1.kind) h).symm
  | some n =>
    rw [htag] at h
    have htext : (l.text ++ w).take n = l.text := congrArg (·.1.text) h
    have hn : n = 5 := by
      have hle := congrArg List.length htext
      rw [List.length_take, Nat.min_eq_left (openTag?_pos htag).2] at hle
      omega
    rcases openTag?_iff.1 htag with ⟨r, -, hthree⟩ | ⟨tag, r, ht, htag, hspace, -⟩
    · omega
    · obtain ⟨p, g, q, rfl⟩ := htag.eq
      obtain ⟨-, rfl⟩ := List.append_inj ht (by rw [hlength]; rfl)
      exact hspace

theorem openTag?_behind_inlineHtml {l : Lexeme} {w : Text} {m : Mode} (h : next .html (l.text ++ w) = (l, m))
    (hkind : l.kind = .inlineHtml) (hw : w ≠ []) : (openTag? w).isSome := by
  simp only [next] at h
  cases htag : openTag? (l.text ++ w) with
  | some n =>
    rw [htag] at h
    cases hkind.symm.trans (congrArg (·.1.kind) h).symm
  | none =>
    rw [htag] at h
    have htext : html (l.text ++ w) = l.text := congrArg (·.1.text) h
    have hdrop := openTag?_behind_html (t := l.text ++ w) (by rwa [htext, List.drop_left])
    rwa [htext, List.drop_left] at hdrop

theorem next_html_of_inlineHtml {l : Lexeme} {w w' : Text} {m : Mode} (h : next .html (l.text ++ w) = (l, m))
    (hne : l.text ≠ []) (hkind : l.kind = .inlineHtml) (hw : w ≠ []) (hw' : (openTag? w').isSome) :
    next .html (l.text ++ w') = (l, m) := by
  have hbehind := openTag?_behind_inlineHtml h hkind hw
  simp only [next] at h ⊢
  cases htag : openTag? (l.text ++ w) with
  | some n =>
    rw [htag] at h
    cases hkind.symm.trans (congrArg (·.1.kind) h).symm
  | none =>
    rw [htag] at h
    have htext : html (l.text ++ w) = l.text := congrArg (·.1.text) h
    obtain ⟨c, x, hx⟩ := List.exists_cons_of_ne_nil hne
    have hnone : openTag? (l.text ++ w') = none := by
      rw [hx] at htag ⊢
      exact openTag?_before hbehind hw' htag
    simp only [htext] at h
    rw [hnone]
    simp only [html_append hbehind hw' htext]
    exact h

theorem next_code_of_agrees {l : Lexeme} {w w' : Text} {m : Mode} (h : next .code (l.text ++ w) = (l, m))
    (hne : l.text ≠ []) (herror : l.kind ≠ .error) (hagrees : Agrees w w') (hfollows : Follows l.kind l.text w w') :
    next .code (l.text ++ w') = (l, m) := by
  have hlexeme : lexeme (l.text ++ w) = l := congrArg Prod.fst h
  have hfront := (lexeme_append hne).1 hlexeme
  have hlexeme' : lexeme (l.text ++ w') = l :=
    (lexeme_append hne).2 (front_of_agrees hfront herror hne hagrees hfollows)
  simp only [next, hlexeme] at h
  simp only [next, hlexeme']
  exact h

theorem kind_of_next_html {l : Lexeme} {t : Text} {m : Mode} (h : next .html t = (l, m)) :
    (l.kind = .openTag ∧ (openTag? t).isSome) ∨ (l.kind = .inlineHtml ∧ openTag? t = none ∧ m = .html) := by
  simp only [next] at h
  cases htag : openTag? t with
  | none =>
    rw [htag] at h
    cases h
    exact .inr ⟨rfl, rfl, rfl⟩
  | some n =>
    rw [htag] at h
    cases h
    exact .inl ⟨rfl, rfl⟩

theorem lit_of_closers : ∀ l ∈ closers, ∀ p, (l.kind, p) ∈ rules → p = lit l.text := by
  simp [closers, rules]

/-- A lexeme of code that is of the kind of a separator, a bracket or a closing tag is one. -/
theorem mem_closers {l : Lexeme} {w : Text} {m : Mode} (h : next .code (l.text ++ w) = (l, m)) (hne : l.text ≠ [])
    (hk : l.kind ∈ closers.map Lexeme.kind) : l ∈ closers := by
  obtain ⟨c, hc, hkind⟩ := List.mem_map.1 hk
  obtain ⟨hcode, hextends, -, -⟩ := longestOf_closers c hc
  rw [hkind] at hcode hextends
  have hlexeme : lexeme (l.text ++ w) = l := congrArg Prod.fst h
  have hfront := (lexeme_append hne).1 hlexeme
  obtain ⟨p, z, y, hp, hsplit, hz, hm, hextend, -⟩ := exists_rule hfront fun herror => hcode (by rw [herror]; decide)
  obtain rfl : p = lit c.text := lit_of_closers c hc p (hkind ▸ hp)
  obtain rfl := matches_lit.1 hm
  have hlength : l.text.length = c.text.length := by
    rw [extend_of_not_mem hextends] at hextend
    exact congrArg Prod.snd (hfront.symm.trans hextend)
  have hy : y = [] := by
    rw [hsplit, List.length_append] at hlength
    exact List.length_eq_zero_iff.1 (by omega)
  rw [hy, List.append_nil] at hsplit
  obtain ⟨k, t⟩ := l
  obtain ⟨k', t'⟩ := c
  cases hkind
  cases hsplit
  exact hc

theorem kind_of_next_code {l : Lexeme} {w : Text} {m : Mode} (h : next .code (l.text ++ w) = (l, m))
    (hne : l.text ≠ []) (herror : l.kind ≠ .error) : l.kind ∉ [.inlineHtml, .openTag] ∧ (l ∈ closers ∨ m = .code) := by
  have hlexeme : lexeme (l.text ++ w) = l := congrArg Prod.fst h
  obtain ⟨p, z, y, hp, -⟩ := exists_rule ((lexeme_append hne).1 hlexeme) herror
  have hkinds : ∀ rule ∈ rules, rule.1 ∉ [.inlineHtml, .openTag] := by decide
  refine ⟨hkinds _ hp, ?_⟩
  by_cases hclose : l.kind = .closeTag
  · exact .inl (mem_closers h hne (by rw [hclose]; decide))
  · simp only [next, hlexeme, if_neg hclose] at h
    exact .inr (congrArg Prod.snd h).symm

namespace Reads

variable {m m' : Mode} {x w w' : Text} {ls : List Lexeme} {l : Lexeme}

theorem ne_nil (h : Reads m x w (l :: ls) m') : x ≠ [] := by
  cases h with
  | cons hne _ _ => simp [hne]

/-- A passage that begins with a lexeme of code is read in code. -/
theorem mode_of_head (h : Reads m x w (l :: ls) m') (hl : l.kind ∉ [.inlineHtml, .openTag]) : m = .code := by
  cases m with
  | code => rfl
  | html =>
    cases h with
    | cons _ hnext _ =>
      rcases kind_of_next_html hnext with ⟨hk, -⟩ | ⟨hk, -, -⟩ <;> exact absurd (by rw [hk]; decide) hl

/-- The last lexeme of a passage is read before what follows the passage. -/
theorem exists_next_getLast? (h : Reads m x w ls m') (hlast : ls.getLast? = some l) :
    l.text ≠ [] ∧ ∃ n, next n (l.text ++ w) = (l, m') := by
  induction h with
  | nil => cases hlast
  | @cons m m' m'' k x w ls hk hnext hrest ih =>
    cases ls with
    | cons k' ls => exact ih (by rwa [List.getLast?_cons_cons] at hlast)
    | nil =>
      obtain rfl : k = l := Option.some.inj hlast
      cases hrest
      exact ⟨hk, m, hnext⟩

/-- A passage that ends with a lexeme of the kind of a separator, a bracket or a closing tag ends with one. -/
theorem getLast?_mem_closers (h : Reads m x w ls m') (hlast : ls.getLast? = some l)
    (hk : l.kind ∈ closers.map Lexeme.kind) : l ∈ closers := by
  obtain ⟨hne, n, hnext⟩ := h.exists_next_getLast? hlast
  cases n with
  | code => exact mem_closers hnext hne hk
  | html =>
    have hkinds : ∀ k ∈ closers.map Lexeme.kind, k ∉ [.openTag, .inlineHtml] := by decide
    rcases kind_of_next_html hnext with ⟨h, -⟩ | ⟨h, -, -⟩ <;> exact absurd (by rw [h]; decide) (hkinds _ hk)

/-- Behind a passage the code goes on, unless it ends with a closing tag or outside of the code. -/
theorem mode_of_getLast? (h : Reads m x w ls m') (hlast : ls.getLast? = some l) (hl : l.kind ∉ [.inlineHtml, .closeTag]) :
    m' = .code := by
  obtain ⟨-, n, hnext⟩ := h.exists_next_getLast? hlast
  cases n with
  | html =>
    rcases kind_of_next_html hnext with ⟨htag, -⟩ | ⟨hhtml, -⟩
    · simp only [next] at hnext
      split at hnext
      · exact (congrArg Prod.snd hnext).symm
      · cases htag.symm.trans (congrArg (·.1.kind) hnext).symm
    · exact absurd (by rw [hhtml]; decide) hl
  | code =>
    have hlexeme : lexeme (l.text ++ w) = l := congrArg Prod.fst hnext
    have hclose : l.kind ≠ .closeTag := fun hclose => hl (by rw [hclose]; decide)
    simp only [next, hlexeme, if_neg hclose] at hnext
    exact (congrArg Prod.snd hnext).symm

theorem openTag?_iff_kind (h : Reads .html x w (l :: ls) m') : (openTag? (x ++ w)).isSome ↔ l.kind = .openTag := by
  cases h with
  | cons hne hnext _ =>
    rw [List.append_assoc]
    rcases kind_of_next_html hnext with ⟨hk, htag⟩ | ⟨hk, htag, -⟩
    · exact ⟨fun _ => hk, fun _ => htag⟩
    · rw [htag, hk]
      exact ⟨nofun, nofun⟩

/-- Behind the first lexeme of code both texts agree up to where the second one parts: at the latest at a separator or
bracket that ends the passage, or at the tag that closes the code. -/
theorem agrees (h : Reads .code x w ls m') (hne : ls ≠ []) (herror : ∀ l ∈ ls, l.kind ≠ .error)
    (hlast : ∀ l, ls.getLast? = some l → Ends l w w') : Agrees (x ++ w) (x ++ w') := by
  generalize hm : Mode.code = m at h
  induction h with
  | nil => exact absurd rfl hne
  | @cons m m' m'' l x w ls hl hnext hrest ih =>
    subst hm
    have hparts : Parts (l.text ++ (x ++ w')) → Agrees (l.text ++ x ++ w) (l.text ++ x ++ w') := by
      intro h
      rw [List.append_assoc, List.append_assoc]
      exact h.agrees
    obtain ⟨hkind, hcloser | hmode⟩ := kind_of_next_code hnext hl (herror l List.mem_cons_self)
    · exact hparts (parts_closer hcloser _)
    · cases ls with
      | nil =>
        cases hrest
        rcases hlast l rfl with hcloser | ⟨htag, -⟩ | ⟨-, hagrees, -⟩
        · exact hparts (parts_closer hcloser _)
        · exact absurd (by rw [htag]; decide) hkind
        · rw [List.append_nil]
          exact hagrees.append l.text
      | cons l' ls =>
        have hagrees := ih (List.cons_ne_nil l' ls) (fun k hk => herror k (List.mem_cons_of_mem _ hk))
          (fun k hk => hlast k (by rwa [List.getLast?_cons_cons])) hmode.symm
        rw [List.append_assoc, List.append_assoc]
        exact hagrees.append l.text

/-- The last lexeme of a passage is read before another text that may stand behind it. -/
theorem next_of_ends (h : next m (l.text ++ w) = (l, m')) (hne : l.text ≠ []) (herror : l.kind ≠ .error)
    (hends : Ends l w w') : next m (l.text ++ w') = (l, m') := by
  cases m with
  | html =>
    have hkind := kind_of_next_html h
    rcases hends with hcloser | ⟨htag, hhead⟩ | ⟨hcode, -⟩
    · have hcode := (longestOf_closers l hcloser).1
      rcases hkind with ⟨hk, -⟩ | ⟨hk, -⟩ <;> exact absurd (by rw [hk]; decide) hcode
    · exact next_html_of_openTag h htag hhead
    · rcases hkind with ⟨hk, -⟩ | ⟨hk, -⟩ <;> exact absurd (by rw [hk]; decide) hcode
  | code =>
    rcases hends with hcloser | ⟨htag, -⟩ | ⟨-, hagrees, hfollows⟩
    · rw [← next_closer hcloser w, h]
    · exact absurd (by rw [htag]; decide) (kind_of_next_code h hne herror).1
    · exact next_code_of_agrees h hne herror hagrees hfollows

/-- A passage is read alike before another text that may stand behind its last lexeme. -/
theorem exchange (h : Reads m x w ls m') (herror : ∀ l ∈ ls, l.kind ≠ .error)
    (hlast : ∀ l, ls.getLast? = some l → Ends l w w') : Reads m x w' ls m' := by
  induction h with
  | nil => exact .nil
  | @cons m m' m'' l x w ls hl hnext hrest ih =>
    have herror' : ∀ k ∈ ls, k.kind ≠ .error := fun k hk => herror k (List.mem_cons_of_mem _ hk)
    cases ls with
    | nil =>
      cases hrest
      exact .cons hl (next_of_ends hnext hl (herror l List.mem_cons_self) (hlast l rfl)) .nil
    | cons l' ls =>
      have hlast' : ∀ k, (l' :: ls).getLast? = some k → Ends k w w' := fun k hk =>
        hlast k (by rwa [List.getLast?_cons_cons])
      have hrest' := ih herror' hlast'
      refine .cons hl ?_ hrest'
      have hhead : (x ++ w').head? = (x ++ w).head? := by
        obtain ⟨c, x, rfl⟩ := List.exists_cons_of_ne_nil hrest.ne_nil
        rfl
      cases m with
      | html =>
        rcases kind_of_next_html hnext with ⟨hk, -⟩ | ⟨hk, -, rfl⟩
        · refine next_html_of_openTag hnext hk fun hlength => ?_
          rw [hhead]
          exact head?_behind_openTag hnext hk hlength
        · -- The next lexeme is an opening tag in both texts.
          have hbehind := openTag?_behind_inlineHtml hnext hk (by simp [hrest.ne_nil])
          exact next_html_of_inlineHtml hnext hl hk (by simp [hrest.ne_nil])
            (hrest'.openTag?_iff_kind.2 (hrest.openTag?_iff_kind.1 hbehind))
      | code =>
        have hcode := herror l List.mem_cons_self
        rcases (kind_of_next_code hnext hl hcode).2 with hcloser | rfl
        · rw [← next_closer hcloser (x ++ w), hnext]
        · exact next_code_of_agrees hnext hl hcode (hrest.agrees (List.cons_ne_nil l' ls) herror' hlast') (.inl hhead)

end Reads

end Lexer

end Graft
