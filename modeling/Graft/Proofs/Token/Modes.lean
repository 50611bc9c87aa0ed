/-
Text outside of the code and the code alternate.

The lexer hands the position back and forth between two modes.  What a token says of its mode can be seen in the list of
tokens: behind an opening tag there is code up to the next closing tag, and text outside of the code stands where no
code does, up to the first place where an opening tag begins.

* `exists_next_of_lex` — a token is the lexeme that is read where it stands, in the mode that the tokens before it leave;
* `exists_rule_of_mem_lex` — a rule for its kind matches a token;
* `InCode`, `AtGap` — what the two modes say of the tokens before;
* `BeginsTag` — the places where an opening tag begins;
* `lex_modes` — what stands around a token of each kind.
-/
import Graft.Proofs.Reading.Passage

namespace Graft

namespace Lexer

open TokenTable

/-! ### A lexeme in a passage -/

/-- Each lexeme of a passage is read from the text that begins with it. -/
theorem Reads.exists_next {m m' : Mode} {x w : Text} {ls ls' : List Lexeme} {l : Lexeme}
    (h : Reads m x w (ls ++ l :: ls') m') : ∃ n n',
      Reads m (ls.flatMap Lexeme.text) (l.text ++ (ls'.flatMap Lexeme.text ++ w)) ls n ∧ l.text ≠ [] ∧
      next n (l.text ++ (ls'.flatMap Lexeme.text ++ w)) = (l, n') ∧ Reads n' (ls'.flatMap Lexeme.text) w ls' m' := by
  obtain ⟨n, hbefore, hrest⟩ := h.of_append
  rw [List.flatMap_cons] at hbefore hrest
  rw [List.append_assoc] at hbefore
  generalize hy : l.text ++ ls'.flatMap Lexeme.text = y at hrest
  cases hrest with
  | @cons _ n' _ _ x _ _ hne hnext hbehind =>
    obtain rfl := List.append_cancel_left hy
    exact ⟨n, n', hbefore, hne, hnext, hbehind⟩

/-- A token of a text stands behind the text of the tokens before it, and it is the lexeme that is read there. -/
theorem exists_next_of_lex {src : Text} {pre post : List Token} {t : Token} (h : lex src = pre ++ t :: post) :
    src = pre.flatMap Token.text ++ (t.text ++ post.flatMap Token.text) ∧ t.start = Text.size (pre.flatMap Token.text) ∧
      t.text ≠ [] ∧ ∃ n n',
        Reads .html (pre.flatMap Token.text) (t.text ++ post.flatMap Token.text) (pre.map Token.lexeme) n ∧
        next n (t.text ++ post.flatMap Token.text) = (t.lexeme, n') := by
  have htext : ∀ ts : List Token, (ts.map Token.lexeme).flatMap Lexeme.text = ts.flatMap Token.text :=
    fun ts => List.flatMap_map ..
  have hlexemes : lexemesOf .html src = pre.map Token.lexeme ++ t.lexeme :: post.map Token.lexeme := by
    rw [← List.map_cons, ← List.map_append, ← h]
    exact (map_lexeme_place 0 _).symm
  obtain ⟨m, hwhole⟩ := Reads.whole .html src
  rw [hlexemes] at hwhole
  have hsrc := hwhole.flatMap
  obtain ⟨n, n', hbefore, hne, hnext, -⟩ := hwhole.exists_next
  rw [List.append_nil, htext] at hnext
  rw [List.append_nil, htext, htext] at hbefore
  rw [List.flatMap_append, List.flatMap_cons, htext, htext] at hsrc
  obtain ⟨z, hpre, hstart, -⟩ := Tiled.of_append (h ▸ Tiled.lex src)
  refine ⟨hsrc.symm, ?_, hne, n, n', hbefore, hnext⟩
  rw [hstart, ← hpre.size_flatMap, Nat.zero_add]

/-! ### The modes behind a passage -/

/-- Kinds of tokens that leave the mode as it is. -/
def Stays (k : TokenKind) : Prop := k ≠ .inlineHtml ∧ k ≠ .openTag ∧ k ≠ .closeTag

/-- An opening tag has been read, and behind it neither the code has been closed nor anything outside of it been read. -/
def InCode (ks : List TokenKind) : Prop := ∃ before behind, ks = before ++ .openTag :: behind ∧ ∀ k ∈ behind, Stays k

/-- Nothing has been read, or what was read last is outside of the code or closes it. -/
def AtGap (ks : List TokenKind) : Prop := ∀ k, ks.getLast? = some k → k = .inlineHtml ∨ k = .closeTag

/-- In code neither text outside of it nor an opening tag is read. -/
theorem kind_of_code {l : Lexeme} {w : Text} {m : Mode} (h : next .code (l.text ++ w) = (l, m)) (hne : l.text ≠ []) :
    l.kind ≠ .inlineHtml ∧ l.kind ≠ .openTag := by
  by_cases herror : l.kind = .error
  · rw [herror]
    decide
  · have hkind := (kind_of_next_code h hne herror).1
    simpa using hkind

/-- A closing tag is what ends the code. -/
theorem mode_of_code {l : Lexeme} {t : Text} {m : Mode} (h : next .code t = (l, m)) :
    m = if l.kind = .closeTag then .html else .code := by
  simp only [next, Prod.mk.injEq] at h
  rw [← h.1, ← h.2]

/-- Code begins behind an opening tag. -/
theorem mode_of_html {l : Lexeme} {t : Text} {m : Mode} (h : next .html t = (l, m)) :
    (l.kind = .openTag ∧ m = .code) ∨ (l.kind = .inlineHtml ∧ m = .html) := by
  simp only [next] at h
  split at h
  · cases h
    exact .inl ⟨rfl, rfl⟩
  · cases h
    exact .inr ⟨rfl, rfl⟩

/-- What neither opens the code nor stands outside of it is read as code. -/
theorem eq_code_of_next {l : Lexeme} {t : Text} {n m : Mode} (h : next n t = (l, m)) (htag : l.kind ≠ .openTag)
    (hhtml : l.kind ≠ .inlineHtml) : n = .code := by
  cases n with
  | code => rfl
  | html =>
    rcases mode_of_html h with ⟨hkind, -⟩ | ⟨hkind, -⟩
    · exact absurd hkind htag
    · exact absurd hkind hhtml

/-- A token that no rule extends is a text that a rule for its kind matches. -/
theorem exists_rule_of_mem_lex {src : Text} {t : Token} (ht : t ∈ lex src)
    (hkind : t.kind ∉ [.inlineHtml, .openTag, .error, .blockComment, .heredoc]) :
    ∃ p, (t.kind, p) ∈ rules ∧ p.Matches t.text := by
  simp only [List.mem_cons, List.not_mem_nil, or_false, not_or] at hkind
  obtain ⟨hhtml, htag, herror, hcomment, hheredoc⟩ := hkind
  obtain ⟨pre, post, hsrc⟩ := List.append_of_mem ht
  obtain ⟨-, -, hne, n, m, -, hnext⟩ := exists_next_of_lex hsrc
  obtain rfl : n = .code := eq_code_of_next hnext htag hhtml
  have hne : t.text ++ post.flatMap Token.text ≠ [] := List.append_ne_nil_of_left_ne_nil hne _
  have hlexeme : lexeme (t.text ++ post.flatMap Token.text) = t.lexeme := congrArg Prod.fst hnext
  have hfront : (front (t.text ++ post.flatMap Token.text)).1 = t.kind := by
    rw [← kind_lexeme hne, hlexeme]
    rfl
  obtain ⟨p, n, hp, hn, hextend⟩ := rule_of_front (hfront ▸ herror)
  rw [extend_of_not_mem (by simp [hfront, hcomment, hheredoc])] at hextend
  have htext : (t.text ++ post.flatMap Token.text).take n = t.text := by
    have htake := congrArg Lexeme.text (lexeme_eq_take hne)
    rw [hlexeme, hextend] at htake
    exact htake.symm
  obtain ⟨-, hmatch, -⟩ := Pattern.longest?_eq_some_iff.1 hn
  rw [htext] at hmatch
  exact ⟨p, hfront ▸ hp, hmatch⟩

/-- A passage behind which there is code holds an opening tag, or it is in one piece of code. -/
theorem Reads.inCode {m m' : Mode} {x w : Text} {ls : List Lexeme} (h : Reads m x w ls m') (hm : m' = .code) :
    InCode (ls.map Lexeme.kind) ∨ m = .code ∧ ∀ k ∈ ls.map Lexeme.kind, Stays k := by
  induction h with
  | nil => exact .inr ⟨hm, by simp⟩
  | @cons m m' m'' l x w ls hne hnext _ ih =>
    rw [List.map_cons]
    rcases ih hm with ⟨before, behind, hls, hstays⟩ | ⟨rfl, hstays⟩
    · exact .inl ⟨l.kind :: before, behind, by rw [hls, List.cons_append], hstays⟩
    · cases m with
      | html =>
        -- The first lexeme is the tag, as there is code behind it.
        rcases mode_of_html hnext with ⟨hkind, -⟩ | ⟨-, hmode⟩
        · exact .inl ⟨[], ls.map Lexeme.kind, by rw [hkind, List.nil_append], hstays⟩
        · cases hmode
      | code =>
        have hclose : l.kind ≠ .closeTag := by
          intro hclose
          have hmode := mode_of_code hnext
          rw [if_pos hclose] at hmode
          cases hmode
        obtain ⟨hhtml, htag⟩ := kind_of_code hnext hne
        exact .inr ⟨rfl, List.forall_mem_cons.2 ⟨⟨hhtml, htag, hclose⟩, hstays⟩⟩

/-- A passage behind which there is no code is empty or ends with text outside of the code or a closing tag. -/
theorem Reads.atGap {m : Mode} {x w : Text} {ls : List Lexeme} (h : Reads m x w ls .html) :
    AtGap (ls.map Lexeme.kind) := by
  intro k hk
  rw [List.getLast?_map, Option.map_eq_some_iff] at hk
  obtain ⟨l, hlast, rfl⟩ := hk
  obtain ⟨-, n, hnext⟩ := h.exists_next_getLast? hlast
  cases n with
  | html =>
    rcases mode_of_html hnext with ⟨-, hmode⟩ | ⟨hkind, -⟩
    · cases hmode
    · exact .inl hkind
  | code =>
    have hmode := mode_of_code hnext
    split at hmode
    · exact .inr ‹_›
    · cases hmode

/-! ### Opening tags -/

/-- `tag` is an opening tag where `rest` follows it: `<?=`, or `<?php` in any case of letters with a blank or nothing
behind it. -/
def IsOpenTag (tag rest : Text) : Prop :=
  tag = "<?=".toList ∨ ∃ word, tag = '<' :: '?' :: word ∧ TagWord word ∧ rest.head?.all isSpace = true

/-- An opening tag begins here. -/
def BeginsTag (t : Text) : Prop := ∃ tag rest, t = tag ++ rest ∧ IsOpenTag tag rest

theorem openTag?_eq_some_iff {t : Text} {n : Nat} :
    openTag? t = some n ↔ ∃ tag rest, t = tag ++ rest ∧ tag.length = n ∧ IsOpenTag tag rest := by
  rw [openTag?_iff]
  constructor
  · rintro (⟨rest, rfl, rfl⟩ | ⟨word, rest, rfl, hword, hspace, rfl⟩)
    · exact ⟨_, rest, rfl, rfl, .inl rfl⟩
    · refine ⟨'<' :: '?' :: word, rest, rfl, ?_, .inr ⟨word, rfl, hword, hspace⟩⟩
      obtain ⟨p, h, q, rfl⟩ := hword.eq
      rfl
  · rintro ⟨tag, rest, rfl, rfl, rfl | ⟨word, rfl, hword, hspace⟩⟩
    · exact .inl ⟨rest, rfl, rfl⟩
    · refine .inr ⟨word, rest, rfl, hword, hspace, ?_⟩
      obtain ⟨p, h, q, rfl⟩ := hword.eq
      rfl

theorem beginsTag_iff {t : Text} : BeginsTag t ↔ (openTag? t).isSome = true := by
  rw [Option.isSome_iff_exists]
  constructor
  · rintro ⟨tag, rest, ht, htag⟩
    exact ⟨tag.length, openTag?_eq_some_iff.2 ⟨tag, rest, ht, rfl, htag⟩⟩
  · rintro ⟨n, hn⟩
    obtain ⟨tag, rest, ht, -, htag⟩ := openTag?_eq_some_iff.1 hn
    exact ⟨tag, rest, ht, htag⟩

/-- A letter whose lower case is ASCII takes one byte. -/
theorem utf8Size_of_toLower {c d : Char} (h : c.toLower = d) (hd : d.val ≤ 127) : c.utf8Size = 1 := by
  refine Char.utf8Size_eq_one_iff.2 ?_
  unfold Char.toLower at h
  split at h
  · rename_i hupper
    exact UInt32.le_trans hupper.2 (by decide)
  · rwa [h]

/-- An opening tag has three or five bytes. -/
theorem IsOpenTag.size {tag rest : Text} (h : IsOpenTag tag rest) : tag.size = 3 ∨ tag.size = 5 := by
  rcases h with rfl | ⟨word, rfl, hword, -⟩
  · exact .inl rfl
  · obtain ⟨p, h, q, rfl⟩ := hword.eq
    have hchars : [p.toLower, h.toLower, q.toLower] = ['p', 'h', 'p'] := hword
    simp only [List.cons.injEq, and_true] at hchars
    obtain ⟨hp, hh, hq⟩ := hchars
    refine .inr ?_
    simp only [Text.size_cons, Text.size_nil, utf8Size_of_toLower hp (by decide), utf8Size_of_toLower hh (by decide),
      utf8Size_of_toLower hq (by decide)]
    decide

/-- No opening tag begins within the text before the next one. -/
theorem not_beginsTag_html {t p q : Text} (h : html t = p ++ q) (hq : q ≠ []) :
    ¬BeginsTag (q ++ t.drop (html t).length) := by
  induction t generalizing p with
  | nil =>
    rw [html] at h
    exact absurd (List.append_eq_nil_iff.1 h.symm).2 hq
  | cons c t ih =>
    rw [html] at h ⊢
    split at h
    · exact absurd (List.append_eq_nil_iff.1 h.symm).2 hq
    · rename_i hnone
      rw [if_neg hnone, List.length_cons, List.drop_succ_cons]
      cases p with
      | nil =>
        obtain rfl : c :: html t = q := h
        rwa [List.cons_append, html_append_drop, beginsTag_iff]
      | cons d p => exact ih (List.cons.inj h).2

/-! ### The modes of the tokens -/

section Tokens

variable {l : Lexeme} {w x : Text} {ls : List Lexeme} {m : Mode}

/-- Text outside of the code is not cut in two. -/
theorem not_inlineHtml_twice (hbefore : Reads .html x (l.text ++ w) ls .html) (hnext : next .html (l.text ++ w) = (l, m))
    (hne : l.text ≠ []) (hkind : l.kind = .inlineHtml) {k : Lexeme} (hlast : ls.getLast? = some k) :
    k.kind ≠ .inlineHtml := by
  intro hk
  obtain ⟨hkne, n, hbehind⟩ := hbefore.exists_next_getLast? hlast
  cases n with
  | code => exact (kind_of_code hbehind hkne).1 hk
  | html =>
    have htag := openTag?_behind_inlineHtml hbehind hk (by simp [hne])
    rcases kind_of_next_html hnext with ⟨hopen, -⟩ | ⟨-, hnone, -⟩
    · cases hkind.symm.trans hopen
    · rw [hnone] at htag
      cases htag

/-- Text outside of the code goes on as long as no opening tag begins. -/
theorem html_of_next (hnext : next .html (l.text ++ w) = (l, m)) (hkind : l.kind = .inlineHtml) :
    (w = [] ∨ BeginsTag w) ∧ ∀ p q, l.text = p ++ q → q ≠ [] → ¬BeginsTag (q ++ w) := by
  refine ⟨?_, fun p q hpq hq => ?_⟩
  · by_cases hw : w = []
    · exact .inl hw
    · exact .inr (beginsTag_iff.2 (openTag?_behind_inlineHtml hnext hkind hw))
  · have htext : html (l.text ++ w) = l.text := by
      simp only [next] at hnext
      split at hnext
      · cases hkind.symm.trans (congrArg (·.1.kind) hnext).symm
      · exact congrArg (·.1.text) hnext
    have hnot := not_beginsTag_html (htext.trans hpq) hq
    rwa [htext, List.drop_left] at hnot

/-- An opening tag is one. -/
theorem isOpenTag_of_next (hnext : next .html (l.text ++ w) = (l, m)) (hkind : l.kind = .openTag) :
    IsOpenTag l.text w := by
  simp only [next] at hnext
  split at hnext
  · rename_i n hn
    obtain ⟨tag, rest, hsplit, hlength, htag⟩ := openTag?_eq_some_iff.1 hn
    have htext : (l.text ++ w).take n = l.text := congrArg (·.1.text) hnext
    rw [hsplit, ← hlength, List.take_left] at htext
    subst htext
    rwa [List.append_cancel_left hsplit]
  · cases hkind.symm.trans (congrArg (·.1.kind) hnext).symm

end Tokens

/-- Text outside of the code stands at the start or right behind a closing tag, and goes on up to the first place where
an opening tag begins; an opening tag stands at the start, behind text outside of the code or behind a closing tag; and
what else there is stands behind an opening tag, with no closing tag in between. -/
theorem lex_modes {src : Text} {pre post : List Token} {t : Token} (h : lex src = pre ++ t :: post) :
    let rest := post.flatMap Token.text
    src = pre.flatMap Token.text ++ (t.text ++ rest) ∧ t.start = Text.size (pre.flatMap Token.text) ∧
    (t.kind = .inlineHtml → (∀ u, pre.getLast? = some u → u.kind = .closeTag) ∧ (rest = [] ∨ BeginsTag rest) ∧
      ∀ p q, t.text = p ++ q → q ≠ [] → ¬BeginsTag (q ++ rest)) ∧
    (t.kind = .openTag → IsOpenTag t.text rest ∧ (t.text.size = 3 ∨ t.text.size = 5) ∧
      ∀ u, pre.getLast? = some u → u.kind = .inlineHtml ∨ u.kind = .closeTag) ∧
    (t.kind ≠ .inlineHtml → t.kind ≠ .openTag → InCode (pre.map Token.kind)) := by
  intro rest
  obtain ⟨hsrc, hstart, hne, n, n', hbefore, hnext⟩ := exists_next_of_lex h
  have hkinds : (pre.map Token.lexeme).map Lexeme.kind = pre.map Token.kind := List.map_map ..
  have hlast : ∀ {u}, pre.getLast? = some u → (pre.map Token.lexeme).getLast? = some u.lexeme := by
    intro u hu
    rw [List.getLast?_map, hu, Option.map_some]
  have hgap : n = .html → ∀ {u}, pre.getLast? = some u → u.kind = .inlineHtml ∨ u.kind = .closeTag := by
    rintro rfl u hu
    refine hbefore.atGap u.kind ?_
    rw [List.getLast?_map, hlast hu, Option.map_some]
    rfl
  refine ⟨hsrc, hstart, ?_⟩
  cases n with
  | html =>
    refine ⟨fun hkind => ⟨fun u hu => ?_, html_of_next (l := t.lexeme) hnext hkind⟩, fun hkind => ?_, fun hhtml htag => ?_⟩
    · exact (hgap rfl hu).resolve_left (not_inlineHtml_twice (l := t.lexeme) hbefore hnext hne hkind (hlast hu))
    · have htag := isOpenTag_of_next (l := t.lexeme) hnext hkind
      exact ⟨htag, htag.size, fun u hu => hgap rfl hu⟩
    · cases eq_code_of_next (l := t.lexeme) hnext htag hhtml
  | code =>
    obtain ⟨hhtml, htag⟩ := kind_of_code (l := t.lexeme) hnext hne
    refine ⟨fun hkind => absurd hkind hhtml, fun hkind => absurd hkind htag, fun _ _ => ?_⟩
    rcases hbefore.inCode rfl with hcode | ⟨hmode, -⟩
    · rwa [hkinds] at hcode
    · cases hmode

/-- Text with a tag that no blank follows, between a closing tag and a tag at the end. -/
theorem lex_modes_unfinished_tag : ∃ src pre t post,
    src = "a?><?php f(); ?>b <?phpx<?PhP".toList ∧ lex src = pre ++ t :: post ∧ t.kind = .inlineHtml ∧
    t.text = "b <?phpx".toList ∧ t.start = Text.size (pre.flatMap Token.text) ∧ t.start = 16 ∧
    (∀ u, pre.getLast? = some u → u.kind = .closeTag) ∧ BeginsTag (post.flatMap Token.text) ∧
    ∀ p q, t.text = p ++ q → q ≠ [] → ¬BeginsTag (q ++ post.flatMap Token.text) := by
  obtain ⟨src, hsrc, pre, hsplit⟩ : ∃ src, src = "a?><?php f(); ?>b <?phpx<?PhP".toList ∧ ∃ pre,
      lex src = pre ++ ⟨.inlineHtml, 16, "b <?phpx".toList⟩ :: [⟨.openTag, 24, "<?PhP".toList⟩] :=
    ⟨_, rfl, (lex "a?><?php f(); ?>b <?phpx<?PhP".toList).take 9, by decide +kernel⟩
  obtain ⟨-, hstart, hhtml, -⟩ := lex_modes hsplit
  obtain ⟨hbefore, hrest, hnot⟩ := hhtml rfl
  exact ⟨src, pre, _, _, hsrc, hsplit, rfl, rfl, hstart, rfl, hbefore, hrest.resolve_left (by simp), hnot⟩

end Lexer

end Graft
