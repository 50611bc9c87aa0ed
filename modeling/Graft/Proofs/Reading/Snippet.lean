/-
The method of a snippet is written in the snippet.

A snippet is read between the lines of a class that is wrapped around it, and it may close that class and declare others.
Whatever it does, the method that is found stands behind the opening brace of a class and before the closing one.  No brace
opens before that of the wrapping class and none closes behind it, and the method neither begins nor ends with a line feed,
so that nothing of the lines around the snippet is part of the method.

* `exists_of_mem_marks`, `Tiled.exists_between` — the comments before a mark, and the tokens up to another one;
* `Method.WrittenAs` — the tokens that a method is read from;
* `Arena.wrapFront_le_of_lBrace`, `Arena.stop_le_of_rBrace` — what stands between braces stands in the snippet;
* `Arena.parseMethod_within` — where the method of a snippet stands, and what it begins and ends with.
-/
import Graft.Proofs.Edit.Prepared
import Graft.Proofs.Reading.Lossless
import Graft.Proofs.Reading.Marked
import Graft.Proofs.Reading.Places
import Graft.Proofs.Token.Modes

namespace Graft

/-! ### The comments before a mark -/

/-- Comments with the whitespace between and behind them, or nothing. -/
structure AreComments (comments : List Token) : Prop where
  trivia : ∀ t ∈ comments, t.kind.isTrivia = true
  comment : ∀ t, comments.head? = some t → t.kind ∈ [.lineComment, .blockComment]

theorem areComments_nil : AreComments [] := ⟨by simp, by simp⟩

/-- Where the margin has a lead, it stands behind comments that belong to the next token. -/
structure Margin.Follows (m : Margin) (comments : List Token) : Prop where
  areComments : AreComments comments
  lead : m.lead = comments.head?.map Token.start

theorem Margin.follows_nil {m : Margin} (h : m.lead = none) : m.Follows [] := ⟨areComments_nil, h⟩

/-- One more piece of trivia is a comment of the next token, or it stands before all of them. -/
theorem Margin.Follows.push {m : Margin} {comments : List Token} (h : m.Follows comments) {t : Token}
    (ht : t.kind.isTrivia = true) : (m.push t).Follows (comments ++ [t]) ∨ comments = [] ∧ (m.push t).Follows [] := by
  cases comments with
  | cons u us =>
    have hlead : m.lead = some u.start := h.lead
    have htrivia := List.forall_mem_append.2 ⟨h.areComments.trivia, List.forall_mem_singleton.2 ht⟩
    refine .inl ⟨⟨htrivia, h.areComments.comment⟩, ?_⟩
    rw [Margin.push, hlead]
    exact hlead
  | nil =>
    have hlead : m.lead = none := h.lead
    by_cases hspace : t.kind = .whitespace
    · refine .inr ⟨rfl, follows_nil ?_⟩
      simp [Margin.push, hlead, hspace]
    · by_cases hfresh : m.freshLine = true
      · refine .inl ⟨⟨List.forall_mem_singleton.2 ht, ?_⟩, ?_⟩
        · rintro _ ⟨⟩
          revert ht hspace
          cases t.kind <;> decide
        · simp [Margin.push, hlead, hspace, hfresh]
      · refine .inr ⟨rfl, follows_nil ?_⟩
        simp [Margin.push, hlead, hspace, hfresh]

/-- A mark is a token with the comments before it that belong to it: where these start, the lead is. -/
theorem exists_of_mem_marks {m : Margin} {comments us : List Token} {k : Mark} (hm : m.Follows comments)
    (hk : k ∈ marks m us) : ∃ before comments' behind, comments ++ us = before ++ (comments' ++ k.token :: behind) ∧
      AreComments comments' ∧ ∃ t, (comments' ++ [k.token]).head? = some t ∧ k.lead = t.start := by
  induction us generalizing m comments with
  | nil => cases hk
  | cons t us ih =>
    -- What stands before the comments of a later token.
    have later : ∀ {m' : Margin}, m'.lead = none → k ∈ marks m' us → ∃ before comments' behind,
        comments ++ t :: us = before ++ (comments' ++ k.token :: behind) ∧ AreComments comments' ∧
          ∃ t, (comments' ++ [k.token]).head? = some t ∧ k.lead = t.start := by
      intro m' hlead hk
      obtain ⟨before, comments', behind, hsplit, hrest⟩ := ih (Margin.follows_nil hlead) hk
      rw [List.nil_append] at hsplit
      exact ⟨comments ++ t :: before, comments', behind, by rw [hsplit]; simp, hrest⟩
    rw [marks] at hk
    split at hk
    · exact later rfl hk
    · split at hk
      · rename_i htrivia
        rcases hm.push htrivia with hpush | ⟨-, hpush⟩
        · have h := ih hpush hk
          rwa [List.append_assoc, List.singleton_append] at h
        · exact later hpush.lead hk
      · rcases List.mem_cons.1 hk with rfl | hk
        · refine ⟨[], comments, us, rfl, hm.areComments, ?_⟩
          rw [hm.lead]
          cases comments with
          | nil => exact ⟨t, rfl, rfl⟩
          | cons u comments => exact ⟨u, rfl, rfl⟩
        · exact later rfl hk

/-! ### The order of marks -/

/-- The marks of a method stand between those of the braces around it. -/
theorem Ground.Ahead.order {G : Ground} {eof e : Nat} {before ms behind rest : List Mark} {opening close k l : Mark}
    (h : G.Ahead eof e (opening :: (before ++ (ms ++ (behind ++ close :: rest))))) (hk : ms.head? = some k)
    (hl : ms.getLast? = some l) :
    opening.token.stop ≤ k.lead ∧ k.token.stop ≤ l.token.stop ∧ l.token.stop ≤ close.token.start := by
  obtain ⟨-, -, -, hbefore⟩ := h
  obtain ⟨hms, hle⟩ := hbefore.drop
  obtain ⟨ms, rfl⟩ : ∃ ns, ms = k :: ns := by
    cases ms with
    | nil => cases hk
    | cons k' ns =>
      cases hk
      exact ⟨ns, rfl⟩
  have hend : endOf k.token.stop ms = l.token.stop := endOf_of_getLast? (e := 0) hl
  obtain ⟨hlead, -, -, hrest⟩ := hms
  obtain ⟨hbehind, hle'⟩ := hrest.drop
  obtain ⟨⟨hlead', hclose, -⟩, hle''⟩ := hbehind.drop
  have h₁ := G.le_of_blank hlead
  have h₂ := G.le_of_blank hlead'
  have h₃ := G.le_of_blank hclose
  omega

/-- The tokens from a mark on to a later one, with the comments that belong to the first. -/
theorem Tiled.exists_between {lo hi : Nat} {us : List Token} {k l : Mark} (h : Tiled lo us hi)
    (hk : k ∈ marks .afterTag us) (hl : l ∈ marks .afterTag us) (hle : k.token.stop ≤ l.token.stop) :
    ∃ pre comments body post, us = pre ++ ((comments ++ body) ++ post) ∧ AreComments comments ∧
      body.head? = some k.token ∧ body.getLast? = some l.token ∧
      ∃ t, (comments ++ body).head? = some t ∧ k.lead = t.start := by
  obtain ⟨pre, comments, behind, hsplit, hcomments, t, ht, hlead⟩ :=
    exists_of_mem_marks (Margin.follows_nil (m := .afterTag) rfl) hk
  rw [List.nil_append] at hsplit
  subst hsplit
  -- The later token is not before the first one.
  have hmem : l.token ∈ k.token :: behind := by
    have hl := List.mem_map_of_mem (f := Mark.token) hl
    rw [tokens_marks, ← List.append_assoc] at hl
    refine (List.mem_append.1 (List.mem_filter.1 hl).1).resolve_left fun hl => ?_
    obtain ⟨z, hbefore, hz, hne, -⟩ := Tiled.of_append (List.append_assoc pre comments _ ▸ h)
    have hlt := Tiled.start_lt_stop_of_ne_nil hne
    have hlz := hbefore.within hl
    omega
  obtain ⟨mid, post, hmid⟩ := List.append_of_mem hmem
  have hhead : (mid ++ [l.token]).head? = some k.token := by
    have hhead := congrArg List.head? hmid
    rw [List.head?_append] at hhead ⊢
    exact hhead.symm
  refine ⟨pre, comments, mid ++ [l.token], post, by rw [hmid]; simp, hcomments, hhead, List.getLast?_concat, t, ?_, hlead⟩
  rw [List.head?_append] at ht ⊢
  rwa [hhead]

/-! ### The tokens of a method -/

/-- The tokens that a method is read from: comments, and those that begin and end the method. -/
structure Method.WrittenAs (m : Method) (comments body : List Token) : Prop where
  areComments : AreComments comments
  opens : ∃ t, body.head? = some t ∧ t.OpensMethod
  start : ∃ t, (comments ++ body).head? = some t ∧ m.span.start = t.start
  ends : ∃ t, body.getLast? = some t ∧ m.EndsWith t

theorem Method.WrittenAs.kind {m : Method} {comments body : List Token} {t : Token} (h : m.WrittenAs comments body)
    (ht : (comments ++ body).head? = some t) : t.kind ∈ [.lineComment, .blockComment, .attrOpen, .ident] := by
  cases comments with
  | nil =>
    obtain ⟨u, hu, hopens⟩ := h.opens
    obtain rfl : u = t := Option.some.inj (hu.symm.trans ht)
    rcases hopens with hk | ⟨hk, -⟩ <;> simp [hk]
  | cons u us =>
    obtain rfl : u = t := Option.some.inj ht
    have hk := h.areComments.comment u rfl
    simp only [List.mem_cons, List.not_mem_nil, or_false] at hk
    rcases hk with hk | hk <;> simp [hk]

/-! ### Characters of a text -/

namespace Text

variable {a b p q : Text} {c : Char}

/-- A character that a first part does not have stands behind it. -/
theorem size_le_of_not_mem_left (h : a ++ b = p ++ c :: q) (hc : c ∉ a) : a.size ≤ p.size := by
  refine Nat.le_of_not_lt fun hlt => ?_
  obtain ⟨m, rfl, hm⟩ := exists_append_of_size_le h.symm (Nat.le_of_lt hlt)
  cases m with
  | nil => simp at hlt
  | cons d m =>
    obtain ⟨rfl, -⟩ := List.cons.inj hm
    exact hc (by simp)

/-- A character that a last part does not have stands before it. -/
theorem size_le_of_not_mem_right (h : a ++ b = p ++ c :: q) (hc : c ∉ b) : p.size + c.utf8Size ≤ a.size := by
  rcases Nat.lt_or_ge p.size a.size with hlt | hle
  · obtain ⟨m, rfl, hm⟩ := exists_append_of_size_le h.symm (Nat.le_of_lt hlt)
    cases m with
    | nil => simp at hlt
    | cons d m =>
      obtain ⟨rfl, -⟩ := List.cons.inj hm
      simp only [size_append, size_cons]
      omega
  · obtain ⟨m, rfl, rfl⟩ := exists_append_of_size_le h hle
    exact absurd (by simp) hc

theorem append_inj_of_size_eq {p' q' : Text} (h : p ++ q = p' ++ q') (hsize : p.size = p'.size) : p = p' ∧ q = q' := by
  obtain ⟨m, rfl, rfl⟩ := exists_append_of_size_le h (Nat.le_of_eq hsize)
  cases m with
  | nil => simp
  | cons d m =>
    have := d.utf8Size_pos
    simp only [size_append, size_cons] at hsize
    omega

end Text

/-! ### Snippets -/

namespace Arena

open Lexer (closers)

variable {a b : Arena} {src code : Text} {pre post : List Token} {t : Token} {m : Method}

/-- A token of a text that is read into an arena stands behind the text of the tokens before it. -/
theorem exists_next_of_tokensOf (h : a.tokensOf src = pre ++ t :: post) :
    src = pre.flatMap Token.text ++ (t.text ++ post.flatMap Token.text) ∧
      t.start = a.text.size + Text.size (pre.flatMap Token.text) ∧ t.text ≠ [] ∧
      ∃ n n', Lexer.next n (t.text ++ post.flatMap Token.text) = (t.lexeme, n') := by
  obtain ⟨pre, rest, hlex, rfl, hrest⟩ := List.map_eq_append_iff.1 h
  obtain ⟨t, post, rfl, rfl, rfl⟩ := List.map_eq_cons_iff.1 hrest
  obtain ⟨hsrc, hstart, hne, n, n', -, hnext⟩ := Lexer.exists_next_of_lex hlex
  have htext : ∀ ts : List Token, (ts.map (·.shift a.text.size)).flatMap Token.text = ts.flatMap Token.text :=
    fun ts => List.flatMap_map ..
  rw [htext, htext]
  refine ⟨hsrc, ?_, hne, n, n', hnext⟩
  rw [← hstart]
  exact Nat.add_comm ..

/-- A separator, a bracket or a closing tag has the text of its kind. -/
theorem mem_closers_of_tokensOf (h : a.tokensOf src = pre ++ t :: post) (hk : t.kind ∈ closers.map Lexeme.kind) :
    t.lexeme ∈ closers := by
  obtain ⟨-, -, hne, n, n', hnext⟩ := exists_next_of_tokensOf h
  have hkinds : ∀ k ∈ closers.map Lexeme.kind, k ≠ .openTag ∧ k ≠ .inlineHtml := by decide
  obtain ⟨htag, hhtml⟩ := hkinds _ hk
  obtain rfl := Lexer.eq_code_of_next hnext htag hhtml
  exact Lexer.mem_closers (l := t.lexeme) hnext hne hk

/-- What belongs to the code and is no whitespace does not begin with a line feed. -/
theorem head?_of_tokensOf (h : a.tokensOf src = pre ++ t :: post)
    (hk : t.kind ∉ [.openTag, .inlineHtml, .error, .whitespace]) : t.text.head? ≠ some '\n' := by
  obtain ⟨-, -, hne, n, n', hnext⟩ := exists_next_of_tokensOf h
  simp only [List.mem_cons, List.not_mem_nil, or_false, not_or] at hk
  obtain ⟨htag, hhtml, herror, hspace⟩ := hk
  obtain rfl := Lexer.eq_code_of_next hnext htag hhtml
  have hlexeme : Lexer.lexeme (t.text ++ post.flatMap Token.text) = t.lexeme := congrArg Prod.fst hnext
  have hhead := Lexer.head?_lexeme (t := t.text ++ post.flatMap Token.text) (by simp [hne]) (by rwa [hlexeme])
    (by rwa [hlexeme])
  obtain ⟨c, u, hu⟩ := List.exists_cons_of_ne_nil hne
  rw [hu] at hhead ⊢
  exact hhead

/-! ### The lines around a snippet -/

/-- The lines before the code of a snippet. -/
def wrapFront : Text := "<?php\nclass __DUMMY__ \x7b\n".toList

theorem wrapMethod_eq (code : Text) : wrapMethod code = wrapFront ++ (code ++ "\n\x7d\n".toList) := List.append_assoc ..

theorem wrapFront_eq_append_lBrace : wrapFront = "<?php\nclass __DUMMY__ ".toList ++ ['\x7b', '\n'] := by decide

theorem wrapFront_eq_append_lineFeed : wrapFront = "<?php\nclass __DUMMY__ \x7b".toList ++ ['\n'] := by decide

/-- No brace opens before that of the wrapping class. -/
theorem size_wrapFront_le (h : a.tokensOf (wrapMethod code) = pre ++ t :: post) (hk : t.kind = .lBrace) :
    a.text.size + wrapFront.size ≤ t.stop + 1 := by
  have hclosers : ∀ l ∈ closers, l.kind = .lBrace → l.text = ['\x7b'] := by decide
  have htext : t.text = ['\x7b'] := hclosers _ (mem_closers_of_tokensOf h (by rw [hk]; decide)) hk
  obtain ⟨hsrc, hstart, -⟩ := exists_next_of_tokensOf h
  rw [htext, wrapMethod_eq, wrapFront_eq_append_lBrace, List.append_assoc] at hsrc
  have hle := Text.size_le_of_not_mem_left hsrc (by decide)
  have hsize : wrapFront.size = Text.size "<?php\nclass __DUMMY__ ".toList + 2 := by decide
  have hstop : t.stop = t.start + 1 := by rw [Token.stop, htext]; rfl
  omega

/-- No brace closes behind that of the wrapping class. -/
theorem start_le_of_rBrace (h : a.tokensOf (wrapMethod code) = pre ++ t :: post) (hk : t.kind = .rBrace) :
    t.start ≤ a.text.size + (wrapFront ++ code).size + 1 := by
  have hclosers : ∀ l ∈ closers, l.kind = .rBrace → l.text = ['\x7d'] := by decide
  have htext : t.text = ['\x7d'] := hclosers _ (mem_closers_of_tokensOf h (by rw [hk]; decide)) hk
  obtain ⟨hsrc, hstart, -⟩ := exists_next_of_tokensOf h
  rw [htext, wrapMethod_eq] at hsrc
  have hback : (wrapFront ++ (code ++ "\n\x7d".toList)) ++ "\n".toList =
      pre.flatMap Token.text ++ '\x7d' :: post.flatMap Token.text := by
    rw [← List.singleton_append, ← hsrc]
    simp
  have hle := Text.size_le_of_not_mem_right hback (by decide)
  have hsize : Text.size "\n\x7d".toList = 2 := by decide
  have hbrace : '\x7d'.utf8Size = 1 := by decide
  simp only [Text.size_append] at hle ⊢
  omega

/-- What begins behind a brace and with no line feed begins behind the lines before the code. -/
theorem wrapFront_le_of_lBrace (h : a.tokensOf (wrapMethod code) = pre ++ t :: post)
    (hk : t.kind ∉ [.openTag, .inlineHtml, .error, .whitespace]) {opening : Token}
    (hopening : opening ∈ a.tokensOf (wrapMethod code)) (hkopening : opening.kind = .lBrace)
    (hle : opening.stop ≤ t.start) : wrapFront.size ≤ Text.size (pre.flatMap Token.text) := by
  obtain ⟨before, behind, hsplit⟩ := List.append_of_mem hopening
  have hbrace := size_wrapFront_le hsplit hkopening
  obtain ⟨hsrc, hstart, hne, -⟩ := exists_next_of_tokensOf h
  refine Nat.le_of_not_lt fun hlt => ?_
  -- It would begin with the line feed behind the brace.
  have hsize : wrapFront.size = Text.size "<?php\nclass __DUMMY__ \x7b".toList + 1 := by decide
  rw [wrapMethod_eq, wrapFront_eq_append_lineFeed, List.append_assoc] at hsrc
  obtain ⟨-, htext⟩ := Text.append_inj_of_size_eq hsrc (by omega)
  obtain ⟨c, u, hu⟩ := List.exists_cons_of_ne_nil hne
  rw [hu, List.cons_append, List.cons_append, List.cons.injEq] at htext
  refine head?_of_tokensOf h hk ?_
  rw [hu, ← htext.1, List.head?_cons]

/-- What ends before a brace and with no line feed ends in the code. -/
theorem stop_le_of_rBrace (h : a.tokensOf (wrapMethod code) = pre ++ t :: post)
    (hk : t.kind ∈ [.rBrace, .semi, .closeTag]) {close : Token} (hclose : close ∈ a.tokensOf (wrapMethod code))
    (hkclose : close.kind = .rBrace) (hle : t.stop ≤ close.start) : t.stop ≤ a.text.size + (wrapFront ++ code).size := by
  obtain ⟨before, behind, hsplit⟩ := List.append_of_mem hclose
  have hbrace := start_le_of_rBrace hsplit hkclose
  obtain ⟨hsrc, hstart, hne, -⟩ := exists_next_of_tokensOf h
  refine Nat.le_of_not_lt fun hlt => ?_
  -- It would end with the line feed before the brace.
  have hback : (pre.flatMap Token.text ++ t.text) ++ post.flatMap Token.text =
      (wrapFront ++ code ++ ['\n']) ++ "\x7d\n".toList := by
    rw [List.append_assoc, ← hsrc, wrapMethod_eq]
    simp
  have hbreak : Text.size ['\n'] = 1 := by decide
  have hstop : t.stop = t.start + t.text.size := rfl
  obtain ⟨htext, -⟩ := Text.append_inj_of_size_eq hback (by simp only [Text.size_append] at *; omega)
  have hlast := congrArg List.getLast? htext
  rw [Text.getLast?_append_of_ne_nil _ hne, List.getLast?_concat] at hlast
  have hclosers : ∀ l ∈ closers, l.text.getLast? ≠ some '\n' := by decide
  refine hclosers _ (mem_closers_of_tokensOf h ?_) hlast
  have hkinds : ∀ k ∈ [TokenKind.rBrace, .semi, .closeTag], k ∈ closers.map Lexeme.kind := by decide
  exact hkinds _ hk

/-! ### The method of a snippet -/

/-- The marks of the method that is found stand between the braces of a class. -/
theorem exists_marks (h : a.parseMethod code = (.ok (some m), b)) : ∃ front opening before ms behind close rest,
    (a.snippetState code).cursor.ahead = front ++ opening :: (before ++ (ms ++ (behind ++ close :: rest))) ∧
      opening.token.kind = .lBrace ∧ close.token.kind = .rBrace ∧ m.MarkedBy ms := by
  obtain ⟨f, hf, hm⟩ := parseMethod_eq_ok h
  obtain ⟨c, hc, hmem⟩ := mem_of_firstMethod? hm
  rw [parseFile_wrapMethod] at hf
  split at hf
  · cases hf
  · split at hf
    · rename_i g st hrun
      cases hf
      obtain ⟨x, ⟨front, rest, hx⟩, header, opening, body, close, rfl, hopening, hclose, hmethods⟩ :=
        Parser.yields_file_marks (a.on_snippetState code).1 _ _ _ _ hrun c hc
      obtain ⟨ms, ⟨before, behind, rfl⟩, hms⟩ := hmethods m hmem
      exact ⟨front ++ header, opening, before, ms, behind, close, rest, by rw [← hx]; simp, hopening, hclose, hms⟩
    · cases hf

/-- The tokens that the method is read from stand between the braces of a class. -/
theorem exists_writtenAs (h : a.parseMethod code = (.ok (some m), b)) : ∃ pre comments body post opening close,
    a.tokensOf (wrapMethod code) = pre ++ ((comments ++ body) ++ post) ∧ m.WrittenAs comments body ∧
      opening ∈ a.tokensOf (wrapMethod code) ∧ opening.kind = .lBrace ∧ opening.stop ≤ m.span.start ∧
      close ∈ a.tokensOf (wrapMethod code) ∧ close.kind = .rBrace ∧ m.span.stop ≤ close.start := by
  obtain ⟨front, opening, before, ms, behind, close, rest, hahead, hopening, hclose, hmarked⟩ := exists_marks h
  obtain ⟨k, hk, hopens, hstart⟩ := hmarked.first
  obtain ⟨l, hl, hends⟩ := hmarked.last
  have hon : (a.ground (wrapMethod code)).Ahead _ _ _ := (a.on_snippetState code).1
  rw [hahead] at hon
  obtain ⟨hopens_le, hle, hle_close⟩ := hon.drop.1.order hk hl
  obtain ⟨tag, us, htokens, hmarks⟩ : ∃ tag us, a.tokensOf (wrapMethod code) = tag ++ us ∧ marks .afterTag us =
      front ++ opening :: (before ++ (ms ++ (behind ++ close :: rest))) :=
    ⟨_, _, (List.take_append_drop 1 _).symm, (a.ahead_snippetState code).symm.trans hahead⟩
  have hmem : ∀ k ∈ front ++ opening :: (before ++ (ms ++ (behind ++ close :: rest))),
      k.token ∈ a.tokensOf (wrapMethod code) := by
    intro k hk
    have htoken := List.mem_map_of_mem (f := Mark.token) hk
    rw [← hmarks, tokens_marks] at htoken
    rw [htokens]
    exact List.mem_append_right _ (List.mem_filter.1 htoken).1
  obtain ⟨z, -, hus⟩ := Tiled.of_append (htokens ▸ a.tiled_tokensOf (wrapMethod code))
  have hkus : k ∈ marks .afterTag us := by
    rw [hmarks]
    simp [List.mem_of_mem_head? hk]
  have hlus : l ∈ marks .afterTag us := by
    rw [hmarks]
    simp [List.mem_of_mem_getLast? hl]
  obtain ⟨pre, comments, body, post, rfl, hcomments, hhead, hlast, t, ht, hlead⟩ :=
    hus.exists_between hkus hlus hle
  refine ⟨tag ++ pre, comments, body, post, opening.token, close.token, htokens.trans (List.append_assoc ..).symm,
    ⟨hcomments, ⟨_, hhead, hopens⟩, ⟨t, ht, hstart.trans hlead⟩, _, hlast, hends⟩,
    hmem _ (by simp), hopening, ?_, hmem _ (by simp), hclose, ?_⟩
  · rw [hstart]
    exact hopens_le
  · rw [hends.1]
    exact hle_close

/-- The method of a snippet stands in the copy of the code in the arena.  Its text is a part of the code that begins with
the comments above it, with an attribute, with a modifier or with the keyword, and that ends with the brace that closes its
body or with its terminator. -/
theorem parseMethod_within (h : a.parseMethod code = (.ok (some m), b)) : ∃ before piece after,
    code = before ++ (piece ++ after) ∧ m.span.start = a.text.size + (wrapFront ++ before).size ∧
      m.span.stop = m.span.start + piece.size ∧ b.slice m.span = piece ∧
      ∃ pre comments body post, a.tokensOf (wrapMethod code) = pre ++ ((comments ++ body) ++ post) ∧
        (comments ++ body).flatMap Token.text = piece ∧ m.WrittenAs comments body := by
  obtain ⟨pre, comments, body, post, opening, close, htokens, hwritten, hopening, hkopening, hopening_le, hclose, hkclose,
    hle_close⟩ := exists_writtenAs h
  obtain ⟨t, ht, hstart⟩ := hwritten.start
  obtain ⟨u, hu, hstop, hends⟩ := hwritten.ends
  have hlast : (comments ++ body).getLast? = some u := by
    rw [List.getLast?_append, hu]
    rfl
  -- The method between what is before it and what is behind it.
  obtain ⟨x, hpre, hx⟩ := Tiled.of_append (htokens ▸ a.tiled_tokensOf (wrapMethod code))
  obtain ⟨y, hpiece, -⟩ := hx.of_append
  have hxstart : m.span.start = x := hstart.trans (hpiece.start_head? ht)
  have hystop : m.span.stop = y := hstop.trans (hpiece.stop_getLast? hlast)
  have hsizes := And.intro hpre.size_flatMap hpiece.size_flatMap
  have hsrc : wrapMethod code =
      pre.flatMap Token.text ++ ((comments ++ body).flatMap Token.text ++ post.flatMap Token.text) := by
    rw [← List.flatMap_append, ← List.flatMap_append, ← htokens, a.flatMap_tokensOf]
  have hfront : wrapFront.size ≤ Text.size (pre.flatMap Token.text) := by
    obtain ⟨rest, hrest⟩ := List.head?_eq_some_iff.1 ht
    refine wrapFront_le_of_lBrace (t := t) (by rw [htokens, hrest, List.cons_append]) ?_ hopening hkopening
      (hstart ▸ hopening_le)
    have hkinds : ∀ k ∈ [TokenKind.lineComment, .blockComment, .attrOpen, .ident],
        k ∉ [.openTag, .inlineHtml, .error, .whitespace] := by decide
    exact hkinds _ (hwritten.kind ht)
  have hback : u.stop ≤ a.text.size + (wrapFront ++ code).size := by
    obtain ⟨rest, hrest⟩ := List.getLast?_eq_some_iff.1 hlast
    have hsplit : a.tokensOf (wrapMethod code) = (pre ++ rest) ++ u :: post := by
      rw [htokens, hrest]
      simp
    exact stop_le_of_rBrace hsplit hends.kind hclose hkclose (hstop ▸ hle_close)
  -- So the code falls into three parts.
  obtain ⟨before, hbefore, hcode⟩ := Text.exists_append_of_size_le ((wrapMethod_eq code).symm.trans hsrc) hfront
  rw [← List.append_assoc] at hcode
  obtain ⟨after, hafter, -⟩ := Text.exists_append_of_size_le hcode.symm (by
    rw [hbefore] at hsizes
    simp only [Text.size_append] at *
    omega)
  refine ⟨before, _, after, by rw [hafter, List.append_assoc], ?_, ?_, ?_,
    pre, comments, body, post, htokens, rfl, hwritten⟩
  · rw [hxstart, ← hbefore]
    exact hsizes.1.symm
  · rw [hystop, hxstart]
    exact hsizes.2.symm
  · have htext : b.text = a.text ++ wrapMethod code := by
      have hb := a.text_parseMethod code
      rwa [h] at hb
    rw [slice, htext, hystop, hxstart, ← hsizes.2, ← hsizes.1, Nat.add_assoc, Text.slice_append_add, hsrc,
      Text.slice_append]

/-- A snippet that closes the class around it and declares another one: the method begins with the second comment, as the
first one stands on the line of the brace. -/
theorem parseMethod_within_second_class : ∃ (code : Text) (m : Method) (b : Arena),
    code = "\x7d class B \x7b // a\n /* b */ final function f();".toList ∧
    empty.parseMethod code = (.ok (some m), b) ∧ m.span = ⟨42, 69⟩ ∧ ∃ before piece after : Text,
      code = before ++ (piece ++ after) ∧ m.span.start = empty.text.size + (wrapFront ++ before).size ∧
      m.span.stop = m.span.start + piece.size ∧ b.slice m.span = piece ∧
      ∃ pre comments body post, empty.tokensOf (wrapMethod code) = pre ++ ((comments ++ body) ++ post) ∧
        (comments ++ body).flatMap Token.text = piece ∧ m.WrittenAs comments body := by
  obtain ⟨code, hcode, hcheck⟩ : ∃ code, code = "\x7d class B \x7b // a\n /* b */ final function f();".toList ∧
      (empty.parseMethod code).1.toOption.join.map Method.span = some ⟨42, 69⟩ := ⟨_, rfl, by decide +kernel⟩
  cases h : empty.parseMethod code with
  | mk result b =>
    rw [h] at hcheck
    obtain ⟨m, hm, hspan⟩ := Option.map_eq_some_iff.1 hcheck
    have hresult : result = .ok (some m) := by
      cases result with
      | error err => cases hm
      | ok found => exact congrArg Except.ok hm
    subst hresult
    exact ⟨code, m, b, hcode, h, hspan, parseMethod_within h⟩

end Arena

end Graft
