/-
Arrays that are written and read back.

A file that returns an array of written values is read: its array has the entries that were written, in order, each with
its key and with a value that holds what was written and nothing else.

* `Parser.answers_exprWithin_spelling` — a literal before a token that ends it;
* `Parser.answers_arrayItems` — the entries of an array;
* `Arena.parseFile_returning` — the whole file.
-/
import Graft.Proofs.Edit.Prepared
import Graft.Proofs.Reading.Trivia
import Graft.Proofs.Reading.Written

namespace Graft

open Lexer (Spelling)

/-! ### Cursors and the lexemes ahead -/

namespace Cursor

theorem kind?_eq (c : Cursor) : c.kind? = c.lexemes.head?.map Lexeme.kind := by
  simp only [kind?, current?, lexemes, List.head?_map, Option.map_map]
  rfl

theorem check_eq (c : Cursor) (k : TokenKind) : c.check k = (c.lexemes.head?.map Lexeme.kind == some k) := by
  rw [check, kind?_eq]

theorem text_eq (c : Cursor) : c.text = (c.lexemes.head?.map Lexeme.text).getD [] := by
  simp only [text, current?, lexemes, List.head?_map, Option.map_map]
  rfl

theorem checkWord_eq (c : Cursor) (w : String) : c.checkWord w =
    ((c.lexemes.head?.map Lexeme.kind == some .ident) &&
      ((c.lexemes.head?.map Lexeme.text).getD []).sameIgnoringCase w.toList) := by
  rw [checkWord, check_eq, text_eq]

theorem peek?_eq (c : Cursor) (n : Nat) : c.peek? n = c.lexemes[n]?.map Lexeme.kind := by
  simp only [peek?, lexemes, List.getElem?_map, Option.map_map]
  rfl

theorem atEnd_eq (c : Cursor) : c.atEnd = c.lexemes.isEmpty := by
  simp [atEnd, lexemes]

theorem length_lexemes (c : Cursor) : c.lexemes.length = c.ahead.length := List.length_map ..

theorem lexemes_advance (c : Cursor) : c.advance.lexemes = c.lexemes.tail := by
  unfold advance
  split
  · rename_i h
    simp [lexemes, h]
  · rename_i h
    simp [lexemes, h]

end Cursor

theorem ParseState.lexemes_next (s : ParseState) : s.next.cursor.lexemes = s.cursor.lexemes.tail :=
  s.cursor.lexemes_advance

/-! ### What is written -/

/-- The lexemes of a key with its arrow. -/
def keyLexemes : Option Text → List Lexeme
  | none => []
  | some k => [⟨.string, Literal.quote k⟩, ⟨.fatArrow, "=>".toList⟩]

/-- The lexemes of entries with commas between them. -/
inductive Enumerates : List (Option Text × Scalar) → List Lexeme → Prop
  | nil : Enumerates [] []
  | last {k : Option Text} {v : Scalar} {vs : List Lexeme} (h : Spelling v vs) : Enumerates [(k, v)] (keyLexemes k ++ vs)
  | cons {k : Option Text} {v : Scalar} {vs : List Lexeme} {e : Option Text × Scalar} {es : List (Option Text × Scalar)}
      {ls : List Lexeme} (h : Spelling v vs) (hrest : Enumerates (e :: es) ls) :
      Enumerates ((k, v) :: e :: es) (keyLexemes k ++ vs ++ ⟨.comma, [',']⟩ :: ls)

theorem Enumerates.kinds {entries : List (Option Text × Scalar)} {ls : List Lexeme} (h : Enumerates entries ls) :
    ∀ l ∈ ls, l.kind ∉ [.openTag, .error] := by
  have hkey : ∀ k, ∀ l ∈ keyLexemes k, l.kind ∉ [.openTag, .error] := by
    intro k
    cases k <;> simp [keyLexemes]
  have hvalue : ∀ {v vs}, Spelling v vs → ∀ l ∈ vs, l.kind ∉ [.openTag, .error] := by
    intro v vs hvs
    cases hvs <;> simp
  induction h with
  | nil => simp
  | last hvs => exact List.forall_mem_append.2 ⟨hkey _, hvalue hvs⟩
  | cons hvs _ ih =>
    exact List.forall_mem_append.2 ⟨List.forall_mem_append.2 ⟨hkey _, hvalue hvs⟩,
      List.forall_mem_cons.2 ⟨by decide, ih⟩⟩

/-- The brackets of an array around the lexemes of its entries. -/
def bracketed (ls rest : List Lexeme) : List Lexeme := ⟨.lBracket, ['[']⟩ :: (ls ++ ⟨.rBracket, [']']⟩ :: rest)

/-- The entry was written as the key and the value: it has this key, and it holds this value and no other one. -/
def ArrayItem.Holds (e : Option Text × Scalar) (i : ArrayItem Expr) : Prop :=
  i.key.map Expr.string? = e.1.map some ∧ ∀ w : Scalar, w.isHeldBy i.value = true ↔ w = e.2

theorem Scalar.string?_of_isHeldBy {t : Text} {e : Expr} (h : (Scalar.string t).isHeldBy e = true) :
    e.string? = some t := by
  cases e <;> simp_all [isHeldBy, Expr.string?]

/-- The first lexeme of a literal begins an expression. -/
theorem Lexer.Spelling.exists_head {v : Scalar} {ls : List Lexeme} (h : Spelling v ls) :
    ∃ l ks, ls = l :: ks ∧ l.kind ∈ [.string, .int, .op, .ident] := by
  cases h <;> exact ⟨_, _, rfl, by simp⟩

namespace Parser

variable {s : ParseState} {ctx : ExprContext}

/-! ### Entries -/

/-- A literal before a token that ends it is read, and it holds its value and no other one. -/
theorem answers_exprWithin_spelling {v : Scalar} {ls rest : List Lexeme} (hv : v.IsReadable) (hls : Spelling v ls)
    (hahead : s.cursor.lexemes = ls ++ rest) (hrest : ∀ l, rest.head? = some l → ctx.isEnd l.kind = true) (depth : Nat) :
    (exprWithin (depth + 1) ctx).Answers s fun e t =>
      (∀ w : Scalar, w.isHeldBy e = true ↔ w = v) ∧ t.cursor.lexemes = rest := by
  obtain ⟨ms, ns, hsplit, hms, rfl⟩ := List.map_eq_append_iff.1 hahead
  have hends : Ends ctx ns := by
    intro m hm
    refine hrest m.token.lexeme ?_
    rw [List.head?_map, hm]
    rfl
  have hne : ms ≠ [] := by
    rintro rfl
    obtain ⟨l, ks, rfl, -⟩ := hls.exists_head
    cases hms
  obtain ⟨m, ms, rfl⟩ := List.exists_cons_of_ne_nil hne
  have hmap : ((m :: ms).map Mark.token).map Token.lexeme = ls := by
    rw [List.map_map]
    exact hms
  have hread : (exprWithin (depth + 1) ctx).Answers s fun _ t => t.cursor.ahead = ns := by
    have hone : ∀ {k x}, (m :: ms).map (·.token.lexeme) = [⟨k, x⟩] →
        s.cursor.ahead = m :: ns ∧ m.token.kind = k ∧ m.token.text = x := by
      intro k x h
      obtain ⟨hm, hnil⟩ := List.cons.inj h
      obtain rfl := List.map_eq_nil_iff.1 hnil
      exact ⟨hsplit, congrArg Lexeme.kind hm, congrArg Lexeme.text hm⟩
    have hword : ∀ {x}, (m :: ms).map (·.token.lexeme) = [⟨.ident, x⟩] →
        (exprWithin (depth + 1) ctx).Answers s fun _ t => t.cursor.ahead = ns := by
      intro x h
      obtain ⟨hm, hk, -⟩ := hone h
      exact (answers_exprWithin_const hm hends depth hk).mono fun _ _ h => h.2
    cases hls with
    | string x =>
      obtain ⟨hm, hk, htext⟩ := hone hms
      refine (answers_exprWithin_unsigned hm hends depth ?_).mono fun _ _ h => h.2
      simp [hk, htext, literalOf?, Literal.decode?_quote]
    | natural n =>
      obtain ⟨hm, hk, htext⟩ := hone hms
      have hn : n ≤ Literal.maxInt := hv
      refine (answers_exprWithin_unsigned hm hends depth ?_).mono fun _ _ h => h.2
      simp [hk, htext, literalOf?, Literal.integer?_ofNat hn]
    | negative n =>
      obtain ⟨hm, htail⟩ := List.cons.inj hms
      obtain ⟨m', ms, rfl, hm', hnil⟩ := List.map_eq_cons_iff.1 htail
      obtain rfl := List.map_eq_nil_iff.1 hnil
      have hk' : m'.token.kind = .int := congrArg Lexeme.kind hm'
      have htext' : m'.token.text = Text.ofNat (n + 1) := congrArg Lexeme.text hm'
      have hn : n + 1 ≤ Literal.maxInt := hv
      refine (answers_exprWithin_signed hsplit hends depth (congrArg Lexeme.kind hm) (congrArg Lexeme.text hm)
        (by simp [hk']) ?_).mono fun _ _ h => h.2
      simp [hk', htext', literalOf?, Literal.integer?_ofNat hn]
    | yes => exact hword hms
    | no => exact hword hms
    | null => exact hword hms
  refine (hread.and_yields (yields_exprWithin_isOf hsplit hends (depth + 1))).mono fun e t h => ?_
  refine ⟨(hmap ▸ hls : Spelling v _).isHeldBy_iff hv h.2, ?_⟩
  rw [Cursor.lexemes, h.1]

/-- A written entry is read. -/
theorem answers_arrayItem {k : Option Text} {v : Scalar} {vs rest : List Lexeme} (hv : v.IsReadable)
    (hvs : Spelling v vs) (hahead : s.cursor.lexemes = keyLexemes k ++ vs ++ rest)
    (hrest : ∀ l, rest.head? = some l → l.kind = .comma ∨ l.kind = .rBracket) (depth : Nat) :
    (arrayItem (exprWithin (depth + 1))).Answers s fun i t => i.Holds (k, v) ∧ t.cursor.lexemes = rest := by
  have hend : ∀ ctx ∈ [ExprContext.key, .value], ∀ l, rest.head? = some l → ctx.isEnd l.kind = true := by
    intro ctx hctx l hl
    rcases hrest l hl with hk | hk <;> rw [hk] <;> revert ctx <;> decide
  have hbegin : ∀ {ls : List Lexeme} {l : Lexeme} {ks : List Lexeme} {c : Cursor}, c.lexemes = ls → ls = l :: ks →
      l.kind ∈ [.string, .int, .op, .ident] → c.check .ellipsis = false ∧ c.check .amp = false := by
    rintro _ l ks c hc rfl hl
    have hkinds : ∀ k ∈ [TokenKind.string, .int, .op, .ident], k ≠ .ellipsis ∧ k ≠ .amp := by decide
    simpa [Cursor.check_eq, hc] using hkinds l.kind hl
  simp only [arrayItem, answers_bind, answers_fresh, answers_here, answers_eat]
  cases k with
  | none =>
    obtain ⟨l, ks, hl, hkind⟩ := hvs.exists_head
    obtain ⟨hellipsis, hamp⟩ := hbegin (c := s.cursor) hahead (by rw [hl]; rfl) hkind
    simp only [hellipsis, hamp, Bool.false_eq_true, if_false]
    refine (answers_exprWithin_spelling (s := ⟨s.cursor, s.nextId + 1⟩) hv hvs hahead (hend .key (by simp)) depth).mono fun e t h => ?_
    have harrow : t.cursor.check .fatArrow = false := by
      rw [Cursor.check_eq, h.2]
      cases hhead : rest.head? with
      | none => rfl
      | some l =>
        rw [Option.map_some]
        rcases hrest l hhead with hk | hk <;> rw [hk] <;> rfl
    simp only [harrow, Bool.false_eq_true, if_false, answers_bind, answers_spanFrom, answers_pure]
    exact ⟨⟨rfl, h.1⟩, h.2⟩
  | some k =>
    have hahead' : s.cursor.lexemes = [⟨.string, Literal.quote k⟩] ++ (⟨.fatArrow, "=>".toList⟩ :: (vs ++ rest)) := hahead
    obtain ⟨hellipsis, hamp⟩ := hbegin (c := s.cursor) hahead' rfl (by simp)
    simp only [hellipsis, hamp, Bool.false_eq_true, if_false]
    refine (answers_exprWithin_spelling (s := ⟨s.cursor, s.nextId + 1⟩) (v := .string k) trivial (.string k) hahead'
      (fun l hl => ?_) depth).mono fun e t h => ?_
    · obtain rfl := Option.some.inj hl
      rfl
    · have harrow : t.cursor.check .fatArrow = true := by
        rw [Cursor.check_eq, h.2]
        rfl
      have hnext : t.next.cursor.lexemes = vs ++ rest := by
        rw [ParseState.lexemes_next, h.2]
        rfl
      obtain ⟨l, ks, hl, hkind⟩ := hvs.exists_head
      obtain ⟨-, hamp⟩ := hbegin (c := t.next.cursor) hnext (by rw [hl]; rfl) hkind
      simp only [harrow, if_true, answers_bind, answers_eat, hamp, Bool.false_eq_true, if_false]
      refine (answers_exprWithin_spelling hv hvs hnext (hend .value (by simp)) depth).mono fun e' u h' => ?_
      simp only [answers_spanFrom, answers_pure]
      have hkey := Scalar.string?_of_isHeldBy ((h.1 (.string k)).2 rfl)
      exact ⟨⟨congrArg some hkey, h'.1⟩, h'.2⟩

/-- The entries of a written array are read, up to the bracket that closes it. -/
theorem answers_arrayItems {entries : List (Option Text × Scalar)} {ls rest : List Lexeme}
    (hv : ∀ e ∈ entries, e.2.IsReadable) (h : Enumerates entries ls)
    (hahead : s.cursor.lexemes = ls ++ ⟨.rBracket, [']']⟩ :: rest) (depth : Nat) :
    (arrayItems (exprWithin (depth + 1)) .rBracket).Answers s fun r t =>
      (∃ items, r = some items ∧ List.Forall₂ ArrayItem.Holds entries items) ∧
        t.cursor.lexemes = ⟨.rBracket, [']']⟩ :: rest := by
  -- The entries that are still ahead, behind those that have been read.
  refine Answers.loop (I := fun items s => ∃ before after ks, entries = before ++ after ∧
    List.Forall₂ ArrayItem.Holds before items ∧ Enumerates after ks ∧
      s.cursor.lexemes = ks ++ ⟨.rBracket, [']']⟩ :: rest) ?_ ⟨[], entries, ls, rfl, .nil, h, hahead⟩
  rintro items u ⟨before, after, ks, hsplit, hitems, hks, hu⟩
  simp only [answers_bind, answers_check]
  by_cases hnil : ks = []
  · -- No entry is left.
    subst hnil
    obtain rfl : after = [] := by
      generalize hks' : ([] : List Lexeme) = ks at hks
      cases hks with
      | nil => rfl
      | last hvs | cons hvs _ =>
        obtain ⟨l, ls, rfl, -⟩ := hvs.exists_head
        simp at hks'
    have hcloser : u.cursor.check .rBracket = true := by
      rw [Cursor.check_eq, hu]
      rfl
    rw [List.append_nil] at hsplit
    simp only [hcloser, if_true, answers_pure]
    exact ⟨⟨items, rfl, hsplit ▸ hitems⟩, hu⟩
  · obtain ⟨k, v, vs, after, behind, rfl, hvs, hentry, hbehind⟩ : ∃ k v vs after' behind, after = (k, v) :: after' ∧
        Spelling v vs ∧ u.cursor.lexemes = keyLexemes k ++ vs ++ behind ∧
        ((after' = [] ∧ behind = ⟨.rBracket, [']']⟩ :: rest) ∨
          ∃ ks', Enumerates after' ks' ∧ behind = ⟨.comma, [',']⟩ :: (ks' ++ ⟨.rBracket, [']']⟩ :: rest)) := by
      cases hks with
      | nil => exact absurd rfl hnil
      | last hvs => exact ⟨_, _, _, [], _, rfl, hvs, hu, .inl ⟨rfl, rfl⟩⟩
      | cons hvs hrest => exact ⟨_, _, _, _, _, rfl, hvs, by simpa using hu, .inr ⟨_, hrest, rfl⟩⟩
    obtain ⟨l, ls, hfirst, hkind⟩ : ∃ l ls, u.cursor.lexemes = l :: ls ∧ l.kind ∈ [.string, .int, .op, .ident] := by
      rw [hentry]
      cases k with
      | none =>
        obtain ⟨l, ls, rfl, hkind⟩ := hvs.exists_head
        exact ⟨l, _, rfl, hkind⟩
      | some k => exact ⟨_, _, rfl, by simp⟩
    have hkinds : ∀ k ∈ [TokenKind.string, .int, .op, .ident],
        k ≠ .rBracket ∧ k ≠ .comma ∧ ExprContext.value.isEnd k = false := by decide
    obtain ⟨hcloser, hcomma, hend⟩ := hkinds _ hkind
    have hlook : u.cursor.check .rBracket = false ∧ u.cursor.check .comma = false ∧
        u.cursor.kind?.all ExprContext.value.isEnd = false := by
      rw [Cursor.check_eq, Cursor.check_eq, Cursor.kind?_eq, hfirst]
      simpa using ⟨hcloser, hcomma, hend⟩
    have hread : ∀ e ∈ before ++ (k, v) :: after, e.2.IsReadable := hsplit ▸ hv
    have hkinds' : ∀ l, behind.head? = some l → l.kind = .comma ∨ l.kind = .rBracket := by
      intro l hl
      rcases hbehind with ⟨-, rfl⟩ | ⟨ks', -, rfl⟩ <;> obtain rfl := Option.some.inj hl
      · exact .inr rfl
      · exact .inl rfl
    simp only [hlook.1, hlook.2.1, hlook.2.2, answers_bind, answers_check, answers_atExprEnd, Bool.or_self, Bool.false_eq_true,
      if_false]
    refine (answers_arrayItem (hread (k, v) (by simp)) hvs hentry hkinds' depth).mono fun i t hi => ?_
    have hitems' : List.Forall₂ ArrayItem.Holds (before ++ [(k, v)]) (items ++ [i]) :=
      List.rel_append hitems (.cons hi.1 .nil)
    simp only [answers_eat]
    rcases hbehind with ⟨rfl, rfl⟩ | ⟨ks', hks', rfl⟩
    · have hcomma : t.cursor.check .comma = false := by rw [Cursor.check_eq, hi.2]; rfl
      have hcloser : t.cursor.check .rBracket = true := by rw [Cursor.check_eq, hi.2]; rfl
      simp only [hcomma, Bool.false_eq_true, if_false, answers_bind, answers_check, hcloser, if_true, answers_pure]
      exact ⟨⟨_, rfl, hsplit ▸ hitems'⟩, hi.2⟩
    · have hcomma : t.cursor.check .comma = true := by rw [Cursor.check_eq, hi.2]; rfl
      have hnext : t.next.cursor.lexemes = ks' ++ ⟨.rBracket, [']']⟩ :: rest := by
        rw [ParseState.lexemes_next, hi.2]
        rfl
      simp only [hcomma, if_true, answers_pure]
      refine ⟨⟨before ++ [(k, v)], after, ks', by simpa using hsplit, hitems', hks', hnext⟩, ?_⟩
      rw [← t.next.cursor.length_lexemes, ← u.cursor.length_lexemes, hnext, hentry]
      simp only [List.length_append, List.length_cons]
      omega

/-! ### Arrays and files -/

variable {entries : List (Option Text × Scalar)} {ls rest : List Lexeme}

theorem answers_arrayLit (hv : ∀ e ∈ entries, e.2.IsReadable) (h : Enumerates entries ls)
    (hahead : s.cursor.lexemes = bracketed ls rest) (depth : Nat) :
    (arrayLit (exprWithin (depth + 1))).Answers s fun r t =>
      (∃ a, r = some a ∧ List.Forall₂ ArrayItem.Holds entries a.items) ∧ t.cursor.lexemes = rest := by
  have hopen : s.cursor.check .lBracket = true := by
    rw [Cursor.check_eq, hahead]
    rfl
  have hnext : s.next.cursor.lexemes = ls ++ ⟨.rBracket, [']']⟩ :: rest := by
    rw [ParseState.lexemes_next, hahead]
    rfl
  simp only [arrayLit, answers_bind, answers_cursor, answers_here, answers_eat, hopen, if_true,
    answers_prevEnd]
  refine (answers_arrayItems hv h hnext depth).mono fun r t hr => ?_
  obtain ⟨⟨items, rfl, hitems⟩, ht⟩ := hr
  obtain ⟨m, ms, hm, hl, hms⟩ := List.map_eq_cons_iff.1 ht
  simp only [answers_bind]
  refine (answers_expect hm (congrArg Lexeme.kind hl)).2 ?_
  simp only [answers_fresh, answers_pure]
  refine ⟨⟨_, rfl, hitems⟩, ?_⟩
  show t.next.cursor.lexemes = rest
  rw [ParseState.lexemes_next, ht]
  rfl

/-- A written array before a token that ends it is read. -/
theorem answers_exprWithin_array (hv : ∀ e ∈ entries, e.2.IsReadable) (h : Enumerates entries ls)
    (hahead : s.cursor.lexemes = bracketed ls rest) (hrest : ∀ l, rest.head? = some l → ctx.isEnd l.kind = true)
    (depth : Nat) : (exprWithin (depth + 2) ctx).Answers s fun e t =>
      (∃ a, e = .array a ∧ List.Forall₂ ArrayItem.Holds entries a.items) ∧ t.cursor.lexemes = rest := by
  have hopen : s.cursor.check .lBracket = true := by
    rw [Cursor.check_eq, hahead]
    rfl
  have hstart : s.cursor.kind?.all ctx.isEnd = false := by
    rw [Cursor.kind?_eq, hahead]
    cases ctx <;> rfl
  rw [exprWithin]
  simp only [answers_bind, answers_atExprEnd, hstart, Bool.false_eq_true, if_false, answers_here, structured, atArray,
    answers_check, hopen, if_true, answers_pure]
  refine (answers_arrayLit hv h hahead depth).mono fun r t hr => ?_
  obtain ⟨⟨a, rfl, ha⟩, ht⟩ := hr
  have hend : t.cursor.kind?.all ctx.isEnd = true := by
    rw [Cursor.kind?_eq, ht]
    cases hhead : rest.head? with
    | none => rfl
    | some l => exact hrest l hhead
  simp only [answers_bind, answers_atExprEnd, hend, if_true, answers_pure]
  exact ⟨⟨a, rfl, ha⟩, ht⟩

/-- The statement returns an array that was written with the given entries. -/
def TopStmt.Returns (entries : List (Option Text × Scalar)) (st : TopStmt) : Prop :=
  ∃ r a, st = .plain (.ret r) ∧ r.expr = some (.array a) ∧ List.Forall₂ ArrayItem.Holds entries a.items

/-- A statement that returns a written array is read. -/
theorem answers_topStmt_return (hv : ∀ e ∈ entries, e.2.IsReadable) (h : Enumerates entries ls)
    (hahead : s.cursor.lexemes = ⟨.ident, "return".toList⟩ :: bracketed ls [⟨.semi, [';']⟩]) :
    topStmt.Answers s fun st t => TopStmt.Returns entries st ∧ t.cursor.lexemes = [] := by
  have hword : ∀ w, s.cursor.checkWord w = Text.sameIgnoringCase "return".toList w.toList := by
    intro w
    rw [Cursor.checkWord_eq, hahead]
    rfl
  have hns : s.cursor.checkWord "namespace" = false := by rw [hword]; decide
  have huse : s.cursor.checkWord "use" = false := by rw [hword]; decide
  have hdeclare : s.cursor.checkWord "declare" = false := by rw [hword]; decide
  have hreturn : s.cursor.checkWord "return" = true := by rw [hword]; decide
  have hnext : s.next.cursor.lexemes = bracketed ls [⟨.semi, [';']⟩] := by
    rw [ParseState.lexemes_next, hahead]
    rfl
  have hbare : (s.next.cursor.atEnd || s.next.cursor.check .semi || s.next.cursor.check .closeTag) = false := by
    rw [Cursor.atEnd_eq, Cursor.check_eq, Cursor.check_eq, hnext]
    rfl
  simp only [topStmt, atNamespace, stmt, answers_bind, answers_peek?, answers_checkWord, answers_pure, hns, huse, hdeclare,
    hreturn, Bool.false_and, Bool.false_eq_true, if_false, if_true, returnStmt, answers_fresh, answers_leadStart,
    answers_advance, answers_atEnd, answers_check]
  refine .ite (fun hb => ?_) fun _ => ?_
  · cases hbare.symm.trans hb
  · obtain ⟨n, hn⟩ : ∃ n, s.next.cursor.ahead.length = n + 1 := by
      rw [← s.next.cursor.length_lexemes, hnext]
      exact ⟨_, rfl⟩
    have hdepth : (ParseState.next ⟨s.cursor, s.nextId + 1⟩).cursor.ahead.length + 1 = n + 2 := congrArg (· + 1) hn
    simp only [answers_bind, answers_map, expr, answers_cursor, hdepth]
    refine (answers_exprWithin_array (s := ParseState.next ⟨s.cursor, s.nextId + 1⟩) hv h hnext (fun l hl => ?_) n).mono
      fun e t he => ?_
    · obtain rfl := Option.some.inj hl
      rfl
    · obtain ⟨⟨a, rfl, ha⟩, ht⟩ := he
      have hend : t.cursor.atEnd = false := by rw [Cursor.atEnd_eq, ht]; rfl
      have hsemi : t.cursor.check .semi = true := by rw [Cursor.check_eq, ht]; rfl
      simp only [answers_atEnd, hend, Bool.false_eq_true, if_false, answers_bind, terminator, answers_eat, hsemi, if_true,
        answers_pure, answers_spanFrom]
      refine ⟨⟨_, a, rfl, rfl, ha⟩, ?_⟩
      rw [ParseState.lexemes_next, ht]
      rfl

/-- One statement that returns a written array, and nothing else, is read. -/
theorem answers_topStmts_return (hv : ∀ e ∈ entries, e.2.IsReadable) (h : Enumerates entries ls)
    (hahead : s.cursor.lexemes = ⟨.ident, "return".toList⟩ :: bracketed ls [⟨.semi, [';']⟩]) :
    (manyUntil atEnd topStmt).Answers s fun stmts _ => ∃ st, stmts = [st] ∧ TopStmt.Returns entries st := by
  -- The statement is ahead, or it has been read.
  refine Answers.loop (I := fun stmts u => (stmts = [] ∧ u.cursor.lexemes = s.cursor.lexemes) ∨
    (u.cursor.lexemes = [] ∧ ∃ st, stmts = [st] ∧ TopStmt.Returns entries st)) ?_ (.inl ⟨rfl, rfl⟩)
  rintro stmts u (⟨rfl, hu⟩ | ⟨hu, hread⟩)
  · have hend : u.cursor.atEnd = false := by
      rw [Cursor.atEnd_eq, hu, hahead]
      rfl
    simp only [answers_bind, answers_atEnd, hend, Bool.false_eq_true, if_false, answers_pure]
    refine (answers_topStmt_return hv h (hu.trans hahead)).mono fun st t ht => ?_
    refine ⟨.inr ⟨ht.2, st, rfl, ht.1⟩, ?_⟩
    rw [← t.cursor.length_lexemes, ← u.cursor.length_lexemes, ht.2, hu, hahead]
    exact Nat.succ_pos _
  · have hend : u.cursor.atEnd = true := by
      rw [Cursor.atEnd_eq, hu]
      rfl
    simp only [answers_bind, answers_atEnd, hend, if_true, answers_pure]
    exact hread

theorem answers_file_return (hv : ∀ e ∈ entries, e.2.IsReadable) (h : Enumerates entries ls)
    (hahead : s.cursor.lexemes = ⟨.ident, "return".toList⟩ :: bracketed ls [⟨.semi, [';']⟩]) (span : Span) (start : Nat) :
    (file span start).Answers s fun f _ => ∃ st, f.stmts = [st] ∧ TopStmt.Returns entries st := by
  simp only [file, answers_bind, answers_fresh, answers_pure]
  exact answers_topStmts_return (s := ⟨s.cursor, s.nextId + 1⟩) hv h hahead

end Parser

/-! ### The text of a file -/

/-- The array of the given keys and values, not read from text. -/
def freshEntries (entries : List (Option Text × Scalar)) : ArrayLit Expr :=
  .fresh (entries.map fun e => .fresh (e.1.map Expr.freshString) e.2.toExpr)

/-- A file that returns an array of the given keys and values. -/
def returning (p : Page) (entries : List (Option Text × Scalar)) : Text :=
  "<?php return ".toList ++ (p.literal (.array (freshEntries entries)) ++ [';'])

namespace Lexer

variable {p : Page} {w : Text}

theorem significant_comma (w : Text) : significant .code (',' :: ' ' :: w) = ⟨.comma, [',']⟩ :: significant .code w := by
  have h := significant_closer (l := ⟨.comma, [',']⟩) (by decide) (by decide) (' ' :: w)
  rwa [significant_space rfl] at h

theorem splits_key (k : Option Text) (w : Text) :
    Splits .code (p.freshKey (k.map Expr.freshString)) w (keyLexemes k) .code := by
  cases k with
  | none => exact .nil
  | some k =>
    have hkey : p.freshKey (some (Expr.freshString k)) = Literal.quote k ++ ([' '] ++ ("=>".toList ++ [' '])) := by
      simp [Page.freshKey, Page.literal, Expr.freshString, Expr.origin]
    have hblank : ∀ v, Parts ([' '] ++ v) := parts_cons (by decide)
    have hspace : ∀ v, Splits .code [' '] v [] .code := fun v => splits_space rfl v
    have harrow := (firm_arrow.splits (by simp) (hblank w)).append (hspace w)
    have hquote : Splits .code (Literal.quote k) ([' '] ++ ("=>".toList ++ [' ']) ++ w) [⟨.string, Literal.quote k⟩] .code :=
      (firm_quote k).splits (by simp) (hblank _)
    have hrest : Splits .code ([' '] ++ ("=>".toList ++ [' '])) w [⟨.fatArrow, "=>".toList⟩] .code :=
      (hspace _).append harrow
    rw [Option.map_some, hkey]
    exact hquote.append hrest

theorem splits_item {e : Option Text × Scalar} {vs : List Lexeme} (hvs : Spelling e.2 vs) (hw : Parts w) :
    Splits .code (p.freshItem (.fresh (e.1.map Expr.freshString) e.2.toExpr)) w (keyLexemes e.1 ++ vs) .code := by
  have horigin : e.2.toExpr.origin = none := by
    rcases e.2 with t | n | x | (_ | _) | _ <;> rfl
  have hitem : p.freshItem (.fresh (e.1.map Expr.freshString) e.2.toExpr) =
      p.freshKey (e.1.map Expr.freshString) ++ vs.flatMap Lexeme.text := by
    simp [Page.freshItem, ArrayItem.fresh, horigin, hvs.flatMap p]
  rw [hitem]
  exact (splits_key e.1 _).append (hvs.splits hw)

theorem significant_item {e : Option Text × Scalar} {vs : List Lexeme} (hvs : Spelling e.2 vs) (hw : Parts w) :
    significant .code (p.freshItem (.fresh (e.1.map Expr.freshString) e.2.toExpr) ++ w) =
      keyLexemes e.1 ++ vs ++ significant .code w := (splits_item hvs hw).significant

/-- The entries of an array before the bracket that closes it. -/
theorem exists_listing {entries : List (Option Text × Scalar)} (hv : ∀ e ∈ entries, e.2.IsReadable) (hw : Parts w) :
    ∃ ls, Enumerates entries ls ∧
      significant .code (Text.join [',', ' '] (p.freshItems (freshEntries entries).items) ++ w) =
        ls ++ significant .code w := by
  induction entries with
  | nil => exact ⟨[], .nil, rfl⟩
  | cons e entries ih =>
    obtain ⟨hread, hrest⟩ := List.forall_mem_cons.1 hv
    obtain ⟨vs, hvs⟩ := exists_spelling (v := e.2) fun x hx => by
      rw [hx] at hread
      exact hread
    cases entries with
    | nil => exact ⟨_, .last hvs, significant_item hvs hw⟩
    | cons e' entries =>
      obtain ⟨ls, hls, hsignificant⟩ := ih hrest
      refine ⟨_, .cons hvs hls, ?_⟩
      generalize htext : Text.join [',', ' '] (p.freshItems (freshEntries (e' :: entries)).items) ++ w = rest at hsignificant
      have hjoin : Text.join [',', ' '] (p.freshItems (freshEntries (e :: e' :: entries)).items) ++ w =
          p.freshItem (.fresh (e.1.map Expr.freshString) e.2.toExpr) ++ (',' :: ' ' :: rest) := by
        rw [← htext]
        simp [freshEntries, ArrayLit.fresh, Page.freshItems, Text.join]
      rw [hjoin, significant_item hvs (parts_cons (by decide) _), significant_comma, hsignificant]
      simp

/-- The lexemes of a file that returns an array. -/
theorem exists_lexemes_returning {entries : List (Option Text × Scalar)} (hv : ∀ e ∈ entries, e.2.IsReadable) :
    ∃ ls rest, Enumerates entries ls ∧ lexemesOf .html (returning p entries) = ⟨.openTag, "<?php".toList⟩ :: rest ∧
      rest.filter (!·.kind.isTrivia) = ⟨.ident, "return".toList⟩ :: bracketed ls [⟨.semi, [';']⟩] := by
  obtain ⟨ls, hls, hsignificant⟩ := exists_listing (p := p) hv (parts_cons (d := ']') (by decide) [';'])
  generalize htext : Text.join [',', ' '] (p.freshItems (freshEntries entries).items) = text at hsignificant
  have harray : p.literal (.array (freshEntries entries)) = '[' :: (text ++ [']']) := by
    rw [← htext]
    rfl
  have hstart : "<?php return ".toList = "<?php".toList ++ ' ' :: ("return".toList ++ [' ']) := by decide
  have hreturning : returning p entries =
      "<?php".toList ++ (' ' :: ("return".toList ++ ' ' :: ('[' :: (text ++ [']', ';'])))) := by
    unfold returning
    rw [harray, hstart, List.append_assoc, List.cons_append, List.append_assoc, List.cons_append, List.nil_append,
      List.cons_append, List.append_assoc, List.singleton_append]
  refine ⟨ls, lexemesOf .code (' ' :: ("return".toList ++ ' ' :: ('[' :: (text ++ [']', ';'])))), hls, ?_, ?_⟩
  · rw [hreturning, lexemesOf_cons .html (by simp)]
    rfl
  · have hreturn := (firm_word (c := 'r') (t := ['e', 't', 'u', 'r', 'n']) (by decide) (by decide)).significant_append
      (by simp) (parts_cons (d := ' ') (by decide) ('[' :: (text ++ [']', ';'])))
    have hopen := significant_closer (l := ⟨.lBracket, ['[']⟩) (by decide) (by decide) (text ++ [']', ';'])
    have hclose := significant_closer (l := ⟨.rBracket, [']']⟩) (by decide) (by decide) [';']
    have hsemi := significant_closer (l := ⟨.semi, [';']⟩) (by decide) (by decide) []
    calc significant .code (' ' :: ("return".toList ++ ' ' :: ('[' :: (text ++ [']', ';']))))
        = ⟨.ident, "return".toList⟩ :: significant .code ('[' :: (text ++ [']', ';'])) := by
          rw [significant_space rfl]
          exact hreturn.trans (congrArg _ (significant_space rfl _))
      _ = ⟨.ident, "return".toList⟩ :: ⟨.lBracket, ['[']⟩ :: (ls ++ significant .code [']', ';']) := by
          rw [← hsignificant]
          exact congrArg _ hopen
      _ = ⟨.ident, "return".toList⟩ :: bracketed ls [⟨.semi, [';']⟩] := by
          rw [bracketed, show significant .code [']', ';'] = [⟨.rBracket, [']']⟩, ⟨.semi, [';']⟩] from
            hclose.trans (congrArg _ hsemi)]

end Lexer

/-- A file that returns an array of written values is read, and its array has the entries that were written. -/
theorem Arena.parseFile_returning (a : Arena) (p : Page) {entries : List (Option Text × Scalar)}
    (hv : ∀ e ∈ entries, e.2.IsReadable) : ∃ f b r, a.parseFile (returning p entries) = (.ok f, b) ∧
      f.returnedArray? = some r ∧ List.Forall₂ ArrayItem.Holds entries r.items := by
  obtain ⟨ls, rest, hls, hlex, hfilter⟩ := Lexer.exists_lexemes_returning (p := p) hv
  have hlexemes : (a.tokensOf (returning p entries)).map Token.lexeme = ⟨.openTag, "<?php".toList⟩ :: rest :=
    (a.map_lexeme_tokensOf _).trans hlex
  obtain ⟨tag, us, htokens, htag, hus⟩ := List.map_eq_cons_iff.1 hlexemes
  have hkind : tag.kind = .openTag := congrArg Lexeme.kind htag
  generalize hcode : (⟨.ident, "return".toList⟩ :: bracketed ls [⟨.semi, [';']⟩] : List Lexeme) = code at hfilter
  have hkinds : ∀ l ∈ code, l.kind ∉ [.openTag, .error] := by
    rw [← hcode]
    simpa [bracketed, or_imp, forall_and] using hls.kinds
  -- The parser sees the lexemes that are no trivia: none of them is a tag.
  have hseen : (a.codeTokens (returning p entries)).map Token.lexeme = code := by
    have hdrop : a.codeTokens (returning p entries) = us.filter (!·.kind.isSkipped) := by
      rw [codeTokens, htokens, List.dropWhile_cons_of_neg (by simp [hkind]), List.drop_one, List.tail_cons]
    calc (a.codeTokens (returning p entries)).map Token.lexeme
        = rest.filter (!·.kind.isSkipped) := by rw [hdrop, ← hus, List.filter_map]; rfl
      _ = (rest.filter (!·.kind.isTrivia)).filter (·.kind != .openTag) := by
          rw [List.filter_filter]
          refine List.filter_congr fun l _ => ?_
          rw [TokenKind.isSkipped, Bool.not_or, Bool.and_comm]
          rfl
      _ = code := by
          rw [hfilter, List.filter_eq_self]
          intro l hl
          have := hkinds l hl
          simp_all
  obtain ⟨s, x, hahead, -, -, hparse⟩ := exists_codeState (a := a) (t := returning p entries)
    ⟨tag, by simp [htokens], hkind⟩
  have hvalid : (a.codeTokens (returning p entries)).find? (·.kind == .error) = none := by
    refine List.find?_eq_none.2 fun u hu => ?_
    have hmem : u.lexeme ∈ code := hseen ▸ List.mem_map_of_mem hu
    have := hkinds _ hmem
    simp_all [Token.lexeme]
  have hcursor : s.cursor.lexemes = ⟨.ident, "return".toList⟩ :: bracketed ls [⟨.semi, [';']⟩] := by
    rw [hcode, ← hseen, ← hahead, List.map_map]
    rfl
  obtain ⟨f, t, hrun, st, hstmts, r, array, rfl, hr, hitems⟩ :=
    Parser.answers_file_return hv hls hcursor (a.nextSource (returning p entries)).span x
  rw [hvalid] at hparse
  simp only [hrun] at hparse
  refine ⟨f, _, array, hparse, ?_, hitems⟩
  simp [File.returnedArray?, File.unit, hstmts, TopStmt.namespace?, TopStmt.plain?, Stmt.return?, ReturnStmt.array?, hr,
    Expr.array?]

/-! ### Values that are read back -/

/-- A value that is written as the value of an entry is recognised when it is read back.  It may be written among other
entries, and the file is read; and wherever in a file that was read the value of an entry has the text that is written
for it, the entry holds this value, and no other one. -/
theorem isHeldBy_written {v : Scalar} (hv : v.IsReadable) (p : Page) :
    (∀ before after key, (∀ e ∈ before ++ after, e.2.IsReadable) →
      ∃ f a r i, Arena.empty.parseFile (returning p (before ++ (key, v) :: after)) = (.ok f, a) ∧
        f.returnedArray? = some r ∧ r.items[before.length]? = some i ∧ i.key.map Expr.string? = key.map some ∧
        ∀ w : Scalar, w.isHeldBy i.value = true ↔ w = v) ∧
    ∀ source f a, Arena.empty.parseFile source = (.ok f, a) → ∀ i ∈ f.entries,
      source.slice i.value.span.start i.value.span.stop = p.literal v.toExpr →
        ∀ w : Scalar, w.isHeldBy i.value = true ↔ w = v := by
  refine ⟨fun before after key hothers => ?_, fun source f a hfile i hi htext w => ?_⟩
  · have hall : ∀ e ∈ before ++ (key, v) :: after, e.2.IsReadable := by
      intro e he
      rcases List.mem_append.1 he with he | he
      · exact hothers e (List.mem_append_left _ he)
      · rcases List.mem_cons.1 he with rfl | he
        · exact hv
        · exact hothers e (List.mem_append_right _ he)
    obtain ⟨f, a, r, hfile, hr, hitems⟩ := Arena.empty.parseFile_returning p hall
    obtain ⟨hlength, hget⟩ := List.forall₂_iff_get.1 hitems
    have hlt : before.length < (before ++ (key, v) :: after).length := by simp
    have hholds := hget before.length hlt (hlength ▸ hlt)
    rw [show (before ++ (key, v) :: after).get ⟨before.length, hlt⟩ = (key, v) by simp] at hholds
    exact ⟨f, a, r, _, hfile, hr, List.getElem?_eq_getElem (hlength ▸ hlt), hholds.1, hholds.2⟩
  · exact ((Arena.laid_of_parseFile hfile).1.value i hi).1.isHeldBy_iff hv htext w

/-- A negative number behind a key, and the same number in an array that is an entry of another one. -/
theorem isHeldBy_written_nested : (Scalar.int (-7)).IsReadable ∧
    (∃ f a r i, Arena.empty.parseFile "<?php return ['it\\'s', 'k' => -7, null];".toList = (.ok f, a) ∧
      f.returnedArray? = some r ∧ r.items[1]? = some i ∧ ∀ w : Scalar, w.isHeldBy i.value = true ↔ w = .int (-7)) ∧
    ∃ f a i, Arena.empty.parseFile "<?php class A \x7b public $a = ['x', 'k' => [true, -7]]; \x7d".toList = (.ok f, a) ∧
      i ∈ f.entries ∧ ∀ w : Scalar, w.isHeldBy i.value = true ↔ w = .int (-7) := by
  have hv : (Scalar.int (-7)).IsReadable := show (7 : Nat) ≤ Literal.maxInt by decide
  obtain ⟨hwritten, hread⟩ := isHeldBy_written hv ⟨.empty, .lf⟩
  refine ⟨hv, ?_, ?_⟩
  · have htext : returning ⟨.empty, .lf⟩ ([(none, .string "it's".toList)] ++ (some "k".toList, .int (-7)) ::
        [(none, .null)]) = "<?php return ['it\\'s', 'k' => -7, null];".toList := by decide +kernel
    obtain ⟨f, a, r, i, hfile, hr, hi, -, hholds⟩ :=
      hwritten [(none, .string "it's".toList)] [(none, .null)] (some "k".toList) (by simp [Scalar.IsReadable])
    exact ⟨f, a, r, i, htext ▸ hfile, hr, hi, hholds⟩
  · obtain ⟨source, hsource, hcheck⟩ : ∃ source : Text,
        source = "<?php class A \x7b public $a = ['x', 'k' => [true, -7]]; \x7d".toList ∧
          (Arena.empty.parseFile source).1.toOption.map (fun f => f.entries.any fun i =>
            source.slice i.value.span.start i.value.span.stop == "-7".toList) = some true := ⟨_, rfl, by decide +kernel⟩
    obtain ⟨f, hf, hentry⟩ := exists_of_parseFile hcheck
    obtain ⟨i, hi, hslice⟩ := List.any_eq_true.1 hentry
    have htext : (Page.mk .empty .lf).literal (Scalar.int (-7)).toExpr = "-7".toList := by decide
    have hfile : Arena.empty.parseFile source = (.ok f, (Arena.empty.parseFile source).2) := Prod.ext hf rfl
    refine ⟨f, _, i, hsource ▸ hfile, hi, hread source f _ hfile i hi ?_⟩
    rw [htext]
    exact eq_of_beq hslice

/-- The smallest integer of 64 bits is not recognised: its magnitude is out of range before the sign is seen. -/
theorem isHeldBy_written_smallest : ∃ f a r i,
    Arena.empty.parseFile (returning ⟨.empty, .lf⟩ [(none, .int (-9223372036854775808))]) = (.ok f, a) ∧
      f.returnedArray? = some r ∧ r.items = [i] ∧ (Scalar.int (-9223372036854775808)).isHeldBy i.value = false := by
  obtain ⟨f, hf, hentry⟩ := exists_of_parseFile
    (show (Arena.empty.parseFile (returning ⟨.empty, .lf⟩ [(none, .int (-9223372036854775808))])).1.toOption.map
      (fun f => f.returnedArray?.any fun r => r.items.length == 1 &&
        r.items.all fun i => !(Scalar.int (-9223372036854775808)).isHeldBy i.value) = some true by decide +kernel)
  obtain ⟨r, hr, hitems⟩ := (Option.any_eq_true _ _).1 hentry
  rw [Bool.and_eq_true, beq_iff_eq] at hitems
  obtain ⟨i, hi⟩ := List.length_eq_one_iff.1 hitems.1
  rw [hi] at hitems
  exact ⟨f, _, r, i, Prod.ext hf rfl, hr, hi, by simpa using hitems.2⟩

end Graft
