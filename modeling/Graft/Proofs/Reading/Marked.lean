/-
The marks that methods and classes are read from.

A method is read from the marks between its first one, which opens an attribute or is a modifier or the keyword, and its
last one, which is the brace that closes its body or a terminator.  The methods of a class are read between its braces.

* `Token.OpensMethod`, `Token.EndsBody` — the tokens that begin and end a method;
* `Method.MarkedBy`, `ClassLike.MarkedBy` — the marks of methods and classes;
* `Yields.manyUntil_marks` — the marks of a list fall into those of its elements;
* `yields_member_marks`, `yields_classLike_marks`, `yields_file_marks` — the rules of the grammar.
-/
import Graft.Proofs.Reading.Balance

namespace Graft

/-! ### The first and the last token of a method -/

/-- A method begins with the token: it opens an attribute, or it is a modifier or the keyword. -/
def Token.OpensMethod (t : Token) : Prop :=
  t.kind = .attrOpen ∨ t.kind = .ident ∧
    ((Modifiers.ofKeyword? t.text).isSome = true ∨ t.text.sameIgnoringCase "function".toList = true)

/-- A method ends with the token: with the brace that closes its body, or with a terminator if it has none. -/
def Token.EndsBody (t : Token) : Option Block → Prop
  | some b => t.kind = .rBrace ∧ b.span.stop = t.stop
  | none => t.kind ∈ [.semi, .closeTag]

/-- The last token of the method. -/
def Method.EndsWith (m : Method) (t : Token) : Prop := m.span.stop = t.stop ∧ t.EndsBody m.body

theorem Token.EndsBody.kind {t : Token} {body : Option Block} (h : t.EndsBody body) :
    t.kind ∈ [.rBrace, .semi, .closeTag] := by
  cases body with
  | none => exact List.mem_cons_of_mem _ h
  | some b =>
    rw [h.1]
    exact List.mem_cons_self

/-- The marks that a method is read from. -/
structure Method.MarkedBy (m : Method) (ms : List Mark) : Prop where
  first : ∃ k, ms.head? = some k ∧ k.token.OpensMethod ∧ m.span.start = k.lead
  last : ∃ k, ms.getLast? = some k ∧ m.EndsWith k.token

/-- The marks that a class is read from: those of its methods stand between its braces. -/
def ClassLike.MarkedBy (c : ClassLike) (ms : List Mark) : Prop :=
  ∃ header opening body close, ms = header ++ opening :: (body ++ [close]) ∧
    opening.token.kind = .lBrace ∧ close.token.kind = .rBrace ∧
    ∀ m, .method m ∈ c.members → ∃ x, x <:+: body ∧ m.MarkedBy x

/-! ### Methods -/

namespace Parser

variable {s t : ParseState}

/-- A production whose results are of another kind than those that something is asked about. -/
theorem yields_other {α β γ : Type} {f : α → β} {g : γ → β} {Q : γ → ParseState → Prop} (x : Parser α)
    (hne : ∀ a c, f a ≠ g c) : (x >>= fun a => pure (f a)).Yields s fun b t => ∀ c, b = g c → Q c t := by
  simp only [yields_bind, yields_pure]
  exact (yields_true x).mono fun a _ _ c h => absurd h (hne a c)

/-- A terminator is one token. -/
theorem yields_terminator_mark (s : ParseState) :
    terminator.Yields s fun _ t => ∃ k, Consumes [k] s t ∧ k.token.kind ∈ [.semi, .closeTag] := by
  simp only [terminator, yields_bind]
  refine Yields.eat (fun hsemi _ => ?_) ?_
  · obtain ⟨k, hk, hkind⟩ := ParseState.exists_of_check hsemi
    simpa using ⟨k, hk, .inl hkind⟩
  simp only [Bool.false_eq_true, if_false, yields_bind]
  refine Yields.eat (fun hclose _ => ?_) ?_
  · obtain ⟨k, hk, hkind⟩ := ParseState.exists_of_check hclose
    simpa using ⟨k, hk, .inr hkind⟩
  simp only [Bool.false_eq_true, if_false, yields_unexpected]

/-- The last token of a block is its closing brace. -/
theorem yields_block_mark (s : ParseState) : block.Yields s fun b t =>
    ∃ ms k, Consumes (ms ++ [k]) s t ∧ k.token.kind = .rBrace ∧ b.span.stop = k.token.stop := by
  simp only [block, yields_bind, yields_fresh]
  refine yields_expect fun opening _ _ _ => ?_
  refine (Evens.manyUntil evens_atBlockEnd evens_bodyStmt _).mono fun stmts u hu => ?_
  refine yields_expect fun close _ hclose hkind => ?_
  rw [yields_pure]
  obtain ⟨ms, hms⟩ := (Passes.fresh s).trans ((Passes.next _).trans hu.passes)
  exact ⟨ms, close, hms.trans (.next hclose), hkind, rfl⟩

/-- A method is read up to the token that ends it. -/
theorem yields_method_mark (start : Nat) (mods : Modifiers) (s : ParseState) : (method start mods).Yields s fun m t =>
    m.span.start = start ∧ ∃ ms k, Consumes (ms ++ [k]) s t ∧ m.EndsWith k.token := by
  simp only [method, yields_bind, yields_fresh, yields_advance, yields_discard]
  have h₁ : Passes s { s with nextId := s.nextId + 1 }.next := (Passes.fresh s).trans (.next _)
  refine Yields.eatAny fun _ s₂ h₂ => (evens_ident _ s₂).mono fun name s₃ h₃ => ?_
  simp only [yields_check]
  refine .ite (fun _ => ?_) fun _ => by simp only [yields_bind, yields_unexpected]
  simp only [yields_bind, yields_discard]
  refine Yields.skipGroup fun _ s₄ h₄ _ => Yields.mono (Q := fun _ s₅ => Passes s₄ s₅)
    (Yields.eatAny fun _ _ h => h) fun _ s₅ h₅ => ?_
  have h₅ : Passes s s₅ := h₁.trans (h₂.trans (h₃.passes.trans (h₄.passes.trans h₅)))
  -- The return type, when there is one.
  refine Yields.join_pure (a := ()) (R := fun _ s₆ => Passes s s₆) (fun _ => ?_) (fun _ => h₅) fun _ s₆ h₆ => ?_
  · refine (Yields.skipUntil (P := fun _ => True) (fun t => ?_) fun t => ?_).mono fun _ _ h => h₅.trans h.1
    · exact (yields_atTypeEnd t).mono fun _ _ h => ⟨h, fun _ => trivial⟩
    · simp only [yields_bind, yields_check]
      refine .ite (fun _ => ?_) fun _ => yields_advance.2 (.next t)
      rw [yields_discard]
      exact Yields.skipGroup fun _ _ h _ => h.passes
  rw [yields_bind, yields_check]
  refine Yields.join_bind (R := fun (body : Option Block) t => ∃ ms k, Consumes (ms ++ [k]) s t ∧
    k.token.EndsBody body) (fun _ => ?_) (fun _ => ?_) fun body t ht => ?_
  · rw [yields_map]
    refine (yields_block_mark s₆).mono fun b t h => ?_
    obtain ⟨ms, k, hms, hk⟩ := h
    obtain ⟨ns, hns⟩ := h₆
    exact ⟨ns ++ ms, k, by rw [List.append_assoc]; exact hns.trans hms, hk⟩
  · refine (yields_terminator_mark s₆).mono fun _ t h => yields_pure.2 ?_
    obtain ⟨k, hms, hk⟩ := h
    obtain ⟨ns, hns⟩ := h₆
    exact ⟨ns, k, hns.trans hms, hk⟩
  · obtain ⟨ms, k, hms, hk⟩ := ht
    simp only [yields_bind, yields_spanFrom, yields_pure]
    refine ⟨trivial, ms, k, hms, ?_, hk⟩
    rw [hms.prevEnd, endOf_append]
    rfl

/-! ### What stands before the keyword -/

/-- Attributes are only skipped where one begins. -/
theorem yields_skipAttributes_check (s : ParseState) :
    skipAttributes.Yields s fun _ t => t = s ∨ s.cursor.check .attrOpen = true := by
  refine Yields.loop (I := fun _ t => t = s ∨ s.cursor.check .attrOpen = true) (fun _ t ht => ?_) (.inl rfl)
  simp only [yields_bind, yields_check, yields_pure]
  refine .ite (fun _ => by simpa using ht) fun hcheck => ?_
  simp only [yields_bind, yields_discard, yields_pure]
  refine (yields_true skipGroup).mono fun _ _ _ => .inr ?_
  rcases ht with rfl | ht
  · simpa using hcheck
  · exact ht

/-- Modifiers are only read where there is one. -/
theorem yields_modifiers_check (s : ParseState) : modifiers.Yields s fun _ t =>
    t = s ∨ s.cursor.check .ident = true ∧ (Modifiers.ofKeyword? s.cursor.text).isSome = true := by
  refine Yields.loop (I := fun _ t => t = s ∨ s.cursor.check .ident = true ∧
    (Modifiers.ofKeyword? s.cursor.text).isSome = true) (fun found t ht => ?_) (.inl rfl)
  simp only [modifier?, yields_bind, yields_cursor, yields_pure]
  cases hword : (if t.cursor.check .ident then Modifiers.ofKeyword? t.cursor.text else none) with
  | none => simpa using ht
  | some m =>
    simp only [yields_bind, yields_advance, yields_pure]
    rw [Option.ite_none_right_eq_some] at hword
    rcases ht with rfl | ht
    · exact .inr ⟨hword.1, by rw [hword.2, Option.isSome_some]⟩
    · exact .inr ht

/-- What stands before the keyword of a method begins the method, or it is nothing. -/
theorem exists_opensMethod {u v : ParseState} (hu : u = s ∨ s.cursor.check .attrOpen = true)
    (hv : v = u ∨ u.cursor.check .ident = true ∧ (Modifiers.ofKeyword? u.cursor.text).isSome = true)
    (hword : v.cursor.checkWord "function" = true) : ∃ k ks, s.cursor.ahead = k :: ks ∧ k.token.OpensMethod := by
  rcases hu with rfl | hu
  · rcases hv with rfl | ⟨hident, hmod⟩
    · rw [Cursor.checkWord, Bool.and_eq_true] at hword
      obtain ⟨k, ks, hk, hkind⟩ := Cursor.exists_of_check hword.1
      rw [Cursor.text_of_ahead hk] at hword
      exact ⟨k, ks, hk, .inr ⟨hkind, .inr hword.2⟩⟩
    · obtain ⟨k, ks, hk, hkind⟩ := Cursor.exists_of_check hident
      rw [Cursor.text_of_ahead hk] at hmod
      exact ⟨k, ks, hk, .inr ⟨hkind, .inl hmod⟩⟩
  · obtain ⟨k, ks, hk, hkind⟩ := Cursor.exists_of_check hu
    exact ⟨k, ks, hk, .inl hkind⟩

theorem yields_member_mark (s : ParseState) :
    member.Yields s fun a t => ∀ m, a = .method m → ∃ ms, Consumes ms s t ∧ m.MarkedBy ms := by
  simp only [member, yields_bind, yields_leadStart]
  refine ((yields_skipAttributes s).and (yields_skipAttributes_check s)).mono fun _ u hu => ?_
  simp only [yields_checkWord]
  refine .ite (fun _ => ?_) fun _ => ?_
  · exact yields_other _ fun _ _ h => by cases h
  simp only [yields_bind]
  refine ((yields_modifiers u).and (yields_modifiers_check u)).mono fun mods v hv => ?_
  simp only [yields_checkWord]
  refine .ite (fun _ => ?_) fun _ => ?_
  · exact yields_other _ fun _ _ h => by cases h
  simp only [yields_bind, yields_checkWord]
  refine .ite (fun hword => ?_) fun _ => ?_
  · simp only [yields_bind, yields_pure]
    refine (yields_method_mark _ mods v).mono fun m t hm => ?_
    rintro _ ⟨⟩
    obtain ⟨hstart, ms, l, hms, hl⟩ := hm
    obtain ⟨ns, hns⟩ := hu.1.trans hv.1
    obtain ⟨k, ks, hk, hopens⟩ := exists_opensMethod hu.2 hv.2 hword
    have hall : Consumes ((ns ++ ms) ++ [l]) s t := by
      rw [List.append_assoc]
      exact hns.trans hms
    refine ⟨(ns ++ ms) ++ [l], hall, ⟨k, ?_, hopens, ?_⟩, l, List.getLast?_concat, hl⟩
    · -- The first mark that is consumed is the first one ahead.
      have hahead := hall.ahead.symm.trans hk
      cases hfront : (ns ++ ms) ++ [l] with
      | nil => simp at hfront
      | cons k' ks' =>
        rw [hfront] at hahead
        exact congrArg some (List.cons.inj hahead).1
    · rw [hstart, Cursor.leadStart, hk]
      rfl
  simp only [yields_bind, yields_check]
  refine .ite (fun _ => ?_) fun _ => ?_
  · simp only [yields_bind, yields_fresh, yields_advance, yields_spanFrom, yields_pure]
    intro m hm
    cases hm
  · exact yields_other _ fun _ _ h => by cases h

/-! ### Lists, classes and files -/

variable {G : Ground}

/-- The marks of the elements of a list are parts of those of the list. -/
theorem Yields.manyUntil_marks {α : Type} {R : α → List Mark → Prop} {finished : Parser Bool} {item : Parser α}
    (hs : G.On s) (hfinished : ∀ t, finished.Yields t fun b u => u = t ∧ (b = false → t.cursor.atEnd = false))
    (hitem : ∀ t, G.On t → t.cursor.atEnd = false → item.Yields t fun a u => ∃ ms, Consumes ms t u ∧ R a ms) :
    (Parser.manyUntil finished item).Yields s fun as t => ∃ ms, Consumes ms s t ∧ ∀ a ∈ as, ∃ x, x <:+: ms ∧ R a x := by
  refine Yields.loop (I := fun as t => ∃ ms, Consumes ms s t ∧ ∀ a ∈ as, ∃ x, x <:+: ms ∧ R a x)
    (fun as t ht => ?_) ⟨[], .refl s, by simp⟩
  simp only [yields_bind]
  refine (hfinished t).mono fun b u hu => ?_
  obtain ⟨rfl, hend⟩ := hu
  refine .ite (fun _ => by simpa using ht) fun hb => ?_
  obtain ⟨ms, hms, has⟩ := ht
  simp only [yields_bind, yields_pure]
  refine (hitem _ (hs.passes ⟨ms, hms⟩) (hend (by simpa using hb))).mono fun a v h => ?_
  obtain ⟨ns, hns, ha⟩ := h
  refine ⟨ms ++ ns, hms.trans hns, fun a' ha' => ?_⟩
  rcases List.mem_append.1 ha' with ha' | ha'
  · obtain ⟨x, hx, hR⟩ := has a' ha'
    exact ⟨x, hx.trans (List.prefix_append ms ns).isInfix, hR⟩
  · rw [List.mem_singleton] at ha'
    exact ⟨ns, (List.suffix_append ms ns).isInfix, ha' ▸ ha⟩

theorem yields_member_marks (hs : G.On s) :
    member.Yields s fun a t => ∃ ms, Consumes ms s t ∧ ∀ m, a = .method m → m.MarkedBy ms := by
  refine ((yields_member hs).and (yields_member_mark s)).mono fun a t h => ?_
  obtain ⟨⟨hread, -⟩, hmark⟩ := h
  cases a with
  | method m =>
    obtain ⟨ms, hms, hm⟩ := hmark m rfl
    exact ⟨ms, hms, by rintro _ ⟨⟩; exact hm⟩
  | _ =>
    obtain ⟨ms, hms⟩ := hread.moves.passes
    exact ⟨ms, hms, fun _ h => by cases h⟩

theorem yields_classLike_marks (hs : G.On s) :
    classLike.Yields s fun c t => ∃ ms, Consumes ms s t ∧ c.MarkedBy ms := by
  simp only [classLike, yields_bind, yields_fresh, yields_leadStart]
  refine (evens_skipAttributes _).mono fun _ s₁ h₁ => (evens_modifiers s₁).mono fun mods s₂ h₂ => ?_
  refine (Evens.expect rfl _ s₂).mono fun keyword s₃ h₃ => ?_
  have h₃ : Passes s s₃ := (Passes.fresh s).trans (h₁.passes.trans (h₂.passes.trans h₃.passes))
  split
  · exact yields_throw
  · simp only [yields_bind]
    refine (evens_ident _ s₃).mono fun name s₄ h₄ => (evens_header _ s₄).mono fun clauses s₅ h₅ => ?_
    simp only [yields_prevEnd]
    obtain ⟨header, hheader⟩ := h₃.trans (h₄.passes.trans h₅.passes)
    refine yields_expect fun opening _ hopen hkopen => ?_
    have hon : G.On s₅.next := hs.passes ⟨_, hheader.trans (.next hopen)⟩
    refine (Yields.manyUntil_marks hon yields_atBlockEnd fun t ht _ => yields_member_marks ht).mono
      fun members s₆ h => ?_
    obtain ⟨body, hbody, hmembers⟩ := h
    refine yields_expect fun close _ hclose hkclose => ?_
    rw [yields_pure]
    refine ⟨header ++ opening :: (body ++ [close]), ?_, header, opening, body, close, rfl, hkopen, hkclose, fun m hm => ?_⟩
    · exact hheader.trans ((Consumes.next hopen).trans (hbody.trans (.next hclose)))
    · obtain ⟨x, hx, hmark⟩ := hmembers _ hm
      exact ⟨x, hx, hmark m rfl⟩

theorem yields_stmt_mark (hs : G.On s) :
    stmt.Yields s fun a t => ∀ c, a = .classLike c → ∃ ms, Consumes ms s t ∧ c.MarkedBy ms := by
  simp only [stmt, yields_bind, yields_checkWord, yields_peek?]
  refine .ite (fun _ => ?_) fun _ => ?_
  · exact yields_other _ fun _ _ h => by cases h
  simp only [yields_bind, yields_checkWord]
  refine .ite (fun _ => ?_) fun _ => ?_
  · exact yields_other _ fun _ _ h => by cases h
  simp only [yields_bind, yields_checkWord]
  refine .ite (fun _ => ?_) fun _ => ?_
  · exact yields_other _ fun _ _ h => by cases h
  simp only [yields_bind]
  -- Looking for a class leaves the cursor where it was.
  refine (yields_atClassLike s).mono fun b u hu => ?_
  have hsu : Consumes [] s u := ⟨by rw [hu.1]; rfl, by rw [hu.1]; rfl, by rw [hu.1], hu.2⟩
  refine .ite (fun _ => ?_) fun _ => ?_
  · simp only [yields_bind, yields_pure]
    refine (yields_classLike_marks (hs.passes ⟨[], hsu⟩)).mono fun c t h => ?_
    obtain ⟨ms, hms, hc⟩ := h
    rintro _ ⟨⟩
    exact ⟨ms, hsu.trans hms, hc⟩
  simp only [yields_bind, yields_check]
  refine .ite (fun _ => ?_) fun _ => ?_
  · simp only [yields_bind, yields_fresh, yields_cursor, yields_advance, yields_pure]
    intro c hc
    cases hc
  · exact yields_other _ fun _ _ h => by cases h

theorem yields_topStmt_mark (hs : G.On s) :
    topStmt.Yields s fun a t => ∀ c, a = .plain (.classLike c) → ∃ ms, Consumes ms s t ∧ c.MarkedBy ms := by
  simp only [topStmt, atNamespace, yields_bind, yields_peek?, yields_checkWord, yields_pure]
  refine .ite (fun _ => ?_) fun _ => ?_
  · exact yields_other _ fun _ _ h => by cases h
  · simp only [yields_bind, yields_pure]
    exact (yields_stmt_mark hs).mono fun a t h c hc => h c (TopStmt.plain.inj hc)

/-- The marks of the classes of a file are parts of those ahead. -/
theorem yields_file_marks (hs : G.On s) (sp : Span) (bodyStart : Nat) : (file sp bodyStart).Yields s fun f _ =>
    ∀ c, .plain (.classLike c) ∈ f.stmts → ∃ x, x <:+: s.cursor.ahead ∧ c.MarkedBy x := by
  simp only [file, yields_bind, yields_fresh]
  have hfinished : ∀ t, Yields atEnd t fun b u => u = t ∧ (b = false → t.cursor.atEnd = false) := by
    simp
  refine (Yields.manyUntil_marks (R := fun a ms => ∀ c, a = .plain (.classLike c) → c.MarkedBy ms) (hs.passes (.fresh s))
    hfinished fun t ht hend => ?_).mono fun stmts t h => ?_
  · refine ((yields_topStmt ht hend).and (yields_topStmt_mark ht)).mono fun a u h => ?_
    obtain ⟨⟨hread, -⟩, hmark⟩ := h
    by_cases hclass : ∃ c, a = .plain (.classLike c)
    · obtain ⟨c, rfl⟩ := hclass
      obtain ⟨ms, hms, hc⟩ := hmark c rfl
      exact ⟨ms, hms, by rintro _ ⟨⟩; exact hc⟩
    · obtain ⟨ms, hms⟩ := hread.moves.passes
      exact ⟨ms, hms, fun c hc => absurd ⟨c, hc⟩ hclass⟩
  · rw [yields_pure]
    intro c hc
    obtain ⟨ms, hms, hstmts⟩ := h
    obtain ⟨x, hx, hmark⟩ := hstmts _ hc
    have hahead : s.cursor.ahead = ms ++ t.cursor.ahead := hms.ahead
    rw [hahead]
    exact ⟨x, hx.trans (List.prefix_append ms _).isInfix, hmark c rfl⟩

end Parser

end Graft
