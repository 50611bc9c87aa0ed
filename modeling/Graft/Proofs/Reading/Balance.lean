/-
Balanced brackets of files.

The only brackets that the grammar steps over without looking at what they close are those in the type of a property
and in the return type of a method.  Both stand in the header of a member, and a file whose headers are nested is
nested as a whole.

* `yields_balance_member` — a member is balanced when its header is;
* `nested_of_parseFile` — the brackets of a file that was parsed.
-/
import Graft.Proofs.Reading.Source
import Graft.Proofs.Reading.Whole

namespace Graft

/-! ### Headers -/

/-- Where the type of a member stands: in a method behind its name and before its body, in a property before its first
variable. -/
def Member.headers : Member → List Span
  | .method m => [⟨m.name.span.stop, (m.body.map (·.span.start)).getD m.span.stop⟩]
  | .property p => [⟨p.span.start, (p.items.head?.map (·.span.start)).getD p.span.stop⟩]
  | .traitUse _ | .other _ => []

def Stmt.headers : Stmt → List Span
  | .classLike c => c.members.flatMap Member.headers
  | .imports _ | .ret _ | .declare _ | .other _ => []

def TopStmt.headers : TopStmt → List Span
  | .inside n => n.stmts.flatMap Stmt.headers
  | .plain s => s.headers

/-- The headers of all members of a file. -/
def File.headers (f : File) : List Span := f.stmts.flatMap TopStmt.headers

/-- The brackets of every header are nested. -/
def HeadersNested (ts : List Token) (headers : List Span) : Prop :=
  ∀ sp ∈ headers, Nested (brackets (stretch ts sp.start sp.stop))

instance (ts : List Token) (headers : List Span) : Decidable (HeadersNested ts headers) :=
  inferInstanceAs (Decidable (∀ sp ∈ headers, Nested (brackets (stretch ts sp.start sp.stop))))

/-! ### Brackets on the ground -/

section Ground

variable {lo hi x y : Nat} {ts : List Token} {h : Tiled lo ts hi} {s t u : ParseState}

theorem Ground.brackets_of_blank (hxy : (ofTiles h).blank x y) : brackets (stretch ts x y) = [] :=
  brackets_eq_nil fun t ht => TokenKind.isBracket_of_isSkipped (isSkipped_of_blank hxy t ht)

/-- The brackets of marks are those of the stretch that the marks describe. -/
theorem Ground.brackets_of_ahead {eof e : Nat} {ms ns : List Mark} (ha : (ofTiles h).Ahead eof e (ms ++ ns))
    (hy : (ofTiles h).blank (endOf e ms) y) : brackets (stretch ts e y) = brackets (ms.map Mark.token) := by
  induction ms generalizing e with
  | nil => exact brackets_of_blank hy
  | cons m ms ih =>
    obtain ⟨hlead, hstart, htoken, hrest⟩ := ha
    have hblank := (ofTiles h).blank_trans hlead hstart
    have hle : m.token.stop ≤ y := Nat.le_trans hrest.drop.2 ((ofTiles h).le_of_blank hy)
    rw [h.stretch_around htoken.1 ((ofTiles h).le_of_blank hblank) hle, brackets_append, brackets_of_blank hblank,
      List.nil_append, brackets_cons, ih hrest hy, ← brackets_cons, List.map_cons]

/-- A blank before a stretch has no brackets. -/
theorem Ground.brackets_behind_blank {z : Nat} (hxz : (ofTiles h).blank x z) (hzy : z ≤ y) :
    brackets (stretch ts x y) = brackets (stretch ts z y) := by
  rw [h.stretch_append ((ofTiles h).edge_right hxz).2.2 ((ofTiles h).le_of_blank hxz) hzy, brackets_append,
    brackets_of_blank hxz, List.nil_append]

/-- What is consumed is nested where the stretch up to the next token is. -/
theorem Even.of_nested (hs : (Ground.ofTiles h).On s) (hst : Passes s t)
    (hy : (Ground.ofTiles h).blank t.cursor.prevEnd y)
    (hn : Nested (brackets (stretch ts s.cursor.prevEnd y))) : Even s t := by
  obtain ⟨ms, hms⟩ := hst
  refine ⟨ms, hms, ?_⟩
  unfold Ground.On at hs
  rw [hms.ahead] at hs
  rw [hms.prevEnd] at hy
  rwa [Ground.brackets_of_ahead hs hy] at hn

/-- From `s` to `t` nested brackets are consumed where the headers are nested. -/
structure Balances (ts : List Token) (s t : ParseState) (headers : List Span) : Prop where
  passes : Passes s t
  even : HeadersNested ts headers → Even s t

theorem Balances.of_even {headers : List Span} (h : Even s t) : Balances ts s t headers := ⟨h.passes, fun _ => h⟩

theorem Balances.append {headers headers' : List Span} (h₁ : Balances ts s t headers)
    (h₂ : Balances ts t u headers') : Balances ts s u (headers ++ headers') where
  passes := h₁.passes.trans h₂.passes
  even hn := by
    obtain ⟨hn₁, hn₂⟩ := List.forall_mem_append.1 hn
    exact (h₁.even hn₁).trans (h₂.even hn₂)

theorem Balances.before {headers : List Span} (h₁ : Even s t) (h₂ : Balances ts t u headers) :
    Balances ts s u headers where
  passes := h₁.passes.trans h₂.passes
  even hn := h₁.trans (h₂.even hn)

/-- Balanced nodes between braces, the first of which is the current token of `s`. -/
theorem Balances.braced {headers : List Span} (hopen : s.cursor.check .lBrace = true) (hb : Balances ts s.next t headers)
    (hclose : t.cursor.check .rBrace = true) : Balances ts s t.next headers where
  passes := ((Passes.next s).trans hb.passes).trans (.next t)
  even hn := .wrap rfl hopen (hb.even hn) hclose

end Ground

namespace Parser

variable {lo hi : Nat} {ts : List Token} {h : Tiled lo ts hi} {s t u : ParseState}

/-! ### Bodies of methods -/

theorem yields_even_returnStmt (hs : s.cursor.checkWord "return" = true) :
    returnStmt.Yields s fun _ t => Even s t := by
  rw [returnStmt, yields_bind, yields_fresh, yields_bind, yields_leadStart, yields_bind, yields_advance]
  have finish : ∀ (origin : NodeId) (start : Nat) (value : Option Expr), Evens (do
      return (⟨some origin, ← spanFrom start, value⟩ : ReturnStmt)) :=
    fun _ _ _ => .bind (.spanFrom _) fun _ => .pure _
  have rest : ∀ (origin : NodeId) (start : Nat) (value : Option Expr), Evens (do
      unless ← atEnd do terminator
      return (⟨some origin, ← spanFrom start, value⟩ : ReturnStmt)) :=
    fun _ _ _ => .bind (.look _) fun _ => .ite (finish _ _ _) (.bind evens_terminator fun _ => finish _ _ _)
  refine Evens.from (.bind (.look _) fun _ => .bind (.look _) fun _ => .bind (.look _) fun _ => ?_)
    ((Even.fresh s).trans (.of_checkWord hs))
  exact .ite (.bind (.pure _) fun _ => rest _ _ _) (.bind (.map _ (evens_expr _)) fun _ => rest _ _ _)

theorem evens_bodyStmt : bodyStmt.Evens := by
  intro s
  simp only [bodyStmt, yields_bind, yields_checkWord]
  refine .ite (fun hs => ?_) fun _ => Evens.bind evens_verbatim (fun _ => .pure _) s
  simp only [yields_bind, yields_pure]
  exact yields_even_returnStmt hs

theorem evens_atBlockEnd : atBlockEnd.Evens :=
  .bind (.look _) fun _ => .ite (.pure _) (.bind (.look _) fun _ => .ite (.unexpected _) (.pure _))

theorem evens_block : block.Evens := by
  intro s
  simp only [block, yields_bind, yields_fresh]
  refine yields_expect fun opening _ hopen hkopen => ?_
  refine (Evens.manyUntil evens_atBlockEnd evens_bodyStmt _).mono fun stmts u hu => ?_
  refine yields_expect fun close _ hclose hkclose => ?_
  rw [yields_pure]
  exact (Even.fresh s).trans (.wrap rfl ((Cursor.check_of_ahead hopen).2 hkopen) hu ((Cursor.check_of_ahead hclose).2 hkclose))

/-! ### Members -/

theorem evens_modifiers : modifiers.Evens := by
  refine .loop (fun found s => ?_) _
  simp only [modifier?, yields_bind, yields_cursor, yields_pure]
  by_cases hs : s.cursor.check .ident = true
  · rw [if_pos hs]
    cases Modifiers.ofKeyword? s.cursor.text with
    | none => exact Evens.pure _ s
    | some m =>
      simp only [yields_bind, yields_advance, yields_pure]
      exact .of_check hs rfl
  · rw [if_neg hs]
    exact Evens.pure _ s

theorem yields_even_traitUse (start : Nat) (hs : s.cursor.checkWord "use" = true) :
    (traitUse start).Yields s fun _ t => Even s t := by
  rw [traitUse, yields_bind, yields_fresh, yields_bind, yields_advance]
  have rest : ∀ (origin : NodeId) names region (adaptations : Option Span), Evens (do
      return (⟨some origin, ← spanFrom start, region, names, adaptations⟩ : TraitUse)) :=
    fun _ _ _ _ => .bind (.spanFrom _) fun _ => .pure _
  refine Evens.from (.bind evens_nameList fun _ => .bind (.spanFrom _) fun _ => .bind (.look _) fun _ => ?_)
    ((Even.fresh s).trans (.of_checkWord hs))
  exact .ite (.bind (.map _ .skipGroup) fun _ => rest _ _ _ _)
    (.bind evens_terminator fun _ => .bind (.pure _) fun _ => rest _ _ _ _)

/-- A method is balanced when its header is. -/
theorem yields_balance_method (hon : (Ground.ofTiles h).On s) (hs : s.cursor.checkWord "function" = true) (start : Nat)
    (mods : Modifiers) : (method start mods).Yields s fun m t => Balances ts s t (Member.headers (.method m)) := by
  simp only [method, yields_bind, yields_fresh, yields_advance, yields_discard]
  have h₁ : Even s { s with nextId := s.nextId + 1 }.next := (Even.fresh s).trans (.of_checkWord hs)
  refine ((Evens.eat rfl).from h₁).mono fun _ s₂ h₂ => ?_
  have hon₂ := hon.passes h₂.passes
  refine ((yields_ident hon₂).and ((evens_ident _).from h₂)).mono fun name s₃ h₃ => ?_
  obtain ⟨⟨-, -, -, hname⟩, h₃⟩ := h₃
  have hon₃ := hon.passes h₃.passes
  simp only [yields_check]
  refine .ite (fun _ => ?_) fun _ => by simp only [yields_bind, yields_unexpected]
  simp only [yields_bind, yields_discard]
  refine (Evens.skipGroup.from (.refl s₃)).mono fun _ s₄ h₄ => ((Evens.eat rfl).from h₄).mono fun _ s₅ h₅ => ?_
  -- Whatever the return type is, the header reaches from the name to the body or to the end.
  refine Yields.join_pure (a := ()) (R := fun _ s₆ => Passes s₃ s₆) (fun _ => ?_) (fun _ => h₅.passes) fun _ s₆ h₆ => ?_
  · refine (Yields.skipUntil (P := fun _ => True) (fun t => ?_) fun t => ?_).mono fun _ _ h => h₅.passes.trans h.1
    · exact (yields_atTypeEnd t).mono fun _ _ h => ⟨h, fun _ => trivial⟩
    · simp only [yields_bind, yields_check]
      refine .ite (fun _ => ?_) fun _ => yields_advance.2 (.next t)
      rw [yields_discard]
      exact Yields.skipGroup fun _ _ h _ => h.passes
  have hon₆ := hon₃.passes h₆
  rw [yields_bind, yields_check]
  refine Yields.join_bind (R := fun (body : Option Block) t =>
    Passes s₆ t ∧ (Nested (brackets (stretch ts s₃.cursor.prevEnd
      ((body.map (·.span.start)).getD t.cursor.prevEnd))) → Even s₃ t)) (fun _ => ?_) (fun _ => ?_) fun body t ht => ?_
  · rw [yields_map]
    refine ((yields_block hon₆).and (evens_block s₆)).mono fun b t hb => ⟨hb.2.passes, fun hn => ?_⟩
    rw [Option.map_some, Option.getD_some, hb.1.1.span] at hn
    exact (Even.of_nested hon₃ h₆ hon₆.blank_here hn).trans hb.2
  · refine (yields_terminator s₆).mono fun _ t ht => yields_pure.2 ⟨ht.passes, fun hn => ?_⟩
    have hst := h₆.trans ht.passes
    exact Even.of_nested hon₃ hst ((Ground.ofTiles h).blank_refl (hon₃.passes hst).edge_prevEnd) hn
  · simp only [yields_bind, yields_spanFrom, yields_pure]
    refine ⟨h₃.passes.trans (h₆.trans ht.1), fun hn => h₃.trans (ht.2 ?_)⟩
    have hn := hn _ List.mem_cons_self
    rwa [hname] at hn

theorem evens_propertyItem : propertyItem.Evens := by
  have rest : ∀ (origin : NodeId) (tok : Token) (default : Option Expr), Evens (do
      return (⟨some origin, ← spanFrom tok.start, ⟨⟨tok.start + 1, tok.stop⟩, tok.text.drop 1⟩, default⟩ :
        PropertyItem)) :=
    fun _ _ _ => .bind (.spanFrom _) fun _ => .pure _
  refine .bind .fresh fun _ => .bind (.expect rfl _) fun _ => .bind (.eat rfl) fun _ => ?_
  exact .ite (.bind (.map _ (evens_expr _)) fun _ => rest _ _ _) (.bind (.pure _) fun _ => rest _ _ _)

/-- A property is balanced when its header is, which begins with the attributes that were read from `s` on. -/
theorem yields_balance_property (hon : (Ground.ofTiles h).On s) (hsu : Passes s u) (mods : Modifiers) :
    (property s.cursor.leadStart mods).Yields u fun p t => Balances ts s t (Member.headers (.property p)) := by
  simp only [property, yields_bind, yields_fresh]
  refine (yields_propertyType _).mono fun _ v hv => ?_
  have hsv : Passes s v := hsu.trans ((Passes.fresh u).trans hv)
  have honv := hon.passes hsv
  -- The first variable stands behind the start of the header.
  refine ((Yields.sepByComma (P := fun i => s.cursor.leadStart ≤ i.span.start) honv
    fun t ht hvt => (yields_propertyItem ht).mono fun i _ hi => ⟨hi.1, ?hstart⟩).and
      (Evens.sepByComma evens_propertyItem v)).mono fun items t ht => ?_
  case hstart =>
    rw [hi.2.2]
    exact Nat.le_trans hon.lead_le_here (hon.here_le_here (hsv.trans hvt))
  obtain ⟨⟨hlist, hne, -⟩, heven⟩ := ht
  have hfirst : ∃ y, (items.head?.map (·.span.start)) = some y ∧ s.cursor.leadStart ≤ y ∧
      (Ground.ofTiles h).blank v.cursor.prevEnd y := by
    cases items with
    | nil => exact absurd rfl hne
    | cons i items => exact ⟨_, rfl, hlist.each i List.mem_cons_self, hlist.spread.1⟩
  obtain ⟨y, hy, hle, hblank⟩ := hfirst
  rw [yields_check]
  refine Yields.join (R := fun _ w => Even t w) (fun _ => Evens.discard .skipGroup t) (fun _ => evens_terminator t)
    fun _ w hw => ?_
  simp only [yields_bind, yields_spanFrom, yields_pure]
  refine ⟨hsv.trans (heven.passes.trans hw.passes), fun hn => ?_⟩
  have hn := hn _ List.mem_cons_self
  simp only [hy, Option.getD_some] at hn
  rw [← Ground.brackets_behind_blank hon.blank_lead hle] at hn
  exact (Even.of_nested hon hsv hblank hn).trans (heven.trans hw)

/-- A member is balanced when its header is. -/
theorem yields_balance_member (hon : (Ground.ofTiles h).On s) :
    member.Yields s fun m t => Balances ts s t m.headers := by
  simp only [member, yields_bind, yields_leadStart]
  refine (evens_skipAttributes s).mono fun _ u hu => ?_
  simp only [yields_checkWord]
  refine .ite (fun hword => ?_) fun _ => ?_
  · simp only [yields_bind, yields_pure]
    exact (yields_even_traitUse _ hword).mono fun _ _ ht => .of_even (hu.trans ht)
  simp only [yields_bind]
  refine (evens_modifiers.from hu).mono fun mods v hv => ?_
  simp only [yields_checkWord]
  refine .ite (fun _ => ?_) fun _ => ?_
  · simp only [yields_bind, yields_pure]
    exact (evens_verbatim.from hv).mono fun _ _ ht => .of_even ht
  simp only [yields_bind, yields_checkWord]
  refine .ite (fun hword => ?_) fun _ => ?_
  · simp only [yields_bind, yields_pure]
    exact (yields_balance_method (hon.passes hv.passes) hword _ mods).mono fun _ _ ht => ht.before hv
  simp only [yields_bind, yields_check]
  refine .ite (fun hsemi => ?_) fun _ => ?_
  · simp only [yields_bind, yields_fresh, yields_advance, yields_spanFrom, yields_pure]
    exact .of_even (hv.trans ((Even.fresh v).trans (.of_check hsemi rfl)))
  · simp only [yields_bind, yields_pure]
    exact yields_balance_property hon hv.passes mods

/-! ### Lists -/

theorem yields_balance_manyUntil {α : Type} {finished : Parser Bool} {item : Parser α} {headers : α → List Span}
    (hon : (Ground.ofTiles h).On s)
    (hfinished : ∀ t, finished.Yields t fun b u => u = t ∧ (b = false → t.cursor.atEnd = false))
    (hitem : ∀ t, (Ground.ofTiles h).On t → t.cursor.atEnd = false →
      item.Yields t fun a u => Balances ts t u (headers a)) :
    (manyUntil finished item).Yields s fun as t => Balances ts s t (as.flatMap headers) := by
  refine Yields.loop (I := fun as t => Balances ts s t (as.flatMap headers)) (fun as t ht => ?_) (.of_even (.refl s))
  simp only [yields_bind]
  refine (hfinished t).mono fun b u hu => ?_
  obtain ⟨rfl, hend⟩ := hu
  refine .ite (fun _ => by simpa using ht) fun hb => ?_
  simp only [yields_bind, yields_pure, List.flatMap_append, List.flatMap_singleton]
  exact (hitem _ (hon.passes ht.passes) (hend (by simpa using hb))).mono fun _ _ ha => ht.append ha

/-! ### Classes -/

theorem evens_header (kind : ClassKind) : (header kind).Evens := by
  refine .loop (fun h => .bind (.eatWord _) fun _ => .ite (.bind evens_nameList fun _ => .pure _) ?_) _
  have colon : Evens (do
      if kind == .enum then
        if ← eat .colon then
          discard name
          return .again h
      return .done h : Parser (Round Header Header)) :=
    .ite (.bind (.eat rfl) fun _ => .ite (.bind (.discard evens_name) fun _ => .pure _) (.pure _)) (.pure _)
  intro s
  rw [yields_bind, yields_checkWord]
  refine .ite (fun hword => ?_) fun _ => colon s
  rw [yields_bind, yields_prevEnd, yields_bind, yields_advance]
  exact Evens.from (.bind evens_nameList fun _ => .bind (.spanFrom _) fun _ => .bind (.spanFrom _) fun _ => .pure _)
    (.of_checkWord hword)

theorem yields_balance_classLike (hon : (Ground.ofTiles h).On s) :
    classLike.Yields s fun c t => Balances ts s t (c.members.flatMap Member.headers) := by
  simp only [classLike, yields_bind, yields_fresh, yields_leadStart]
  refine (evens_skipAttributes.from (.fresh s)).mono fun _ s₁ h₁ => ?_
  refine (evens_modifiers.from h₁).mono fun mods s₂ h₂ => ?_
  refine ((Evens.expect rfl _).from h₂).mono fun keyword s₃ h₃ => ?_
  split
  · exact yields_throw
  · simp only [yields_bind]
    refine ((evens_ident _).from h₃).mono fun name s₄ h₄ => ((evens_header _).from h₄).mono fun clauses s₅ h₅ => ?_
    simp only [yields_prevEnd]
    refine yields_expect fun opening _ hopen hkopen => ?_
    have hon₆ := hon.passes (h₅.passes.trans (.next s₅))
    refine (yields_balance_manyUntil hon₆ yields_atBlockEnd fun _ ht _ => yields_balance_member ht).mono
      fun members s₇ h₇ => ?_
    refine yields_expect fun close _ hclose hkclose => ?_
    rw [yields_pure]
    exact (h₇.braced ((Cursor.check_of_ahead hopen).2 hkopen) ((Cursor.check_of_ahead hclose).2 hkclose)).before h₅

/-! ### Imports -/

theorem evens_importKind? : importKind?.Evens :=
  .bind (.look _) fun _ => .ite
    (.bind (.eatWord _) fun _ => .ite (.pure _) (.bind (.eatWord _) fun _ => .ite (.pure _) (.pure _))) (.pure _)

theorem evens_finishImportItem (start : Nat) (kind : Option ImportKind) (n : Name) :
    (finishImportItem start kind n).Evens := by
  have rest : ∀ (origin : NodeId) (localName : Option Ident), Evens (do
      return (⟨some origin, ← spanFrom start, kind, n, localName⟩ : ImportItem)) :=
    fun _ _ => .bind (.spanFrom _) fun _ => .pure _
  refine .bind .fresh fun _ => .bind (.eatWord _) fun _ => ?_
  exact .ite (.bind (.map _ (evens_ident _)) fun _ => rest _ _) (.bind (.pure _) fun _ => rest _ _)

theorem evens_importItem (grouped : Bool) : (importItem grouped).Evens := by
  have rest : ∀ (start : Nat) (kind : Option ImportKind), Evens (do finishImportItem start kind (← name)) :=
    fun _ _ => .bind evens_name fun _ => evens_finishImportItem _ _ _
  exact .bind (.look _) fun _ => .ite (.bind evens_importKind? fun _ => rest _ _) (.bind (.pure _) fun _ => rest _ _)

theorem evens_groupItems : groupItems.Evens :=
  .loop (fun _ => .bind (.look _) fun _ => .ite (.pure _) (.bind (evens_importItem _) fun _ =>
    .bind (.eat rfl) fun _ => .ite (.pure _) (.pure _))) _

theorem yields_even_importDecl (hs : s.cursor.checkWord "use" = true) : importDecl.Yields s fun _ t => Even s t := by
  simp only [importDecl, yields_bind, yields_fresh, yields_leadStart, yields_advance]
  refine (evens_importKind?.from ((Even.fresh s).trans (.of_checkWord hs))).mono fun kind s₁ h₁ => ?_
  simp only [yields_here]
  refine (evens_name.from h₁).mono fun first s₂ h₂ => ?_
  simp only [yields_check, yields_peek?]
  refine .ite (fun hgroup => ?_) fun _ => ?_
  · rw [Bool.and_eq_true, beq_iff_eq] at hgroup
    simp only [yields_bind, yields_advance, yields_prevEnd]
    refine (evens_groupItems _).mono fun items s₃ h₃ => yields_expect fun close _ hclose hkclose => ?_
    have h₄ := h₂.trans ((Even.of_check hgroup.1 rfl).trans
      (.wrap rfl (check_next hgroup.2) h₃ ((Cursor.check_of_ahead hclose).2 hkclose)))
    refine (evens_terminator.from h₄).mono fun _ _ h₅ => ?_
    simpa only [yields_spanFrom, yields_pure] using h₅
  · simp only [yields_bind]
    refine ((evens_finishImportItem _ _ _).from h₂).mono fun firstItem s₃ h₃ => ?_
    refine ((Evens.loop (fun items => .bind (.eat rfl) fun _ => .ite
      (.bind (evens_importItem false) fun _ => .pure _) (.pure _)) _).from h₃).mono fun items s₄ h₄ => ?_
    simp only [yields_spanFrom]
    refine (evens_terminator.from h₄).mono fun _ _ h₅ => ?_
    simpa only [yields_spanFrom, yields_pure] using h₅

/-! ### Statements and files -/

theorem yields_balance_stmt (hon : (Ground.ofTiles h).On s) : stmt.Yields s fun a t => Balances ts s t a.headers := by
  simp only [stmt, yields_bind, yields_checkWord, yields_peek?]
  refine .ite (fun hword => ?_) fun _ => ?_
  · rw [Bool.and_eq_true] at hword
    simp only [yields_bind, yields_pure]
    exact (yields_even_importDecl hword.1).mono fun _ _ ht => .of_even ht
  simp only [yields_bind, yields_checkWord]
  refine .ite (fun _ => ?_) fun _ => ?_
  · simp only [yields_bind, yields_pure]
    exact (evens_verbatim s).mono fun _ _ ht => .of_even ht
  simp only [yields_bind, yields_checkWord]
  refine .ite (fun hword => ?_) fun _ => ?_
  · simp only [yields_bind, yields_pure]
    exact (yields_even_returnStmt hword).mono fun _ _ ht => .of_even ht
  simp only [yields_bind]
  -- Looking for a class leaves the cursor where it was.
  refine (yields_atClassLike s).mono fun b u hu => ?_
  have hsu : Even s u := .of_cursor_eq hu.1 hu.2
  refine .ite (fun _ => ?_) fun _ => ?_
  · simp only [yields_bind, yields_pure]
    exact (yields_balance_classLike (hon.passes hsu.passes)).mono fun c t ht => ht.before hsu
  simp only [yields_bind, yields_check]
  refine .ite (fun hhtml => ?_) fun _ => ?_
  · simp only [yields_bind, yields_fresh, yields_cursor, yields_advance, yields_pure]
    exact .of_even (hsu.trans ((Even.fresh u).trans (.of_check hhtml rfl)))
  · simp only [yields_bind, yields_pure]
    exact (evens_verbatim.from hsu).mono fun _ _ ht => .of_even ht

theorem yields_balance_namespaceDecl (hon : (Ground.ofTiles h).On s) (hs : s.cursor.checkWord "namespace" = true) :
    namespaceDecl.Yields s fun n t => Balances ts s t (n.stmts.flatMap Stmt.headers) := by
  simp only [namespaceDecl, yields_bind, yields_fresh, yields_leadStart, yields_advance, yields_check]
  have h₁ : Even s { s with nextId := s.nextId + 1 }.next := (Even.fresh s).trans (.of_checkWord hs)
  refine Yields.join (R := fun _ t => Even s t) (fun _ => (Evens.map _ evens_name).from h₁)
    (fun _ => yields_pure.2 h₁) fun nsName s₂ h₂ => ?_
  simp only [yields_bind, yields_eat]
  split
  · rename_i hopen
    simp only [if_true, yields_bind, yields_prevEnd]
    have hon₃ := hon.passes (h₂.passes.trans (.next s₂))
    refine (yields_balance_manyUntil hon₃ yields_atBlockEnd fun _ ht _ => yields_balance_stmt ht).mono
      fun stmts s₄ h₄ => yields_expect fun close _ hclose hkclose => ?_
    rw [yields_pure]
    exact (h₄.braced hopen ((Cursor.check_of_ahead hclose).2 hkclose)).before h₂
  · simp only [Bool.false_eq_true, if_false, yields_bind]
    refine (evens_terminator.from h₂).mono fun _ s₃ h₃ => ?_
    simp only [yields_prevEnd]
    refine (yields_balance_manyUntil (hon.passes h₃.passes) yields_atNamespaceEnd fun _ ht _ => yields_balance_stmt ht).mono
      fun stmts s₄ h₄ => ?_
    simp only [yields_spanFrom, yields_pure]
    exact h₄.before h₃

theorem yields_balance_topStmt (hon : (Ground.ofTiles h).On s) :
    topStmt.Yields s fun a t => Balances ts s t a.headers := by
  simp only [topStmt, atNamespace, yields_bind, yields_peek?, yields_checkWord, yields_pure]
  refine .ite (fun hns => ?_) fun _ => ?_
  · rw [Bool.and_eq_true] at hns
    simp only [yields_bind, yields_pure]
    exact yields_balance_namespaceDecl hon hns.1
  · simp only [yields_bind, yields_pure]
    exact yields_balance_stmt hon

/-- Where the headers of a file are nested, so are all brackets up to the end. -/
theorem yields_balance_file (hon : (Ground.ofTiles h).On s) (sp : Span) (bodyStart : Nat) :
    (file sp bodyStart).Yields s fun f _ =>
      HeadersNested ts f.headers → Nested (brackets (s.cursor.ahead.map Mark.token)) := by
  simp only [file, yields_bind, yields_fresh]
  have hfinished : ∀ t, Yields atEnd t fun b u => u = t ∧ (b = false → t.cursor.atEnd = false) := by
    simp
  have hend : ∀ t, Yields atEnd t fun b u => b = true → u.cursor.atEnd = true := by
    simp
  refine ((yields_balance_manyUntil (hon.passes (.fresh s)) hfinished fun _ ht _ => yields_balance_topStmt ht).and
    (Yields.manyUntil_end hend)).mono fun stmts t ht => ?_
  rw [yields_pure]
  intro hn
  obtain ⟨ms, hms, hnested⟩ := ht.1.even hn
  have hnil : t.cursor.ahead = [] := by simpa [Cursor.atEnd] using ht.2
  rw [show s.cursor.ahead = ms by simpa [hnil] using hms.ahead]
  exact hnested

end Parser

/-! ### Parsed files -/

/-- The brackets of marks are those of the tokens. -/
theorem brackets_marks (m : Margin) (ts : List Token) : brackets ((marks m ts).map Mark.token) = brackets ts := by
  rw [tokens_marks, brackets, brackets, List.filter_map, List.filter_map, List.filter_filter]
  refine congrArg (List.map Token.kind) (List.filter_congr fun t _ => ?_)
  cases hk : t.kind.isSkipped with
  | true => simp [TokenKind.isBracket_of_isSkipped hk]
  | false => simp

/-- A file that was parsed has no invalid token.  Its brackets are properly nested and fully matched where those of the
headers of its members are. -/
theorem Arena.nested_of_parseFile {a a' : Arena} {t : Text} {f : File} (hf : a.parseFile t = (.ok f, a')) :
    (∀ tok ∈ a.tokensOf t, tok.kind ≠ .error) ∧
      (HeadersNested (a.tokensOf t) f.headers → Nested (brackets (a.tokensOf t))) := by
  obtain ⟨start, z, hcode, hz, hprev, hon⟩ := a.exists_start t
  obtain ⟨pre, us, z', hsplit, hpre, -, -, hcode'⟩ := a.exists_codeStart t
  obtain ⟨rfl, rfl⟩ := Prod.mk.inj (hcode.symm.trans hcode')
  simp only [parseFile, parseSource, a.tokens_nextSource] at hf
  split at hf
  · cases hf
  · rename_i hfind
    refine ⟨fun tok htok hk => ?_, fun hn => ?_⟩
    · exact List.find?_eq_none.1 hfind tok htok (by simp [hk])
    · simp only [hcode] at hf
      split at hf
      · rename_i g st hrun
        cases hf
        have hnested := Parser.yields_balance_file (h := a.tiled_tokensOf t) hon _ _ _ _ hrun hn
        rw [ahead_ofTokens hsplit, brackets_marks] at hnested
        -- Text outside of the code and the opening tag hold no brackets.
        rwa [hsplit, brackets_append, brackets_eq_nil, List.nil_append]
        intro tok htok
        rcases hpre tok htok with hk | hk
        · rw [hk]; rfl
        · rw [hk]; rfl
      · cases hf

/-- The types of a property and of a method have brackets, which are nested. -/
theorem Arena.nested_of_parseFile_types :
    ∃ t f a, t = ("<?php\nclass A \x7b\n  #[X([1])] private (B&C)|null $p = [1];\n" ++
        "  function f(int $x): (B&C)|null \x7b return ($x); \x7d\n\x7d").toList ∧
      Arena.empty.parseFile t = (.ok f, a) ∧ f.headers.length = 2 ∧ HeadersNested (Arena.empty.tokensOf t) f.headers ∧
      (brackets (Arena.empty.tokensOf t)).length = 20 ∧ Nested (brackets (Arena.empty.tokensOf t)) := by
  obtain ⟨t, ht, hcheck⟩ : ∃ t, t = ("<?php\nclass A \x7b\n  #[X([1])] private (B&C)|null $p = [1];\n" ++
        "  function f(int $x): (B&C)|null \x7b return ($x); \x7d\n\x7d").toList ∧
      ((Arena.empty.parseFile t).1.toOption.map (fun f =>
          (f.headers.length, decide (HeadersNested (Arena.empty.tokensOf t) f.headers))) = some (2, true) ∧
        (brackets (Arena.empty.tokensOf t)).length = 20) :=
    ⟨_, rfl, by decide +kernel⟩
  cases hf : Arena.empty.parseFile t with
  | mk result a =>
    rw [hf] at hcheck
    cases result with
    | error err => cases hcheck.1
    | ok f =>
      obtain ⟨hlength, hheaders⟩ := Prod.mk.inj (Option.some.inj hcheck.1)
      rw [decide_eq_true_eq] at hheaders
      exact ⟨t, f, a, ht, hf, hlength, hheaders, hcheck.2, (Arena.nested_of_parseFile hf).2 hheaders⟩

/-- A closing bracket in a return type closes nothing, and the file is parsed all the same. -/
theorem Arena.parseFile_of_not_nested :
    (Arena.empty.parseFile "<?php\nclass A \x7b function f(): ) \x7b\x7d \x7d".toList).1.toOption.isSome = true ∧
      ¬ Nested (brackets (Arena.empty.tokensOf "<?php\nclass A \x7b function f(): ) \x7b\x7d \x7d".toList)) := by
  constructor <;> decide +kernel

end Graft
