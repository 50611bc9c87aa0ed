/-
The grammar in two places.

Every rule of the grammar answers alike in both places of a transport: what it reads in the second place is what it
reads in the first, relocated.  One lemma for each rule, in the order of the grammar.

* `sends_expr`, `sends_member`, `sends_classLike` — expressions, members and classes;
* `sends_topStmt` — the statements of a file.
-/
import Graft.Parse.File
import Graft.Proofs.Reading.Tracks

namespace Graft.Parser

variable {T : Transport}

/-! ### Names, terminators and verbatim statements -/

theorem tracks_segments : Tracks T Eq segments segments := by
  refine .loop (I := Eq) ?_ rfl
  rintro text _ rfl
  refine (Tracks.check .backslash).bind ?_
  rintro found _ rfl
  refine (Tracks.peek? 1).bind ?_
  rintro next _ rfl
  refine .ite (fun _ => Tracks.advance.bind fun _ _ _ => Tracks.cursor.bind fun c d h => Tracks.advance.bind fun _ _ _ =>
    .pure (.again ?_)) fun _ => .pure (.done rfl)
  rw [h.text]

/-- A name that was read begins at an offset that is seen. -/
theorem tracks_name :
    Tracks T (fun m n => n = m.relocate T.map ∧ T.At m.span.start (m.relocate T.map).span.start) name name := by
  refine Tracks.fresh.bind fun i j hij => Tracks.here.bind fun x y hxy => (Tracks.eat .backslash).bind ?_
  rintro rooted _ rfl
  refine (Tracks.expect _ _).bind fun first _ hfirst => tracks_segments.bind ?_
  rintro more _ rfl
  refine (Tracks.spanFrom hxy).bind fun sp _ hsp => .pure ?_
  obtain ⟨rfl, hstart, -⟩ := hsp
  rw [hij, hfirst.1]
  exact ⟨rfl, hstart⟩

theorem sends_name : Sends T (Name.relocate T.map) name := tracks_name.mono fun _ _ h => h.1

theorem sends_ident (expected : String) : Sends T (Ident.relocate T.map) (ident expected) := by
  refine (Tracks.expect _ _).bind fun t _ ht => .pure ?_
  obtain ⟨rfl, hsees, -⟩ := ht
  exact congrArg (Ident.mk · t.text) (Transport.At.span ⟨hsees.start, rfl⟩ hsees.stop)

theorem tracks_nameList : Tracks T (fun ms ns => ns = ms.map (Name.relocate T.map) ∧
    ∀ m ∈ ms, T.At m.span.start (m.relocate T.map).span.start) nameList nameList :=
  tracks_name.sepByComma

/-- The text of names, from the first of them on; it begins at `x` where there are none. -/
theorem tracks_namesRegion {ms : List Name} (hms : ∀ m ∈ ms, T.At m.span.start (m.relocate T.map).span.start) {x y : Nat}
    (hxy : T.At x y) : Tracks T (fun s t => t = T.map.span s) (spanFrom ((ms.head?.map (·.span.start)).getD x))
      (spanFrom (((ms.map (Name.relocate T.map)).head?.map (·.span.start)).getD y)) := by
  refine (Tracks.spanFrom ?_).mono fun _ _ h => h.1
  cases ms with
  | nil => exact hxy
  | cons m ms => exact hms m (by simp)

theorem tracks_terminator : Tracks T Eq terminator terminator := by
  refine (Tracks.eat .semi).bind ?_
  rintro semi _ rfl
  refine .ite (fun _ => .pure rfl) fun _ => (Tracks.eat .closeTag).bind ?_
  rintro closeTag _ rfl
  exact .ite (fun _ => .pure rfl) fun _ => .unexpected _

theorem tracks_skipAttributes : Tracks T Eq skipAttributes skipAttributes := by
  refine .skipUntil ((Tracks.check .attrOpen).bind ?_) Tracks.skipGroup.discard
  rintro found _ rfl
  exact .pure rfl

theorem tracks_skipOne : Tracks T Eq skipOne skipOne := by
  refine Tracks.kind?.bind ?_
  rintro kind _ rfl
  exact .ite (fun _ => Tracks.skipGroup.discard) fun _ => .advance

theorem tracks_verbatimRound (begun : Bool) :
    Tracks T (Tracks.Rounds Eq Eq) (verbatimRound begun) (verbatimRound begun) := by
  refine Tracks.kind?.bind ?_
  rintro kind _ rfl
  split
  · exact .pure (.done rfl)
  · exact Tracks.advance.bind fun _ _ _ => .pure (.done rfl)
  · exact Tracks.advance.bind fun _ _ _ => .pure (.done rfl)
  · refine Tracks.skipGroup.discard.bind fun _ _ _ => Tracks.cursor.bind fun c d h => ?_
    have hany : continuations.any d.checkWord = continuations.any c.checkWord :=
      congrArg continuations.any (funext h.checkWord)
    rw [hany]
    refine .ite (fun _ => .pure (.again rfl)) fun _ => ?_
    exact (Tracks.eat .semi).discard.bind fun _ _ _ => .pure (.done rfl)
  · refine .ite (fun _ => Tracks.skipGroup.discard.bind fun _ _ _ => .pure (.again rfl)) fun _ => ?_
    refine .ite (fun _ => .ite (fun _ => .pure (.done rfl)) fun _ => ?_) fun _ => ?_
    · exact (Tracks.unexpected (R := Eq) _).bind fun _ _ _ => Tracks.advance.bind fun _ _ _ => .pure (.again rfl)
    · exact Tracks.advance.bind fun _ _ _ => .pure (.again rfl)

/-- Verbatim text ends at an offset that is seen. -/
theorem tracks_verbatim :
    Tracks T (fun v w => w = v.relocate T.map ∧ T.At v.span.stop w.span.stop) verbatim verbatim := by
  refine Tracks.fresh.bind fun i j hij => Tracks.leadStart.bind fun x y hxy => ?_
  have hloop : Tracks T Eq (loop verbatimRound false) (loop verbatimRound false) := by
    refine .loop (I := Eq) ?_ rfl
    rintro begun _ rfl
    exact tracks_verbatimRound begun
  refine hloop.bind fun _ _ _ => (Tracks.spanFrom hxy).bind fun sp _ hsp => .pure ⟨?_, hsp.2.2⟩
  rw [hij, hsp.1]
  rfl

theorem sends_verbatim : Sends T (Verbatim.relocate T.map) verbatim := tracks_verbatim.mono fun _ _ h => h.1

/-! ### Expressions -/

theorem tracks_atExprEnd (ctx : ExprContext) : Tracks T Eq (atExprEnd ctx) (atExprEnd ctx) := by
  refine Tracks.kind?.bind ?_
  rintro kind _ rfl
  exact .pure rfl

theorem literalOf?_relocate (kind : TokenKind) (text : Text) (negative : Bool) (i : NodeId) (s : Span) :
    literalOf? kind text negative (T.map.id i) (T.map.span s) =
      (literalOf? kind text negative i s).map (Expr.relocate T.map) := by
  unfold literalOf?
  split
  · simp [Expr.relocate, StringLit.relocate, Function.comp_def]
  · simp [Expr.relocate, IntLit.relocate, Function.comp_def]
  · simp [Expr.relocate, FloatLit.relocate, Function.comp_def]
  · rfl

theorem tracks_giveUp {c d : Cursor} (h : T.Cursors c d) :
    Tracks T (fun a b => b = Option.map (Expr.relocate T.map) a) (giveUp c) (giveUp d) :=
  (Tracks.moveTo h).bind fun _ _ _ => .pure rfl

theorem tracks_literalBehindSign (ctx : ExprContext) {c d : Cursor} (h : T.Cursors c d) {x y : Nat} (hxy : T.At x y)
    (negative : Bool) : Tracks T (fun a b => b = Option.map (Expr.relocate T.map) a)
      (literalBehindSign ctx c x negative) (literalBehindSign ctx d y negative) := by
  refine Tracks.cursor.bind fun c' d' h' => ?_
  simp only [h'.current?]
  cases hc : c'.ahead with
  | nil =>
    simp only [Cursor.current?, hc, List.head?_nil, Option.map_none]
    exact tracks_giveUp h
  | cons m ms =>
    have hkind : (T.token m.token).kind = m.token.kind := rfl
    have htext : (T.token m.token).text = m.token.text := rfl
    simp only [Cursor.current?, hc, List.head?_cons, Option.map_some, hkind, htext]
    refine .ite (fun _ => ?_) fun _ => .ite (fun _ => ?_) fun _ => tracks_giveUp h
    · refine sends_name.bind fun n _ hn => (tracks_atExprEnd ctx).bind ?_
      rintro done _ rfl
      refine .ite (fun _ => ?_) fun _ => tracks_giveUp h
      exact Tracks.fresh.discard.bind fun _ _ _ => .pure (by rw [hn]; rfl)
    · refine Tracks.advance.bind fun _ _ _ => (tracks_atExprEnd ctx).bind ?_
      rintro done _ rfl
      refine .ite (fun _ => Tracks.fresh.bind fun i j hij => .pure ?_) fun _ => tracks_giveUp h
      rw [hij, hxy.span (h'.sees m (by simp [hc])).1.stop, literalOf?_relocate]

theorem tracks_literal (ctx : ExprContext) :
    Tracks T (fun a b => b = Option.map (Expr.relocate T.map) a) (literal ctx) (literal ctx) := by
  refine Tracks.cursor.bind fun c d h => Tracks.here.bind fun x y hxy => (Tracks.peek? 1).bind ?_
  rintro next _ rfl
  rw [h.check, h.text]
  exact .ite (fun _ => Tracks.advance.bind fun _ _ _ => tracks_literalBehindSign ctx h hxy _)
    fun _ => tracks_literalBehindSign ctx h hxy _

theorem tracks_atArray : Tracks T Eq atArray atArray := by
  refine (Tracks.check .lBracket).bind ?_
  rintro found _ rfl
  refine .ite (fun _ => .pure rfl) fun _ => (Tracks.checkWord "array").bind ?_
  rintro word _ rfl
  refine (Tracks.peek? 1).bind ?_
  rintro next _ rfl
  exact .pure rfl

section Arrays

variable {expr : ExprContext → Parser Expr} (hexpr : ∀ ctx, Sends T (Expr.relocate T.map) (expr ctx))

include hexpr

theorem sends_arrayItem : Sends T (ArrayItem.relocate T.map) (arrayItem expr) := by
  refine Tracks.fresh.bind fun i j hij => Tracks.here.bind fun x y hxy => (Tracks.eat .ellipsis).bind ?_
  rintro unpack _ rfl
  refine (Tracks.eat .amp).bind ?_
  rintro byRef _ rfl
  refine (hexpr .key).bind ?_
  rintro first _ rfl
  refine (Tracks.eat .fatArrow).bind ?_
  rintro arrow _ rfl
  refine .ite (fun _ => ?_) fun _ => (Tracks.spanFrom hxy).bind fun sp _ hsp => .pure ?_
  · refine (Tracks.eat .amp).bind ?_
    rintro byRef _ rfl
    refine (hexpr .value).bind ?_
    rintro value _ rfl
    refine (Tracks.spanFrom hxy).bind fun sp _ hsp => .pure ?_
    rw [hij, hsp.1, ArrayItem.relocate_eq]
    rfl
  · rw [hij, hsp.1, ArrayItem.relocate_eq]
    rfl

theorem tracks_arrayItems (closer : TokenKind) :
    Tracks T (fun a b => b = Option.map (List.map (ArrayItem.relocate T.map)) a) (arrayItems expr closer)
      (arrayItems expr closer) := by
  refine .loop (I := fun is js => js = is.map (ArrayItem.relocate T.map)) ?_ rfl
  rintro is _ rfl
  refine (Tracks.check closer).bind ?_
  rintro closed _ rfl
  refine .ite (fun _ => .pure (.done rfl)) fun _ => (Tracks.check .comma).bind ?_
  rintro comma _ rfl
  refine (tracks_atExprEnd .value).bind ?_
  rintro done _ rfl
  refine .ite (fun _ => .pure (.done rfl)) fun _ => (sends_arrayItem hexpr).bind ?_
  rintro i _ rfl
  have happend : is.map (ArrayItem.relocate T.map) ++ [i.relocate T.map] = (is ++ [i]).map (ArrayItem.relocate T.map) := by
    simp
  rw [happend]
  refine (Tracks.eat .comma).bind ?_
  rintro comma _ rfl
  refine .ite (fun _ => .pure (.again rfl)) fun _ => (Tracks.check closer).bind ?_
  rintro closed _ rfl
  exact .ite (fun _ => .pure (.done rfl)) fun _ => .pure (.done rfl)

theorem tracks_arrayLit : Tracks T (fun a b => b = Option.map (ArrayLit.relocate T.map) a) (arrayLit expr)
    (arrayLit expr) := by
  refine Tracks.cursor.bind fun c d h => Tracks.here.bind fun x y hxy => (Tracks.eat .lBracket).bind ?_
  rintro short _ rfl
  -- Both forms of an array go on alike.
  have hrest : ∀ {k k' : Unit → Parser (Option (ArrayLit Expr))} {R : Option (ArrayLit Expr) → Option (ArrayLit Expr) → Prop},
      (∀ u, Tracks T R (k u) (k' u)) → Tracks T R (if short then k () else advance >>= fun _ => advance >>= k)
        (if short then k' () else advance >>= fun _ => advance >>= k') :=
    fun hk => .ite (fun _ => hk ()) fun _ => Tracks.advance.bind fun _ _ _ => Tracks.advance.bind fun _ _ _ => hk ()
  refine hrest fun _ => Tracks.prevEnd.bind fun x' y' hxy' => (tracks_arrayItems hexpr _).bind ?_
  rintro items _ rfl
  cases items with
  | none => exact (Tracks.moveTo h).bind fun _ _ _ => .pure rfl
  | some items =>
    refine (Tracks.expect _ _).bind fun close _ hclose => Tracks.fresh.bind fun i j hij => .pure ?_
    obtain ⟨rfl, hsees, -⟩ := hclose
    have hstart : T.At close.start (T.token close).start := ⟨hsees.start, rfl⟩
    rw [hij, hxy.span hsees.stop, hxy'.span hstart, Option.map_some, ArrayLit.relocate_eq]
    rfl

theorem tracks_structured (ctx : ExprContext) :
    Tracks T (fun a b => b = Option.map (Expr.relocate T.map) a) (structured expr ctx) (structured expr ctx) := by
  refine tracks_atArray.bind ?_
  rintro found _ rfl
  refine .ite (fun _ => (tracks_arrayLit hexpr).bind ?_) fun _ => tracks_literal ctx
  rintro a _ rfl
  cases a with
  | none => exact .pure rfl
  | some a =>
    refine (tracks_atExprEnd ctx).bind ?_
    rintro done _ rfl
    exact .ite (fun _ => .pure rfl) fun _ => .pure rfl

end Arrays

theorem sends_exprWithin (depth : Nat) (ctx : ExprContext) :
    Sends T (Expr.relocate T.map) (exprWithin depth ctx) := by
  induction depth generalizing ctx with
  | zero => exact .unexpected _
  | succ depth ih =>
    refine (tracks_atExprEnd ctx).bind ?_
    rintro done _ rfl
    have hrest : ∀ k : Nat → Option Expr → Parser Expr, (∀ start e, k start (some e) = return e) →
        (∀ start, k start none = do
          skipUntil (atExprEnd ctx) skipOne
          return Expr.other ⟨some (← fresh), ← spanFrom start⟩) →
        Sends T (Expr.relocate T.map) (here >>= fun start => structured (exprWithin depth) ctx >>= k start) := by
      intro k hsome hnone
      refine Tracks.here.bind fun x y hxy => (tracks_structured ih ctx).bind ?_
      rintro e _ rfl
      cases e with
      | some e =>
        simp only [hsome, Option.map_some]
        exact .pure rfl
      | none =>
        simp only [hnone, Option.map_none]
        refine (Tracks.skipUntil (tracks_atExprEnd ctx) tracks_skipOne).bind fun _ _ _ => ?_
        refine Tracks.fresh.bind fun i j hij => (Tracks.spanFrom hxy).bind fun sp _ hsp => .pure ?_
        rw [hij, hsp.1]
        rfl
    refine .ite (fun _ => (Tracks.unexpected (R := Eq) _).bind fun _ _ _ => ?_) fun _ => ?_
    · refine hrest _ (fun start e => ?_) fun start => ?_
      · rfl
      · rfl
    · refine hrest _ (fun start e => ?_) fun start => ?_
      · rfl
      · rfl

theorem sends_expr (ctx : ExprContext) : Sends T (Expr.relocate T.map) (expr ctx) := by
  refine Tracks.cursor.bind fun c d h => ?_
  rw [h.length]
  exact sends_exprWithin _ ctx

/-! ### Bodies of methods -/

theorem sends_returnStmt : Sends T (ReturnStmt.relocate T.map) returnStmt := by
  refine Tracks.fresh.bind fun i j hij => Tracks.leadStart.bind fun x y hxy => Tracks.advance.bind fun _ _ _ => ?_
  refine Tracks.atEnd.bind ?_
  rintro atEnd _ rfl
  refine (Tracks.check .semi).bind ?_
  rintro semi _ rfl
  refine (Tracks.check .closeTag).bind ?_
  rintro closeTag _ rfl
  refine .join (R := fun a b => b = Option.map (Expr.relocate T.map) a) (fun _ => .pure rfl)
    (fun _ => (sends_expr .statement).some) ?_
  rintro value _ rfl
  refine Tracks.atEnd.bind ?_
  rintro atEnd _ rfl
  refine .pure_join (R := Eq) (a := ()) (b := ()) rfl (fun _ => tracks_terminator) fun _ _ _ => ?_
  refine (Tracks.spanFrom hxy).bind fun sp _ hsp => .pure ?_
  rw [hij, hsp.1]
  rfl

theorem sends_bodyStmt : Sends T (BodyStmt.relocate T.map) bodyStmt := by
  refine (Tracks.checkWord "return").bind ?_
  rintro found _ rfl
  refine .ite (fun _ => sends_returnStmt.bind ?_) fun _ => sends_verbatim.bind ?_
  · rintro r _ rfl
    exact .pure rfl
  · rintro v _ rfl
    exact .pure rfl

theorem tracks_atBlockEnd : Tracks T Eq atBlockEnd atBlockEnd := by
  refine (Tracks.check .rBrace).bind ?_
  rintro found _ rfl
  refine .ite (fun _ => .pure rfl) fun _ => Tracks.atEnd.bind ?_
  rintro done _ rfl
  exact .ite (fun _ => (Tracks.unexpected (R := Eq) _).bind fun _ _ _ => .pure rfl) fun _ => .pure rfl

theorem sends_block : Sends T (Block.relocate T.map) block := by
  refine Tracks.fresh.bind fun i j hij => (Tracks.expect _ _).bind fun opening _ hopening => ?_
  refine (sends_bodyStmt.manyUntil tracks_atBlockEnd).bind ?_
  rintro stmts _ rfl
  refine (Tracks.expect _ _).bind fun close _ hclose => .pure ?_
  obtain ⟨rfl, hopening, -⟩ := hopening
  obtain ⟨rfl, hclose, -⟩ := hclose
  have hstart : T.At opening.start (T.token opening).start := ⟨hopening.start, rfl⟩
  have hend : T.At close.start (T.token close).start := ⟨hclose.start, rfl⟩
  rw [hij, hstart.span hclose.stop, hopening.stop.span hend]
  rfl

/-! ### Members -/

theorem tracks_modifier? : Tracks T Eq modifier? modifier? := by
  refine Tracks.cursor.bind fun c d h => .pure ?_
  rw [h.check, h.text]

theorem tracks_modifiers : Tracks T Eq modifiers modifiers := by
  refine .loop (I := Eq) ?_ rfl
  rintro found _ rfl
  refine tracks_modifier?.bind ?_
  rintro m _ rfl
  cases m with
  | some m => exact Tracks.advance.bind fun _ _ _ => .pure (.again rfl)
  | none => exact .pure (.done rfl)

theorem tracks_traitUse {x y : Nat} (hxy : T.At x y) :
    Tracks T (fun c d => d = c.relocate T.map) (traitUse x) (traitUse y) := by
  refine Tracks.fresh.bind fun i j hij => Tracks.advance.bind fun _ _ _ => tracks_nameList.bind fun names _ hnames => ?_
  obtain ⟨rfl, hnames⟩ := hnames
  refine (tracks_namesRegion hnames hxy).bind ?_
  rintro region _ rfl
  refine (Tracks.check .lBrace).bind ?_
  rintro found _ rfl
  refine .join_bind (R := fun a b => b = Option.map T.map.span a) (fun _ => Tracks.skipGroup.map ?_)
    (fun _ => tracks_terminator) (fun _ => .pure rfl) ?_
  · rintro sp _ rfl
    rfl
  rintro adaptations _ rfl
  refine (Tracks.spanFrom hxy).bind fun sp _ hsp => .pure ?_
  rw [hij, hsp.1]
  rfl

theorem tracks_atTypeEnd : Tracks T Eq atTypeEnd atTypeEnd := by
  refine Tracks.atEnd.bind ?_
  rintro done _ rfl
  refine (Tracks.check .lBrace).bind ?_
  rintro brace _ rfl
  refine (Tracks.check .semi).bind ?_
  rintro semi _ rfl
  exact .pure rfl

theorem tracks_method {x y : Nat} (hxy : T.At x y) (mods : Modifiers) :
    Tracks T (fun m n => n = m.relocate T.map) (method x mods) (method y mods) := by
  refine Tracks.fresh.bind fun i j hij => Tracks.advance.bind fun _ _ _ => (Tracks.eat .amp).discard.bind fun _ _ _ => ?_
  refine (sends_ident _).bind ?_
  rintro methodName _ rfl
  refine (Tracks.check .lParen).bind ?_
  rintro found _ rfl
  refine .pure_join (R := Eq) (a := ()) (b := ()) rfl (fun _ => .unexpected _) fun _ _ _ => Tracks.skipGroup.discard.bind fun _ _ _ => ?_
  refine (Tracks.eat .colon).bind ?_
  rintro colon _ rfl
  have htype : Tracks T Eq (do if ← check .lParen then discard skipGroup else advance)
      (do if ← check .lParen then discard skipGroup else advance) := by
    refine (Tracks.check .lParen).bind ?_
    rintro paren _ rfl
    exact .ite (fun _ => Tracks.skipGroup.discard) fun _ => .advance
  refine .join_pure (R := Eq) (a := ()) (b := ()) (fun _ => .skipUntil tracks_atTypeEnd htype) rfl fun _ _ _ => ?_
  refine (Tracks.check .lBrace).bind ?_
  rintro brace _ rfl
  refine .join_bind (R := fun a b => b = Option.map (Block.relocate T.map) a) (fun _ => sends_block.some)
    (fun _ => tracks_terminator) (fun _ => .pure rfl) ?_
  rintro body _ rfl
  refine (Tracks.spanFrom hxy).bind fun sp _ hsp => .pure ?_
  rw [hij, hsp.1]
  rfl

theorem tracks_propertyType : Tracks T Eq propertyType propertyType := by
  refine .loop (I := fun _ _ => True) (fun _ _ _ => Tracks.kind?.bind ?_) trivial
  rintro kind _ rfl
  dsimp only
  split
  · exact .pure (.done rfl)
  · exact .unexpected _
  · exact .unexpected _
  · exact .unexpected _
  · exact .unexpected _
  · exact Tracks.skipGroup.discard.bind fun _ _ _ => .pure (.again trivial)
  · exact Tracks.advance.bind fun _ _ _ => .pure (.again trivial)

theorem sends_propertyItem : Sends T (PropertyItem.relocate T.map) propertyItem := by
  refine Tracks.fresh.bind fun i j hij => (Tracks.expect _ _).bind fun t _ ht => (Tracks.eat .eq).bind ?_
  obtain ⟨rfl, hsees, hkind⟩ := ht
  rintro eq _ rfl
  refine .join (R := fun a b => b = Option.map (Expr.relocate T.map) a) (fun _ => (sends_expr .default).some)
    (fun _ => .pure rfl) ?_
  rintro value _ rfl
  have hstart : T.At t.start (T.token t).start := ⟨hsees.start, rfl⟩
  refine (Tracks.spanFrom hstart).bind fun sp _ hsp => .pure ?_
  have hname : (⟨(T.token t).start + 1, (T.token t).stop⟩ : Span) = T.map.span ⟨t.start + 1, t.stop⟩ :=
    (hsees.name hkind).span hsees.stop
  rw [hij, hsp.1, hname]
  rfl

theorem tracks_property {x y : Nat} (hxy : T.At x y) (mods : Modifiers) :
    Tracks T (fun p q => q = p.relocate T.map) (property x mods) (property y mods) := by
  refine Tracks.fresh.bind fun i j hij => tracks_propertyType.bind fun _ _ _ => sends_propertyItem.sepByComma.bind ?_
  rintro items _ rfl
  refine (Tracks.check .lBrace).bind ?_
  rintro brace _ rfl
  refine .join (R := Eq) (fun _ => Tracks.skipGroup.discard) (fun _ => tracks_terminator) fun _ _ _ => ?_
  refine (Tracks.spanFrom hxy).bind fun sp _ hsp => .pure ?_
  rw [hij, hsp.1]
  rfl

theorem sends_member : Sends T (Member.relocate T.map) member := by
  refine Tracks.leadStart.bind fun x y hxy => tracks_skipAttributes.bind fun _ _ _ => (Tracks.checkWord "use").bind ?_
  rintro use _ rfl
  refine .ite (fun _ => (tracks_traitUse hxy).bind ?_) fun _ => tracks_modifiers.bind ?_
  · rintro c _ rfl
    exact .pure rfl
  rintro mods _ rfl
  refine (Tracks.checkWord "const").bind ?_
  rintro const _ rfl
  refine (Tracks.checkWord "case").bind ?_
  rintro case _ rfl
  refine .ite (fun _ => tracks_verbatim.bind fun rest _ hrest => .pure ?_) fun _ => (Tracks.checkWord "function").bind ?_
  · obtain ⟨rfl, hstop⟩ := hrest
    exact congrArg (fun s => Member.other ⟨rest.origin.map T.map.id, s⟩) (hxy.span hstop)
  rintro function _ rfl
  refine .ite (fun _ => (tracks_method hxy mods).bind ?_) fun _ => (Tracks.check .semi).bind ?_
  · rintro m _ rfl
    exact .pure rfl
  rintro semi _ rfl
  refine .ite (fun _ => ?_) fun _ => (tracks_property hxy mods).bind ?_
  · refine Tracks.fresh.bind fun i j hij => Tracks.advance.bind fun _ _ _ => (Tracks.spanFrom hxy).bind
      fun sp _ hsp => .pure ?_
    rw [hij, hsp.1]
    rfl
  · rintro p _ rfl
    exact .pure rfl

/-! ### Classes -/

theorem tracks_atClassLike : Tracks T Eq atClassLike atClassLike := by
  refine Tracks.cursor.bind fun c d h => tracks_skipAttributes.bind fun _ _ _ => tracks_modifiers.discard.bind fun _ _ _ => ?_
  refine Tracks.cursor.bind fun c' d' h' => (Tracks.moveTo h).bind fun _ _ _ => .pure ?_
  rw [h'.text, h'.check, h'.peek?]

/-- The clauses of a header in the second place. -/
def Header.relocate (φ : Relocation) (h : Header) : Header :=
  ⟨h.parents.map (Name.relocate φ), h.interfaces.map (Name.relocate φ), h.interfacesClause.map φ.span,
    (h.interfacesClause.map fun _ => φ.span h.interfacesRegion).getD h.interfacesRegion⟩

theorem tracks_header (kind : ClassKind) : Tracks T (fun h h' => h' = h.relocate T.map ∧
    ∀ s, h.interfacesClause = some s → T.At s.start (T.map.span s).start) (header kind) (header kind) := by
  refine .loop (I := fun h h' => h' = h.relocate T.map ∧
    ∀ s, h.interfacesClause = some s → T.At s.start (T.map.span s).start) ?_ ⟨rfl, nofun⟩
  rintro h _ ⟨rfl, hclause⟩
  refine (Tracks.eatWord "extends").bind ?_
  rintro parent _ rfl
  refine .ite (fun _ => tracks_nameList.bind fun names _ hnames => .pure (.again ⟨?_, hclause⟩)) fun _ => ?_
  · rw [hnames.1]
    rfl
  refine (Tracks.checkWord "implements").bind ?_
  rintro implements _ rfl
  refine .ite (fun _ => Tracks.prevEnd.bind fun x y hxy => Tracks.advance.bind fun _ _ _ => ?_) fun _ => ?_
  · refine tracks_nameList.bind fun names _ hnames => ?_
    obtain ⟨rfl, hnames⟩ := hnames
    refine (tracks_namesRegion hnames hxy).bind ?_
    rintro region _ rfl
    refine (Tracks.spanFrom hxy).bind fun sp _ hsp => .pure (.again ⟨?_, fun s hs => ?_⟩)
    · rw [hsp.1]
      rfl
    · cases hs
      rw [← hsp.1]
      exact hsp.2.1
  · refine .ite (fun _ => (Tracks.eat .colon).bind ?_) fun _ => .pure (.done ⟨rfl, hclause⟩)
    rintro colon _ rfl
    refine .ite (fun _ => sends_name.discard.bind fun _ _ _ => .pure (.again ⟨rfl, hclause⟩)) fun _ =>
      .pure (.done ⟨rfl, hclause⟩)

theorem sends_classLike : Sends T (ClassLike.relocate T.map) classLike := by
  refine Tracks.fresh.bind fun i j hij => Tracks.leadStart.bind fun x y hxy => tracks_skipAttributes.bind fun _ _ _ => ?_
  refine tracks_modifiers.bind ?_
  rintro mods _ rfl
  refine (Tracks.expect _ _).bind fun keyword _ hkeyword => ?_
  obtain ⟨rfl, hsees, -⟩ := hkeyword
  have htext : (T.token keyword).text = keyword.text := rfl
  rw [htext]
  cases ClassKind.ofKeyword? keyword.text with
  | none => exact .throw (congrArg _ hsees.span) hsees.spot
  | some kind =>
    refine (sends_ident _).bind ?_
    rintro className _ rfl
    refine (tracks_header kind).bind fun h _ hh => Tracks.prevEnd.bind fun x' y' hxy' => ?_
    obtain ⟨rfl, hclause⟩ := hh
    refine (Tracks.expect _ _).bind fun opening _ hopening => (sends_member.manyUntil tracks_atBlockEnd).bind ?_
    rintro members _ rfl
    refine (Tracks.expect _ _).bind fun close _ hclose => .pure ?_
    obtain ⟨rfl, hopening, -⟩ := hopening
    obtain ⟨rfl, hclose, -⟩ := hclose
    have hend : T.At close.start (T.token close).start := ⟨hclose.start, rfl⟩
    -- The clause begins where it is inserted; without one the header ends there.
    have hanchor : (((h.relocate T.map).interfacesClause.map (·.start)).getD y') =
        T.map.offset ((h.interfacesClause.map (·.start)).getD x') := by
      have hoffset : ∀ {x y}, T.At x y → y = T.map.offset x := fun hx => congrArg Span.start (hx.span hx)
      cases hc : h.interfacesClause with
      | none => simpa [Header.relocate, hc] using hoffset hxy'
      | some s => simpa [Header.relocate, hc] using hoffset (hclause s hc)
    rw [hij, hxy.span hclose.stop, hopening.stop.span hend, hanchor]
    rfl

/-! ### Imports -/

theorem tracks_importKind? : Tracks T Eq importKind? importKind? := by
  refine (Tracks.peek? 1).bind ?_
  rintro next _ rfl
  refine .ite (fun _ => (Tracks.eatWord "function").bind ?_) fun _ => .pure rfl
  rintro function _ rfl
  refine .ite (fun _ => .pure rfl) fun _ => (Tracks.eatWord "const").bind ?_
  rintro const _ rfl
  exact .ite (fun _ => .pure rfl) fun _ => .pure rfl

theorem tracks_finishImportItem {x y : Nat} (hxy : T.At x y) (kind : Option ImportKind) (n : Name) :
    Tracks T (fun i j => j = i.relocate T.map) (finishImportItem x kind n)
      (finishImportItem y kind (n.relocate T.map)) := by
  refine Tracks.fresh.bind fun i j hij => (Tracks.eatWord "as").bind ?_
  rintro found _ rfl
  refine .join (R := fun a b => b = Option.map (Ident.relocate T.map) a) (fun _ => (sends_ident _).some)
    (fun _ => .pure rfl) ?_
  rintro localName _ rfl
  refine (Tracks.spanFrom hxy).bind fun sp _ hsp => .pure ?_
  rw [hij, hsp.1]
  rfl

theorem sends_importItem (grouped : Bool) : Sends T (ImportItem.relocate T.map) (importItem grouped) := by
  refine Tracks.here.bind fun x y hxy => ?_
  refine .join (R := Eq) (fun _ => tracks_importKind?) (fun _ => .pure rfl) ?_
  rintro kind _ rfl
  refine sends_name.bind ?_
  rintro n _ rfl
  exact tracks_finishImportItem hxy kind n

theorem sends_groupItems : Sends T (List.map (ImportItem.relocate T.map)) groupItems := by
  refine .loop (I := fun is js => js = is.map (ImportItem.relocate T.map)) ?_ rfl
  rintro is _ rfl
  refine (Tracks.check .rBrace).bind ?_
  rintro closed _ rfl
  refine .ite (fun _ => .pure (.done rfl)) fun _ => (sends_importItem true).bind ?_
  rintro i _ rfl
  have happend : is.map (ImportItem.relocate T.map) ++ [i.relocate T.map] =
      (is ++ [i]).map (ImportItem.relocate T.map) := by
    simp
  rw [happend]
  refine (Tracks.eat .comma).bind ?_
  rintro comma _ rfl
  exact .ite (fun _ => .pure (.again rfl)) fun _ => .pure (.done rfl)

theorem sends_importDecl : Sends T (Import.relocate T.map) importDecl := by
  refine Tracks.fresh.bind fun i j hij => Tracks.leadStart.bind fun x y hxy => Tracks.advance.bind fun _ _ _ => ?_
  refine tracks_importKind?.bind ?_
  rintro kind _ rfl
  refine Tracks.here.bind fun x' y' hxy' => sends_name.bind ?_
  rintro first _ rfl
  refine (Tracks.check .backslash).bind ?_
  rintro found _ rfl
  refine (Tracks.peek? 1).bind ?_
  rintro next _ rfl
  refine .ite (fun _ => ?_) fun _ => ?_
  · refine Tracks.advance.bind fun _ _ _ => Tracks.advance.bind fun _ _ _ => Tracks.prevEnd.bind fun z w hzw => ?_
    refine sends_groupItems.bind ?_
    rintro items _ rfl
    refine (Tracks.expect _ _).bind fun close _ hclose => tracks_terminator.bind fun _ _ _ => ?_
    refine (Tracks.spanFrom hxy).bind fun sp _ hsp => .pure ?_
    obtain ⟨rfl, hclose, -⟩ := hclose
    have hend : T.At close.start (T.token close).start := ⟨hclose.start, rfl⟩
    rw [hij, hsp.1, hzw.span hend]
    rfl
  · refine (tracks_finishImportItem hxy' none first).bind ?_
    rintro firstItem _ rfl
    refine (Tracks.moreByComma (P := fun _ => True) ((sends_importItem false).mono fun _ _ h => ⟨h, trivial⟩)
      ⟨rfl, fun _ _ => trivial⟩).bind fun items _ hitems => ?_
    obtain ⟨rfl, -⟩ := hitems
    refine (Tracks.spanFrom hxy').bind fun region _ hregion => tracks_terminator.bind fun _ _ _ => ?_
    refine (Tracks.spanFrom hxy).bind fun sp _ hsp => .pure ?_
    rw [hij, hsp.1, hregion.1]
    rfl

/-! ### Statements -/

theorem sends_stmt : Sends T (Stmt.relocate T.map) stmt := by
  refine (Tracks.checkWord "use").bind ?_
  rintro use _ rfl
  refine (Tracks.peek? 1).bind ?_
  rintro next _ rfl
  refine .ite (fun _ => sends_importDecl.bind ?_) fun _ => (Tracks.checkWord "declare").bind ?_
  · rintro d _ rfl
    exact .pure rfl
  rintro declare _ rfl
  refine .ite (fun _ => sends_verbatim.bind ?_) fun _ => (Tracks.checkWord "return").bind ?_
  · rintro v _ rfl
    exact .pure rfl
  rintro ret _ rfl
  refine .ite (fun _ => sends_returnStmt.bind ?_) fun _ => tracks_atClassLike.bind ?_
  · rintro r _ rfl
    exact .pure rfl
  rintro classLike _ rfl
  refine .ite (fun _ => sends_classLike.bind ?_) fun _ => (Tracks.check .inlineHtml).bind ?_
  · rintro c _ rfl
    exact .pure rfl
  rintro html _ rfl
  refine .ite (fun _ => Tracks.fresh.bind fun i j hij => Tracks.cursor.bind fun c d h => ?_) fun _ => ?_
  · refine Tracks.advance.bind fun _ _ _ => .pure ?_
    rw [hij, h.span]
    rfl
  · refine sends_verbatim.bind ?_
    rintro v _ rfl
    exact .pure rfl

/-! ### Namespaces -/

theorem tracks_atNamespace : Tracks T Eq atNamespace atNamespace := by
  refine (Tracks.peek? 1).bind ?_
  rintro next _ rfl
  refine (Tracks.checkWord "namespace").bind ?_
  rintro found _ rfl
  exact .pure rfl

theorem sends_namespaceDecl : Sends T (Namespace.relocate T.map) namespaceDecl := by
  refine Tracks.fresh.bind fun i j hij => Tracks.leadStart.bind fun x y hxy => Tracks.advance.bind fun _ _ _ => ?_
  refine (Tracks.check .ident).bind ?_
  rintro named _ rfl
  refine .join (R := fun a b => b = Option.map (Name.relocate T.map) a) (fun _ => sends_name.some) (fun _ => .pure rfl) ?_
  rintro nsName _ rfl
  refine (Tracks.eat .lBrace).bind ?_
  rintro braced _ rfl
  refine .ite (fun _ => Tracks.prevEnd.bind fun x' y' hxy' => ?_) fun _ => tracks_terminator.bind fun _ _ _ => ?_
  · refine (sends_stmt.manyUntil tracks_atBlockEnd).bind ?_
    rintro stmts _ rfl
    refine (Tracks.expect _ _).bind fun close _ hclose => .pure ?_
    obtain ⟨rfl, hclose, -⟩ := hclose
    have hend : T.At close.start (T.token close).start := ⟨hclose.start, rfl⟩
    rw [hij, hxy.span hclose.stop, hxy'.span hend]
    rfl
  · refine Tracks.prevEnd.bind fun x' y' hxy' => ?_
    have hend : Tracks T Eq (do return (← atEnd) || (← atNamespace)) (do return (← atEnd) || (← atNamespace)) := by
      refine Tracks.atEnd.bind ?_
      rintro done _ rfl
      refine tracks_atNamespace.bind ?_
      rintro next _ rfl
      exact .pure rfl
    refine (sends_stmt.manyUntil hend).bind ?_
    rintro stmts _ rfl
    refine (Tracks.spanFrom hxy).bind fun sp _ hsp => (Tracks.spanFrom hxy').bind fun body _ hbody => .pure ?_
    rw [hij, hsp.1, hbody.1]
    rfl

theorem sends_topStmt : Sends T (TopStmt.relocate T.map) topStmt := by
  refine tracks_atNamespace.bind ?_
  rintro found _ rfl
  refine .ite (fun _ => sends_namespaceDecl.bind ?_) fun _ => sends_stmt.bind ?_
  · rintro n _ rfl
    exact .pure rfl
  · rintro s _ rfl
    exact .pure rfl

/-- The statements of a file are the same in both places, whatever its extent is called. -/
theorem tracks_file (s s' : Span) (x x' : Nat) : Tracks T
    (fun f g => g.stmts = f.stmts.map (TopStmt.relocate T.map) ∧ g.origin = f.origin.map T.map.id)
    (file s x) (file s' x') := by
  refine Tracks.fresh.bind fun i j hij => (sends_topStmt.manyUntil .atEnd).bind ?_
  rintro stmts _ rfl
  exact .pure ⟨rfl, congrArg some hij⟩

end Graft.Parser
