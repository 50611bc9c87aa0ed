/-
A method that is added keeps its tokens.

The text of a method is copied from its snippet, and its lines are moved to the indentation of the class.  It is put
behind the last member, on lines of its own.  So the file has its tokens and, at the end of the class, those of the
method, as long as no token that matters spans lines or begins with a blank, and the place behind the last member is
outside of comments and in the code.

* `Arena.reads_method` — the method of a snippet is read alike wherever it stands;
* `Page.splits_insertedMember` — and where its lines are moved;
* `applyEdits_addMethod_tokens` — the tokens of the file with the method.
-/
import Graft.Proofs.Edit.Prepared
import Graft.Proofs.Print.Appended
import Graft.Proofs.Reading.Passage
import Graft.Proofs.Reading.Places

namespace Graft

open Lexer (significant Steady)

/-! ### Methods of snippets -/

namespace Arena

variable {a b : Arena} {code : Text} {m : Method}

/-- The method of a snippet stands between two edges, and a token ends it. -/
theorem edges_of_parseMethod (h : a.parseMethod code = (.ok (some m), b)) :
    let G := a.ground (wrapMethod code)
    m.Laid G ∧ G.edge m.span.start ∧ G.edge m.span.stop ∧ m.span.start < m.span.stop := by
  obtain ⟨f, hf, hm⟩ := parseMethod_eq_ok h
  obtain ⟨c, hc, hmem⟩ := mem_of_firstMethod? hm
  obtain ⟨hlaid, -⟩ := laid_of_parseFile hf
  have hclass : c.Laid (a.ground (wrapMethod code)) := hlaid.stmts _ hc
  obtain ⟨e, hspread, hend⟩ := hclass.lines
  have hedges : (a.ground (wrapMethod code)).edge m.span.start ∧ (a.ground (wrapMethod code)).edge m.span.stop :=
    hspread.edges (a.ground _).edge_right (fun hgap => ⟨(a.ground _).edge_left hgap, (a.ground _).edge_right hgap⟩)
      ((a.ground _).edge_left hend) _ hmem
  exact ⟨hclass.members _ hmem, hedges.1, hedges.2,
    (hspread.within (a.ground _).le_of_blank (a.ground _).le_of_blank _ hmem).2.1⟩

theorem tokens_parseMethod (h : a.parseMethod code = (.ok (some m), b)) :
    b.tokens = a.tokens ++ a.tokensOf (wrapMethod code) := by
  obtain ⟨f, hf, -⟩ := parseMethod_eq_ok h
  have htokens := tokens_parseFile a (wrapMethod code)
  rwa [hf] at htokens

/-- A method that begins and ends in the code is read alike before any text. -/
theorem reads_method (h : a.parseMethod code = (.ok (some m), b))
    (hcode : ∀ t ∈ stretch (a.tokensOf (wrapMethod code)) m.span.start m.span.stop,
      (t.start = m.span.start → t.kind ∉ [.openTag, .inlineHtml]) ∧ (t.stop = m.span.stop → t.kind ≠ .closeTag))
    (w : Text) :
    let ls := a.lexemesFrom (wrapMethod code) m.span.start m.span.stop
    Lexer.Reads .code (b.slice m.span) w ls .code ∧ ∃ l ∈ Lexer.closers, ls.getLast? = some l := by
  obtain ⟨⟨-, -, t, ⟨ht, -⟩, hkind, hstop⟩, hx, hy, hlt⟩ := edges_of_parseMethod h
  obtain ⟨f, hf, -⟩ := parseMethod_eq_ok h
  have htiled := a.tiled_tokensOf (wrapMethod code)
  have hstart : m.span.start ≤ t.start := (hx.2.2 t ht).resolve_left (by omega)
  have hlast := getLast?_lexemesFrom hx ht hstart
  rw [hstop] at hlast
  obtain ⟨m₁, m₂, -, -, hreads, -⟩ := reads_around hx hy (Nat.le_of_lt hlt)
  have htext : (a.push (wrapMethod code)).text.slice m.span.start m.span.stop = b.slice m.span := by
    have hb := text_parseFile a (wrapMethod code)
    rw [hf] at hb
    rw [slice, hb]
    rfl
  rw [htext] at hreads
  have hmem : t ∈ stretch (a.tokensOf (wrapMethod code)) m.span.start m.span.stop :=
    mem_stretch.2 ⟨ht, hstart, Nat.le_of_eq hstop⟩
  have hclose := (hcode t hmem).2 hstop
  have hcloser : t.lexeme ∈ Lexer.closers := by
    refine hreads.getLast?_mem_closers hlast ?_
    show t.kind ∈ _
    simp only [List.mem_cons, List.not_mem_nil, or_false] at hkind
    rcases hkind with hk | hk | hk <;> rw [hk] <;> decide
  have hm₂ : m₂ = .code := hreads.mode_of_getLast? hlast (by
    show t.kind ∉ _
    simp only [List.mem_cons, List.not_mem_nil, or_false] at hkind
    rcases hkind with hk | hk | hk <;> rw [hk] at hclose ⊢
    · decide
    · exact absurd rfl hclose
    · decide)
  have hm₁ : m₁ = .code := by
    have hstretch := htiled.stretch hx hy (Nat.le_of_lt hlt)
    rw [lexemesFrom] at hreads
    generalize hts : stretch (a.tokensOf (wrapMethod code)) m.span.start m.span.stop = ts at *
    cases ts with
    | nil => cases hmem
    | cons u us =>
      rw [List.map_cons] at hreads
      have hu := (hcode u List.mem_cons_self).1 hstretch.1
      exact hreads.mode_of_head (fun h => hu (by simpa [Token.lexeme, or_comm] using h))
  subst hm₁ hm₂
  refine ⟨hreads.exchange (ne_error_of_parseFile hf) fun l hl => ?_, t.lexeme, hcloser, hlast⟩
  cases hlast.symm.trans hl
  exact .inl hcloser

end Arena

/-! ### Methods in a class -/

theorem isIndent_lineIndent (t : Text) (x : Nat) : ∀ c ∈ lineIndent t x, Text.isIndent c = true :=
  List.all_eq_true.1 List.all_takeWhile

theorem isIndent_deeper {indent : Text} (h : ∀ c ∈ indent, Text.isIndent c = true) :
    ∀ c ∈ deeper indent, Text.isIndent c = true := by
  have hstep : [' ', ' ', ' ', ' '].all Text.isIndent = true := by decide
  exact fun c hc => (List.mem_append.1 hc).elim (h c) (List.all_eq_true.1 hstep c)

/-- A passage that ends with a separator, a bracket or a closing tag ends with no carriage return. -/
theorem Lexer.Reads.getLast?_text {m m' : Mode} {x w : Text} {ls : List Lexeme} {l : Lexeme} (h : Reads m x w ls m')
    (hl : l ∈ closers) (hlast : ls.getLast? = some l) : x.getLast? ≠ some '\r' := by
  have hclosers : ∀ l ∈ closers, l.text ≠ [] ∧ l.text.getLast? ≠ some '\r' := by decide
  obtain ⟨us, rfl⟩ := List.getLast?_eq_some_iff.1 hlast
  rw [← h.flatMap, List.flatMap_append, List.flatMap_singleton, Text.getLast?_append_of_ne_nil _ (hclosers l hl).1]
  exact (hclosers l hl).2

/-- A method from a snippet is read alike where its lines are moved. -/
theorem Page.splits_insertedMember {a b : Arena} {code : Text} {m : Method} {p : Page}
    (h : a.parseMethod code = (.ok (some m), b)) (hpage : p.arena = b.register (.method m))
    (hcode : ∀ t ∈ stretch (a.tokensOf (Arena.wrapMethod code)) m.span.start m.span.stop,
      (t.start = m.span.start → t.kind ∉ [.openTag, .inlineHtml]) ∧ (t.stop = m.span.stop → t.kind ≠ .closeTag))
    (hsteady : ∀ t ∈ stretch (a.tokensOf (Arena.wrapMethod code)) m.span.start m.span.stop, Steady t.lexeme)
    {indent : Text} (hindent : ∀ c ∈ indent, Text.isIndent c = true) (w : Text) :
    Lexer.Splits .code (p.insertedMember indent (.method m)) w
      ((a.lexemesFrom (Arena.wrapMethod code) m.span.start m.span.stop).filter (!·.kind.isTrivia)) .code := by
  obtain ⟨hreads, l, hl, hlast⟩ := a.reads_method h hcode w
  obtain ⟨f, hf, -⟩ := Arena.parseMethod_eq_ok h
  obtain ⟨id, hid, -⟩ := (Arena.fresh_parseMethod h).2 m.origin List.mem_cons_self
  have horigin : (Member.method m).origin = some id := hid
  have hself : (Member.method m == .method m) = true := Member.beq_self (Arena.edges_of_parseMethod h).1
  have htext : p.insertedMember indent (.method m) =
      reindent (p.indentOf (Member.method m)) indent p.newline (b.slice m.span) := by
    unfold insertedMember
    simp only [horigin, hpage, b.fragment?_register horigin, hself, if_true]
    rw [copy, hpage, Arena.slice, Arena.text_register]
    rfl
  rw [htext]
  refine hreads.splits_moved (Arena.ne_error_of_parseFile hf) (fun k hk => ?_) (t := [])
    (moved_reindent p.newline (isIndent_lineIndent _ _) hindent (hreads.getLast?_text hl hlast)) (fun _ => rfl) rfl rfl (.inl rfl)
  obtain ⟨t, ht, rfl⟩ := List.mem_map.1 hk
  exact hsteady t ht

/-! ### The end of a class -/

/-- Where the last member of a class ends, or where its body begins. -/
def ClassLike.lastStop (c : ClassLike) : Nat := (c.members.getLast?.map fun m => m.span.stop).getD c.body.start

/-- Behind the last member stands the code of the class, and no comment there goes on behind its line. -/
structure ClassLike.Open (c : ClassLike) (source : Text) (tokens : List Token) : Prop where
  code : ∀ t ∈ tokens, t.stop = c.lastStop → t.kind ∉ [.closeTag, .inlineHtml]
  trail : c.members ≠ [] → significant .code (splitTrail (source.slice c.lastStop c.body.stop)).1 = []

instance (c : ClassLike) (source : Text) (tokens : List Token) : Decidable (c.Open source tokens) :=
  decidable_of_iff (_ ∧ _) ⟨fun h => ⟨h.1, h.2⟩, fun h => ⟨h.code, h.trail⟩⟩

/-- The end of the last member, between the code before it and the trivia behind it. -/
theorem ClassLike.Laid.ends_lastStop {c : ClassLike} {G : Ground} (h : c.Laid G) :
    (∃ t, G.token t ∧ t.stop = c.lastStop) ∧ G.blank c.lastStop c.body.stop ∧ c.body.start ≤ c.lastStop := by
  obtain ⟨e, hspread, hend⟩ := h.lines
  unfold ClassLike.lastStop
  cases hlast : c.members.getLast? with
  | none =>
    rw [List.getLast?_eq_none_iff.1 hlast] at hspread
    obtain ⟨t, ht, -, hstop⟩ := h.brace
    obtain rfl : c.body.start = e := hspread
    exact ⟨⟨t, ht, hstop⟩, hend, Nat.le_refl _⟩
  | some m =>
    have hmem := List.mem_of_getLast? hlast
    have hwithin := hspread.within G.le_of_blank G.le_of_blank m hmem
    have hstop : m.span.stop = e := hspread.stop_getLast hlast
    refine ⟨h.ends m hmem, ?_, ?_⟩
    · show G.blank m.span.stop _
      rwa [hstop]
    · exact Nat.le_trans hwithin.1 (Nat.le_of_lt hwithin.2.1)

section Source

variable {source : Text} {f : File} {a : Arena} {c : ClassLike}

/-- The source up to the end of the last member, the trivia behind it, and what follows the members. -/
theorem ClassLike.Laid.reads_lastStop (hc : c.Laid (Arena.empty.ground source))
    (hfile : Arena.empty.parseFile source = (.ok f, a))
    (hcode : ∀ t ∈ a.tokens, t.stop = c.lastStop → t.kind ∉ [.closeTag, .inlineHtml]) :
    ∃ ls gs rs l m, Lexer.Reads .html (source.slice 0 c.lastStop) (source.slice c.lastStop source.size) ls .code ∧
      (∀ k ∈ ls, k.kind ≠ .error) ∧ ls.getLast? = some l ∧ l.kind ∉ [.inlineHtml, .openTag, .whitespace, .lineComment] ∧
      Lexer.Reads .code (source.slice c.lastStop c.body.stop) (source.slice c.body.stop source.size) gs .code ∧
      (∀ k ∈ gs, k.kind.isTrivia = true) ∧ Lexer.Reads .code (source.slice c.body.stop source.size) [] rs m ∧
      a.significant 0 c.body.stop = ls.filter (!·.kind.isTrivia) ∧
      a.significant c.body.stop source.size = rs.filter (!·.kind.isTrivia) := by
  obtain ⟨⟨t, ⟨ht, hskipped⟩, hstop⟩, hblank, -⟩ := hc.ends_lastStop
  have hx : (Arena.empty.ground source).edge c.lastStop := (Arena.empty.ground source).edge_left hblank
  have hy : (Arena.empty.ground source).edge c.body.stop := (Arena.empty.ground source).edge_right hblank
  have hxy : c.lastStop ≤ c.body.stop := (Arena.empty.ground source).le_of_blank hblank
  have hempty : (Arena.empty.push source).text = source := rfl
  have hsize : Arena.empty.text.size = 0 := rfl
  have htokens : a.tokens = Arena.empty.tokens ++ Arena.empty.tokensOf source := by
    have h := Arena.tokens_parseFile .empty source
    rwa [hfile] at h
  have hlast := Arena.getLast?_lexemesFrom (Arena.empty.edge_start source) ht
    ((Arena.empty.tiled_tokensOf source).within ht).1
  rw [hstop] at hlast
  obtain ⟨m₁, m₂, m₃, hbefore, hgap, hbehind⟩ := Arena.reads_around hx hy hxy
  simp only [hempty, hsize, Nat.zero_add] at hbefore hgap hbehind hlast
  have hkind := hcode t (by rw [htokens]; exact ht) hstop
  obtain rfl : m₁ = .code := hbefore.mode_of_getLast? hlast fun h => hkind (by simpa [Token.lexeme, or_comm] using h)
  have hskip : ∀ k ∈ Arena.empty.lexemesFrom source c.lastStop c.body.stop, k.kind.isSkipped = true := by
    intro k hk
    obtain ⟨u, hu, rfl⟩ := List.mem_map.1 hk
    exact Ground.isSkipped_of_blank (h := Arena.empty.tiled_tokensOf source) hblank u hu
  have htrivia := hgap.isTrivia_of_isSkipped hskip
  obtain ⟨rfl, -⟩ := hgap.exists_run htrivia
  refine ⟨_, _, _, _, _, hbefore, Arena.ne_error_of_parseFile hfile, hlast, ?_, hgap, htrivia, hbehind, ?_, ?_⟩
  · have hkind : t.kind ∉ [.closeTag, .inlineHtml] := hkind
    show t.kind ∉ _
    revert hskipped hkind
    cases t.kind <;> decide
  · have hfilter : (Arena.empty.lexemesFrom source c.lastStop c.body.stop).filter (!·.kind.isTrivia) = [] :=
      List.filter_eq_nil_iff.2 fun k hk => by simp [htrivia k hk]
    have hall := Arena.lexemesFrom_append (x := 0) hx (Nat.zero_le _) hxy
    rw [Arena.significant_eq htokens nofun, hall, List.filter_append, hfilter, List.append_nil]
  · exact Arena.significant_eq htokens nofun

/-- A member that is put behind the others stands behind trivia of the last one, on a line of its own, and before what is
left of the trivia. -/
theorem ClassLike.Laid.exists_appended {G : Ground} {p : Page} {m : Member} {lo n : Nat} (hc : c.Laid G)
    (hids : Fresh lo n c.origins) (hcut : G.Cuts p.arena.text) (hm : ∀ i, m.origin = some i → n ≤ i)
    {gs : List Lexeme} {rest : Text}
    (hgap : Lexer.Reads .code (p.arena.text.slice c.lastStop c.body.stop) rest gs .code)
    (htrivia : ∀ k ∈ gs, k.kind.isTrivia = true)
    (htrail : c.members ≠ [] → significant .code (splitTrail (p.arena.text.slice c.lastStop c.body.stop)).1 = []) :
    let outer := lineIndent p.arena.text c.span.start
    ∃ trail z indent y : Text, trail <+: p.arena.text.slice c.lastStop c.body.stop ∧
      (∃ s : Scan, s.closed = true ∧ Scan.free.run trail = some s) ∧ (∀ d ∈ z, TokenTable.isSpace d = true) ∧
      (∀ d ∈ indent, Text.isIndent d = true) ∧ significant .code (y ++ rest) = significant .code rest ∧
      p.lineList p.memberStyle c.body outer (deeper outer) (c.members ++ [m]) c.members =
        p.arena.text.slice c.body.start c.lastStop ++
          (trail ++ (p.newline.text ++ z ++ (p.insertedMember indent m ++ y))) := by
  intro outer
  have houter : ∀ d ∈ outer, Text.isIndent d = true := isIndent_lineIndent _ _
  have hspace : ∀ {t : Text}, (∀ d ∈ t, Text.isIndent d = true) → ∀ d ∈ t, TokenTable.isSpace d = true :=
    fun h d hd => (Text.blank_of_isIndent (h d hd)).2
  cases hlast : c.members.getLast? with
  | none =>
    have hnil := List.getLast?_eq_none_iff.1 hlast
    have hstop : c.lastStop = c.body.start := by rw [lastStop, hlast]; rfl
    obtain ⟨-, s, hs, hrun, -⟩ := hgap.exists_run htrivia
    obtain ⟨u, hu, -⟩ := trimEnd_append (p.arena.text.slice c.lastStop c.body.stop)
    refine ⟨_, deeper outer, deeper outer, p.newline.text ++ outer, ⟨u, hu.symm⟩, Scan.run_trimEnd hrun hs,
      hspace (isIndent_deeper houter), isIndent_deeper houter, Lexer.significant_newline p.newline (hspace houter) rest, ?_⟩
    rw [hnil, List.nil_append, Page.lineList_singleton, hstop, Text.slice_self, List.nil_append]
    rfl
  | some last =>
    have hmem := List.mem_of_getLast? hlast
    have hstop : c.lastStop = last.span.stop := by rw [lastStop, hlast]; rfl
    have hmembers : Fresh lo n (c.members.flatMap Member.origins) := hids.right
    have hroots := hmembers.roots Member.origin_mem_origins
    have hself : (c.members == c.members) = true := list_beq_self fun m' hm' => Member.beq_self (hc.members m' hm')
    obtain ⟨indent, z, hindent, hz, hprint⟩ := Page.lineList_snoc (p := p) (fun _ _ => Member.placed_of_beq)
      p.memberStyle outer (isIndent_deeper houter) hlast hself hroots.2 hroots.1 hc.lines hcut
      (counterpart?_eq_none (hmembers.map_origin Member.origin_mem_origins) hm)
    obtain ⟨s, hs, hrun⟩ := Lexer.exists_run_of_significant (htrail (List.ne_nil_of_mem hmem))
    refine ⟨(splitTrail (p.arena.text.slice c.lastStop c.body.stop)).1, z, indent, _, ⟨_, splitTrail_append _⟩,
      ⟨s, hs, hrun⟩, hz, hindent, Lexer.significant_lead hgap htrivia hs hrun, ?_⟩
    rw [hprint, hstop]
    rfl

end Source

/-! ### Methods in a file -/

/-- No token of the method spans lines or begins with a blank, and the method begins and ends in the code. -/
structure Method.Steady (m : Method) (tokens : List Token) : Prop where
  steady : ∀ t ∈ stretch tokens m.span.start m.span.stop, Lexer.Steady t.lexeme
  code : ∀ t ∈ stretch tokens m.span.start m.span.stop,
    (t.start = m.span.start → t.kind ∉ [.openTag, .inlineHtml]) ∧ (t.stop = m.span.stop → t.kind ≠ .closeTag)

instance (m : Method) (tokens : List Token) : Decidable (m.Steady tokens) :=
  decidable_of_iff (_ ∧ _) ⟨fun h => ⟨h.1, h.2⟩, fun h => ⟨h.steady, h.code⟩⟩

section Added

variable {source code : Text} {f : File} {a b : Arena} {m : Method} {c : ClassLike}
  (hfile : Arena.empty.parseFile source = (.ok f, a)) (hmethod : a.parseMethod code = (.ok (some m), b))
  (hclass : f.firstClass? = some c)

include hfile hmethod hclass

/-- A method that is added is printed behind the other members, and nothing else is changed. -/
theorem applyEdits_addMethod_eq (hname : c.hasMethod m.name.text = false) :
    c.Laid (Arena.empty.ground source) ∧ Fresh 0 a.nextId c.origins ∧ c.body.stop ≤ source.size ∧
      ∃ p : Page, p.arena = b.register (.method m) ∧ p.arena.text = source ++ Arena.wrapMethod code ∧
        let outer := lineIndent p.arena.text c.span.start
        applyEdits source [.addMethod code] = .ok (source.slice 0 c.body.start ++
          p.lineList p.memberStyle c.body outer (deeper outer) (c.members ++ [.method m]) c.members ++
            source.slice c.body.stop source.size) := by
  obtain ⟨hlaid, hspan, hids⟩ := Arena.laid_of_parseFile hfile
  have hspan : f.span = ⟨0, source.size⟩ := hspan.trans (congrArg (Span.mk 0) (Nat.zero_add source.size))
  have htext : (b.register (.method m)).text = source ++ Arena.wrapMethod code := by
    have hsource := Arena.text_parseFile .empty source
    have hboth := a.text_parseMethod code
    rw [hfile] at hsource
    rw [hmethod] at hboth
    rw [Arena.text_register, hboth, hsource]
    rfl
  obtain ⟨hkind, k, hk, hupdate⟩ := File.exists_hole hclass
  have hrun : applyEdits source [.addMethod code] =
      .ok ((k { c with members := c.members ++ [.method m] }).print f (b.register (.method m))) := by
    have hact : (f.updateClass? fun c => (Option.map (fun m => c.addMethod m) (some m)).getD c) =
        some (k { c with members := c.members ++ [.method m] }) := by
      have hadd : c.addMethod m = { c with members := c.members ++ [.method m] } := by
        rw [ClassLike.addMethod, hname, if_neg Bool.false_ne_true]
      have h := hupdate c hkind (·.addMethod m)
      rwa [hk.eq, hadd] at h
    simp only [applyEdits, hfile, prepareAll, prepareEach, List.map_cons, List.map_nil, PreparedEdit.prepare,
      PreparedEdit.ofEdit, hmethod, Except.map, runAll, List.foldl_cons, List.foldl_nil, PreparedEdit.run,
      Edit.onClass?, Bool.false_eq_true, if_false, hact]
  have hcut : (Arena.empty.ground source).Cuts (b.register (.method m)).text := by
    intro e he
    rw [htext]
    exact (Arena.isCut_of_edge he).append _
  have haround := File.around_print (.cls c k hk) (c.members ++ [.method m]) (a := b.register (.method m)) hids hlaid hcut
    (by rw [hspan]; exact Text.isCut_zero _) (by rw [hspan, htext]; exact (Text.isCut_size source).append _)
  have hbody : c.body.stop ≤ source.size := by
    have h := haround.behind.2.2
    rwa [hspan] at h
  obtain ⟨hc, hcids⟩ := hk.laid hids hlaid
  have hstart : c.body.start ≤ source.size := Nat.le_trans hc.body.2.1 hbody
  refine ⟨hc, hcids, hbody, ⟨b.register (.method m), .ofText ((b.register (.method m)).slice f.span)⟩, rfl, htext, ?_⟩
  rw [hrun]
  refine congrArg Except.ok (haround.eq.trans ?_)
  simp only [hspan, htext, ClassLike.lines, LineList.print]
  rw [Text.slice_append_right (Nat.le_refl _), Text.slice_append_right hstart]

/-- A method that is added to a class without one of that name keeps its tokens, and so does the file around it. -/
theorem applyEdits_addMethod_tokens (hname : c.hasMethod m.name.text = false) (hsteady : m.Steady b.tokens)
    (hopen : c.Open source a.tokens) :
    ∃ out, applyEdits source [.addMethod code] = .ok out ∧
      significant .html out = a.significant 0 c.body.stop ++ b.significant m.span.start m.span.stop ++
        a.significant c.body.stop source.size := by
  obtain ⟨hc, hcids, hbody, p, hpage, htext, hout⟩ := applyEdits_addMethod_eq hfile hmethod hclass hname
  refine ⟨_, hout, ?_⟩
  obtain ⟨-, hblank, hstart⟩ := hc.ends_lastStop
  have hslice : ∀ {x y}, y ≤ source.size → p.arena.text.slice x y = source.slice x y := by
    intro x y hy
    rw [htext, Text.slice_append_right hy]
  have hlaststop : c.lastStop ≤ c.body.stop := (Arena.empty.ground source).le_of_blank hblank
  have hcuts : ∀ {x}, (Arena.empty.ground source).edge x → source.IsCut x := fun hx => Arena.isCut_of_edge hx
  have hlast := hcuts ((Arena.empty.ground source).edge_left hblank)
  have hstop := hcuts ((Arena.empty.ground source).edge_right hblank)
  have hbrace : source.IsCut c.body.start := by
    obtain ⟨t, ht, -, hstop⟩ := hc.brace
    exact hstop ▸ hcuts ((Arena.empty.ground source).edge_stop ht)
  obtain ⟨ls, gs, rs, l, mode, hbefore, herror, hend, hl, hgap, htrivia, hbehind, hfirst, hrest⟩ :=
    hc.reads_lastStop hfile hopen.code
  obtain ⟨trail, z, indent, y, htrail, ⟨s, hs, hscan⟩, hz, hindent, hy, hprint⟩ := hc.exists_appended (p := p)
    (m := .method m) hcids (fun e he => by rw [htext]; exact (hcuts he).append _) (fun i hi => by
      obtain ⟨j, hj, hle, -⟩ := (Arena.fresh_parseMethod hmethod).2 (some i) (hi ▸ List.mem_cons_self)
      cases hj
      exact hle)
    (by rw [hslice hbody]; exact hgap) htrivia (by rw [hslice hbody]; exact hopen.trail)
  rw [hslice hbody] at htrail
  rw [hslice (Nat.le_trans hlaststop hbody)] at hprint
  -- The tokens of the snippet stand behind those of the file.
  have htokens : ∀ u ∈ a.tokens, u.start < m.span.start := by
    have hsource := Arena.tokens_parseFile .empty source
    have hsize := Arena.text_parseFile .empty source
    rw [hfile] at hsource hsize
    have hsize : a.text = source := hsize
    intro u hu
    have hu : u ∈ Arena.empty.tokensOf source := by rwa [hsource] at hu
    have hwithin := (Arena.empty.tiled_tokensOf source).within hu
    have hmethodstart := (Arena.edges_of_parseMethod hmethod).2.1.1
    rw [hsize] at hmethodstart
    have hzero : Arena.empty.text.size = 0 := rfl
    omega
  have hstretch := Arena.stretch_tokens (y := m.span.stop) (Arena.tokens_parseMethod hmethod) htokens
  have hcode := hsteady.code
  have hlines := hsteady.steady
  rw [hstretch] at hcode hlines
  have hjoin := Text.slice_append_slice (Text.isCut_zero source) hbrace hlast (Nat.zero_le _) hstart
  have hwhole := Text.slice_append_slice hlast hstop (Text.isCut_size source) hlaststop hbody
  have hbegins : trail <+: source.slice c.lastStop source.size := by
    rw [← hwhole]
    exact htrail.trans (List.prefix_append _ _)
  have hbreak := hbefore.significant_break herror hend hl hbegins hs hscan p.newline hz
    (p.insertedMember indent (.method m) ++ (y ++ source.slice c.body.stop source.size))
  have hinserted := (p.splits_insertedMember hmethod hpage hcode hlines hindent
    (y ++ source.slice c.body.stop source.size)).significant
  have hmiddle := Arena.significant_eq (y := m.span.stop) (Arena.tokens_parseMethod hmethod) htokens
  have hbehind' : significant .code (source.slice c.body.stop source.size) = rs.filter (!·.kind.isTrivia) := by
    rw [hbehind.eq_lexemesOf]
    rfl
  rw [hprint]
  calc significant .html (source.slice 0 c.body.start ++ (source.slice c.body.start c.lastStop ++ (trail ++
          (p.newline.text ++ z ++ (p.insertedMember indent (.method m) ++ y)))) ++ source.slice c.body.stop source.size)
      = significant .html (source.slice 0 c.lastStop ++ (trail ++ (p.newline.text ++ z ++
          (p.insertedMember indent (.method m) ++ (y ++ source.slice c.body.stop source.size))))) := by
        rw [← hjoin]
        simp only [List.append_assoc]
    _ = ls.filter (!·.kind.isTrivia) ++ (b.significant m.span.start m.span.stop ++ rs.filter (!·.kind.isTrivia)) := by
        rw [hbreak, hinserted, hy, hbehind', hmiddle]
    _ = _ := by rw [hfirst, hrest, List.append_assoc]

end Added

/-- What is computed of a file, its first class and the method of a snippet. -/
theorem exists_of_parses {source code : Text} {check : ClassLike → Method → Bool}
    (h : ((Arena.empty.parseFile source).1.toOption.bind fun f => f.firstClass?.bind fun c =>
      ((Arena.empty.parseFile source).2.parseMethod code).1.toOption.join.map (check c)) = some true) :
    let a := (Arena.empty.parseFile source).2
    ∃ f m c, Arena.empty.parseFile source = (.ok f, a) ∧ a.parseMethod code = (.ok (some m), (a.parseMethod code).2) ∧
      f.firstClass? = some c ∧ check c m = true := by
  obtain ⟨f, hf, h⟩ := Option.bind_eq_some_iff.1 h
  obtain ⟨c, hc, h⟩ := Option.bind_eq_some_iff.1 h
  obtain ⟨m, hm, h⟩ := Option.map_eq_some_iff.1 h
  exact ⟨f, m, c, Prod.ext (eq_ok_of_toOption hf) rfl,
    Prod.ext (eq_ok_of_toOption (Option.join_eq_some_iff.1 hm)) rfl, hc, h⟩

/-- A method with a comment over two lines is put behind a member with a comment on its line. -/
theorem applyEdits_addMethod_tokens_comment : ∃ (source code out : Text) (f : File) (a b : Arena) (m : Method)
    (c : ClassLike), source = "<?php\nclass A \x7b\n    use T; // c\n\x7d\n".toList ∧
      code = "function f() \x7b\n  /* a\n  b */ return 'x';\n\x7d".toList ∧
      out = ("<?php\nclass A \x7b\n    use T; // c\n\n".toList ++
        "    function f() \x7b\n      /* a\n      b */ return 'x';\n    \x7d\n\x7d\n".toList) ∧
      Arena.empty.parseFile source = (.ok f, a) ∧ a.parseMethod code = (.ok (some m), b) ∧ f.firstClass? = some c ∧
      c.hasMethod m.name.text = false ∧ m.Steady b.tokens ∧ c.Open source a.tokens ∧
      applyEdits source [.addMethod code] = .ok out ∧
      significant .html out = a.significant 0 c.body.stop ++ b.significant m.span.start m.span.stop ++
        a.significant c.body.stop source.size := by
  obtain ⟨source, code, out, hsource, hcode, hout, happly, hcheck⟩ : ∃ source code out : Text,
      source = "<?php\nclass A \x7b\n    use T; // c\n\x7d\n".toList ∧
      code = "function f() \x7b\n  /* a\n  b */ return 'x';\n\x7d".toList ∧
      out = ("<?php\nclass A \x7b\n    use T; // c\n\n".toList ++
        "    function f() \x7b\n      /* a\n      b */ return 'x';\n    \x7d\n\x7d\n".toList) ∧
      applyEdits source [.addMethod code] = .ok out ∧
      ((Arena.empty.parseFile source).1.toOption.bind fun f => f.firstClass?.bind fun c =>
        ((Arena.empty.parseFile source).2.parseMethod code).1.toOption.join.map fun m =>
          decide (c.hasMethod m.name.text = false ∧
            m.Steady ((Arena.empty.parseFile source).2.parseMethod code).2.tokens ∧
              c.Open source (Arena.empty.parseFile source).2.tokens)) = some true :=
    ⟨_, _, _, rfl, rfl, rfl, by decide +kernel, by decide +kernel⟩
  obtain ⟨f, m, c, hfile, hmethod, hc, hcheck⟩ := exists_of_parses hcheck
  obtain ⟨hname, hsteady, hopen⟩ := of_decide_eq_true hcheck
  obtain ⟨out', hout', htokens⟩ := applyEdits_addMethod_tokens hfile hmethod hc hname hsteady hopen
  cases happly.symm.trans hout'
  exact ⟨source, code, out, f, _, _, m, c, hsource, hcode, hout, hfile, hmethod, hc, hname, hsteady, hopen, happly,
    htokens⟩

/-- The second line of a string in a method is moved, too: the string does not stay what it is. -/
theorem applyEdits_addMethod_string : ∃ (source code out : Text) (f : File) (a b : Arena) (m : Method) (c : ClassLike),
    source = "<?php\nclass A \x7b\n\x7d\n".toList ∧
      code = "function f() \x7b\n    return 'a\n  b';\n\x7d".toList ∧
      Arena.empty.parseFile source = (.ok f, a) ∧ a.parseMethod code = (.ok (some m), b) ∧ f.firstClass? = some c ∧
      c.hasMethod m.name.text = false ∧ applyEdits source [.addMethod code] = .ok out ∧
      ⟨.string, "'a\n  b'".toList⟩ ∈ b.significant m.span.start m.span.stop ∧
      ⟨.string, "'a\n  b'".toList⟩ ∉ significant .html out := by
  obtain ⟨source, code, out, hsource, hcode, happly, hout, hcheck⟩ : ∃ source code out : Text,
      source = "<?php\nclass A \x7b\n\x7d\n".toList ∧
      code = "function f() \x7b\n    return 'a\n  b';\n\x7d".toList ∧
      applyEdits source [.addMethod code] = .ok out ∧ ⟨.string, "'a\n  b'".toList⟩ ∉ significant .html out ∧
      ((Arena.empty.parseFile source).1.toOption.bind fun f => f.firstClass?.bind fun c =>
        ((Arena.empty.parseFile source).2.parseMethod code).1.toOption.join.map fun m =>
          decide (c.hasMethod m.name.text = false ∧ ⟨.string, "'a\n  b'".toList⟩ ∈
            ((Arena.empty.parseFile source).2.parseMethod code).2.significant m.span.start m.span.stop)) = some true :=
    ⟨_, _, "<?php\nclass A \x7b\n    function f() \x7b\n        return 'a\n      b';\n    \x7d\n\x7d\n".toList, rfl, rfl,
      by decide +kernel, by decide +kernel, by decide +kernel⟩
  obtain ⟨f, m, c, hfile, hmethod, hc, hcheck⟩ := exists_of_parses hcheck
  obtain ⟨hname, hstring⟩ := of_decide_eq_true hcheck
  exact ⟨source, code, out, f, _, _, m, c, hsource, hcode, hfile, hmethod, hc, hname, happly, hstring, hout⟩

end Graft
