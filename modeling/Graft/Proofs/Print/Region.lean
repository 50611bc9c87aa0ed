/-
Lists of lines within a file.

A file has four kinds of lists of lines: its statements, those of a namespace, the members of a class and the statements
of a method.  A file of which only such a list is changed is printed as the text that was read with the list printed
over its region, through however many nodes the list is reached.

* `LineList`, `File.HasLines` — the lists of a file, each with the file in which it is replaced;
* `Text.Around` — a text with a part of it replaced;
* `File.around_print` — a file of which one list is changed.
-/
import Graft.Proofs.Print.Frame

namespace Graft

/-! ### Lists of a file -/

/-- A list of lines: how it is printed, and the file with other elements in its place. -/
structure LineList (α : Type) [Placed α] [BEq α] where
  region : Span
  elements : List α
  style : Page → Page.LineStyle α
  /-- The indentation of what the list stands in. -/
  outer : Text → Text
  /-- The indentation of the elements, when there are none yet. -/
  inner : Text → Text
  put : List α → File

/-- The text of the region with other elements. -/
def LineList.print {α : Type} [Placed α] [BEq α] (l : LineList α) (p : Page) (working : List α) : Text :=
  p.lineList (l.style p) l.region (l.outer p.arena.text) (l.inner p.arena.text) working l.elements

namespace File

/-- The statements of a file. -/
def lines (f : File) : LineList TopStmt :=
  ⟨f.body, f.stmts, Page.topStyle, fun _ => [], fun _ => [], fun working => { f with stmts := working }⟩

end File

/-- The statements of a namespace, in what `k` makes of it. -/
def Namespace.lines (n : Namespace) (k : Namespace → File) : LineList Stmt :=
  ⟨n.body, n.stmts, Page.stmtStyle, fun t => if n.braced then lineIndent t n.span.start else [],
    fun t => if n.braced then deeper (lineIndent t n.span.start) else [], fun working => k { n with stmts := working }⟩

/-- The members of a class. -/
def ClassLike.lines (c : ClassLike) (k : ClassLike → File) : LineList Member :=
  ⟨c.body, c.members, Page.memberStyle, fun t => lineIndent t c.span.start,
    fun t => deeper (lineIndent t c.span.start), fun working => k { c with members := working }⟩

/-- The statements of the body of a method. -/
def Method.lines (m : Method) (b : Block) (k : Method → File) : LineList BodyStmt :=
  ⟨b.body, b.stmts, Page.bodyStyle, fun t => lineIndent t m.span.start, fun t => deeper (lineIndent t m.span.start),
    fun working => k { m with body := some { b with stmts := working } }⟩

/-- The lists of lines in a file. -/
inductive File.HasLines (f : File) : {α : Type} → [Placed α] → [BEq α] → LineList α → Prop where
  | file : f.HasLines f.lines
  | namespaced (l r : List TopStmt) (n : Namespace) (h : f.stmts = l ++ .inside n :: r) :
    f.HasLines (n.lines fun n' => { f with stmts := l ++ .inside n' :: r })
  | cls (c : ClassLike) (k : ClassLike → File) (h : f.Holds c k) : f.HasLines (c.lines k)
  | method (c : ClassLike) (k : ClassLike → File) (h : f.Holds c k) (l r : List Member) (m : Method) (b : Block)
    (hm : c.members = l ++ .method m :: r) (hb : m.body = some b) :
    f.HasLines (m.lines b fun m' => k { c with members := l ++ .method m' :: r })

/-! ### Texts around a part -/

/-- The text from `x` to `y` with what stands at `region` replaced. -/
structure Text.Around (t : Text) (region : Span) (new : Text) (x y : Nat) (out : Text) : Prop where
  before : t.Runs x region.start
  inside : t.Runs region.start region.stop
  behind : t.Runs region.stop y
  eq : out = t.slice x region.start ++ new ++ t.slice region.stop y

theorem Text.slice_self (t : Text) (x : Nat) : t.slice x x = [] := by
  rw [slice, if_pos (Nat.le_refl x), Nat.sub_self]
  rcases drop? x t with _ | (_ | _) <;> rfl

namespace Text.Around

variable {t new out : Text} {region : Span} {x y x' y' : Nat}

theorem widen (h : t.Around region new x y out) (hx : t.Runs x' x) (hy : t.Runs y y') :
    t.Around region new x' y' (t.slice x' x ++ out ++ t.slice y y') := by
  refine ⟨hx.trans h.before, h.inside, h.behind.trans hy, ?_⟩
  rw [h.eq, ← hx.slice_append h.before, ← h.behind.slice_append hy]
  simp only [List.append_assoc]

/-- The part alone. -/
theorem self (hregion : t.Runs region.start region.stop) : t.Around region new region.start region.stop new := by
  have hstart : t.Runs region.start region.start := ⟨hregion.1, hregion.1, Nat.le_refl _⟩
  have hstop : t.Runs region.stop region.stop := ⟨hregion.2.1, hregion.2.1, Nat.le_refl _⟩
  refine ⟨hstart, hregion, hstop, ?_⟩
  rw [Text.slice_self, Text.slice_self, List.nil_append, List.append_nil]

/-- What was there is replaced by itself. -/
theorem of_slice (hx : t.Runs x region.start) (hregion : t.Runs region.start region.stop) (hy : t.Runs region.stop y)
    (hnew : new = t.slice region.start region.stop) : t.Around region new x y (t.slice x y) := by
  refine ⟨hx, hregion, hy, ?_⟩
  rw [hnew, hx.slice_append hregion, (hx.trans hregion).slice_append hy]

end Text.Around

/-! ### What is equal -/

theorem list_beq_cons {α : Type} [BEq α] {l r : List α} {a b : α} (h : (l ++ a :: r == l ++ b :: r) = true) :
    (a == b) = true := by
  induction l with
  | nil =>
    rw [List.nil_append, List.nil_append, List.cons_beq_cons, Bool.and_eq_true] at h
    exact h.1
  | cons c l ih =>
    rw [List.cons_append, List.cons_append, List.cons_beq_cons, Bool.and_eq_true] at h
    exact ih h.2

/-- Nodes that are compared by their origins and spans first. -/
theorem placed_of_and {o o' : Option NodeId} {s s' : Span} {e : Bool}
    (h : (o == o' && (s == s' && e)) = true) : o = o' ∧ s = s' := by
  rw [Bool.and_eq_true, Bool.and_eq_true, beq_iff_eq, beq_iff_eq] at h
  exact ⟨h.1, h.2.1⟩

theorem ReturnStmt.placed_of_beq {a b : ReturnStmt} (h : (a == b) = true) : a.origin = b.origin ∧ a.span = b.span :=
  placed_of_and (e := a.expr == b.expr) h

theorem BodyStmt.placed_of_beq {a b : BodyStmt} (h : (a == b) = true) :
    Placed.origin a = Placed.origin b ∧ Placed.span a = Placed.span b := by
  cases a with
  | ret a =>
    cases b with
    | ret b => exact ReturnStmt.placed_of_beq h
    | other b => cases h
  | other a =>
    cases b with
    | ret b => cases h
    | other b =>
      obtain rfl : a = b := eq_of_beq h
      exact ⟨rfl, rfl⟩

theorem Member.placed_of_beq {a b : Member} (h : (a == b) = true) :
    Placed.origin a = Placed.origin b ∧ Placed.span a = Placed.span b := by
  cases a with
  | traitUse a =>
    cases b with
    | traitUse b =>
      obtain rfl : a = b := eq_of_beq h
      exact ⟨rfl, rfl⟩
    | _ => cases h
  | property a =>
    cases b with
    | property b => exact placed_of_and (e := a.modifiers == b.modifiers && a.items == b.items) h
    | _ => cases h
  | method a =>
    cases b with
    | method b =>
      exact placed_of_and (e := a.modifiers == b.modifiers && (a.name == b.name && a.body == b.body)) h
    | _ => cases h
  | other a =>
    cases b with
    | other b =>
      obtain rfl : a = b := eq_of_beq h
      exact ⟨rfl, rfl⟩
    | _ => cases h

/-- What two classes are compared by behind their origins and spans. -/
def ClassLike.same (c d : ClassLike) : Bool :=
  c.kind == d.kind && (c.modifiers == d.modifiers && (c.name == d.name && (c.parents == d.parents &&
    (c.interfaces == d.interfaces && (c.interfacesClause == d.interfacesClause &&
      (c.interfacesRegion == d.interfacesRegion && (c.interfacesAnchor == d.interfacesAnchor &&
        (c.body == d.body && c.members == d.members))))))))

theorem ClassLike.members_of_beq {c d : ClassLike} (h : (c == d) = true) : (c.members == d.members) = true := by
  have hsame : (c == d) = (c.origin == d.origin && (c.span == d.span && c.same d)) := rfl
  simp only [hsame, same, Bool.and_eq_true] at h
  exact h.2.2.2.2.2.2.2.2.2.2.2

theorem Stmt.placed_of_beq {a b : Stmt} (h : (a == b) = true) :
    Placed.origin a = Placed.origin b ∧ Placed.span a = Placed.span b := by
  cases a with
  | imports a =>
    cases b with
    | imports b =>
      obtain rfl : a = b := eq_of_beq h
      exact ⟨rfl, rfl⟩
    | _ => cases h
  | classLike a =>
    cases b with
    | classLike b => exact placed_of_and (e := a.same b) h
    | _ => cases h
  | ret a =>
    cases b with
    | ret b => exact ReturnStmt.placed_of_beq h
    | _ => cases h
  | declare a =>
    cases b with
    | declare b =>
      obtain rfl : a = b := eq_of_beq h
      exact ⟨rfl, rfl⟩
    | _ => cases h
  | other a =>
    cases b with
    | other b =>
      obtain rfl : a = b := eq_of_beq h
      exact ⟨rfl, rfl⟩
    | _ => cases h

theorem TopStmt.placed_of_beq {a b : TopStmt} (h : (a == b) = true) :
    Placed.origin a = Placed.origin b ∧ Placed.span a = Placed.span b := by
  cases a with
  | inside a =>
    cases b with
    | inside b =>
      exact placed_of_and (e := a.name == b.name && (a.braced == b.braced && (a.body == b.body && a.stmts == b.stmts))) h
    | plain b => cases h
  | plain a =>
    cases b with
    | inside b => cases h
    | plain b => exact Stmt.placed_of_beq h

theorem File.stmts_of_beq {f g : File} (h : (f == g) = true) : (f.stmts == g.stmts) = true := by
  have hsame : (f == g) = (f.origin == g.origin && (f.span == g.span && (f.body == g.body && f.stmts == g.stmts))) := rfl
  simp only [hsame, Bool.and_eq_true] at h
  exact h.2.2.2

theorem Namespace.stmts_of_beq {m n : Namespace} (h : (m == n) = true) : (m.stmts == n.stmts) = true := by
  have hsame : (m == n) = (m.origin == n.origin && (m.span == n.span && (m.name == n.name && (m.braced == n.braced &&
    (m.body == n.body && m.stmts == n.stmts))))) := rfl
  simp only [hsame, Bool.and_eq_true] at h
  exact h.2.2.2.2.2

theorem Method.body_of_beq {m n : Method} (h : (m == n) = true) : (m.body == n.body) = true := by
  have hsame : (m == n) = (m.origin == n.origin && (m.span == n.span && (m.modifiers == n.modifiers &&
    (m.name == n.name && m.body == n.body)))) := rfl
  simp only [hsame, Bool.and_eq_true] at h
  exact h.2.2.2.2

theorem Block.stmts_of_beq {b d : Block} (h : (b == d) = true) : (b.stmts == d.stmts) = true := by
  have hsame : (b == d) = (b.origin == d.origin && (b.span == d.span && (b.body == d.body && b.stmts == d.stmts))) := rfl
  simp only [hsame, Bool.and_eq_true] at h
  exact h.2.2.2

/-- A file that is equal to what it was read as holds the same class. -/
theorem TopStmt.Holds.beq {s : TopStmt} {c c' : ClassLike} {k : ClassLike → TopStmt} (h : s.Holds c k)
    (heq : (k c' == s) = true) : (c' == c) = true := by
  cases h with
  | plain c => exact heq
  | inside n l r c hstmts =>
    have hlist := Namespace.stmts_of_beq (m := { n with stmts := l ++ .classLike c' :: r }) (n := n) heq
    rw [hstmts] at hlist
    exact list_beq_cons (a := Stmt.classLike c') (b := .classLike c) hlist

theorem File.Holds.beq {f : File} {c c' : ClassLike} {k : ClassLike → File} (h : f.Holds c k)
    (heq : (k c' == f) = true) : (c' == c) = true := by
  obtain ⟨l, s, r, top, hstmts, hs, rfl⟩ := h
  have hlist := File.stmts_of_beq heq
  rw [hstmts] at hlist
  exact hs.beq (list_beq_cons hlist)

/-! ### Lists that stay as they were -/

namespace Page

variable {G : Ground} {p : Page} {new : Text} {region : Span}

section Lists

variable {α : Type} [Placed α] [BEq α] {l r working elements : List α} {a a' : α}

/-- A list that equals the one that was read is printed as its text. -/
theorem lineList_of_beq (hplaced : ∀ a b : α, (a == b) = true → origin a = origin b ∧ span a = span b)
    (style : LineStyle α) (outer inner : Text) (heq : (working == elements) = true)
    (hsome : ∀ a ∈ elements, (origin a).isSome) (hnodup : (elements.map origin).Nodup)
    (hlines : G.Lines region elements) (hcut : G.Cuts p.arena.text) :
    p.lineList style region outer inner working elements = p.arena.text.slice region.start region.stop := by
  have hboth : working.map origin = elements.map origin ∧ List.zipWith (p.keptText style) working elements =
      elements.map fun a => p.arena.text.slice (span a).start (span a).stop := by
    clear hlines hnodup hsome
    induction working generalizing elements with
    | nil =>
      cases elements with
      | nil => exact ⟨rfl, rfl⟩
      | cons b bs => cases heq
    | cons a as ih =>
      cases elements with
      | nil => cases heq
      | cons b bs =>
        rw [List.cons_beq_cons, Bool.and_eq_true] at heq
        obtain ⟨horigin, hspan⟩ := hplaced a b heq.1
        obtain ⟨hmap, hzip⟩ := ih heq.2
        refine ⟨by rw [List.map_cons, List.map_cons, horigin, hmap], ?_⟩
        rw [List.zipWith_cons_cons, List.map_cons, hzip, keptText, if_pos heq.1, copy, Arena.slice, hspan]
  obtain ⟨e, hspread, hend⟩ := hlines.runs hcut
  rw [lineList_kept p style region outer inner hboth.1 hsome hnodup, hboth.2, weave_copies hspread hend]

/-! ### Layers -/

/-- An element around a list that is changed or stays. -/
theorem around_keptText (style : LineStyle α) (hspan : span a' = span a)
    (hsame : (a' == a) = true → new = p.arena.text.slice region.start region.stop)
    (h : p.arena.text.Around region new (span a).start (span a).stop (style.changed a' a)) :
    p.arena.text.Around region new (span a).start (span a).stop (p.keptText style a' a) := by
  unfold keptText
  split
  · rename_i heq
    rw [copy, Arena.slice, hspan]
    exact .of_slice h.before h.inside h.behind (hsame heq)
  · exact h

/-- A list of lines around an element of it. -/
theorem around_lineList (style : LineStyle α) (outer inner : Text) {bounds : Span} (horigin : origin a' = origin a)
    (hself : ∀ b ∈ l ++ a :: r, (b == b) = true) (hroots : ((l ++ a :: r).map origin).Nodup ∧
      ∀ b ∈ l ++ a :: r, (origin b).isSome) (hlines : G.Lines bounds (l ++ a :: r)) (hcut : G.Cuts p.arena.text)
    (h : p.arena.text.Runs bounds.start (span a).start → p.arena.text.Runs (span a).stop bounds.stop →
      p.arena.text.Around region new (span a).start (span a).stop (p.keptText style a' a)) :
    p.arena.text.Around region new bounds.start bounds.stop
      (p.lineList style bounds outer inner (l ++ a' :: r) (l ++ a :: r)) := by
  obtain ⟨htext, hstart, hstop⟩ :=
    p.lineList_replaced style outer inner a' horigin hself hroots.1 hroots.2 hlines hcut
  rw [htext]
  exact (h hstart hstop).widen hstart hstop

/-- A node around the region of its list. -/
theorem around_splice {node bounds : Span} {text : Text} (hwithin : bounds.Within node)
    (hstart : p.arena.text.IsCut node.start) (hstop : p.arena.text.IsCut node.stop)
    (h : p.arena.text.Around region new bounds.start bounds.stop text) :
    p.arena.text.Around region new node.start node.stop (splice p.arena.text node [⟨bounds, text⟩]) := by
  have horder : InOrder node.stop node.start [⟨bounds, text⟩] := hwithin
  rw [splice_of_inOrder horder]
  exact h.widen ⟨hstart, h.before.1, hwithin.1⟩ ⟨h.behind.2.1, hstop, hwithin.2.2⟩

end Lists

/-! ### Classes -/

theorem interfacesPatch_self {w r : ClassLike} (h : r.Laid G) (hsame : w.interfaces = r.interfaces) :
    p.interfacesPatch w r = [] := by
  have hclause := h.clause
  unfold ClassLike.LaidClause at hclause
  unfold interfacesPatch
  cases hc : r.interfacesClause with
  | none =>
    simp only [hc] at hclause
    simp [hsame, hclause.2.2.2]
  | some clause =>
    simp only [hc] at hclause
    have hne := hclause.2.2.2.2.2.2.2.1
    simp [hsame, hne]

/-- A class around a list in its members, or the list of its members. -/
theorem around_classLike {c : ClassLike} (hlaid : c.Laid G) {members : List Member}
    (hstart : p.arena.text.IsCut c.span.start) (hstop : p.arena.text.IsCut c.span.stop)
    (hsame : (members == c.members) = true → new = p.arena.text.slice region.start region.stop)
    (h : p.arena.text.Around region new c.body.start c.body.stop (p.lineList p.memberStyle c.body
      (lineIndent p.arena.text c.span.start) (deeper (lineIndent p.arena.text c.span.start)) members c.members)) :
    p.arena.text.Around region new c.span.start c.span.stop (p.classLike { c with members } c) := by
  have hbefore : p.arena.text.Runs c.span.start c.body.start := ⟨hstart, h.before.1, hlaid.body.1⟩
  have hbehind : p.arena.text.Runs c.body.stop c.span.stop := ⟨h.behind.2.1, hstop, hlaid.body.2.2⟩
  rw [classLike, interfacesPatch_self (w := { c with members }) hlaid rfl, List.nil_append, membersPatch]
  split
  · rename_i heq
    rw [splice_nil]
    exact .of_slice (hbefore.trans h.before) h.inside (h.behind.trans hbehind) (hsame heq)
  · exact around_splice hlaid.body hstart hstop h

/-- A method around a list of lines in its body. -/
theorem around_method {m : Method} {b : Block} (hlaid : m.Laid G) (hb : m.body = some b) {working : List BodyStmt}
    (hstart : p.arena.text.IsCut m.span.start) (hstop : p.arena.text.IsCut m.span.stop)
    (hsame : (working == b.stmts) = true → new = p.arena.text.slice region.start region.stop)
    (h : p.arena.text.Around region new b.body.start b.body.stop (p.lineList p.bodyStyle b.body
      (lineIndent p.arena.text m.span.start) (deeper (lineIndent p.arena.text m.span.start)) working b.stmts)) :
    p.arena.text.Around region new m.span.start m.span.stop
      (p.method { m with body := some { b with stmts := working } } m) := by
  obtain ⟨hspan, hbody, -, -⟩ := hlaid.2.1 b hb
  have hwithin : b.body.Within m.span := hbody.widen hspan.1 hspan.2.2
  have hbefore : p.arena.text.Runs m.span.start b.body.start := ⟨hstart, h.before.1, hwithin.1⟩
  have hbehind : p.arena.text.Runs b.body.stop m.span.stop := ⟨h.behind.2.1, hstop, hwithin.2.2⟩
  simp only [method, hb]
  split
  · rename_i heq
    rw [splice_nil]
    exact .of_slice (hbefore.trans h.before) h.inside (h.behind.trans hbehind) (hsame (Block.stmts_of_beq heq))
  · exact around_splice hwithin hstart hstop h

/-! ### Namespaces -/

/-- A namespace around one of its statements. -/
theorem around_namespaceDecl {n : Namespace} {l r : List Stmt} {s t : Stmt} {lo hi : Nat} (hlaid : n.Laid G)
    (hids : Fresh lo hi n.origins) (hcut : G.Cuts p.arena.text) (hstart : p.arena.text.IsCut n.span.start)
    (hstop : p.arena.text.IsCut n.span.stop) (hstmts : n.stmts = l ++ s :: r)
    (horigin : Placed.origin t = Placed.origin s)
    (h : p.arena.text.IsCut s.span.start → p.arena.text.IsCut s.span.stop →
      p.arena.text.Around region new s.span.start s.span.stop (p.keptText p.stmtStyle t s)) :
    p.arena.text.Around region new n.span.start n.span.stop
      (p.namespaceDecl { n with stmts := l ++ t :: r } n) := by
  have hroots := hids.right.roots Stmt.origin_mem_origins
  have hself : ∀ b ∈ n.stmts, (b == b) = true := fun b hb => Stmt.beq_self (hlaid.stmts b hb)
  have hlines := hlaid.lines
  refine around_splice hlaid.body hstart hstop ?_
  rw [hstmts] at hroots hself hlines ⊢
  exact around_lineList p.stmtStyle _ _ horigin hself hroots hlines hcut fun hl hr => h hl.2.1 hr.1

end Page

/-! ### Statements and files -/

section Files

variable {G : Ground} {lo hi : Nat} {new : Text} {region : Span}

/-- A statement of a file around a list in the class that it holds. -/
theorem TopStmt.Holds.around {p : Page} {s : TopStmt} {c : ClassLike} {k : ClassLike → TopStmt} (h : s.Holds c k)
    {members : List Member} (hids : Fresh lo hi s.origins) (hlaid : s.Laid G) (hcut : G.Cuts p.arena.text)
    (hstart : p.arena.text.IsCut s.span.start) (hstop : p.arena.text.IsCut s.span.stop)
    (hsame : (members == c.members) = true → new = p.arena.text.slice region.start region.stop)
    (hclass : p.arena.text.IsCut c.span.start → p.arena.text.IsCut c.span.stop →
      p.arena.text.Around region new c.span.start c.span.stop (p.classLike { c with members } c)) :
    p.arena.text.Around region new s.span.start s.span.stop (p.keptText p.topStyle (k { c with members }) s) := by
  have hequal : (k { c with members } == s) = true → new = p.arena.text.slice region.start region.stop :=
    fun heq => hsame (ClassLike.members_of_beq (h.beq heq))
  cases h with
  | plain c => exact Page.around_keptText p.topStyle rfl hequal (hclass hstart hstop)
  | inside n l r c hstmts =>
    have hequal' : (Stmt.classLike { c with members } == .classLike c) = true →
        new = p.arena.text.slice region.start region.stop :=
      fun heq => hsame (ClassLike.members_of_beq (c := { c with members }) (d := c) heq)
    refine Page.around_keptText p.topStyle rfl hequal ?_
    exact Page.around_namespaceDecl (p := p) hlaid hids hcut hstart hstop hstmts rfl fun hcstart hcstop =>
      Page.around_keptText p.stmtStyle rfl hequal' (hclass hcstart hcstop)

/-- A file around one of its statements. -/
theorem File.around_stmt {f : File} {a : Arena} {l r : List TopStmt} {s t : TopStmt} (hstmts : f.stmts = l ++ s :: r)
    (horigin : Placed.origin t = Placed.origin s) (hids : Fresh lo hi f.origins) (hlaid : f.Laid G)
    (hcut : G.Cuts a.text) (hstart : a.text.IsCut f.span.start) (hstop : a.text.IsCut f.span.stop)
    (hsame : (t == s) = true → new = a.text.slice region.start region.stop)
    (h : a.text.IsCut s.span.start → a.text.IsCut s.span.stop →
      let p : Page := ⟨a, .ofText (a.slice f.span)⟩
      a.text.Around region new s.span.start s.span.stop (p.keptText p.topStyle t s)) :
    a.text.Around region new f.span.start f.span.stop (({ f with stmts := l ++ t :: r } : File).print f a) := by
  have hroots := hids.right.roots TopStmt.origin_mem_origins
  let p : Page := ⟨a, .ofText (a.slice f.span)⟩
  have hlist : a.text.Around region new f.body.start f.body.stop
      (p.lineList p.topStyle f.body [] [] (l ++ t :: r) f.stmts) := by
    rw [hstmts] at hroots ⊢
    exact Page.around_lineList (p := p) p.topStyle _ _ horigin
      (fun s hs => TopStmt.beq_self (hlaid.stmts s (hstmts ▸ hs))) hroots (hstmts ▸ hlaid.lines) hcut
      fun hl hr => h hl.2.1 hr.1
  have hbefore : a.text.Runs f.span.start f.body.start := ⟨hstart, hlist.before.1, hlaid.body.1⟩
  have hbehind : a.text.Runs f.body.stop f.span.stop := ⟨hlist.behind.2.1, hstop, hlaid.body.2.2⟩
  unfold File.print
  simp only
  split
  · rename_i heq
    have hstmt := File.stmts_of_beq heq
    rw [hstmts] at hstmt
    exact .of_slice (hbefore.trans hlist.before) hlist.inside (hlist.behind.trans hbehind) (hsame (list_beq_cons hstmt))
  · exact Page.around_splice (p := p) hlaid.body hstart hstop hlist

/-- The class in a statement of a file that was read. -/
theorem TopStmt.Holds.laid {s : TopStmt} {c : ClassLike} {k : ClassLike → TopStmt} (h : s.Holds c k)
    (hids : Fresh lo hi s.origins) (hlaid : s.Laid G) : c.Laid G ∧ Fresh lo hi c.origins := by
  cases h with
  | plain c => exact ⟨hlaid, hids⟩
  | inside n l r c hstmts =>
    have hmem : Stmt.classLike c ∈ n.stmts := by simp [hstmts]
    exact ⟨Namespace.Laid.stmts hlaid _ hmem, Fresh.of_mem (f := Stmt.origins) hids.right hmem⟩

theorem File.Holds.laid {f : File} {c : ClassLike} {k : ClassLike → File} (h : f.Holds c k)
    (hids : Fresh lo hi f.origins) (hlaid : f.Laid G) : c.Laid G ∧ Fresh lo hi c.origins := by
  obtain ⟨l, s, r, top, hstmts, hs, rfl⟩ := h
  have hmem : s ∈ f.stmts := by simp [hstmts]
  exact hs.laid (Fresh.of_mem hids.right hmem) (hlaid.stmts s hmem)

/-- A file around the class that it holds. -/
theorem File.Holds.around {f : File} {c : ClassLike} {k : ClassLike → File} (h : f.Holds c k) {members : List Member}
    {a : Arena} (hids : Fresh lo hi f.origins) (hlaid : f.Laid G) (hcut : G.Cuts a.text)
    (hstart : a.text.IsCut f.span.start) (hstop : a.text.IsCut f.span.stop)
    (hsame : (members == c.members) = true → new = a.text.slice region.start region.stop)
    (hclass : let p : Page := ⟨a, .ofText (a.slice f.span)⟩
      a.text.Around region new c.body.start c.body.stop (p.lineList p.memberStyle c.body
        (lineIndent a.text c.span.start) (deeper (lineIndent a.text c.span.start)) members c.members)) :
    a.text.Around region new f.span.start f.span.stop ((k { c with members }).print f a) := by
  have hclaid := (h.laid hids hlaid).1
  obtain ⟨l, s, r, top, hstmts, hs, rfl⟩ := h
  have hmem : s ∈ f.stmts := by simp [hstmts]
  have hsids : Fresh lo hi s.origins := Fresh.of_mem hids.right hmem
  have horigin : Placed.origin (top { c with members }) = Placed.origin s := by cases hs <;> rfl
  refine File.around_stmt hstmts horigin hids hlaid hcut hstart hstop
    (fun heq => hsame (ClassLike.members_of_beq (hs.beq heq))) fun hsstart hsstop => ?_
  exact hs.around hsids (hlaid.stmts s hmem) hcut hsstart hsstop hsame fun hcstart hcstop =>
    Page.around_classLike (p := ⟨a, .ofText (a.slice f.span)⟩) hclaid hcstart hcstop hsame hclass

/-- A file of which one list of lines is changed is printed as its text, with the list printed over its region. -/
theorem File.around_print {f : File} {α : Type} [Placed α] [BEq α] {l : LineList α} (h : f.HasLines l)
    (working : List α) {a : Arena} (hids : Fresh lo hi f.origins) (hlaid : f.Laid G) (hcut : G.Cuts a.text)
    (hstart : a.text.IsCut f.span.start) (hstop : a.text.IsCut f.span.stop) :
    a.text.Around l.region (l.print ⟨a, .ofText (a.slice f.span)⟩ working) f.span.start f.span.stop
      ((l.put working).print f a) := by
  let p : Page := ⟨a, .ofText (a.slice f.span)⟩
  have hregion : ∀ {β : Type} [Placed β] {region : Span} {as : List β}, G.Lines region as →
      a.text.Runs region.start region.stop := by
    intro β _ region as hlines
    obtain ⟨e, hspread, hend⟩ := hlines.runs hcut
    exact hspread.runs hend
  cases h with
  | file =>
    have hroots := hids.right.roots TopStmt.origin_mem_origins
    have hrun := hregion hlaid.lines
    show a.text.Around f.body _ f.span.start f.span.stop (({ f with stmts := working } : File).print f a)
    unfold File.print
    simp only
    split
    · rename_i heq
      refine .of_slice ⟨hstart, hrun.1, hlaid.body.1⟩ hrun ⟨hrun.2.1, hstop, hlaid.body.2.2⟩ ?_
      exact Page.lineList_of_beq (p := p) (fun _ _ => TopStmt.placed_of_beq) p.topStyle [] [] (File.stmts_of_beq heq)
        hroots.2 hroots.1 hlaid.lines hcut
    · exact Page.around_splice (p := p) hlaid.body hstart hstop (.self hrun)
  | namespaced l r n hstmts =>
    have hmem : TopStmt.inside n ∈ f.stmts := by simp [hstmts]
    have hn : n.Laid G := hlaid.stmts _ hmem
    have hnids : Fresh lo hi n.origins := Fresh.of_mem (f := TopStmt.origins) hids.right hmem
    have hroots := hnids.right.roots Stmt.origin_mem_origins
    have hsame : ((TopStmt.inside { n with stmts := working } : TopStmt) == .inside n) = true →
        (n.lines fun n' => { f with stmts := l ++ .inside n' :: r }).print p working =
          a.text.slice n.body.start n.body.stop := by
      intro heq
      exact Page.lineList_of_beq (p := p) (fun _ _ => Stmt.placed_of_beq) p.stmtStyle _ _
        (Namespace.stmts_of_beq (m := { n with stmts := working }) (n := n) heq) hroots.2 hroots.1 hn.lines hcut
    refine File.around_stmt (t := .inside { n with stmts := working }) hstmts rfl hids hlaid hcut hstart hstop hsame
      fun hnstart hnstop => ?_
    refine Page.around_keptText (p := p) p.topStyle rfl hsame ?_
    have hinner : (if n.braced then deeper (if n.braced then lineIndent a.text n.span.start else []) else []) =
        if n.braced then deeper (lineIndent a.text n.span.start) else [] := by cases n.braced <;> rfl
    show p.arena.text.Around n.body _ n.span.start n.span.stop (p.namespaceDecl { n with stmts := working } n)
    rw [Page.namespaceDecl]
    simp only [p, hinner]
    exact Page.around_splice (p := p) hn.body hnstart hnstop (.self (hregion hn.lines))
  | cls c k hc =>
    obtain ⟨hclaid, hcids⟩ := hc.laid hids hlaid
    have hroots := hcids.right.roots Member.origin_mem_origins
    refine hc.around hids hlaid hcut hstart hstop (fun heq => ?_) (.self (hregion hclaid.lines))
    exact Page.lineList_of_beq (p := p) (fun _ _ => Member.placed_of_beq) p.memberStyle _ _ heq hroots.2 hroots.1
      hclaid.lines hcut
  | method c k hc l r m b hm hb =>
    obtain ⟨hclaid, hcids⟩ := hc.laid hids hlaid
    have hroots := hcids.right.roots Member.origin_mem_origins
    have hmem : Member.method m ∈ c.members := by simp [hm]
    have hmlaid : m.Laid G := hclaid.members _ hmem
    have hmids : Fresh lo hi m.origins := Fresh.of_mem (f := Member.origins) hcids.right hmem
    have hbids : Fresh lo hi (b.stmts.flatMap BodyStmt.origins) := by
      rw [Method.origins, hb] at hmids
      exact hmids.right.right
    have hbroots := hbids.roots BodyStmt.origin_mem_origins
    have hblock := (hmlaid.2.1 b hb).2
    have hsame : (working == b.stmts) = true →
        (m.lines b fun m' => k { c with members := l ++ .method m' :: r }).print p working =
          a.text.slice b.body.start b.body.stop := by
      intro heq
      exact Page.lineList_of_beq (p := p) (fun _ _ => BodyStmt.placed_of_beq) p.bodyStyle _ _ heq hbroots.2 hbroots.1
        hblock.2.1 hcut
    have hmethod : ((Member.method { m with body := some { b with stmts := working } } : Member) == .method m) = true →
        (working == b.stmts) = true := by
      intro heq
      have hbody := Method.body_of_beq (m := { m with body := some { b with stmts := working } }) (n := m) heq
      rw [hb] at hbody
      exact Block.stmts_of_beq (b := { b with stmts := working }) (d := b) hbody
    refine hc.around hids hlaid hcut hstart hstop (fun heq => ?_) ?_
    · rw [hm] at heq
      exact hsame (hmethod (list_beq_cons heq))
    · rw [hm] at hroots ⊢
      refine Page.around_lineList (p := p) p.memberStyle _ _ rfl
        (fun s hs => Member.beq_self (hclaid.members s (hm ▸ hs))) hroots (hm ▸ hclaid.lines) hcut fun hl hr => ?_
      refine Page.around_keptText (p := p) p.memberStyle rfl (fun heq => hsame (hmethod heq)) ?_
      exact Page.around_method (p := p) hmlaid hb hl.2.1 hr.1 hsame (.self (hregion hblock.2.1))

end Files

end Graft
