/-
How the nodes of a tree lie on the ground that they were read from.

A list of lines has only skipped tokens between its elements, a list with commas exactly one comma between neighbours
and perhaps one behind the last.  `Laid` says this of every list of a node and of the nodes below it, and that every
part of a node lies within the node.  An expression reaches over a row of tokens, and where that row is the one of a
literal it is that literal.  Floats that were read are numbers, so that a laid tree equals itself.

* `Ground.Lines`, `Ground.Commas` — the two kinds of lists;
* `Spread.snoc` — one more element;
* `Ground.Tells` — the tokens of an expression;
* `File.Laid` — the layout of a file.
-/
import Graft.Parse.Expr
import Graft.Proofs.Reading.Ground
import Graft.Tree.File

namespace Graft

/-! ### Lists -/

section Lists

variable {α : Type} [Placed α]

/-- Elements with a text each, from `x` on up to `y`: `first` holds of the gap before the first of them, `next` of the
gaps between neighbours. -/
def Spread (first next : Nat → Nat → Prop) : Nat → List α → Nat → Prop
  | x, [], y => x = y
  | x, a :: as, y =>
    first x (span a).start ∧ (span a).start < (span a).stop ∧ Spread next next (span a).stop as y

theorem Spread.snoc {first next : Nat → Nat → Prop} {x e : Nat} {as : List α} {a : α}
    (h : Spread first next x as e) (hfirst : as = [] → first e (span a).start)
    (hnext : as ≠ [] → next e (span a).start) (hlt : (span a).start < (span a).stop) :
    Spread first next x (as ++ [a]) (span a).stop := by
  induction as generalizing x first with
  | nil =>
    cases (show x = e from h)
    exact ⟨hfirst rfl, hlt, rfl⟩
  | cons b as ih =>
    obtain ⟨hb, hblt, hrest⟩ := h
    refine ⟨hb, hblt, ih hrest (fun _ => hnext (by simp)) fun _ => hnext (by simp)⟩

theorem Spread.mono {first next first' next' : Nat → Nat → Prop} {x e : Nat} {as : List α}
    (h : Spread first next x as e) (hfirst : ∀ {x y}, first x y → first' x y)
    (hnext : ∀ {x y}, next x y → next' x y) : Spread first' next' x as e := by
  induction as generalizing x first first' with
  | nil => exact h
  | cons a as ih =>
    obtain ⟨ha, hlt, hrest⟩ := h
    exact ⟨hfirst ha, hlt, ih hrest hnext⟩

theorem Spread.le {gap : Nat → Nat → Prop} {x e : Nat} {as : List α} (h : Spread gap gap x as e)
    (hgap : ∀ {x y}, gap x y → x ≤ y) : x ≤ e := by
  induction as generalizing x with
  | nil => exact Nat.le_of_eq h
  | cons a as ih =>
    obtain ⟨ha, hlt, hrest⟩ := h
    exact Nat.le_trans (hgap ha) (Nat.le_trans (Nat.le_of_lt hlt) (ih hrest))

/-- The elements lie between the ends. -/
theorem Spread.within {first next : Nat → Nat → Prop} {x e : Nat} {as : List α} (h : Spread first next x as e)
    (hfirst : ∀ {x y}, first x y → x ≤ y) (hnext : ∀ {x y}, next x y → x ≤ y) :
    ∀ a ∈ as, x ≤ (span a).start ∧ (span a).start < (span a).stop ∧ (span a).stop ≤ e := by
  induction as generalizing x first with
  | nil => simp
  | cons b as ih =>
    obtain ⟨hb, hlt, hrest⟩ := h
    intro a ha
    rcases List.mem_cons.1 ha with rfl | ha
    · exact ⟨hfirst hb, hlt, hrest.le hnext⟩
    · obtain ⟨h₁, h₂, h₃⟩ := ih hrest hnext a ha
      have := hfirst hb
      exact ⟨by omega, h₂, h₃⟩

/-- Exactly one comma and else only skipped tokens stand between two edges. -/
def Ground.comma (G : Ground) (x y : Nat) : Prop :=
  ∃ t, G.token t ∧ t.kind = .comma ∧ G.blank x t.start ∧ G.blank t.stop y

theorem Ground.comma_trans {G : Ground} {x y z : Nat} (h : G.comma x y) (hyz : G.blank y z) : G.comma x z := by
  obtain ⟨tok, htok, hk, hx, hy⟩ := h
  exact ⟨tok, htok, hk, hx, G.blank_trans hy hyz⟩

theorem Ground.le_of_comma {G : Ground} {x y : Nat} (h : G.comma x y) : x ≤ y := by
  obtain ⟨tok, htok, -, hx, hy⟩ := h
  exact Nat.le_trans (G.le_of_blank hx) (Nat.le_trans (Nat.le_of_lt (G.start_lt_stop htok)) (G.le_of_blank hy))

/-- A list of lines in a region. -/
def Ground.Lines (G : Ground) (region : Span) (as : List α) : Prop :=
  ∃ e, Spread G.blank G.blank region.start as e ∧ G.blank e region.stop

/-- A list with commas in a region. -/
def Ground.Commas (G : Ground) (region : Span) (as : List α) : Prop :=
  ∃ e, Spread G.blank G.comma region.start as e ∧ (G.blank e region.stop ∨ as ≠ [] ∧ G.comma e region.stop)

theorem Ground.Lines.extend {G : Ground} {x y z : Nat} {as : List α} (h : G.Lines ⟨x, y⟩ as) (hyz : G.blank y z) :
    G.Lines ⟨x, z⟩ as := by
  obtain ⟨e, he, hblank⟩ := h
  exact ⟨e, he, G.blank_trans hblank hyz⟩

theorem Ground.Commas.extend {G : Ground} {x y z : Nat} {as : List α} (h : G.Commas ⟨x, y⟩ as) (hyz : G.blank y z) :
    G.Commas ⟨x, z⟩ as := by
  obtain ⟨e, he, hblank | ⟨hne, hcomma⟩⟩ := h
  · exact ⟨e, he, .inl (G.blank_trans hblank hyz)⟩
  · exact ⟨e, he, .inr ⟨hne, G.comma_trans hcomma hyz⟩⟩

end Lists

/-! ### Expressions -/

/-- The span `s` is a range within `t`. -/
def Span.Within (s t : Span) : Prop := t.start ≤ s.start ∧ s.start ≤ s.stop ∧ s.stop ≤ t.stop

theorem Span.Within.widen {s : Span} {x y x' y' : Nat} (h : s.Within ⟨x, y⟩) (hx : x' ≤ x) (hy : y ≤ y') :
    s.Within ⟨x', y'⟩ :=
  ⟨Nat.le_trans hx h.1, h.2.1, Nat.le_trans h.2.2 hy⟩

/-- Code goes on behind a token that ends at the offset. -/
def Ground.Resumes (G : Ground) (x : Nat) : Prop :=
  ∃ t, G.token t ∧ t.kind ∉ [.closeTag, .inlineHtml] ∧ t.stop = x

/-- All the tokens that matter from an edge on to where the last of them ends. -/
def Ground.Row (G : Ground) : Nat → List Token → Nat → Prop
  | x, [], y => x = y
  | x, t :: ts, y => G.blank x t.start ∧ G.token t ∧ G.Row t.stop ts y

/-- The marks that are consumed from an edge on make a row. -/
theorem Ground.Ahead.row {G : Ground} {eof e : Nat} {ms ns : List Mark} (h : G.Ahead eof e (ms ++ ns)) :
    G.Row e (ms.map Mark.token) (endOf e ms) := by
  induction ms generalizing e with
  | nil => rfl
  | cons m ms ih =>
    obtain ⟨hlead, hstart, htoken, hrest⟩ := h
    exact ⟨G.blank_trans hlead hstart, htoken, ih hrest⟩

/-- An expression of one token, or of a minus and a number, is what these stand for. -/
def Expr.IsOf (e : Expr) : List Token → Prop
  | [t] =>
    ((Parser.literalOf? t.kind t.text false 0 .dummy).isSome →
        ∃ id, Parser.literalOf? t.kind t.text false id e.span = some e) ∧
      (t.kind = .ident → ∃ n : Name, e = .const n ∧ n.text = t.text)
  | [t, u] => t.kind = .op → t.text = ['-'] → u.kind ∈ [.int, .float] →
    (Parser.literalOf? u.kind u.text true 0 .dummy).isSome →
      ∃ id, Parser.literalOf? u.kind u.text true id e.span = some e
  | _ => True

/-- The tokens of an expression, and that it is what they stand for. -/
def Ground.Tells (G : Ground) (e : Expr) : Prop :=
  ∃ x t ts, G.Resumes x ∧ t.start = e.span.start ∧ G.Row x (t :: ts) e.span.stop ∧ e.IsOf (t :: ts)

theorem Ground.Row.edge {G : Ground} {x y : Nat} {ts : List Token} (h : G.Row x ts y) (hx : G.edge x) : G.edge y := by
  induction ts generalizing x with
  | nil => exact (show x = y from h) ▸ hx
  | cons t ts ih => exact ih h.2.2 (G.edge_stop h.2.1)

/-- An expression that was read begins and ends at edges. -/
theorem Ground.Tells.edges {G : Ground} {e : Expr} (h : G.Tells e) : G.edge e.span.start ∧ G.edge e.span.stop := by
  obtain ⟨x, t, ts, -, hstart, hrow, -⟩ := h
  exact ⟨hstart ▸ G.edge_right hrow.1, hrow.2.2.edge (G.edge_stop hrow.2.1)⟩

mutual

/-- The layout of the parts of an expression. -/
def Expr.Arranged (G : Ground) : Expr → Prop
  | .array a => ArrayLit.Laid G a
  | .float e => (e.value == e.value) = true
  | .string _ | .int _ | .const _ | .other _ => True
termination_by structural e => e

/-- The layout of an array. -/
def ArrayLit.Laid (G : Ground) : ArrayLit Expr → Prop
  | ⟨_, span, _, region, items⟩ => region.Within span ∧ G.Commas region items ∧ ArrayItem.LaidAll G items
termination_by structural e => e

/-- The layouts of entries. -/
def ArrayItem.LaidAll (G : Ground) : List (ArrayItem Expr) → Prop
  | [] => True
  | i :: is => ArrayItem.Laid G i ∧ ArrayItem.LaidAll G is
termination_by structural e => e

/-- The layout of an entry. -/
def ArrayItem.Laid (G : Ground) : ArrayItem Expr → Prop
  | ⟨_, span, key, value, _, _⟩ =>
    Expr.LaidKey G span key ∧ value.span.Within span ∧ G.Tells value ∧ Expr.Arranged G value
termination_by structural e => e

/-- The layout of the key of an entry with the given span. -/
def Expr.LaidKey (G : Ground) (item : Span) : Option Expr → Prop
  | none => True
  | some e => e.span.Within item ∧ G.Tells e ∧ Expr.Arranged G e
termination_by structural e => e

end

theorem Expr.arranged_array {G : Ground} {a : ArrayLit Expr} : (Expr.array a).Arranged G ↔
    a.itemsRegion.Within a.span ∧ G.Commas a.itemsRegion a.items ∧ ArrayItem.LaidAll G a.items := by
  cases a
  rfl

/-- The layout of an expression. -/
def Expr.Laid (G : Ground) (e : Expr) : Prop := G.Tells e ∧ e.Arranged G

theorem ArrayItem.laidAll_iff {G : Ground} {is : List (ArrayItem Expr)} :
    ArrayItem.LaidAll G is ↔ ∀ i ∈ is, i.Laid G := by
  induction is with
  | nil => simp [ArrayItem.LaidAll]
  | cons i is ih => simp only [ArrayItem.LaidAll, ih, List.forall_mem_cons]

/-! ### Members -/

def ReturnStmt.Laid (G : Ground) (r : ReturnStmt) : Prop :=
  ∀ e, r.expr = some e → e.span.Within r.span ∧ e.Laid G

def BodyStmt.Laid (G : Ground) : BodyStmt → Prop
  | .ret r => r.Laid G
  | .other _ => True

def Block.Laid (G : Ground) (b : Block) : Prop :=
  b.body.Within b.span ∧ G.Lines b.body b.stmts ∧ ∀ s ∈ b.stmts, s.Laid G

def TraitUse.Laid (G : Ground) (c : TraitUse) : Prop :=
  c.namesRegion.Within c.span ∧ G.Commas c.namesRegion c.names ∧ c.names ≠ [] ∧
    ∀ a, c.adaptations = some a → a.Within c.span

def PropertyItem.Laid (G : Ground) (i : PropertyItem) : Prop :=
  i.name.span.Within i.span ∧ G.edge i.name.span.stop ∧
    ∀ e, i.default = some e → e.span.Within ⟨i.name.span.stop, i.span.stop⟩ ∧ e.Laid G

def Property.Laid (G : Ground) (p : Property) : Prop :=
  (∃ region : Span, region.Within p.span ∧ G.Commas region p.items) ∧ ∀ i ∈ p.items, i.Laid G

/-- A token that ends a declaration stands before the offset. -/
def Ground.Closes (G : Ground) (x : Nat) : Prop :=
  ∃ t, G.token t ∧ t.kind ∈ [.semi, .closeTag, .rBrace] ∧ t.stop = x

def Method.Laid (G : Ground) (m : Method) : Prop :=
  m.name.span.Within m.span ∧ (∀ b, m.body = some b → b.span.Within m.span ∧ b.Laid G) ∧ G.Closes m.span.stop

def Member.Laid (G : Ground) : Member → Prop
  | .traitUse c => c.Laid G
  | .property p => p.Laid G
  | .method m => m.Laid G
  | .other _ => True

/-! ### Classes -/

/-- The layout of the clause of implemented interfaces in the header that reaches from `start` to the brace before
`stop`. -/
def ClassLike.LaidClause (G : Ground) (start stop : Nat) (c : ClassLike) : Prop :=
  match c.interfacesClause with
  | some clause =>
    start ≤ clause.start ∧ clause.start ≤ c.interfacesRegion.start ∧
      c.interfacesRegion.start ≤ c.interfacesRegion.stop ∧ clause.stop = c.interfacesRegion.stop ∧
      clause.stop < stop ∧ G.edge clause.start ∧ c.interfacesAnchor = clause.start ∧ c.interfaces ≠ [] ∧
      G.Commas c.interfacesRegion c.interfaces
  | none =>
    start ≤ c.interfacesAnchor ∧ c.interfacesAnchor < stop ∧ G.edge c.interfacesAnchor ∧ c.interfaces = []

/-- A token that matters ends at the offset. -/
def Ground.Ends (G : Ground) (x : Nat) : Prop := ∃ t, G.token t ∧ t.stop = x

structure ClassLike.Laid (G : Ground) (c : ClassLike) : Prop where
  clause : c.LaidClause G c.span.start c.body.start
  body : c.body.Within c.span
  name : c.name.span.Within c.span
  parents : ∀ n ∈ c.parents, n.span.Within c.span
  lines : G.Lines c.body c.members
  members : ∀ m ∈ c.members, m.Laid G
  brace : ∃ t, G.token t ∧ t.kind = .lBrace ∧ t.stop = c.body.start
  ends : ∀ m ∈ c.members, G.Ends m.span.stop

/-! ### Statements and files -/

def ImportItem.Laid (i : ImportItem) : Prop :=
  i.name.span.Within i.span ∧ ∀ n, i.localName = some n → n.span.Within i.span

structure Import.Laid (G : Ground) (d : Import) : Prop where
  region : d.itemsRegion.Within d.span
  commas : G.Commas d.itemsRegion d.items
  stem : ∀ n, d.stem = some n → n.span.Within d.span
  items : ∀ i ∈ d.items, i.Laid

def Stmt.Laid (G : Ground) : Stmt → Prop
  | .imports d => d.Laid G
  | .classLike c => c.Laid G
  | .ret r => r.Laid G
  | .declare _ => True
  | .other _ => True

structure Namespace.Laid (G : Ground) (n : Namespace) : Prop where
  body : n.body.Within n.span
  name : ∀ a, n.name = some a → a.span.Within n.span
  lines : G.Lines n.body n.stmts
  stmts : ∀ s ∈ n.stmts, s.Laid G

def TopStmt.Laid (G : Ground) : TopStmt → Prop
  | .inside n => n.Laid G
  | .plain s => s.Laid G

structure File.Laid (G : Ground) (f : File) : Prop where
  body : f.body.Within f.span
  lines : G.Lines f.body f.stmts
  stmts : ∀ s ∈ f.stmts, s.Laid G

end Graft
