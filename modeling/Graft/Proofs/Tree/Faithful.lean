/-
Relocations that keep trees apart.

A faithful relocation takes different ids, spans and offsets to different ones.  Two trees are equal exactly when the
trees that it makes of them are, for the equality that compares floats as numbers too.

An insertion puts text behind an offset and ids before an id.  What stands behind the offset moves, and the ids from
that one on are other ones.  A tree that was read from text stands on one side of an insertion, and a tree that edits
have made stands on either side with each of its nodes.

* `Expr.same_relocate` — expressions;
* `Member.beq_relocate`, `File.beq_relocate` — the nodes above them;
* `Insertion.map` — the relocation of an insertion, which is faithful;
* `Insertion.side`, `Insertion.apart` — relocations that leave just the trees on a side, and those that no text was
  put into, alone.
-/
import Graft.Proofs.Tree.Relocation

namespace Graft

variable {φ : Relocation}

/-! ### Faithful relocations -/

/-- The relocation takes different ids, spans and offsets to different ones. -/
structure Relocation.Faithful (φ : Relocation) : Prop where
  id_inj {i j : NodeId} : φ.id i = φ.id j → i = j
  span_inj {s t : Span} : φ.span s = φ.span t → s = t
  offset_inj {x y : Nat} : φ.offset x = φ.offset y → x = y

/-! ### Equality under a function -/

theorem beq_of_iff {α β : Type} [BEq α] [LawfulBEq α] [BEq β] [LawfulBEq β] {g : α → β} {a b : α}
    (hg : g a = g b ↔ a = b) : (g a == g b) = (a == b) := by
  rw [Bool.eq_iff_iff, beq_iff_eq, beq_iff_eq, hg]

theorem list_beq_map {α : Type} [BEq α] {g : α → α} (hg : ∀ a b, (g a == g b) = (a == b)) (as bs : List α) :
    (as.map g == bs.map g) = (as == bs) := by
  induction as generalizing bs with
  | nil => cases bs <;> rfl
  | cons a as ih =>
    cases bs with
    | nil => rfl
    | cons b bs => rw [List.map_cons, List.map_cons, List.cons_beq_cons, List.cons_beq_cons, hg, ih]

theorem option_beq_map {α : Type} [BEq α] {g : α → α} (hg : ∀ a b, (g a == g b) = (a == b)) (a b : Option α) :
    (a.map g == b.map g) = (a == b) := by
  cases a with
  | none => cases b <;> rfl
  | some a =>
    cases b with
    | none => rfl
    | some b => exact hg a b

/-! ### Nodes whose equality is identity -/

namespace Relocation.Faithful

theorem span_iff (hφ : φ.Faithful) {s t : Span} : φ.span s = φ.span t ↔ s = t := ⟨hφ.span_inj, congrArg _⟩

theorem origin_iff (hφ : φ.Faithful) {o o' : Option NodeId} : o.map φ.id = o'.map φ.id ↔ o = o' :=
  Option.map_inj_right fun _ _ => hφ.id_inj

theorem name_iff (hφ : φ.Faithful) {m n : Name} : m.relocate φ = n.relocate φ ↔ m = n := by
  cases m
  cases n
  simp [Name.relocate, hφ.origin_iff, hφ.span_iff]

theorem names_iff (hφ : φ.Faithful) {ms ns : List Name} :
    ms.map (Name.relocate φ) = ns.map (Name.relocate φ) ↔ ms = ns :=
  List.map_inj_right fun _ _ => hφ.name_iff.1

theorem ident_iff (hφ : φ.Faithful) {i j : Ident} : i.relocate φ = j.relocate φ ↔ i = j := by
  cases i
  cases j
  simp [Ident.relocate, hφ.span_iff]

theorem verbatim_iff (hφ : φ.Faithful) {v w : Verbatim} : v.relocate φ = w.relocate φ ↔ v = w := by
  cases v
  cases w
  simp [Verbatim.relocate, hφ.origin_iff, hφ.span_iff]

theorem traitUse_iff (hφ : φ.Faithful) {c d : TraitUse} : c.relocate φ = d.relocate φ ↔ c = d := by
  have hspans : ∀ {s t : Option Span}, s.map φ.span = t.map φ.span ↔ s = t :=
    Option.map_inj_right fun _ _ => hφ.span_inj
  cases c
  cases d
  simp [TraitUse.relocate, hφ.origin_iff, hφ.span_iff, hφ.names_iff, hspans]

theorem importItem_iff (hφ : φ.Faithful) {i j : ImportItem} : i.relocate φ = j.relocate φ ↔ i = j := by
  have hidents : ∀ {s t : Option Ident}, s.map (Ident.relocate φ) = t.map (Ident.relocate φ) ↔ s = t :=
    Option.map_inj_right fun _ _ => hφ.ident_iff.1
  cases i
  cases j
  simp [ImportItem.relocate, hφ.origin_iff, hφ.span_iff, hφ.name_iff, hidents]

theorem import_iff (hφ : φ.Faithful) {d e : Import} : d.relocate φ = e.relocate φ ↔ d = e := by
  have hstems : ∀ {m n : Option Name}, m.map (Name.relocate φ) = n.map (Name.relocate φ) ↔ m = n :=
    Option.map_inj_right fun _ _ => hφ.name_iff.1
  have hitems : ∀ {is js : List ImportItem}, is.map (ImportItem.relocate φ) = js.map (ImportItem.relocate φ) ↔ is = js :=
    List.map_inj_right fun _ _ => hφ.importItem_iff.1
  cases d
  cases e
  simp [Import.relocate, hφ.origin_iff, hφ.span_iff, hstems, hitems]

end Relocation.Faithful

/-! ### Expressions -/

mutual

theorem Expr.same_relocate (hφ : φ.Faithful) (a b : Expr) :
    Expr.same (a.relocate φ) (b.relocate φ) = Expr.same a b := by
  cases a with
  | array a =>
    cases b with
    | array b => exact ArrayLit.same_relocate hφ a b
    | _ => rfl
  | string a =>
    cases b with
    | string b =>
      refine beq_of_iff (g := StringLit.relocate φ) (a := a) (b := b) ?_
      cases a
      cases b
      simp [StringLit.relocate, hφ.origin_iff, hφ.span_iff]
    | _ => rfl
  | int a =>
    cases b with
    | int b =>
      refine beq_of_iff (g := IntLit.relocate φ) (a := a) (b := b) ?_
      cases a
      cases b
      simp [IntLit.relocate, hφ.origin_iff, hφ.span_iff]
    | _ => rfl
  | float a =>
    cases b with
    | float b =>
      have h : ∀ c d : FloatLit, (c == d) = (c.origin == d.origin && (c.span == d.span && c.value == d.value)) :=
        fun _ _ => rfl
      simp only [Expr.relocate, FloatLit.relocate, Expr.same, h, beq_of_iff hφ.origin_iff, beq_of_iff hφ.span_iff]
    | _ => rfl
  | const a =>
    cases b with
    | const b => exact beq_of_iff hφ.name_iff
    | _ => rfl
  | other a =>
    cases b with
    | other b => exact beq_of_iff hφ.verbatim_iff
    | _ => rfl
termination_by structural a

theorem ArrayLit.same_relocate (hφ : φ.Faithful) (a b : ArrayLit Expr) :
    ArrayLit.same (a.relocate φ) (b.relocate φ) = ArrayLit.same a b := by
  cases a with
  | mk _ _ _ _ items =>
    cases b with
    | mk _ _ _ _ items' =>
      simp only [ArrayLit.relocate, ArrayLit.same, beq_of_iff hφ.origin_iff, beq_of_iff hφ.span_iff,
        ArrayItem.sameAll_relocate hφ items items']
termination_by structural a

theorem ArrayItem.sameAll_relocate (hφ : φ.Faithful) (is js : List (ArrayItem Expr)) :
    ArrayItem.sameAll (ArrayItem.relocateAll φ is) (ArrayItem.relocateAll φ js) = ArrayItem.sameAll is js := by
  cases is with
  | nil => cases js <;> rfl
  | cons i is =>
    cases js with
    | nil => rfl
    | cons j js =>
      rw [ArrayItem.relocateAll, ArrayItem.relocateAll, ArrayItem.sameAll, ArrayItem.same_relocate hφ i j,
        ArrayItem.sameAll_relocate hφ is js, ArrayItem.sameAll]
termination_by structural is

theorem ArrayItem.same_relocate (hφ : φ.Faithful) (i j : ArrayItem Expr) :
    ArrayItem.same (i.relocate φ) (j.relocate φ) = ArrayItem.same i j := by
  cases i with
  | mk _ _ key value _ _ =>
    cases j with
    | mk _ _ key' value' _ _ =>
      simp only [ArrayItem.relocate, ArrayItem.same, beq_of_iff hφ.origin_iff, beq_of_iff hφ.span_iff,
        Expr.sameOption_relocate hφ key key', Expr.same_relocate hφ value value']
termination_by structural i

theorem Expr.sameOption_relocate (hφ : φ.Faithful) (a b : Option Expr) :
    Expr.sameOption (Expr.relocateOption φ a) (Expr.relocateOption φ b) = Expr.sameOption a b := by
  cases a with
  | none => cases b <;> rfl
  | some a =>
    cases b with
    | none => rfl
    | some b => exact Expr.same_relocate hφ a b
termination_by structural a

end

/-! ### The nodes above expressions -/

section Beq

variable (hφ : φ.Faithful)

include hφ

theorem Expr.beq_relocate (a b : Expr) : (a.relocate φ == b.relocate φ) = (a == b) := Expr.same_relocate hφ a b

theorem ReturnStmt.beq_relocate (r s : ReturnStmt) : (r.relocate φ == s.relocate φ) = (r == s) := by
  have h : ∀ r s : ReturnStmt, (r == s) = (r.origin == s.origin && (r.span == s.span && r.expr == s.expr)) :=
    fun _ _ => rfl
  simp only [h, relocate, beq_of_iff hφ.origin_iff, beq_of_iff hφ.span_iff, option_beq_map (Expr.beq_relocate hφ)]

theorem BodyStmt.beq_relocate (s t : BodyStmt) : (s.relocate φ == t.relocate φ) = (s == t) := by
  cases s with
  | ret r =>
    cases t with
    | ret s => exact ReturnStmt.beq_relocate hφ r s
    | other w => rfl
  | other v =>
    cases t with
    | ret s => rfl
    | other w => exact beq_of_iff (a := v) (b := w) hφ.verbatim_iff

theorem Block.beq_relocate (b c : Block) : (b.relocate φ == c.relocate φ) = (b == c) := by
  have h : ∀ b c : Block,
      (b == c) = (b.origin == c.origin && (b.span == c.span && (b.body == c.body && b.stmts == c.stmts))) :=
    fun _ _ => rfl
  simp only [h, relocate, beq_of_iff hφ.origin_iff, beq_of_iff hφ.span_iff, list_beq_map (BodyStmt.beq_relocate hφ)]

theorem PropertyItem.beq_relocate (i j : PropertyItem) : (i.relocate φ == j.relocate φ) = (i == j) := by
  have h : ∀ i j : PropertyItem,
      (i == j) = (i.origin == j.origin && (i.span == j.span && (i.name == j.name && i.default == j.default))) :=
    fun _ _ => rfl
  simp only [h, relocate, beq_of_iff hφ.origin_iff, beq_of_iff hφ.span_iff, beq_of_iff hφ.ident_iff,
    option_beq_map (Expr.beq_relocate hφ)]

theorem Property.beq_relocate (p q : Property) : (p.relocate φ == q.relocate φ) = (p == q) := by
  have h : ∀ p q : Property,
      (p == q) = (p.origin == q.origin && (p.span == q.span && (p.modifiers == q.modifiers && p.items == q.items))) :=
    fun _ _ => rfl
  simp only [h, relocate, beq_of_iff hφ.origin_iff, beq_of_iff hφ.span_iff, list_beq_map (PropertyItem.beq_relocate hφ)]

theorem Method.beq_relocate (m n : Method) : (m.relocate φ == n.relocate φ) = (m == n) := by
  have h : ∀ m n : Method, (m == n) = (m.origin == n.origin && (m.span == n.span && (m.modifiers == n.modifiers &&
      (m.name == n.name && m.body == n.body)))) :=
    fun _ _ => rfl
  simp only [h, relocate, beq_of_iff hφ.origin_iff, beq_of_iff hφ.span_iff, beq_of_iff hφ.ident_iff,
    option_beq_map (Block.beq_relocate hφ)]

theorem Member.beq_relocate (m n : Member) : (m.relocate φ == n.relocate φ) = (m == n) := by
  cases m with
  | traitUse c =>
    cases n with
    | traitUse d => exact beq_of_iff (a := c) (b := d) hφ.traitUse_iff
    | _ => rfl
  | property p =>
    cases n with
    | property q => exact Property.beq_relocate hφ p q
    | _ => rfl
  | method m =>
    cases n with
    | method n => exact Method.beq_relocate hφ m n
    | _ => rfl
  | other v =>
    cases n with
    | other w => exact beq_of_iff (a := v) (b := w) hφ.verbatim_iff
    | _ => rfl

theorem ClassLike.beq_relocate (c d : ClassLike) : (c.relocate φ == d.relocate φ) = (c == d) := by
  have h : ∀ c d : ClassLike, (c == d) = (c.origin == d.origin && (c.span == d.span && (c.kind == d.kind &&
      (c.modifiers == d.modifiers && (c.name == d.name && (c.parents == d.parents && (c.interfaces == d.interfaces &&
        (c.interfacesClause == d.interfacesClause && (c.interfacesRegion == d.interfacesRegion &&
          (c.interfacesAnchor == d.interfacesAnchor && (c.body == d.body && c.members == d.members))))))))))) :=
    fun _ _ => rfl
  have hclause : ∀ s t : Option Span, (s.map φ.span == t.map φ.span) = (s == t) :=
    option_beq_map fun _ _ => beq_of_iff hφ.span_iff
  have hanchor : (φ.offset c.interfacesAnchor == φ.offset d.interfacesAnchor) =
      (c.interfacesAnchor == d.interfacesAnchor) :=
    beq_of_iff (g := φ.offset) ⟨hφ.offset_inj, congrArg _⟩
  have hnames : ∀ ms ns : List Name, (ms.map (Name.relocate φ) == ns.map (Name.relocate φ)) = (ms == ns) :=
    list_beq_map fun _ _ => beq_of_iff hφ.name_iff
  simp only [h, relocate, beq_of_iff hφ.origin_iff, beq_of_iff hφ.span_iff, beq_of_iff hφ.ident_iff, hnames, hclause,
    hanchor, list_beq_map (Member.beq_relocate hφ)]
  -- The regions are compared only where both classes have a clause, or both have none.
  cases hc : c.interfacesClause with
  | none =>
    cases hd : d.interfacesClause with
    | none => simp
    | some t => simp
  | some s =>
    cases hd : d.interfacesClause with
    | none => simp
    | some t => simp only [Option.map_some, Option.getD_some, beq_of_iff hφ.span_iff]

theorem Stmt.beq_relocate (s t : Stmt) : (s.relocate φ == t.relocate φ) = (s == t) := by
  cases s with
  | imports d =>
    cases t with
    | imports e => exact beq_of_iff (a := d) (b := e) hφ.import_iff
    | _ => rfl
  | classLike c =>
    cases t with
    | classLike d => exact ClassLike.beq_relocate hφ c d
    | _ => rfl
  | ret r =>
    cases t with
    | ret s => exact ReturnStmt.beq_relocate hφ r s
    | _ => rfl
  | declare v =>
    cases t with
    | declare w => exact beq_of_iff (a := v) (b := w) hφ.verbatim_iff
    | _ => rfl
  | other v =>
    cases t with
    | other w => exact beq_of_iff (a := v) (b := w) hφ.verbatim_iff
    | _ => rfl

theorem Namespace.beq_relocate (n m : Namespace) : (n.relocate φ == m.relocate φ) = (n == m) := by
  have h : ∀ n m : Namespace, (n == m) = (n.origin == m.origin && (n.span == m.span && (n.name == m.name &&
      (n.braced == m.braced && (n.body == m.body && n.stmts == m.stmts))))) :=
    fun _ _ => rfl
  have hname : ∀ a b : Option Name, (a.map (Name.relocate φ) == b.map (Name.relocate φ)) = (a == b) :=
    option_beq_map fun _ _ => beq_of_iff hφ.name_iff
  simp only [h, relocate, beq_of_iff hφ.origin_iff, beq_of_iff hφ.span_iff, hname, list_beq_map (Stmt.beq_relocate hφ)]

theorem TopStmt.beq_relocate (s t : TopStmt) : (s.relocate φ == t.relocate φ) = (s == t) := by
  cases s with
  | inside n =>
    cases t with
    | inside m => exact Namespace.beq_relocate hφ n m
    | plain t => rfl
  | plain s =>
    cases t with
    | inside m => rfl
    | plain t => exact Stmt.beq_relocate hφ s t

theorem File.beq_relocate (f g : File) : (f.relocate φ == g.relocate φ) = (f == g) := by
  have h : ∀ f g : File,
      (f == g) = (f.origin == g.origin && (f.span == g.span && (f.body == g.body && f.stmts == g.stmts))) :=
    fun _ _ => rfl
  simp only [h, relocate, beq_of_iff hφ.origin_iff, beq_of_iff hφ.span_iff, list_beq_map (TopStmt.beq_relocate hφ)]

end Beq

/-! ### Insertions -/

/-- Text of `size` bytes behind the offset `place`, and `ids` ids before the id `nextId`. -/
structure Insertion where
  place : Nat
  size : Nat
  nextId : NodeId
  ids : Nat

/-- The sides of an insertion. -/
inductive Side where
  | before
  | behind

namespace Insertion

variable (g : Insertion)

def offset (x : Nat) : Nat := if x ≤ g.place then x else x + g.size

def id (i : NodeId) : NodeId := if i < g.nextId then i else i + g.ids

/-- Where trees go. -/
def map : Relocation := ⟨g.id, fun s => ⟨g.offset s.start, g.offset s.stop⟩⟩

/-! ### Order -/

theorem offset_le_offset {x y : Nat} : g.offset x ≤ g.offset y ↔ x ≤ y := by
  unfold offset
  split <;> split <;> omega

theorem offset_lt_offset {x y : Nat} : g.offset x < g.offset y ↔ x < y := by
  rw [← Nat.not_le, ← Nat.not_le, offset_le_offset]

theorem offset_inj {x y : Nat} (h : g.offset x = g.offset y) : x = y :=
  Nat.le_antisymm (g.offset_le_offset.1 (Nat.le_of_eq h)) (g.offset_le_offset.1 (Nat.le_of_eq h.symm))

theorem id_inj {i j : NodeId} (h : g.id i = g.id j) : i = j := by
  unfold id at h
  simp only [NodeId] at *
  split at h <;> split at h <;> omega

theorem faithful_map : g.map.Faithful where
  id_inj := g.id_inj
  span_inj h := by
    obtain ⟨hstart, hstop⟩ := Span.mk.inj h
    exact congr (congrArg Span.mk (g.offset_inj hstart)) (g.offset_inj hstop)
  offset_inj := g.offset_inj

/-! ### Sides -/

/-- The offset, if it is on the given side, or else the first one that is. -/
def clamp : Side → Nat → Nat
  | .before, x => min x g.place
  | .behind, x => max x (g.place + 1)

theorem clamp_before {x : Nat} : g.clamp .before x = x ↔ x ≤ g.place := by
  simp only [clamp]
  omega

theorem clamp_behind {x : Nat} : g.clamp .behind x = x ↔ g.place < x := by
  simp only [clamp]
  omega

/-- Leaves the trees on one side alone. -/
def side (c : Side) : Relocation := ⟨fun i => i, fun s => ⟨g.clamp c s.start, g.clamp c s.stop⟩⟩

/-- Leaves the trees alone whose nodes each are on one side. -/
def apart : Relocation where
  id i := i
  span s := if s.start ≤ g.place then ⟨s.start, min s.stop g.place⟩ else ⟨s.start, max s.stop (g.place + 1)⟩

/-- The span is on one side. -/
def On (c : Side) (s : Span) : Prop := g.clamp c s.start = s.start ∧ g.clamp c s.stop = s.stop

variable {g} {c : Side} {s : Span} {x y : Nat}

theorem map_behind (hx : g.place < x) (hy : g.place < y) : g.map.span ⟨x, y⟩ = ⟨x + g.size, y + g.size⟩ :=
  congr (congrArg Span.mk (if_neg (Nat.not_le.2 hx))) (if_neg (Nat.not_le.2 hy))

theorem side_behind (hx : g.place < x) (hy : g.place < y) : (g.side .behind).span ⟨x, y⟩ = ⟨x, y⟩ :=
  congr (congrArg Span.mk (g.clamp_behind.2 hx)) (g.clamp_behind.2 hy)

theorem apart_behind (hx : g.place < x) (hy : g.place < y) : g.apart.span ⟨x, y⟩ = ⟨x, y⟩ := by
  simp only [apart, if_neg (Nat.not_le.2 hx), Nat.max_eq_left hy]

theorem on_of_side (h : (g.side c).span s = s) : g.On c s := ⟨congrArg Span.start h, congrArg Span.stop h⟩

theorem exists_on_of_apart (h : g.apart.span s = s) : ∃ c, g.On c s := by
  have hstop := congrArg Span.stop h
  by_cases hs : s.start ≤ g.place
  · simp only [apart, if_pos hs] at hstop
    exact ⟨.before, Nat.min_eq_left hs, hstop⟩
  · simp only [apart, if_neg hs] at hstop
    exact ⟨.behind, Nat.max_eq_left (by omega), hstop⟩

theorem forall_of_map_eq_self {α : Type} {f : α → α} {as : List α} (h : as.map f = as) : ∀ a ∈ as, f a = a :=
  List.map_inj_left.1 (h.trans (List.map_id as).symm)

end Insertion

end Graft
