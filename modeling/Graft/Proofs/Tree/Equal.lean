/-
Trees that equal themselves.

Floats are compared as numbers, so that a tree with a NaN in it does not equal itself.  No tree that was read holds
one: its layout says so.

* `Expr.same_self` — an expression that was read equals itself;
* `Stmt.beq_self`, `File.beq_self` — the nodes above it.
-/
import Graft.Proofs.Reading.Layout

namespace Graft

variable {G : Ground}

/-! ### Lists and options -/

theorem list_beq_self {α : Type} [BEq α] {as : List α} (h : ∀ a ∈ as, (a == a) = true) : (as == as) = true := by
  induction as with
  | nil => rfl
  | cons a as ih =>
    rw [List.cons_beq_cons, h a (by simp), ih fun b hb => h b (by simp [hb])]
    rfl

theorem option_beq_self {α : Type} [BEq α] {a : Option α} (h : ∀ b, a = some b → (b == b) = true) :
    (a == a) = true := by
  cases a with
  | none => rfl
  | some b => exact h b rfl

/-! ### Expressions -/

mutual

theorem Expr.same_self : ∀ e : Expr, e.Arranged G → Expr.same e e = true
  | .array a, h => by
    unfold Expr.Arranged at h
    unfold Expr.same
    exact ArrayLit.same_self a h
  | .string e, _ => by simp [Expr.same]
  | .int e, _ => by simp [Expr.same]
  | .float e, h => by
    have hvalue : (e.value == e.value) = true := h
    have hself : (e == e) = (e.origin == e.origin && (e.span == e.span && e.value == e.value)) := rfl
    simp [Expr.same, hself, hvalue]
  | .const e, _ => by simp [Expr.same]
  | .other e, _ => by simp [Expr.same]

theorem ArrayLit.same_self : ∀ a : ArrayLit Expr, ArrayLit.Laid G a → ArrayLit.same a a = true
  | ⟨_, _, _, _, items⟩, h => by
    simp [ArrayLit.same, ArrayItem.sameAll_self items h.2.2]

theorem ArrayItem.sameAll_self :
    ∀ is : List (ArrayItem Expr), ArrayItem.LaidAll G is → ArrayItem.sameAll is is = true
  | [], _ => rfl
  | i :: is, h => by
    unfold ArrayItem.sameAll
    rw [ArrayItem.same_self i h.1, ArrayItem.sameAll_self is h.2]
    rfl

theorem ArrayItem.same_self : ∀ i : ArrayItem Expr, i.Laid G → ArrayItem.same i i = true
  | ⟨_, _, none, value, _, _⟩, h => by
    simp [ArrayItem.same, Expr.sameOption, Expr.same_self value h.2.2.2]
  | ⟨_, _, some key, value, _, _⟩, h => by
    simp [ArrayItem.same, Expr.sameOption, Expr.same_self key h.1.2.2, Expr.same_self value h.2.2.2]

end

theorem Expr.beq_self {e : Expr} (h : e.Laid G) : (e == e) = true := Expr.same_self e h.2

/-! ### Members -/

theorem ReturnStmt.beq_self {r : ReturnStmt} (h : r.Laid G) : (r == r) = true := by
  have hself : (r == r) = (r.origin == r.origin && (r.span == r.span && r.expr == r.expr)) := rfl
  rw [hself, option_beq_self fun e he => Expr.beq_self (h e he).2]
  simp

theorem BodyStmt.beq_self {s : BodyStmt} (h : s.Laid G) : (s == s) = true := by
  cases s with
  | ret r => exact ReturnStmt.beq_self h
  | other v => exact beq_self_eq_true v

theorem Block.beq_self {b : Block} (h : b.Laid G) : (b == b) = true := by
  have hself : (b == b) = (b.origin == b.origin && (b.span == b.span && (b.body == b.body && b.stmts == b.stmts))) := rfl
  rw [hself, list_beq_self fun s hs => BodyStmt.beq_self (h.2.2 s hs)]
  simp

theorem PropertyItem.beq_self {i : PropertyItem} (h : i.Laid G) : (i == i) = true := by
  have hself : (i == i) = (i.origin == i.origin && (i.span == i.span && (i.name == i.name && i.default == i.default))) :=
    rfl
  rw [hself, option_beq_self fun e he => Expr.beq_self (h.2.2 e he).2]
  simp

theorem Property.beq_self {p : Property} (h : p.Laid G) : (p == p) = true := by
  have hself : (p == p) =
      (p.origin == p.origin && (p.span == p.span && (p.modifiers == p.modifiers && p.items == p.items))) := rfl
  rw [hself, list_beq_self fun i hi => PropertyItem.beq_self (h.2 i hi)]
  simp

theorem Method.beq_self {m : Method} (h : m.Laid G) : (m == m) = true := by
  have hself : (m == m) = (m.origin == m.origin && (m.span == m.span && (m.modifiers == m.modifiers &&
      (m.name == m.name && m.body == m.body)))) := rfl
  rw [hself, option_beq_self fun b hb => Block.beq_self (h.2.1 b hb).2]
  simp

theorem Member.beq_self {m : Member} (h : m.Laid G) : (m == m) = true := by
  cases m with
  | traitUse c => exact beq_self_eq_true c
  | property p => exact Property.beq_self h
  | method m => exact Method.beq_self h
  | other v => exact beq_self_eq_true v

/-! ### Statements and files -/

theorem ClassLike.beq_self {c : ClassLike} (h : c.Laid G) : (c == c) = true := by
  have hself : (c == c) = (c.origin == c.origin && (c.span == c.span && (c.kind == c.kind &&
      (c.modifiers == c.modifiers && (c.name == c.name && (c.parents == c.parents && (c.interfaces == c.interfaces &&
        (c.interfacesClause == c.interfacesClause && (c.interfacesRegion == c.interfacesRegion &&
          (c.interfacesAnchor == c.interfacesAnchor && (c.body == c.body && c.members == c.members))))))))))) := rfl
  rw [hself, list_beq_self fun m hm => Member.beq_self (h.members m hm)]
  simp

theorem Stmt.beq_self {s : Stmt} (h : s.Laid G) : (s == s) = true := by
  cases s with
  | imports d => exact beq_self_eq_true d
  | classLike c => exact ClassLike.beq_self h
  | ret r => exact ReturnStmt.beq_self h
  | declare v => exact beq_self_eq_true v
  | other v => exact beq_self_eq_true v

theorem Namespace.beq_self {n : Namespace} (h : n.Laid G) : (n == n) = true := by
  have hself : (n == n) = (n.origin == n.origin && (n.span == n.span && (n.name == n.name &&
      (n.braced == n.braced && (n.body == n.body && n.stmts == n.stmts))))) := rfl
  rw [hself, list_beq_self fun s hs => Stmt.beq_self (h.stmts s hs)]
  simp

theorem TopStmt.beq_self {s : TopStmt} (h : s.Laid G) : (s == s) = true := by
  cases s with
  | inside n => exact Namespace.beq_self h
  | plain s => exact Stmt.beq_self h

/-- A file that was read equals itself. -/
theorem File.beq_self {f : File} (h : f.Laid G) : (f == f) = true := by
  have hself : (f == f) = (f.origin == f.origin && (f.span == f.span && (f.body == f.body && f.stmts == f.stmts))) := rfl
  rw [hself, list_beq_self fun s hs => TopStmt.beq_self (h.stmts s hs)]
  simp

end Graft
