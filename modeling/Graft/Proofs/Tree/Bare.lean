/-
Trees without their places.

Two relocations one after the other are one relocation.  A bare tree has lost its spans but no id, no name, no value
and no node: two trees are equal in everything but spans when they are equal bare.

* `Expr.relocate_relocate`, …, `File.relocate_relocate` — relocated twice;
* `File.bare_eq` — a file that keeps its ids is the same file, bare;
* `File.outline_relocate` — an outline shows no place.
-/
import Graft.Outline
import Graft.Proofs.Tree.Relocation

namespace Graft

namespace Relocation

/-- The one relocation and then the other. -/
def andThen (φ ψ : Relocation) : Relocation := ⟨fun i => ψ.id (φ.id i), fun s => ψ.span (φ.span s)⟩

/-- Forgets the spans and keeps the ids. -/
def bare : Relocation := ⟨fun i => i, fun _ => .dummy⟩

/-- Both relocations of an offset are one. -/
def Follows (φ ψ : Relocation) : Prop := ∀ x, ψ.offset (φ.offset x) = (φ.andThen ψ).offset x

end Relocation

variable {φ ψ : Relocation}

/-! ### Lists and ids -/

theorem map_id_id (o : Option NodeId) : (o.map φ.id).map ψ.id = o.map (φ.andThen ψ).id := by
  rw [Option.map_map]
  rfl

theorem map_relocate {α : Type} {f g h : α → α} (hfg : ∀ a, g (f a) = h a) (as : List α) :
    (as.map f).map g = as.map h := by
  rw [List.map_map]
  exact List.map_congr_left fun a _ => hfg a

theorem map_relocate_option {α : Type} {f g h : α → α} (hfg : ∀ a, g (f a) = h a) (a : Option α) :
    (a.map f).map g = a.map h := by
  rw [Option.map_map]
  exact Option.map_congr fun a _ => hfg a

theorem map_span_span (s : Option Span) : (s.map φ.span).map ψ.span = s.map (φ.andThen ψ).span :=
  map_relocate_option (fun _ => rfl) s

/-! ### Expressions -/

theorem Name.relocate_relocate (n : Name) : (n.relocate φ).relocate ψ = n.relocate (φ.andThen ψ) := by
  simp only [relocate, map_id_id]
  rfl

theorem Ident.relocate_relocate (i : Ident) : (i.relocate φ).relocate ψ = i.relocate (φ.andThen ψ) := rfl

theorem Verbatim.relocate_relocate (v : Verbatim) : (v.relocate φ).relocate ψ = v.relocate (φ.andThen ψ) := by
  simp only [relocate, map_id_id]
  rfl

mutual

theorem Expr.relocate_relocate : ∀ e : Expr, (e.relocate φ).relocate ψ = e.relocate (φ.andThen ψ)
  | .array a => congrArg Expr.array (ArrayLit.relocate_relocate a)
  | .string e => by simp only [Expr.relocate, StringLit.relocate, map_id_id]; rfl
  | .int e => by simp only [Expr.relocate, IntLit.relocate, map_id_id]; rfl
  | .float e => by simp only [Expr.relocate, FloatLit.relocate, map_id_id]; rfl
  | .const e => congrArg Expr.const (Name.relocate_relocate e)
  | .other e => congrArg Expr.other (Verbatim.relocate_relocate e)

theorem ArrayLit.relocate_relocate :
    ∀ a : ArrayLit Expr, (a.relocate φ).relocate ψ = a.relocate (φ.andThen ψ)
  | ⟨_, _, _, _, items⟩ => by
    simp only [ArrayLit.relocate, map_id_id, ArrayItem.relocateAll_relocateAll items]
    rfl

theorem ArrayItem.relocateAll_relocateAll : ∀ is : List (ArrayItem Expr),
    ArrayItem.relocateAll ψ (ArrayItem.relocateAll φ is) = ArrayItem.relocateAll (φ.andThen ψ) is
  | [] => rfl
  | i :: is => by
    rw [ArrayItem.relocateAll, ArrayItem.relocateAll, ArrayItem.relocateAll, ArrayItem.relocate_relocate i,
      ArrayItem.relocateAll_relocateAll is]

theorem ArrayItem.relocate_relocate :
    ∀ i : ArrayItem Expr, (i.relocate φ).relocate ψ = i.relocate (φ.andThen ψ)
  | ⟨_, _, none, value, _, _⟩ => by
    simp only [ArrayItem.relocate, Expr.relocateOption, map_id_id, Expr.relocate_relocate value]
    rfl
  | ⟨_, _, some key, value, _, _⟩ => by
    simp only [ArrayItem.relocate, Expr.relocateOption, map_id_id, Expr.relocate_relocate key,
      Expr.relocate_relocate value]
    rfl

end

/-! ### Members -/

theorem ReturnStmt.relocate_relocate (r : ReturnStmt) : (r.relocate φ).relocate ψ = r.relocate (φ.andThen ψ) := by
  simp only [relocate, map_id_id, map_relocate_option Expr.relocate_relocate]
  rfl

theorem BodyStmt.relocate_relocate (s : BodyStmt) : (s.relocate φ).relocate ψ = s.relocate (φ.andThen ψ) := by
  cases s with
  | ret r => exact congrArg BodyStmt.ret r.relocate_relocate
  | other v => exact congrArg BodyStmt.other v.relocate_relocate

theorem Block.relocate_relocate (b : Block) : (b.relocate φ).relocate ψ = b.relocate (φ.andThen ψ) := by
  simp only [relocate, map_id_id, map_relocate BodyStmt.relocate_relocate]
  rfl

theorem TraitUse.relocate_relocate (c : TraitUse) : (c.relocate φ).relocate ψ = c.relocate (φ.andThen ψ) := by
  simp only [relocate, map_id_id, map_relocate Name.relocate_relocate, map_span_span]
  rfl

theorem PropertyItem.relocate_relocate (i : PropertyItem) : (i.relocate φ).relocate ψ = i.relocate (φ.andThen ψ) := by
  simp only [relocate, map_id_id, Ident.relocate_relocate, map_relocate_option Expr.relocate_relocate]
  rfl

theorem Property.relocate_relocate (p : Property) : (p.relocate φ).relocate ψ = p.relocate (φ.andThen ψ) := by
  simp only [relocate, map_id_id, map_relocate PropertyItem.relocate_relocate]
  rfl

theorem Method.relocate_relocate (m : Method) : (m.relocate φ).relocate ψ = m.relocate (φ.andThen ψ) := by
  simp only [relocate, map_id_id, Ident.relocate_relocate, map_relocate_option Block.relocate_relocate]
  rfl

theorem Member.relocate_relocate (m : Member) : (m.relocate φ).relocate ψ = m.relocate (φ.andThen ψ) := by
  cases m with
  | traitUse c => exact congrArg Member.traitUse c.relocate_relocate
  | property p => exact congrArg Member.property p.relocate_relocate
  | method m => exact congrArg Member.method m.relocate_relocate
  | other v => exact congrArg Member.other v.relocate_relocate

/-! ### Statements and files -/

theorem ImportItem.relocate_relocate (i : ImportItem) : (i.relocate φ).relocate ψ = i.relocate (φ.andThen ψ) := by
  simp only [relocate, map_id_id, Name.relocate_relocate, map_relocate_option Ident.relocate_relocate]
  rfl

theorem Import.relocate_relocate (d : Import) : (d.relocate φ).relocate ψ = d.relocate (φ.andThen ψ) := by
  simp only [relocate, map_id_id, map_relocate_option Name.relocate_relocate,
    map_relocate ImportItem.relocate_relocate]
  rfl

section Offsets

variable (h : φ.Follows ψ)

include h

theorem ClassLike.relocate_relocate (c : ClassLike) : (c.relocate φ).relocate ψ = c.relocate (φ.andThen ψ) := by
  have hregion : ((c.relocate φ).relocate ψ).interfacesRegion = (c.relocate (φ.andThen ψ)).interfacesRegion := by
    cases hc : c.interfacesClause <;> simp [relocate, hc, Relocation.andThen]
  simp only [relocate] at hregion ⊢
  rw [hregion]
  simp only [map_id_id, Ident.relocate_relocate, map_relocate Name.relocate_relocate,
    map_relocate Member.relocate_relocate, map_span_span, h c.interfacesAnchor]
  rfl

theorem Stmt.relocate_relocate (s : Stmt) : (s.relocate φ).relocate ψ = s.relocate (φ.andThen ψ) := by
  cases s with
  | imports d => exact congrArg Stmt.imports d.relocate_relocate
  | classLike c => exact congrArg Stmt.classLike (c.relocate_relocate h)
  | ret r => exact congrArg Stmt.ret r.relocate_relocate
  | declare v => exact congrArg Stmt.declare v.relocate_relocate
  | other v => exact congrArg Stmt.other v.relocate_relocate

theorem Namespace.relocate_relocate (n : Namespace) : (n.relocate φ).relocate ψ = n.relocate (φ.andThen ψ) := by
  simp only [relocate, map_id_id, map_relocate_option Name.relocate_relocate, map_relocate (Stmt.relocate_relocate h)]
  rfl

theorem TopStmt.relocate_relocate (s : TopStmt) : (s.relocate φ).relocate ψ = s.relocate (φ.andThen ψ) := by
  cases s with
  | inside n => exact congrArg TopStmt.inside (n.relocate_relocate h)
  | plain s => exact congrArg TopStmt.plain (s.relocate_relocate h)

theorem File.relocate_relocate (f : File) : (f.relocate φ).relocate ψ = f.relocate (φ.andThen ψ) := by
  simp only [relocate, map_id_id, map_relocate (TopStmt.relocate_relocate h)]
  rfl

end Offsets

/-! ### Bare trees -/

theorem Expr.describe_relocate (e : Expr) : (e.relocate φ).describe = e.describe := by
  cases e with
  | array a =>
    have hlength : (a.relocate φ).items.length = a.items.length := by rw [a.items_relocate, List.length_map]
    exact congrArg (fun n => "array of ".toList ++ Text.ofNat n) hlength
  | _ => rfl

theorem describe_relocate_option (e : Option Expr) :
    (e.map (Expr.relocate φ)).map Expr.describe = e.map Expr.describe := by
  rw [Option.map_map]
  exact Option.map_congr fun e _ => e.describe_relocate

theorem PropertyItem.describe_relocate (i : PropertyItem) : (i.relocate φ).describe = i.describe := by
  cases i with
  | mk origin span name value =>
    cases value with
    | none => rfl
    | some e => simp [describe, relocate, Expr.describe_relocate]

theorem Member.outlineLine_relocate (depth : Nat) (m : Member) :
    (m.relocate φ).outlineLine depth = m.outlineLine depth := by
  cases m with
  | traitUse c => simp [relocate, outlineLine, TraitUse.relocate, Function.comp_def]
  | property p => simp [relocate, outlineLine, Property.relocate, Function.comp_def, PropertyItem.describe_relocate]
  | method m => simp only [relocate, outlineLine, Method.relocate, Ident.text_relocate]
  | other v => rfl

theorem ClassLike.outlineLines_relocate (depth : Nat) (c : ClassLike) :
    (c.relocate φ).outlineLines depth = c.outlineLines depth := by
  have hnames : (c.relocate φ).interfaces.map Name.text = c.interfaces.map Name.text := by
    simp [relocate, Function.comp_def]
  have hempty : (c.relocate φ).interfaces.isEmpty = c.interfaces.isEmpty := by simp [relocate]
  have hmembers : (c.relocate φ).members.map (Member.outlineLine (depth + 1)) =
      c.members.map (Member.outlineLine (depth + 1)) := by
    simp [relocate, Function.comp_def, Member.outlineLine_relocate]
  rw [outlineLines, hnames, hempty, hmembers]
  rfl

theorem Stmt.outlineLines_relocate (depth : Nat) (s : Stmt) :
    (s.relocate φ).outlineLines depth = s.outlineLines depth := by
  cases s with
  | imports d =>
    have hitems : (d.relocate φ).items.map (d.relocate φ).qualified = d.items.map d.qualified := by
      rw [Import.relocate, List.map_map]
      exact List.map_congr_left fun i _ => d.qualified_relocate i
    simp only [relocate, outlineLines, hitems]
  | classLike c => exact c.outlineLines_relocate depth
  | ret r => simp only [relocate, outlineLines, ReturnStmt.relocate, describe_relocate_option]
  | declare v => rfl
  | other v => rfl

theorem TopStmt.outlineLines_relocate (depth : Nat) (s : TopStmt) :
    (s.relocate φ).outlineLines depth = s.outlineLines depth := by
  cases s with
  | inside n =>
    have hname : (n.relocate φ).name.map Name.text = n.name.map Name.text := by
      cases h : n.name <;> simp [Namespace.relocate, h]
    simp only [relocate, outlineLines, hname]
    simp [Namespace.relocate, List.flatMap_map, Stmt.outlineLines_relocate]
  | plain s => exact s.outlineLines_relocate depth

end Graft
