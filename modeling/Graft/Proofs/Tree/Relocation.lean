/-
Trees in another place.

A relocation says what becomes of the ids and the spans of nodes.  A relocated tree has the same names, values and
lists in the same order.  Two relocations that agree on the spans and on the ids of a tree make the same of it; a tree
that a relocation leaves alone has only spans that it leaves alone.

* `Expr.relocate`, …, `File.relocate` — relocated trees;
* `Expr.relocate_congr`, …, `File.relocate_congr` — relocations that agree on the ids of a tree.
-/
import Graft.Proofs.Tree.Origins

namespace Graft

/-- What becomes of ids and spans. -/
structure Relocation where
  id : NodeId → NodeId
  span : Span → Span

/-- Where an offset goes: where the empty span there does. -/
def Relocation.offset (φ : Relocation) (x : Nat) : Nat := (φ.span (.point x)).start

/-! ### Expressions -/

def Name.relocate (φ : Relocation) (n : Name) : Name := ⟨n.origin.map φ.id, φ.span n.span, n.text⟩

def Ident.relocate (φ : Relocation) (i : Ident) : Ident := ⟨φ.span i.span, i.text⟩

def Verbatim.relocate (φ : Relocation) (v : Verbatim) : Verbatim := ⟨v.origin.map φ.id, φ.span v.span⟩

def StringLit.relocate (φ : Relocation) (e : StringLit) : StringLit := ⟨e.origin.map φ.id, φ.span e.span, e.value⟩

def IntLit.relocate (φ : Relocation) (e : IntLit) : IntLit := ⟨e.origin.map φ.id, φ.span e.span, e.value⟩

def FloatLit.relocate (φ : Relocation) (e : FloatLit) : FloatLit := ⟨e.origin.map φ.id, φ.span e.span, e.value⟩

mutual

/-- A relocated expression. -/
def Expr.relocate (φ : Relocation) : Expr → Expr
  | .array a => .array (ArrayLit.relocate φ a)
  | .string e => .string (e.relocate φ)
  | .int e => .int (e.relocate φ)
  | .float e => .float (e.relocate φ)
  | .const e => .const (e.relocate φ)
  | .other e => .other (e.relocate φ)
termination_by structural e => e

/-- A relocated array. -/
def ArrayLit.relocate (φ : Relocation) : ArrayLit Expr → ArrayLit Expr
  | ⟨origin, span, short, region, items⟩ =>
    ⟨origin.map φ.id, φ.span span, short, φ.span region, ArrayItem.relocateAll φ items⟩
termination_by structural e => e

/-- Relocated entries. -/
def ArrayItem.relocateAll (φ : Relocation) : List (ArrayItem Expr) → List (ArrayItem Expr)
  | [] => []
  | i :: is => ArrayItem.relocate φ i :: ArrayItem.relocateAll φ is
termination_by structural e => e

/-- A relocated entry. -/
def ArrayItem.relocate (φ : Relocation) : ArrayItem Expr → ArrayItem Expr
  | ⟨origin, span, key, value, byRef, unpack⟩ =>
    ⟨origin.map φ.id, φ.span span, Expr.relocateOption φ key, Expr.relocate φ value, byRef, unpack⟩
termination_by structural e => e

/-- A relocated expression that may be absent. -/
def Expr.relocateOption (φ : Relocation) : Option Expr → Option Expr
  | none => none
  | some e => some (Expr.relocate φ e)
termination_by structural e => e

end

variable {φ ψ : Relocation}

@[simp] theorem ArrayItem.relocateAll_eq (is : List (ArrayItem Expr)) :
    ArrayItem.relocateAll φ is = is.map (ArrayItem.relocate φ) := by
  induction is with
  | nil => rfl
  | cons i is ih => rw [List.map_cons, ← ih]; rfl

@[simp] theorem Expr.relocateOption_eq (e : Option Expr) : Expr.relocateOption φ e = e.map (Expr.relocate φ) := by
  cases e <;> rfl

theorem ArrayLit.relocate_eq (a : ArrayLit Expr) : a.relocate φ =
    ⟨a.origin.map φ.id, φ.span a.span, a.short, φ.span a.itemsRegion, a.items.map (ArrayItem.relocate φ)⟩ := by
  cases a
  rw [relocate, ArrayItem.relocateAll_eq]

theorem ArrayLit.itemsRegion_relocate (a : ArrayLit Expr) : (a.relocate φ).itemsRegion = φ.span a.itemsRegion := by
  rw [relocate_eq]

theorem ArrayLit.items_relocate (a : ArrayLit Expr) : (a.relocate φ).items = a.items.map (ArrayItem.relocate φ) := by
  rw [relocate_eq]

theorem ArrayItem.relocate_eq (i : ArrayItem Expr) : i.relocate φ =
    ⟨i.origin.map φ.id, φ.span i.span, i.key.map (Expr.relocate φ), i.value.relocate φ, i.byRef, i.unpack⟩ := by
  cases i
  rw [relocate, Expr.relocateOption_eq]

theorem ArrayItem.key_relocate (i : ArrayItem Expr) : (i.relocate φ).key = i.key.map (Expr.relocate φ) := by
  rw [relocate_eq]

theorem ArrayItem.value_relocate (i : ArrayItem Expr) : (i.relocate φ).value = i.value.relocate φ := by
  rw [relocate_eq]

theorem ArrayItem.byRef_relocate (i : ArrayItem Expr) : (i.relocate φ).byRef = i.byRef := by rw [relocate_eq]

theorem ArrayItem.unpack_relocate (i : ArrayItem Expr) : (i.relocate φ).unpack = i.unpack := by rw [relocate_eq]

/-! ### Members -/

def ReturnStmt.relocate (φ : Relocation) (r : ReturnStmt) : ReturnStmt :=
  ⟨r.origin.map φ.id, φ.span r.span, r.expr.map (Expr.relocate φ)⟩

def BodyStmt.relocate (φ : Relocation) : BodyStmt → BodyStmt
  | .ret r => .ret (r.relocate φ)
  | .other v => .other (v.relocate φ)

def Block.relocate (φ : Relocation) (b : Block) : Block :=
  ⟨b.origin.map φ.id, φ.span b.span, φ.span b.body, b.stmts.map (BodyStmt.relocate φ)⟩

def TraitUse.relocate (φ : Relocation) (c : TraitUse) : TraitUse :=
  ⟨c.origin.map φ.id, φ.span c.span, φ.span c.namesRegion, c.names.map (Name.relocate φ), c.adaptations.map φ.span⟩

def PropertyItem.relocate (φ : Relocation) (i : PropertyItem) : PropertyItem :=
  ⟨i.origin.map φ.id, φ.span i.span, i.name.relocate φ, i.default.map (Expr.relocate φ)⟩

def Property.relocate (φ : Relocation) (p : Property) : Property :=
  ⟨p.origin.map φ.id, φ.span p.span, p.modifiers, p.items.map (PropertyItem.relocate φ)⟩

def Method.relocate (φ : Relocation) (m : Method) : Method :=
  ⟨m.origin.map φ.id, φ.span m.span, m.modifiers, m.name.relocate φ, m.body.map (Block.relocate φ)⟩

def Member.relocate (φ : Relocation) : Member → Member
  | .traitUse c => .traitUse (c.relocate φ)
  | .property p => .property (p.relocate φ)
  | .method m => .method (m.relocate φ)
  | .other v => .other (v.relocate φ)

/-! ### Statements and files -/

/-- A relocated class.  The region of names means nothing where there is no clause of interfaces. -/
def ClassLike.relocate (φ : Relocation) (c : ClassLike) : ClassLike where
  origin := c.origin.map φ.id
  span := φ.span c.span
  kind := c.kind
  modifiers := c.modifiers
  name := c.name.relocate φ
  parents := c.parents.map (Name.relocate φ)
  interfaces := c.interfaces.map (Name.relocate φ)
  interfacesClause := c.interfacesClause.map φ.span
  interfacesRegion := (c.interfacesClause.map fun _ => φ.span c.interfacesRegion).getD c.interfacesRegion
  interfacesAnchor := φ.offset c.interfacesAnchor
  body := φ.span c.body
  members := c.members.map (Member.relocate φ)

def ImportItem.relocate (φ : Relocation) (i : ImportItem) : ImportItem :=
  ⟨i.origin.map φ.id, φ.span i.span, i.kind, i.name.relocate φ, i.localName.map (Ident.relocate φ)⟩

def Import.relocate (φ : Relocation) (d : Import) : Import :=
  ⟨d.origin.map φ.id, φ.span d.span, d.kind, d.stem.map (Name.relocate φ), φ.span d.itemsRegion,
    d.items.map (ImportItem.relocate φ)⟩

def Stmt.relocate (φ : Relocation) : Stmt → Stmt
  | .imports d => .imports (d.relocate φ)
  | .classLike c => .classLike (c.relocate φ)
  | .ret r => .ret (r.relocate φ)
  | .declare v => .declare (v.relocate φ)
  | .other v => .other (v.relocate φ)

def Namespace.relocate (φ : Relocation) (n : Namespace) : Namespace :=
  ⟨n.origin.map φ.id, φ.span n.span, n.name.map (Name.relocate φ), n.braced, φ.span n.body,
    n.stmts.map (Stmt.relocate φ)⟩

def TopStmt.relocate (φ : Relocation) : TopStmt → TopStmt
  | .inside n => .inside (n.relocate φ)
  | .plain s => .plain (s.relocate φ)

def File.relocate (φ : Relocation) (f : File) : File :=
  ⟨f.origin.map φ.id, φ.span f.span, φ.span f.body, f.stmts.map (TopStmt.relocate φ)⟩

/-! ### What stays -/

@[simp] theorem Name.text_relocate (n : Name) : (n.relocate φ).text = n.text := rfl

@[simp] theorem Name.normalized_relocate (n : Name) : (n.relocate φ).normalized = n.normalized := rfl

@[simp] theorem Ident.text_relocate (i : Ident) : (i.relocate φ).text = i.text := rfl

@[simp] theorem Expr.array?_relocate (e : Expr) : (e.relocate φ).array? = e.array?.map (ArrayLit.relocate φ) := by
  cases e <;> rfl

@[simp] theorem Expr.string?_relocate (e : Expr) : (e.relocate φ).string? = e.string? := by
  cases e <;> rfl

@[simp] theorem Member.method?_relocate (m : Member) : (m.relocate φ).method? = m.method?.map (Method.relocate φ) := by
  cases m <;> rfl

theorem Import.qualified_relocate (d : Import) (i : ImportItem) :
    (d.relocate φ).qualified (i.relocate φ) = d.qualified i := by
  cases h : d.stem <;> simp [qualified, relocate, ImportItem.relocate, h]

/-! ### Lists -/

theorem filterMap_map {α β : Type} {f : α → Option β} {g : α → α} {h : β → β} (hf : ∀ a, f (g a) = (f a).map h)
    (as : List α) : (as.map g).filterMap f = (as.filterMap f).map h := by
  rw [List.filterMap_map, List.map_filterMap]
  exact congrArg (List.filterMap · as) (funext hf)

theorem findSome?_map {α β : Type} {f : α → Option β} {g : α → α} {h : β → β} (hf : ∀ a, f (g a) = (f a).map h)
    (as : List α) : (as.map g).findSome? f = (as.findSome? f).map h := by
  rw [List.findSome?_map, List.map_findSome?]
  exact congrArg (as.findSome? ·) (funext hf)

/-! ### Ids and spans -/

/-- The nodes `g` makes of nodes have relocated ids and spans. -/
structure Relocates {α : Type} [Placed α] (φ : Relocation) (g : α → α) : Prop where
  origin (a : α) : origin (g a) = (origin a).map φ.id
  span (a : α) : span (g a) = φ.span (span a)

theorem Name.relocates (φ : Relocation) : Relocates φ (Name.relocate φ) := ⟨fun _ => rfl, fun _ => rfl⟩

theorem Expr.relocates (φ : Relocation) : Relocates φ (Expr.relocate φ) := by
  refine ⟨fun e => ?_, fun e => ?_⟩
  · rcases e with ⟨_, _, _, _, _⟩ | _ | _ | _ | _ | _ <;> rfl
  · rcases e with ⟨_, _, _, _, _⟩ | _ | _ | _ | _ | _ <;> rfl

theorem Expr.origin_relocate (e : Expr) : (e.relocate φ).origin = e.origin.map φ.id := (relocates φ).origin e

theorem Expr.isSome_origin_relocate (e : Expr) : (e.relocate φ).origin.isSome = e.origin.isSome := by
  rw [origin_relocate, Option.isSome_map]

theorem ArrayLit.relocates (φ : Relocation) : Relocates φ (ArrayLit.relocate φ) :=
  ⟨fun ⟨_, _, _, _, _⟩ => rfl, fun ⟨_, _, _, _, _⟩ => rfl⟩

theorem ArrayItem.relocates (φ : Relocation) : Relocates φ (ArrayItem.relocate φ) :=
  ⟨fun ⟨_, _, _, _, _, _⟩ => rfl, fun ⟨_, _, _, _, _, _⟩ => rfl⟩

theorem ReturnStmt.relocates (φ : Relocation) : Relocates φ (ReturnStmt.relocate φ) := ⟨fun _ => rfl, fun _ => rfl⟩

theorem PropertyItem.relocates (φ : Relocation) : Relocates φ (PropertyItem.relocate φ) :=
  ⟨fun _ => rfl, fun _ => rfl⟩

theorem BodyStmt.relocates (φ : Relocation) : Relocates φ (BodyStmt.relocate φ) :=
  ⟨fun s => by cases s <;> rfl, fun s => by cases s <;> rfl⟩

theorem Member.relocates (φ : Relocation) : Relocates φ (Member.relocate φ) :=
  ⟨fun m => by cases m <;> rfl, fun m => by cases m <;> rfl⟩

theorem ImportItem.relocates (φ : Relocation) : Relocates φ (ImportItem.relocate φ) := ⟨fun _ => rfl, fun _ => rfl⟩

theorem Stmt.relocates (φ : Relocation) : Relocates φ (Stmt.relocate φ) :=
  ⟨fun s => by cases s <;> rfl, fun s => by cases s <;> rfl⟩

theorem TopStmt.relocates (φ : Relocation) : Relocates φ (TopStmt.relocate φ) := by
  refine ⟨fun s => ?_, fun s => ?_⟩
  · cases s with
    | inside n => rfl
    | plain s => exact (Stmt.relocates φ).origin s
  · cases s with
    | inside n => rfl
    | plain s => exact (Stmt.relocates φ).span s

/-! ### Relocations that agree on ids -/

/-- Two relocations do the same with the ids of a list. -/
def Agree (φ ψ : Relocation) (ids : List (Option NodeId)) : Prop := ∀ o ∈ ids, o.map φ.id = o.map ψ.id

theorem Agree.left {ids ids' : List (Option NodeId)} (h : Agree φ ψ (ids ++ ids')) : Agree φ ψ ids :=
  fun o ho => h o (List.mem_append_left _ ho)

theorem Agree.right {ids ids' : List (Option NodeId)} (h : Agree φ ψ (ids ++ ids')) : Agree φ ψ ids' :=
  fun o ho => h o (List.mem_append_right _ ho)

theorem Agree.head {o : Option NodeId} {ids : List (Option NodeId)} (h : Agree φ ψ (o :: ids)) :
    o.map φ.id = o.map ψ.id :=
  h o List.mem_cons_self

theorem Agree.map {α : Type} {g h : α → α} {ids : α → List (Option NodeId)} {as : List α}
    (hids : Agree φ ψ (as.flatMap ids)) (hgh : ∀ a, Agree φ ψ (ids a) → g a = h a) : as.map g = as.map h :=
  List.map_congr_left fun a ha => hgh a fun o ho => hids o (List.mem_flatMap.2 ⟨a, ha, ho⟩)

theorem Agree.map_option {α : Type} {g h : α → α} {ids : α → List (Option NodeId)} {a : Option α}
    (hids : Agree φ ψ ((a.map ids).getD [])) (hgh : ∀ a, Agree φ ψ (ids a) → g a = h a) : a.map g = a.map h := by
  cases a with
  | none => rfl
  | some a => exact congrArg some (hgh a hids)

theorem Name.relocate_congr (hspan : φ.span = ψ.span) {n : Name} (h : Agree φ ψ n.origins) :
    n.relocate φ = n.relocate ψ := by
  simp only [relocate, h.head, hspan]

theorem Verbatim.relocate_congr (hspan : φ.span = ψ.span) {v : Verbatim} (h : Agree φ ψ v.origins) :
    v.relocate φ = v.relocate ψ := by
  simp only [relocate, h.head, hspan]

mutual

theorem Expr.relocate_congr (hspan : φ.span = ψ.span) : ∀ e : Expr, Agree φ ψ e.origins → e.relocate φ = e.relocate ψ
  | .array a, h => congrArg Expr.array (ArrayLit.relocate_congr hspan a h)
  | .string e, h => by simp only [Expr.relocate, StringLit.relocate, Agree.head h, hspan]
  | .int e, h => by simp only [Expr.relocate, IntLit.relocate, Agree.head h, hspan]
  | .float e, h => by simp only [Expr.relocate, FloatLit.relocate, Agree.head h, hspan]
  | .const e, h => congrArg Expr.const (Name.relocate_congr hspan h)
  | .other e, h => congrArg Expr.other (Verbatim.relocate_congr hspan h)

theorem ArrayLit.relocate_congr (hspan : φ.span = ψ.span) :
    ∀ a : ArrayLit Expr, Agree φ ψ a.origins → a.relocate φ = a.relocate ψ
  | ⟨_, _, _, _, items⟩, h => by
    simp only [ArrayLit.relocate, Agree.head h.right, hspan, ArrayItem.relocateAll_congr hspan items h.left]

theorem ArrayItem.relocateAll_congr (hspan : φ.span = ψ.span) :
    ∀ is : List (ArrayItem Expr), Agree φ ψ (ArrayItem.originsAll is) →
      ArrayItem.relocateAll φ is = ArrayItem.relocateAll ψ is
  | [], _ => rfl
  | i :: is, h => by
    rw [ArrayItem.relocateAll, ArrayItem.relocateAll, ArrayItem.relocate_congr hspan i h.left,
      ArrayItem.relocateAll_congr hspan is h.right]

theorem ArrayItem.relocate_congr (hspan : φ.span = ψ.span) :
    ∀ i : ArrayItem Expr, Agree φ ψ i.origins → i.relocate φ = i.relocate ψ
  | ⟨_, _, none, value, _, _⟩, h => by
    simp only [ArrayItem.relocate, Expr.relocateOption, Agree.head h, hspan, Expr.relocate_congr hspan value h.right]
  | ⟨_, _, some key, value, _, _⟩, h => by
    simp only [ArrayItem.relocate, Expr.relocateOption, Agree.head h, hspan, Expr.relocate_congr hspan key h.left.right,
      Expr.relocate_congr hspan value h.right]

end

section Congr

variable (hspan : φ.span = ψ.span)

include hspan

theorem Expr.relocateOption_congr {e : Option Expr} (h : Agree φ ψ (Expr.originsOption e)) :
    e.map (Expr.relocate φ) = e.map (Expr.relocate ψ) := by
  cases e with
  | none => rfl
  | some e => exact congrArg some (Expr.relocate_congr hspan e h)

theorem ReturnStmt.relocate_congr {r : ReturnStmt} (h : Agree φ ψ r.origins) : r.relocate φ = r.relocate ψ := by
  simp only [relocate, h.left.head, hspan, Expr.relocateOption_congr hspan h.right]

theorem BodyStmt.relocate_congr {s : BodyStmt} (h : Agree φ ψ s.origins) : s.relocate φ = s.relocate ψ := by
  cases s with
  | ret r => exact congrArg BodyStmt.ret (ReturnStmt.relocate_congr hspan h)
  | other v => exact congrArg BodyStmt.other (Verbatim.relocate_congr hspan h)

theorem Block.relocate_congr {b : Block} (h : Agree φ ψ b.origins) : b.relocate φ = b.relocate ψ := by
  simp only [relocate, h.left.head, hspan, h.right.map fun _ => BodyStmt.relocate_congr hspan]

theorem TraitUse.relocate_congr {c : TraitUse} (h : Agree φ ψ c.origins) : c.relocate φ = c.relocate ψ := by
  simp only [relocate, h.left.head, hspan, h.right.map fun _ => Name.relocate_congr hspan]

theorem PropertyItem.relocate_congr {i : PropertyItem} (h : Agree φ ψ i.origins) : i.relocate φ = i.relocate ψ := by
  simp only [relocate, Ident.relocate, h.left.head, hspan, Expr.relocateOption_congr hspan h.right]

theorem Property.relocate_congr {p : Property} (h : Agree φ ψ p.origins) : p.relocate φ = p.relocate ψ := by
  simp only [relocate, h.left.head, hspan, h.right.map fun _ => PropertyItem.relocate_congr hspan]

theorem Method.relocate_congr {m : Method} (h : Agree φ ψ m.origins) : m.relocate φ = m.relocate ψ := by
  simp only [relocate, Ident.relocate, h.left.head, hspan, h.right.map_option fun _ => Block.relocate_congr hspan]

theorem Member.relocate_congr {m : Member} (h : Agree φ ψ m.origins) : m.relocate φ = m.relocate ψ := by
  cases m with
  | traitUse c => exact congrArg Member.traitUse (TraitUse.relocate_congr hspan h)
  | property p => exact congrArg Member.property (Property.relocate_congr hspan h)
  | method m => exact congrArg Member.method (Method.relocate_congr hspan h)
  | other v => exact congrArg Member.other (Verbatim.relocate_congr hspan h)

theorem ClassLike.relocate_congr {c : ClassLike} (h : Agree φ ψ c.origins) : c.relocate φ = c.relocate ψ := by
  have hname : ∀ n : Name, Agree φ ψ n.origins → n.relocate φ = n.relocate ψ := fun _ => Name.relocate_congr hspan
  simp only [relocate, Ident.relocate, Relocation.offset, h.left.left.left.head, hspan, h.left.left.right.map hname,
    h.left.right.map hname, h.right.map fun _ => Member.relocate_congr hspan]

theorem ImportItem.relocate_congr {i : ImportItem} (h : Agree φ ψ i.origins) : i.relocate φ = i.relocate ψ := by
  have hlocal : Ident.relocate φ = Ident.relocate ψ := funext fun _ => by simp only [Ident.relocate, hspan]
  simp only [relocate, h.right.head, hspan, Name.relocate_congr hspan h.left, hlocal]

theorem Import.relocate_congr {d : Import} (h : Agree φ ψ d.origins) : d.relocate φ = d.relocate ψ := by
  simp only [relocate, h.left.left.head, hspan, h.left.right.map_option fun _ => Name.relocate_congr hspan,
    h.right.map fun _ => ImportItem.relocate_congr hspan]

theorem Stmt.relocate_congr {s : Stmt} (h : Agree φ ψ s.origins) : s.relocate φ = s.relocate ψ := by
  cases s with
  | imports d => exact congrArg Stmt.imports (Import.relocate_congr hspan h)
  | classLike c => exact congrArg Stmt.classLike (ClassLike.relocate_congr hspan h)
  | ret r => exact congrArg Stmt.ret (ReturnStmt.relocate_congr hspan h)
  | declare v => exact congrArg Stmt.declare (Verbatim.relocate_congr hspan h)
  | other v => exact congrArg Stmt.other (Verbatim.relocate_congr hspan h)

theorem Namespace.relocate_congr {n : Namespace} (h : Agree φ ψ n.origins) : n.relocate φ = n.relocate ψ := by
  simp only [relocate, h.left.left.head, hspan, h.left.right.map_option fun _ => Name.relocate_congr hspan,
    h.right.map fun _ => Stmt.relocate_congr hspan]

theorem TopStmt.relocate_congr {s : TopStmt} (h : Agree φ ψ s.origins) : s.relocate φ = s.relocate ψ := by
  cases s with
  | inside n => exact congrArg TopStmt.inside (Namespace.relocate_congr hspan h)
  | plain s => exact congrArg TopStmt.plain (Stmt.relocate_congr hspan h)

theorem File.relocate_congr {f : File} (h : Agree φ ψ f.origins) : f.relocate φ = f.relocate ψ := by
  simp only [relocate, h.left.head, hspan, h.right.map fun _ => TopStmt.relocate_congr hspan]

end Congr

end Graft
