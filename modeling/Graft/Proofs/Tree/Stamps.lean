/-
Stamps: what ties the nodes of a tree to the text.

A stamp is the kind of a node with the id it was parsed with and its span.  Edits copy nodes and build new ones, so the
stamps of a changed tree are those of the trees that it was made from, and blank ones.

* `File.stamps`, `File.map_origin_stamps` — the stamps of a node and of all nodes below it, in the order of `origins`;
* `Linked` — a list of stamps holds no stamp more often than another one, blank ones aside;
* `Linked.flatMap_updateFirst?`, `Linked.flatMap_filterMap` — lists in which elements are changed and taken away.
-/
import Mathlib.Data.List.Flatten
import Mathlib.Data.List.Perm.Subperm
import Graft.Proofs.Tree.First
import Graft.Proofs.Tree.Origins

namespace Graft

/-! ### Stamps -/

/-- The kinds of nodes. -/
inductive NodeKind where
  | file
  | ns
  | imports
  | importItem
  | classLike
  | traitUse
  | property
  | propertyItem
  | method
  | block
  | returnStmt
  | declare
  /-- Verbatim nodes, by what they stand for. -/
  | otherStmt
  | otherBodyStmt
  | otherMember
  | otherExpr
  | name
  | array
  | arrayItem
  | string
  | int
  | float
  | const
deriving DecidableEq, Repr

structure Stamp where
  kind : NodeKind
  origin : Option NodeId
  span : Span
deriving DecidableEq

/-- The node was not read from text. -/
def Stamp.IsBlank (s : Stamp) : Prop := s.origin = none ∧ s.span = .dummy

/-! ### Stamps of expressions -/

mutual

/-- The stamps of an expression. -/
def Expr.stamps : Expr → List Stamp
  | .array a => ArrayLit.stamps a
  | .string e => [⟨.string, e.origin, e.span⟩]
  | .int e => [⟨.int, e.origin, e.span⟩]
  | .float e => [⟨.float, e.origin, e.span⟩]
  | .const e => [⟨.const, e.origin, e.span⟩]
  | .other e => [⟨.otherExpr, e.origin, e.span⟩]
termination_by structural e => e

/-- The stamps of an array. -/
def ArrayLit.stamps : ArrayLit Expr → List Stamp
  | ⟨origin, span, _, _, items⟩ => ArrayItem.stampsAll items ++ [⟨.array, origin, span⟩]
termination_by structural e => e

/-- The stamps of entries. -/
def ArrayItem.stampsAll : List (ArrayItem Expr) → List Stamp
  | [] => []
  | i :: is => ArrayItem.stamps i ++ ArrayItem.stampsAll is
termination_by structural e => e

/-- The stamps of an entry. -/
def ArrayItem.stamps : ArrayItem Expr → List Stamp
  | ⟨origin, span, key, value, _, _⟩ => [⟨.arrayItem, origin, span⟩] ++ Expr.stampsOption key ++ Expr.stamps value
termination_by structural e => e

/-- The stamps of an expression that may be absent. -/
def Expr.stampsOption : Option Expr → List Stamp
  | none => []
  | some e => Expr.stamps e
termination_by structural e => e

end

theorem ArrayItem.stampsAll_eq (is : List (ArrayItem Expr)) : ArrayItem.stampsAll is = is.flatMap ArrayItem.stamps := by
  induction is with
  | nil => rfl
  | cons i is ih => rw [List.flatMap_cons, ← ih]; rfl

theorem ArrayLit.stamps_eq (a : ArrayLit Expr) :
    a.stamps = a.items.flatMap ArrayItem.stamps ++ [⟨.array, a.origin, a.span⟩] := by
  obtain ⟨origin, span, short, region, items⟩ := a
  rw [stamps, ArrayItem.stampsAll_eq]

/-! ### Stamps of members -/

def Name.stamps (n : Name) : List Stamp := [⟨.name, n.origin, n.span⟩]

/-- The stamp of a verbatim node that stands for something of the kind. -/
def Verbatim.stamps (kind : NodeKind) (v : Verbatim) : List Stamp := [⟨kind, v.origin, v.span⟩]

def ReturnStmt.stamps (r : ReturnStmt) : List Stamp := [⟨.returnStmt, r.origin, r.span⟩] ++ Expr.stampsOption r.expr

def BodyStmt.stamps : BodyStmt → List Stamp
  | .ret r => r.stamps
  | .other v => v.stamps .otherBodyStmt

def Block.stamps (b : Block) : List Stamp := [⟨.block, b.origin, b.span⟩] ++ b.stmts.flatMap BodyStmt.stamps

def TraitUse.stamps (c : TraitUse) : List Stamp := [⟨.traitUse, c.origin, c.span⟩] ++ c.names.flatMap Name.stamps

def PropertyItem.stamps (i : PropertyItem) : List Stamp :=
  [⟨.propertyItem, i.origin, i.span⟩] ++ Expr.stampsOption i.default

def Property.stamps (p : Property) : List Stamp :=
  [⟨.property, p.origin, p.span⟩] ++ p.items.flatMap PropertyItem.stamps

def Method.stamps (m : Method) : List Stamp :=
  [⟨.method, m.origin, m.span⟩] ++ (m.body.map Block.stamps).getD []

def Member.stamps : Member → List Stamp
  | .traitUse c => c.stamps
  | .property p => p.stamps
  | .method m => m.stamps
  | .other v => v.stamps .otherMember

/-! ### Stamps of statements and files -/

def ClassLike.stamps (c : ClassLike) : List Stamp :=
  [⟨.classLike, c.origin, c.span⟩] ++ c.parents.flatMap Name.stamps ++ c.interfaces.flatMap Name.stamps ++
    c.members.flatMap Member.stamps

def ImportItem.stamps (i : ImportItem) : List Stamp := i.name.stamps ++ [⟨.importItem, i.origin, i.span⟩]

def Import.stamps (d : Import) : List Stamp :=
  [⟨.imports, d.origin, d.span⟩] ++ (d.stem.map Name.stamps).getD [] ++ d.items.flatMap ImportItem.stamps

def Stmt.stamps : Stmt → List Stamp
  | .imports d => d.stamps
  | .classLike c => c.stamps
  | .ret r => r.stamps
  | .declare v => v.stamps .declare
  | .other v => v.stamps .otherStmt

def Namespace.stamps (n : Namespace) : List Stamp :=
  [⟨.ns, n.origin, n.span⟩] ++ (n.name.map Name.stamps).getD [] ++ n.stmts.flatMap Stmt.stamps

def TopStmt.stamps : TopStmt → List Stamp
  | .inside n => n.stamps
  | .plain s => s.stamps

def File.stamps (f : File) : List Stamp := [⟨.file, f.origin, f.span⟩] ++ f.stmts.flatMap TopStmt.stamps

/-! ### The origins of stamps -/

theorem map_origin_flatMap {α : Type} {k : α → List Stamp} {o : α → List (Option NodeId)}
    (h : ∀ a, (k a).map Stamp.origin = o a) (as : List α) : (as.flatMap k).map Stamp.origin = as.flatMap o := by
  rw [List.map_flatMap]
  exact congrArg (List.flatMap · as) (funext h)

theorem map_origin_getD {α : Type} {k : α → List Stamp} {o : α → List (Option NodeId)}
    (h : ∀ a, (k a).map Stamp.origin = o a) (a? : Option α) :
    ((a?.map k).getD []).map Stamp.origin = (a?.map o).getD [] := by
  cases a? with
  | none => rfl
  | some a => exact h a

mutual

theorem Expr.map_origin_stamps : (e : Expr) → e.stamps.map Stamp.origin = e.origins
  | .array a => ArrayLit.map_origin_stamps a
  | .string _ | .int _ | .float _ | .const _ | .other _ => rfl

theorem ArrayLit.map_origin_stamps : (a : ArrayLit Expr) → a.stamps.map Stamp.origin = a.origins
  | ⟨_, _, _, _, items⟩ => by
    rw [ArrayLit.stamps, List.map_append, ArrayItem.map_origin_stampsAll items]
    rfl

theorem ArrayItem.map_origin_stampsAll : (is : List (ArrayItem Expr)) →
    (ArrayItem.stampsAll is).map Stamp.origin = ArrayItem.originsAll is
  | [] => rfl
  | i :: is => by
    rw [ArrayItem.stampsAll, List.map_append, ArrayItem.map_origin_stamps i, ArrayItem.map_origin_stampsAll is]
    rfl

theorem ArrayItem.map_origin_stamps : (i : ArrayItem Expr) → i.stamps.map Stamp.origin = i.origins
  | ⟨_, _, key, value, _, _⟩ => by
    rw [ArrayItem.stamps, List.map_append, List.map_append, Expr.map_origin_stampsOption key,
      Expr.map_origin_stamps value]
    rfl

theorem Expr.map_origin_stampsOption : (e? : Option Expr) → (Expr.stampsOption e?).map Stamp.origin = Expr.originsOption e?
  | none => rfl
  | some e => Expr.map_origin_stamps e

end

theorem ReturnStmt.map_origin_stamps (r : ReturnStmt) : r.stamps.map Stamp.origin = r.origins := by
  rw [stamps, List.map_append, Expr.map_origin_stampsOption]
  rfl

theorem BodyStmt.map_origin_stamps (s : BodyStmt) : s.stamps.map Stamp.origin = s.origins := by
  cases s with
  | ret r => exact r.map_origin_stamps
  | other v => rfl

theorem Block.map_origin_stamps (b : Block) : b.stamps.map Stamp.origin = b.origins := by
  rw [stamps, List.map_append, map_origin_flatMap BodyStmt.map_origin_stamps]
  rfl

theorem PropertyItem.map_origin_stamps (i : PropertyItem) : i.stamps.map Stamp.origin = i.origins := by
  rw [stamps, List.map_append, Expr.map_origin_stampsOption]
  rfl

theorem Method.map_origin_stamps (m : Method) : m.stamps.map Stamp.origin = m.origins := by
  rw [stamps, List.map_append, map_origin_getD Block.map_origin_stamps]
  rfl

theorem Member.map_origin_stamps (m : Member) : m.stamps.map Stamp.origin = m.origins := by
  cases m with
  | traitUse c =>
    rw [stamps, TraitUse.stamps, List.map_append, map_origin_flatMap (o := Name.origins) fun _ => rfl]
    rfl
  | property p =>
    rw [stamps, Property.stamps, List.map_append, map_origin_flatMap PropertyItem.map_origin_stamps]
    rfl
  | method m => exact m.map_origin_stamps
  | other v => rfl

theorem ClassLike.map_origin_stamps (c : ClassLike) : c.stamps.map Stamp.origin = c.origins := by
  rw [stamps, List.map_append, List.map_append, List.map_append, map_origin_flatMap Member.map_origin_stamps,
    map_origin_flatMap (o := Name.origins) (fun _ => rfl), map_origin_flatMap (o := Name.origins) fun _ => rfl]
  rfl

theorem Import.map_origin_stamps (d : Import) : d.stamps.map Stamp.origin = d.origins := by
  rw [stamps, List.map_append, List.map_append, map_origin_getD (o := Name.origins) (fun _ => rfl),
    map_origin_flatMap (o := ImportItem.origins) fun _ => rfl]
  rfl

theorem Stmt.map_origin_stamps (s : Stmt) : s.stamps.map Stamp.origin = s.origins := by
  cases s with
  | imports d => exact d.map_origin_stamps
  | classLike c => exact c.map_origin_stamps
  | ret r => exact r.map_origin_stamps
  | declare v => rfl
  | other v => rfl

theorem TopStmt.map_origin_stamps (s : TopStmt) : s.stamps.map Stamp.origin = s.origins := by
  cases s with
  | inside n =>
    rw [stamps, Namespace.stamps, List.map_append, List.map_append, map_origin_getD (o := Name.origins) (fun _ => rfl),
      map_origin_flatMap Stmt.map_origin_stamps]
    rfl
  | plain s => exact s.map_origin_stamps

theorem File.map_origin_stamps (f : File) : f.stamps.map Stamp.origin = f.origins := by
  rw [stamps, List.map_append, map_origin_flatMap TopStmt.map_origin_stamps]
  rfl

/-! ### Linked stamps -/

/-- No stamp that is not blank is in `xs` more often than in `ys`. -/
def Linked (xs ys : List Stamp) : Prop := ∀ s, ¬s.IsBlank → xs.count s ≤ ys.count s

namespace Linked

variable {xs ys zs : List Stamp}

theorem refl (xs : List Stamp) : Linked xs xs := fun _ _ => Nat.le_refl _

theorem trans (h : Linked xs ys) (h' : Linked ys zs) : Linked xs zs :=
  fun s hs => Nat.le_trans (h s hs) (h' s hs)

theorem of_sublist (h : xs.Sublist ys) : Linked xs ys := fun s _ => h.count_le s

theorem append {xs' ys' : List Stamp} (h : Linked xs ys) (h' : Linked xs' ys') : Linked (xs ++ xs') (ys ++ ys') := by
  intro s hs
  rw [List.count_append, List.count_append]
  exact Nat.add_le_add (h s hs) (h' s hs)

/-- What is new in the middle is new. -/
theorem around (new : List Stamp) (h : Linked xs (new ++ ys)) (l r : List Stamp) : Linked (l ++ xs ++ r) (new ++ (l ++ ys ++ r)) := by
  intro s hs
  have hcount := h s hs
  simp only [List.count_append] at hcount ⊢
  omega

/-- Blank stamps are linked to nothing. -/
theorem of_blank (h : ∀ s ∈ xs, s.IsBlank) : Linked xs [] := by
  intro s hs
  rw [List.count_eq_zero.2 fun hmem => hs (h s hmem)]
  exact Nat.zero_le _

theorem of_nil (h : Linked xs []) (ys : List Stamp) : Linked xs ys := h.trans (of_sublist (List.nil_sublist ys))

/-- A stamp is blank or a stamp of the other list. -/
theorem mem (h : Linked xs ys) {s : Stamp} (hs : s ∈ xs) : s.IsBlank ∨ s ∈ ys := by
  by_cases hblank : s.IsBlank
  · exact .inl hblank
  · exact .inr (List.count_pos_iff.1 (Nat.lt_of_lt_of_le (List.count_pos_iff.2 hs) (h s hblank)))

variable {α : Type} {k : α → List Stamp}

/-- The first accepted element is changed. -/
theorem flatMap_updateFirst? (new : List Stamp) {f : α → Option α} (h : ∀ a b, f a = some b → Linked (k b) (new ++ k a))
    {as bs : List α} (hbs : updateFirst? f as = some bs) : Linked (bs.flatMap k) (new ++ as.flatMap k) := by
  obtain ⟨l, a, b, r, rfl, rfl, hab, -⟩ := updateFirst?_eq_some_iff.1 hbs
  have haround := (h a b hab).around new (l.flatMap k) (r.flatMap k)
  simpa only [List.flatMap_append, List.flatMap_cons, List.append_assoc] using haround

theorem flatMap_updateFirst {f : α → Option α} (h : ∀ a b, f a = some b → Linked (k b) (k a)) (as : List α) :
    Linked ((updateFirst f as).flatMap k) (as.flatMap k) := by
  unfold updateFirst
  cases hbs : updateFirst? f as with
  | none => exact refl _
  | some bs => exact flatMap_updateFirst? [] h hbs

/-- Elements are taken away and others are changed. -/
theorem flatMap_filterMap {w : α → Option α} (h : ∀ a b, w a = some b → Linked (k b) (k a)) (as : List α) :
    Linked ((as.filterMap w).flatMap k) (as.flatMap k) := by
  induction as with
  | nil => exact refl _
  | cons a as ih =>
    rw [List.flatMap_cons]
    cases hab : w a with
    | none =>
      rw [List.filterMap_cons_none hab]
      exact ih.trans (of_sublist (List.sublist_append_right _ _))
    | some b =>
      rw [List.filterMap_cons_some hab, List.flatMap_cons]
      exact (h a b hab).append ih

theorem flatMap_sublist {as bs : List α} (h : as.Sublist bs) : Linked (as.flatMap k) (bs.flatMap k) :=
  of_sublist (h.flatMap k)

/-- Ids that are different stay different: blank stamps have none. -/
theorem nodup_origins (h : Linked xs ys) (hnodup : (ys.filterMap Stamp.origin).Nodup) :
    (xs.filterMap Stamp.origin).Nodup := by
  have hread : ∀ zs : List Stamp, (zs.filter fun s => s.origin.isSome).filterMap Stamp.origin = zs.filterMap Stamp.origin := by
    intro zs
    rw [List.filterMap_filter]
    refine congrArg (List.filterMap · zs) (funext fun s => ?_)
    cases s.origin <;> rfl
  -- Stamps with an id are not blank, so they occur in `xs` at most as often as in `ys`.
  have hsubperm : (xs.filter fun s => s.origin.isSome).Subperm ys := by
    refine List.subperm_ext_iff.2 fun s hs => ?_
    obtain ⟨-, hsome⟩ := List.mem_filter.1 hs
    rw [List.count_filter (p := fun s : Stamp => s.origin.isSome) hsome]
    exact h s fun hblank => by rw [hblank.1] at hsome; cases hsome
  obtain ⟨zs, hperm, hsub⟩ := hsubperm
  have horigins := hperm.filterMap Stamp.origin
  rw [hread] at horigins
  exact horigins.nodup_iff.1 (hnodup.sublist (hsub.filterMap Stamp.origin))

end Linked

end Graft
