/-
Trees that edits make of trees.

A revision of a node keeps its id, its place and its kind; of its lists, each element was built by an edit or is a
revision of an element that was there.  What edits build was not read from text, and its texts hold no line break;
members may also be brought from snippets, whose ids begin at a given one.

* `Drawn` — lists that are drawn from lists, and what can be done to them;
* `Expr.Revises`, …, `File.Revises` — revisions;
* `Expr.Revises.place`, …, `TopStmt.Revises.place` — they keep their places;
* `Expr.revises_refl`, …, `File.revises_refl` — every tree is a revision of itself.
-/
import Graft.Tree.File

namespace Graft

/-! ### Lists -/

/-- Every element was built or revises an element of the other list. -/
def Drawn {α : Type} (built : α → Prop) (revises : α → α → Prop) (ws rs : List α) : Prop :=
  ∀ w ∈ ws, built w ∨ ∃ r ∈ rs, revises w r

/-- No element is built. -/
def Unbuilt {α : Type} (_ : α) : Prop := False

/-- `w` may take the place of `v`: it was built if that one was, and it revises what that one revises. -/
def Follows {α : Type} (built : α → Prop) (revises : α → α → Prop) (v w : α) : Prop :=
  (built v → built w) ∧ ∀ r, revises v r → revises w r

namespace Drawn

variable {α : Type} {built : α → Prop} {revises : α → α → Prop} {vs ws rs : List α}

theorem refl (h : ∀ a ∈ rs, revises a a) : Drawn built revises rs rs := fun w hw => .inr ⟨w, hw, h w hw⟩

theorem of_subset (h : Drawn built revises vs rs) (hsub : ws ⊆ vs) : Drawn built revises ws rs :=
  fun w hw => h w (hsub hw)

/-- An element that follows one that is drawn is drawn. -/
theorem follow (h : Drawn built revises vs rs) {v w : α} (hv : v ∈ vs) (hw : Follows built revises v w) :
    built w ∨ ∃ r ∈ rs, revises w r := by
  rcases h v hv with hbuilt | ⟨r, hr, hrevises⟩
  · exact .inl (hw.1 hbuilt)
  · exact .inr ⟨r, hr, hw.2 r hrevises⟩

/-- Every element is one of a drawn list, or was built, or follows an element of that list. -/
theorem step (h : Drawn built revises vs rs)
    (hws : ∀ w ∈ ws, w ∈ vs ∨ built w ∨ ∃ v ∈ vs, Follows built revises v w) : Drawn built revises ws rs := by
  intro w hw
  rcases hws w hw with hmem | hbuilt | ⟨v, hv, hfollows⟩
  · exact h w hmem
  · exact .inl hbuilt
  · exact h.follow hv hfollows

theorem append (h : Drawn built revises vs rs) (hws : ∀ w ∈ ws, built w) : Drawn built revises (vs ++ ws) rs := by
  refine h.step fun w hw => ?_
  rcases List.mem_append.1 hw with hw | hw
  · exact .inl hw
  · exact .inr (.inl (hws w hw))

theorem updateFirst? (h : Drawn built revises vs rs) {g : α → Option α}
    (hg : ∀ v w, g v = some w → Follows built revises v w) (hws : Graft.updateFirst? g vs = some ws) :
    Drawn built revises ws rs := by
  obtain ⟨l, a, b, r, rfl, rfl, hab, -⟩ := updateFirst?_eq_some_iff.1 hws
  refine h.step fun w hw => ?_
  rcases List.mem_append.1 hw with hl | hr
  · exact .inl (List.mem_append_left _ hl)
  · rcases List.mem_cons.1 hr with rfl | hr
    · exact .inr (.inr ⟨a, List.mem_append_right _ List.mem_cons_self, hg a w hab⟩)
    · exact .inl (List.mem_append_right _ (List.mem_cons_of_mem _ hr))

/-- A list that may be there, or another one in its stead. -/
theorem getD {o : Option (List α)} (hsome : ∀ ws, o = some ws → Drawn built revises ws rs)
    (hnone : Drawn built revises vs rs) : Drawn built revises (o.getD vs) rs := by
  cases o with
  | none => exact hnone
  | some ws => exact hsome ws rfl

theorem updateFirst (h : Drawn built revises vs rs) {g : α → Option α}
    (hg : ∀ v w, g v = some w → Follows built revises v w) : Drawn built revises (Graft.updateFirst g vs) rs :=
  getD (fun _ => h.updateFirst? hg) h

theorem filterMap (h : Drawn built revises vs rs) {g : α → Option α}
    (hg : ∀ v w, g v = some w → Follows built revises v w) : Drawn built revises (vs.filterMap g) rs := by
  refine h.step fun w hw => ?_
  obtain ⟨v, hv, hvw⟩ := List.mem_filterMap.1 hw
  exact .inr (.inr ⟨v, hv, hg v w hvw⟩)

end Drawn

/-! ### Texts that edits write -/

/-- The text holds no line break. -/
def Text.OneLine (t : Text) : Prop := '\n' ∉ t

instance (t : Text) : Decidable t.OneLine := inferInstanceAs (Decidable (_ ∉ _))

/-! ### Expressions -/

mutual

/-- The expression was built by an edit. -/
def Expr.Built : Expr → Prop
  | .array a => ArrayLit.Built a
  | .string e => e.origin = none ∧ e.value.OneLine
  | .int e => e.origin = none
  | .float e => e.origin = none
  | .const e => e.origin = none ∧ e.text.OneLine
  | .other _ => False
termination_by structural e => e

/-- The array was built by an edit. -/
def ArrayLit.Built : ArrayLit Expr → Prop
  | ⟨origin, _, _, _, items⟩ => origin = none ∧ ArrayItem.BuiltAll items
termination_by structural e => e

/-- The entries were built by edits. -/
def ArrayItem.BuiltAll : List (ArrayItem Expr) → Prop
  | [] => True
  | i :: is => ArrayItem.Built i ∧ ArrayItem.BuiltAll is
termination_by structural e => e

/-- The entry was built by an edit. -/
def ArrayItem.Built : ArrayItem Expr → Prop
  | ⟨origin, _, key, value, _, _⟩ => origin = none ∧ Expr.BuiltKey key ∧ Expr.Built value
termination_by structural e => e

/-- The key was built by an edit, if there is one. -/
def Expr.BuiltKey : Option Expr → Prop
  | none => True
  | some e => Expr.Built e
termination_by structural e => e

end

mutual

/-- The expression is an array that revises an array, or as it was. -/
def Expr.Revises : Expr → Expr → Prop
  | .array a, r => match r with
    | .array b => ArrayLit.Revises a b
    | _ => False
  | w, r => w = r
termination_by structural e => e

/-- The array has other entries. -/
def ArrayLit.Revises : ArrayLit Expr → ArrayLit Expr → Prop
  | ⟨origin, span, short, region, items⟩, r =>
    origin = r.origin ∧ span = r.span ∧ short = r.short ∧ region = r.itemsRegion ∧ ArrayItem.DrawnAll items r.items
termination_by structural e => e

/-- The entries are drawn from other ones. -/
def ArrayItem.DrawnAll : List (ArrayItem Expr) → List (ArrayItem Expr) → Prop
  | [], _ => True
  | i :: is, rs => (ArrayItem.Built i ∨ ∃ r ∈ rs, ArrayItem.Revises i r) ∧ ArrayItem.DrawnAll is rs
termination_by structural e => e

/-- The entry has another value. -/
def ArrayItem.Revises : ArrayItem Expr → ArrayItem Expr → Prop
  | ⟨origin, span, key, value, byRef, unpack⟩, r =>
    origin = r.origin ∧ span = r.span ∧ key = r.key ∧ byRef = r.byRef ∧ unpack = r.unpack ∧
      (Expr.Built value ∨ Expr.Revises value r.value)
termination_by structural e => e

end

theorem Expr.Built.origin_eq_none {e : Expr} (h : e.Built) : e.origin = none := by
  cases e with
  | array a =>
    cases a
    exact h.1
  | string e => exact h.1
  | int e => exact h
  | float e => exact h
  | const e => exact h.1
  | other e => exact h.elim

theorem ArrayItem.Built.origin_eq_none {i : ArrayItem Expr} (h : i.Built) : i.origin = none := by
  cases i
  exact h.1

theorem ArrayItem.builtAll_iff {is : List (ArrayItem Expr)} : ArrayItem.BuiltAll is ↔ ∀ i ∈ is, i.Built := by
  induction is with
  | nil => simp [ArrayItem.BuiltAll]
  | cons i is ih => simp only [ArrayItem.BuiltAll, ih, List.forall_mem_cons]

theorem ArrayItem.drawnAll_iff {is rs : List (ArrayItem Expr)} :
    ArrayItem.DrawnAll is rs ↔ Drawn ArrayItem.Built ArrayItem.Revises is rs := by
  induction is with
  | nil => simp [ArrayItem.DrawnAll, Drawn]
  | cons i is ih => simp only [ArrayItem.DrawnAll, ih, Drawn, List.forall_mem_cons]

theorem ArrayLit.built_iff {a : ArrayLit Expr} : a.Built ↔ a.origin = none ∧ ∀ i ∈ a.items, i.Built := by
  cases a
  rw [ArrayLit.Built, ArrayItem.builtAll_iff]

theorem ArrayLit.revises_iff {w r : ArrayLit Expr} :
    w.Revises r ↔ w = { r with items := w.items } ∧ Drawn ArrayItem.Built ArrayItem.Revises w.items r.items := by
  cases w
  rw [ArrayLit.Revises, ArrayItem.drawnAll_iff]
  simp only [ArrayLit.mk.injEq, and_true, and_assoc]

theorem ArrayItem.revises_iff {w r : ArrayItem Expr} :
    w.Revises r ↔ w = { r with value := w.value } ∧ (w.value.Built ∨ w.value.Revises r.value) := by
  cases w
  rw [ArrayItem.Revises]
  simp only [ArrayItem.mk.injEq, true_and, and_assoc]

mutual

/-- Every expression revises itself. -/
theorem Expr.revises_refl : ∀ e : Expr, e.Revises e
  | .array a => ArrayLit.revises_refl a
  | .string _ => rfl
  | .int _ => rfl
  | .float _ => rfl
  | .const _ => rfl
  | .other _ => rfl

theorem ArrayLit.revises_refl : ∀ a : ArrayLit Expr, a.Revises a
  | ⟨_, _, _, _, items⟩ => ⟨rfl, rfl, rfl, rfl, ArrayItem.drawnAll_iff.2 (.refl (ArrayItem.revises_refl_all items))⟩

theorem ArrayItem.revises_refl_all : ∀ is : List (ArrayItem Expr), ∀ i ∈ is, i.Revises i
  | [], _, h => nomatch h
  | i :: is, j, h => (List.mem_cons.1 h).elim (fun h => h ▸ ArrayItem.revises_refl i)
      (ArrayItem.revises_refl_all is j)

theorem ArrayItem.revises_refl : ∀ i : ArrayItem Expr, i.Revises i
  | ⟨_, _, _, value, _, _⟩ => ⟨rfl, rfl, rfl, rfl, rfl, .inr (Expr.revises_refl value)⟩

end

/-! ### Parts of members -/

def Name.Built (n : Name) : Prop := n.origin = none ∧ n.text.OneLine

/-- The value revises the one that was there. -/
def Expr.RevisesOption (w r : Option Expr) : Prop := ∀ e, w = some e → ∃ e', r = some e' ∧ e.Revises e'

def ReturnStmt.Revises (w r : ReturnStmt) : Prop := w = { r with expr := w.expr } ∧ Expr.RevisesOption w.expr r.expr

def BodyStmt.Revises : BodyStmt → BodyStmt → Prop
  | .ret w, .ret r => w.Revises r
  | w, r => w = r

def Block.Revises (w r : Block) : Prop :=
  w = { r with stmts := w.stmts } ∧ Drawn Unbuilt BodyStmt.Revises w.stmts r.stmts

def PropertyItem.Revises (w r : PropertyItem) : Prop :=
  w = { r with default := w.default } ∧ Expr.RevisesOption w.default r.default

/-! ### Members -/

def TraitUse.Built (c : TraitUse) : Prop := c.origin = none ∧ ∀ n ∈ c.names, n.Built

def TraitUse.Revises (w r : TraitUse) : Prop := w = { r with names := w.names } ∧ Drawn Name.Built Eq w.names r.names

def Property.Revises (w r : Property) : Prop :=
  w = { r with items := w.items } ∧ Drawn Unbuilt PropertyItem.Revises w.items r.items

def Method.Revises (w r : Method) : Prop :=
  w = { r with body := w.body } ∧ ∀ b, w.body = some b → ∃ b', r.body = some b' ∧ b.Revises b'

/-- The member was brought from a snippet, or it is a clause that was built. -/
def Member.Built (n : NodeId) (m : Member) : Prop :=
  (∃ i, m.origin = some i ∧ n ≤ i) ∨ ∃ c, m = .traitUse c ∧ c.Built

def Member.Revises : Member → Member → Prop
  | .traitUse w, .traitUse r => w.Revises r
  | .property w, .property r => w.Revises r
  | .method w, .method r => w.Revises r
  | w, r => w = r

/-! ### Statements and files -/

def ClassLike.Revises (n : NodeId) (w r : ClassLike) : Prop :=
  w = { r with interfaces := w.interfaces, members := w.members } ∧ Drawn Name.Built Eq w.interfaces r.interfaces ∧
    Drawn (Member.Built n) Member.Revises w.members r.members

/-- The import of one name. -/
def Import.Built (d : Import) : Prop := ∃ name : Text, name.OneLine ∧ d = .fresh name

def Import.Revises (w r : Import) : Prop := w = { r with items := w.items } ∧ Drawn Unbuilt Eq w.items r.items

def Stmt.Built (s : Stmt) : Prop := ∃ d, s = .imports d ∧ d.Built

def Stmt.Revises (n : NodeId) : Stmt → Stmt → Prop
  | .imports w, .imports r => w.Revises r
  | .classLike w, .classLike r => w.Revises n r
  | .ret w, .ret r => w.Revises r
  | w, r => w = r

def Namespace.Revises (n : NodeId) (w r : Namespace) : Prop :=
  w = { r with stmts := w.stmts } ∧ Drawn Stmt.Built (Stmt.Revises n) w.stmts r.stmts

def TopStmt.Built (s : TopStmt) : Prop := ∃ t, s = .plain t ∧ t.Built

def TopStmt.Revises (n : NodeId) : TopStmt → TopStmt → Prop
  | .inside w, .inside r => w.Revises n r
  | .plain w, .plain r => w.Revises n r
  | _, _ => False

def File.Revises (n : NodeId) (w r : File) : Prop :=
  w = { r with stmts := w.stmts } ∧ Drawn TopStmt.Built (TopStmt.Revises n) w.stmts r.stmts

/-! ### Revisions keep their places -/

section Place

theorem Expr.Revises.place {w r : Expr} (h : w.Revises r) : w.origin = r.origin ∧ w.span = r.span := by
  cases w with
  | array a =>
    cases r with
    | array b =>
      cases a
      exact ⟨h.1, h.2.1⟩
    | _ => exact h.elim
  | _ =>
    have heq := h
    cases heq
    exact ⟨rfl, rfl⟩

theorem ArrayItem.Revises.place {w r : ArrayItem Expr} (h : w.Revises r) : w.origin = r.origin ∧ w.span = r.span := by
  cases w
  exact ⟨h.1, h.2.1⟩

theorem BodyStmt.Revises.place {w r : BodyStmt} (h : w.Revises r) : w.origin = r.origin ∧ w.span = r.span := by
  cases w with
  | ret w =>
    cases r with
    | ret r => exact ⟨(congrArg ReturnStmt.origin h.1 :), (congrArg ReturnStmt.span h.1 :)⟩
    | other v => cases h
  | other v =>
    cases h
    exact ⟨rfl, rfl⟩

theorem Member.Revises.place {w r : Member} (h : w.Revises r) : w.origin = r.origin ∧ w.span = r.span := by
  cases w with
  | traitUse w =>
    cases r with
    | traitUse r => exact ⟨(congrArg TraitUse.origin h.1 :), (congrArg TraitUse.span h.1 :)⟩
    | _ => cases h
  | property w =>
    cases r with
    | property r => exact ⟨(congrArg Property.origin h.1 :), (congrArg Property.span h.1 :)⟩
    | _ => cases h
  | method w =>
    cases r with
    | method r => exact ⟨(congrArg Method.origin h.1 :), (congrArg Method.span h.1 :)⟩
    | _ => cases h
  | other v =>
    cases h
    exact ⟨rfl, rfl⟩

variable {n : NodeId}

theorem Stmt.Revises.place {w r : Stmt} (h : w.Revises n r) : w.origin = r.origin ∧ w.span = r.span := by
  cases w with
  | imports w =>
    cases r with
    | imports r => exact ⟨(congrArg Import.origin h.1 :), (congrArg Import.span h.1 :)⟩
    | _ => cases h
  | classLike w =>
    cases r with
    | classLike r => exact ⟨(congrArg ClassLike.origin h.1 :), (congrArg ClassLike.span h.1 :)⟩
    | _ => cases h
  | ret w =>
    cases r with
    | ret r => exact ⟨(congrArg ReturnStmt.origin h.1 :), (congrArg ReturnStmt.span h.1 :)⟩
    | _ => cases h
  | declare v =>
    cases h
    exact ⟨rfl, rfl⟩
  | other v =>
    cases h
    exact ⟨rfl, rfl⟩

theorem TopStmt.Revises.place {w r : TopStmt} (h : w.Revises n r) : w.origin = r.origin ∧ w.span = r.span := by
  cases w with
  | inside w =>
    cases r with
    | inside r => exact ⟨(congrArg Namespace.origin h.1 :), (congrArg Namespace.span h.1 :)⟩
    | plain r => exact h.elim
  | plain w =>
    cases r with
    | inside r => exact h.elim
    | plain r => exact Stmt.Revises.place h

end Place

/-! ### Every tree revises itself -/

section Refl

variable {n : NodeId}

theorem Expr.revisesOption_refl (o : Option Expr) : Expr.RevisesOption o o := fun e he => ⟨e, he, e.revises_refl⟩

theorem ReturnStmt.revises_refl (r : ReturnStmt) : r.Revises r := ⟨rfl, Expr.revisesOption_refl _⟩

theorem BodyStmt.revises_refl (s : BodyStmt) : s.Revises s := by
  cases s with
  | ret r => exact r.revises_refl
  | other v => rfl

theorem Block.revises_refl (b : Block) : b.Revises b := ⟨rfl, .refl fun s _ => s.revises_refl⟩

theorem PropertyItem.revises_refl (i : PropertyItem) : i.Revises i := ⟨rfl, Expr.revisesOption_refl _⟩

theorem Member.revises_refl (m : Member) : m.Revises m := by
  cases m with
  | traitUse c => exact ⟨rfl, .refl fun _ _ => rfl⟩
  | property p => exact ⟨rfl, .refl fun i _ => i.revises_refl⟩
  | method m => exact ⟨rfl, fun b hb => ⟨b, hb, b.revises_refl⟩⟩
  | other v => rfl

theorem ClassLike.revises_refl (c : ClassLike) : c.Revises n c :=
  ⟨rfl, .refl fun _ _ => rfl, .refl fun m _ => m.revises_refl⟩

theorem Stmt.revises_refl (s : Stmt) : s.Revises n s := by
  cases s with
  | imports d => exact ⟨rfl, .refl fun _ _ => rfl⟩
  | classLike c => exact c.revises_refl
  | ret r => exact r.revises_refl
  | declare v => rfl
  | other v => rfl

theorem TopStmt.revises_refl (s : TopStmt) : s.Revises n s := by
  cases s with
  | inside ns => exact ⟨rfl, .refl fun s _ => s.revises_refl⟩
  | plain s => exact s.revises_refl

theorem File.revises_refl (f : File) : f.Revises n f := ⟨rfl, .refl fun s _ => s.revises_refl⟩

end Refl

end Graft
