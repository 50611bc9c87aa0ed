/-
The splices of a printed file.

A changed node is printed as its text with patches put into it, and so is every changed node in one of the patches.
Here each node is printed together with the splices that are made for it, down to the values of entries, and the text
is the one that is printed without them.  Patches that stand within a node and apart from each other, between cuts of
the text, are all applied, and in whatever order they were collected the text between them is kept.

* `Splicing.Sound.kept` — splices of which no patch is left out;
* `Traced` — a text with the splices that were made for it;
* `File.trace`, `File.value_trace` — a file with its splices.
-/
import Mathlib.Data.List.Pairwise
import Graft.Proofs.Print.Around
import Graft.Proofs.Print.Frame

namespace Graft

/-! ### Patches of a node -/

/-- One of the spans ends where the other one begins or before, and they do not begin at one offset. -/
def Span.Apart (s t : Span) : Prop := s.start ≠ t.start ∧ (s.stop ≤ t.start ∨ t.stop ≤ s.start)

theorem Span.Apart.symm {s t : Span} (h : s.Apart t) : t.Apart s := ⟨h.1.symm, h.2.symm⟩

/-- The spans of the patches are apart from each other. -/
def Patch.Apart (p q : Patch) : Prop := p.span.Apart q.span

instance : Std.Symm Patch.Apart := ⟨fun _ _ => Span.Apart.symm⟩

/-- The patch that puts back what stands at its span. -/
def Patch.undo (t : Text) (p : Patch) : Patch := ⟨p.span, t.slice p.span.start p.span.stop⟩

/-- Patches that are sorted and apart from each other stand in order. -/
theorem inOrder_of_sorted {x y : Nat} {ps : List Patch} (hxy : x ≤ y) (hwithin : ∀ p ∈ ps, p.span.Within ⟨x, y⟩)
    (hapart : ps.Pairwise Patch.Apart)
    (hsorted : ps.Pairwise fun p q => decide (p.span.start ≤ q.span.start) = true) : InOrder y x ps := by
  induction ps generalizing x with
  | nil => exact hxy
  | cons p ps ih =>
    obtain ⟨happ, hapart⟩ := List.pairwise_cons.1 hapart
    obtain ⟨hle, hsorted⟩ := List.pairwise_cons.1 hsorted
    obtain ⟨h₁, h₂, h₃⟩ := hwithin p List.mem_cons_self
    refine ⟨h₁, h₂, ih h₃ (fun q hq => ?_) hapart hsorted⟩
    obtain ⟨-, h₄, h₅⟩ := hwithin q (List.mem_cons_of_mem p hq)
    obtain ⟨hne, hstop⟩ := happ q hq
    have hstart := of_decide_eq_true (hle q hq)
    -- A patch that ended where `p` begins would begin there too.
    have hbehind : p.span.stop ≤ q.span.start := by omega
    exact ⟨hbehind, h₄, h₅⟩

/-- Patches that stand in order between cuts give the text back when each of them puts back what is there. -/
theorem stitch_undo {t : Text} {x y : Nat} {ps : List Patch} (hxy : t.Runs x y) (horder : InOrder y x ps)
    (hcuts : ∀ p ∈ ps, t.IsCut p.span.start ∧ t.IsCut p.span.stop) :
    stitch t y x (ps.map (Patch.undo t)) = t.slice x y := by
  induction ps generalizing x with
  | nil => rfl
  | cons p ps ih =>
    obtain ⟨h₁, h₂, hrest⟩ := horder
    obtain ⟨⟨hstart, hstop⟩, hcuts⟩ := List.forall_mem_cons.1 hcuts
    have hfront : t.Runs x p.span.start := ⟨hxy.1, hstart, h₁⟩
    have hpatch : t.Runs p.span.start p.span.stop := ⟨hstart, hstop, h₂⟩
    have hback : t.Runs p.span.stop y := ⟨hstop, hxy.2.1, hrest.le⟩
    show t.slice x p.span.start ++ t.slice p.span.start p.span.stop ++ stitch t y p.span.stop (ps.map (Patch.undo t)) =
      t.slice x y
    rw [ih hback hrest hcuts, hfront.slice_append hpatch, (hfront.trans hpatch).slice_append hback]

/-- Sorted patches come by their starts. -/
theorem pairwise_sortPatches (ps : List Patch) :
    (sortPatches ps).Pairwise fun p q => decide (p.span.start ≤ q.span.start) = true := by
  refine pairwise_sortBy (fun p q => ?_) (fun p q r hpq hqr => ?_) ps
  · simp only [decide_eq_true_eq]
    omega
  · simp only [decide_eq_true_eq] at *
    omega

/-- Patches of which no two begin at one offset are sorted alike in whatever order they come. -/
theorem sortPatches_of_perm {ps qs : List Patch} (hapart : ps.Pairwise Patch.Apart) (h : qs.Perm ps) :
    sortPatches qs = sortPatches ps := by
  have hperm : (sortPatches qs).Perm (sortPatches ps) := ((sortBy_perm _ qs).trans h).trans (sortBy_perm _ ps).symm
  refine hperm.eq_of_pairwise (fun p q hp hq hpq hqp => ?_) (pairwise_sortPatches qs) (pairwise_sortPatches ps)
  have hp : p ∈ ps := h.mem_iff.1 (mem_sortBy.1 hp)
  have hq : q ∈ ps := mem_sortBy.1 hq
  simp only [decide_eq_true_eq] at hpq hqp
  by_contra hne
  exact (hapart.forall hp hq hne).1 (Nat.le_antisymm hpq hqp)

/-- The span of a node and the patches that were collected for it. -/
structure Splicing where
  span : Span
  patches : List Patch

namespace Splicing

/-- The patches stand within the node and apart from each other, between cuts of the text. -/
structure Sound (t : Text) (s : Splicing) : Prop where
  node : t.Runs s.span.start s.span.stop
  within : ∀ q ∈ s.patches, q.span.Within s.span
  cuts : ∀ q ∈ s.patches, t.IsCut q.span.start ∧ t.IsCut q.span.stop
  apart : s.patches.Pairwise Patch.Apart

/-- When the patches of the node are collected in the order `qs`, each of them stands within the node between cuts of
the text; sorted, they do not overlap and none of them is left out.  The node is printed with the text of each patch
at the span of the patch, and with all else that stands in it. -/
structure Kept (t : Text) (s : Splicing) (qs : List Patch) : Prop where
  node : t.Runs s.span.start s.span.stop
  within : ∀ q ∈ qs, q.span.Within s.span
  cuts : ∀ q ∈ qs, t.IsCut q.span.start ∧ t.IsCut q.span.stop
  sorted : sortPatches qs = sortPatches s.patches
  inOrder : InOrder s.span.stop s.span.start (sortPatches qs)
  applied : appliedPatches s.span.start s.span.stop (sortPatches qs) = sortPatches qs
  before : t.slice s.span.start s.span.stop = stitch t s.span.stop s.span.start ((sortPatches qs).map (Patch.undo t))
  after : splice t s.span qs = stitch t s.span.stop s.span.start (sortPatches qs)

variable {t : Text} {s : Splicing}

namespace Sound

theorem nil {node : Span} (h : t.Runs node.start node.stop) : Sound t ⟨node, []⟩ := ⟨h, nofun, nofun, .nil⟩

theorem singleton {node q : Span} (h : t.Runs node.start node.stop) (hq : t.Runs q.start q.stop) (hin : q.Within node)
    (text : Text) : Sound t ⟨node, [⟨q, text⟩]⟩ where
  node := h
  within := List.forall_mem_singleton.2 hin
  cuts := List.forall_mem_singleton.2 ⟨hq.1, hq.2.1⟩
  apart := List.pairwise_singleton _ _

/-- The patches of two parts of a node. -/
theorem append {node : Span} {ps qs : List Patch} (hp : Sound t ⟨node, ps⟩) (hq : Sound t ⟨node, qs⟩)
    (hapart : ∀ p ∈ ps, ∀ q ∈ qs, p.Apart q) : Sound t ⟨node, ps ++ qs⟩ where
  node := hp.node
  within := List.forall_mem_append.2 ⟨hp.within, hq.within⟩
  cuts := List.forall_mem_append.2 ⟨hp.cuts, hq.cuts⟩
  apart := List.pairwise_append.2 ⟨hp.apart, hq.apart, hapart⟩

end Sound

/-- No patch of a sound splice is left out, in whatever order they were collected. -/
theorem Sound.kept (h : s.Sound t) {qs : List Patch} (hqs : qs.Perm s.patches) : s.Kept t qs := by
  have hwithin : ∀ q ∈ qs, q.span.Within s.span := fun q hq => h.within q (hqs.mem_iff.1 hq)
  have hcuts : ∀ q ∈ qs, t.IsCut q.span.start ∧ t.IsCut q.span.stop := fun q hq => h.cuts q (hqs.mem_iff.1 hq)
  have hperm : (sortPatches qs).Perm s.patches := (sortBy_perm _ qs).trans hqs
  have hapart : (sortPatches qs).Pairwise Patch.Apart := hperm.symm.pairwise h.apart fun h => Span.Apart.symm h
  have horder : InOrder s.span.stop s.span.start (sortPatches qs) :=
    inOrder_of_sorted h.node.2.2 (fun q hq => hwithin q (mem_sortBy.1 hq)) hapart (pairwise_sortPatches qs)
  have happlied := appliedPatches_of_inOrder horder
  have hbefore := stitch_undo h.node horder fun q hq => hcuts q (mem_sortBy.1 hq)
  refine ⟨h.node, hwithin, hcuts, sortPatches_of_perm h.apart hqs, horder, happlied, hbefore.symm, ?_⟩
  rw [splice, applyPatches_eq_stitch, happlied]

end Splicing

/-! ### Texts with their splices -/

/-- What is printed, with the splices that were made for it. -/
structure Traced (α : Type) where
  value : α
  made : List Splicing

namespace Traced

variable {α β : Type} {t : Text}

instance : Monad Traced where
  pure a := ⟨a, []⟩
  bind x f := ⟨(f x.value).value, x.made ++ (f x.value).made⟩

/-- The text at `span` with patches applied. -/
def splice (t : Text) (span : Span) (patches : List Patch) : Traced Text :=
  ⟨Graft.splice t span patches, [⟨span, patches⟩]⟩

/-- What is printed for each element of a list. -/
def each (f : α → Traced β) (as : List α) : Traced (List β) :=
  ⟨as.map fun a => (f a).value, as.flatMap fun a => (f a).made⟩

@[simp] theorem value_pure (a : α) : (pure a : Traced α).value = a := rfl

@[simp] theorem value_bind (x : Traced α) (f : α → Traced β) : (x >>= f).value = (f x.value).value := rfl

@[simp] theorem value_splice (span : Span) (patches : List Patch) :
    (splice t span patches).value = Graft.splice t span patches := rfl

/-- All splices that were made are sound. -/
def Sound (t : Text) (x : Traced α) : Prop := ∀ s ∈ x.made, s.Sound t

theorem sound_pure (a : α) : (pure a : Traced α).Sound t := nofun

theorem Sound.bind {x : Traced α} {f : α → Traced β} (hx : x.Sound t) (hf : (f x.value).Sound t) :
    (x >>= f).Sound t := List.forall_mem_append.2 ⟨hx, hf⟩

theorem sound_each {f : α → Traced β} {as : List α} (h : ∀ a ∈ as, (f a).Sound t) : (each f as).Sound t :=
  List.forall_mem_flatMap.2 h

theorem sound_splice {node : Span} {patches : List Patch} (h : Splicing.Sound t ⟨node, patches⟩) :
    (splice t node patches).Sound t := List.forall_mem_singleton.2 h

/-- Patches are printed and applied. -/
theorem Sound.splice {x : Traced (List Patch)} {node : Span} (hx : x.Sound t)
    (h : Splicing.Sound t ⟨node, x.value⟩) : (x >>= Traced.splice t node).Sound t := hx.bind (sound_splice h)

end Traced

/-! ### Printing with splices

Each function prints what the one of its name prints on a page; what is copied or written anew has no splices. -/

/-- How the elements of a list of lines are printed with their splices. -/
structure TraceStyle (α : Type) where
  slot : α → Slot
  changed : α → α → Traced Text
  inserted : Text → α → Traced Text

/-- Elements are printed as in the other style. -/
structure TraceStyle.Prints {α : Type} (s : TraceStyle α) (s' : Page.LineStyle α) : Prop where
  slot : ∀ w, s.slot w = s'.slot w
  changed : ∀ w r, (s.changed w r).value = s'.changed w r
  inserted : ∀ indent w, (s.inserted indent w).value = s'.inserted indent w

namespace Page.Trace

section Lists

variable {α : Type} [Placed α] [BEq α]

def lineEntry (p : Page) (style : TraceStyle α) (indent : Text) (reference : List α) (node : α) :
    Traced LineEntry := do
  let kept := counterpart? reference node
  let text ← (match kept.bind (reference[·]?) with
    | some other => if node == other then pure (p.copy node) else style.changed node other
    | none => style.inserted indent node)
  return ⟨kept, style.slot node, text⟩

def lineList (p : Page) (style : TraceStyle α) (region : Span) (outer inner : Text) (working reference : List α) :
    Traced Text := do
  let layout := LineLayout.ofRegion p.arena.text region (reference.map span) inner p.newline
  let entries ← Traced.each (lineEntry p style layout.indent reference) working
  return layout.render entries outer

def commaEntry (p : Page) (changed : α → Traced Text) (fresh : Text) (reference : List α) (node : α) :
    Traced CommaEntry := do
  let kept := counterpart? reference node
  let text ← (match kept.bind (reference[·]?) with
    | some other => if node == other then pure (p.copy node) else changed other
    | none => pure (if (origin node).isSome then p.copy node else fresh))
  return ⟨kept, text⟩

end Lists

mutual

def expr (p : Page) : Expr → Expr → Traced Text
  | .array a, r =>
    if Expr.array a == r then pure (p.copy r)
    else if a.origin.isNone || a.origin != r.origin then pure (p.freshExpr (.array a))
    else match r with
      | .array b => array p a b
      | _ => pure (p.literal (.array a))
  | w, r =>
    if w == r then pure (p.copy r)
    else if w.origin.isNone || w.origin != r.origin then pure (p.freshExpr w)
    else pure (p.literal w)
termination_by structural w => w

def array (p : Page) : ArrayLit Expr → ArrayLit Expr → Traced Text
  | ⟨_, _, _, _, items⟩, r => do
    let entries ← arrayItems p items r.items
    Traced.splice p.arena.text r.span [⟨r.itemsRegion, p.commaRegion r.itemsRegion r.items entries⟩]
termination_by structural w => w

def arrayItems (p : Page) : List (ArrayItem Expr) → List (ArrayItem Expr) → Traced (List CommaEntry)
  | [], _ => pure []
  | i :: is, reference => do
    let entry ← commaEntry p (arrayItem p i) (p.freshItem i) reference i
    let entries ← arrayItems p is reference
    return entry :: entries
termination_by structural w => w

def arrayItem (p : Page) : ArrayItem Expr → ArrayItem Expr → Traced Text
  | ⟨origin, span, key, value, byRef, unpack⟩, r =>
    if key == r.key && byRef == r.byRef && unpack == r.unpack then do
      let text ← expr p value r.value
      Traced.splice p.arena.text r.span [⟨r.value.span, text⟩]
    else pure (p.freshItem ⟨origin, span, key, value, byRef, unpack⟩)
termination_by structural w => w

end

def returnStmt (p : Page) (w r : ReturnStmt) : Traced Text :=
  match w.expr, r.expr with
  | some value, some before => do
    let text ← expr p value before
    Traced.splice p.arena.text r.span [⟨before.span, text⟩]
  | _, _ => pure (p.freshReturn w)

def bodyStyle (p : Page) : TraceStyle BodyStmt where
  slot _ := .group 0
  changed
    | .ret w, .ret r => returnStmt p w r
    | w, _ => pure (p.copy w)
  inserted _
    | .ret w => pure (if w.origin.isNone then p.freshReturn w else p.copy w)
    | w => pure (p.copy w)

def propertyItem (p : Page) (w r : PropertyItem) : Traced Text := do
  let patches ← (match w.default, r.default with
    | some value, some before => do
      let text ← expr p value before
      return [⟨before.span, text⟩]
    | some value, none => pure [⟨.point r.span.stop, " = ".toList ++ p.freshExpr value⟩]
    | none, some before => pure [⟨⟨r.name.span.stop, before.span.stop⟩, []⟩]
    | none, none => pure [])
  Traced.splice p.arena.text r.span patches

def itemPatch? (p : Page) (rs : List PropertyItem) (item : PropertyItem) : Traced (Option Patch) :=
  match rs.find? (·.origin == item.origin) with
  | none => pure none
  | some before =>
    if item == before then pure none
    else do
      let text ← propertyItem p item before
      return some ⟨before.span, text⟩

def property (p : Page) (w r : Property) : Traced Text := do
  let patches ← Traced.each (itemPatch? p r.items) w.items
  Traced.splice p.arena.text r.span (patches.filterMap id)

def method (p : Page) (w r : Method) : Traced Text := do
  let patches ← (match w.body, r.body with
    | some body, some before =>
      if body == before then pure []
      else do
        let outer := lineIndent p.arena.text r.span.start
        let text ← lineList p (bodyStyle p) before.body outer (deeper outer) body.stmts before.stmts
        return [⟨before.body, text⟩]
    | _, _ => pure [])
  Traced.splice p.arena.text r.span patches

def traitUse (p : Page) (w r : TraitUse) : Traced Text :=
  Traced.splice p.arena.text r.span [⟨r.namesRegion, p.commaList Name.text r.namesRegion w.names r.names⟩]

def member (p : Page) (w r : Member) : Traced Text :=
  match w, r with
  | .traitUse w, .traitUse r => traitUse p w r
  | .property w, .property r => property p w r
  | .method w, .method r => method p w r
  | w, _ => pure (p.freshMember w)

def insertedMember (p : Page) (indent : Text) (m : Member) : Traced Text :=
  match m.origin with
  | none => pure (p.freshMember m)
  | some id => do
    let text ← (match p.arena.fragment? id with
      | some fragment => if fragment == m then pure (p.copy m) else member p m fragment
      | none => pure (p.copy m))
    return reindent (p.indentOf m) indent p.newline text

def memberStyle (p : Page) : TraceStyle Member where
  slot := p.memberStyle.slot
  changed := member p
  inserted := insertedMember p

def membersPatch (p : Page) (w r : ClassLike) : Traced (List Patch) :=
  if w.members == r.members then pure []
  else do
    let outer := lineIndent p.arena.text r.span.start
    let text ← lineList p (memberStyle p) r.body outer (deeper outer) w.members r.members
    return [⟨r.body, text⟩]

def classLike (p : Page) (w r : ClassLike) : Traced Text := do
  let members ← membersPatch p w r
  Traced.splice p.arena.text r.span (p.interfacesPatch w r ++ members)

def importDecl (p : Page) (w r : Import) : Traced Text :=
  if w.kind = r.kind ∧ w.stem = r.stem then
    Traced.splice p.arena.text r.span
      [⟨r.itemsRegion, p.commaList ImportItem.toText r.itemsRegion w.items r.items⟩]
  else pure w.toText

def stmt (p : Page) (w r : Stmt) : Traced Text :=
  match w, r with
  | .imports w, .imports r => importDecl p w r
  | .classLike w, .classLike r => classLike p w r
  | .ret w, .ret r => returnStmt p w r
  | w, _ => pure (p.freshStmt w)

def stmtStyle (p : Page) : TraceStyle Stmt where
  slot := stmtSlot
  changed := stmt p
  inserted _ w := pure (p.freshStmt w)

def namespaceDecl (p : Page) (w r : Namespace) : Traced Text := do
  let outer := if r.braced then lineIndent p.arena.text r.span.start else []
  let inner := if r.braced then deeper outer else []
  let text ← lineList p (stmtStyle p) r.body outer inner w.stmts r.stmts
  Traced.splice p.arena.text r.span [⟨r.body, text⟩]

def topStyle (p : Page) : TraceStyle TopStmt where
  slot := p.topStyle.slot
  changed
    | .inside w, .inside r => namespaceDecl p w r
    | .plain w, .plain r => stmt p w r
    | w, _ => pure (p.freshTopStmt w)
  inserted _ w := pure (p.freshTopStmt w)

end Page.Trace

/-- The changed tree `w` printed over the text of `r`, with the splices that are made. -/
def File.trace (w r : File) (a : Arena) : Traced Text :=
  let p : Page := ⟨a, .ofText (a.slice r.span)⟩
  if w == r then pure (a.slice r.span)
  else do
    let text ← Page.Trace.lineList p (Page.Trace.topStyle p) r.body [] [] w.stmts r.stmts
    Traced.splice a.text r.span [⟨r.body, text⟩]

/-! ### The text that is printed -/

namespace Page.Trace

variable {p : Page}

section Lists

variable {α : Type} [Placed α] [BEq α]

theorem value_lineList {style : TraceStyle α} {style' : LineStyle α} (h : style.Prints style') (region : Span)
    (outer inner : Text) (working reference : List α) :
    (lineList p style region outer inner working reference).value =
      p.lineList style' region outer inner working reference := by
  have hentry : ∀ indent node, (lineEntry p style indent reference node).value =
      p.lineEntry style' indent reference node := by
    intro indent node
    simp only [lineEntry, Page.lineEntry, Traced.value_bind, Traced.value_pure, h.slot]
    cases (counterpart? reference node).bind (reference[·]?) with
    | none => simp only [h.inserted]
    | some other => simp only [apply_ite Traced.value, Traced.value_pure, h.changed]
  simp only [lineList, Page.lineList, Traced.each, Traced.value_bind, Traced.value_pure, hentry]

theorem value_commaEntry (changed : α → Traced Text) (fresh : Text) (reference : List α) (node : α) :
    (commaEntry p changed fresh reference node).value =
      p.commaEntry (fun r => (changed r).value) fresh reference node := by
  simp only [commaEntry, Page.commaEntry, Traced.value_bind, Traced.value_pure]
  cases (counterpart? reference node).bind (reference[·]?) with
  | none => rfl
  | some other => simp only [apply_ite Traced.value, Traced.value_pure]

end Lists

/-- An array that changed is printed over an array, another expression from its value. -/
theorem expr_eq (p : Page) (w r : Expr) : expr p w r =
    if w == r then pure (p.copy r)
    else if w.origin.isNone || w.origin != r.origin then pure (p.freshExpr w)
    else match w, r with
      | .array a, .array b => array p a b
      | w, _ => pure (p.literal w) := by
  cases w <;> cases r <;> rfl

mutual

theorem value_expr (w r : Expr) : (expr p w r).value = p.expr w r := by
  rw [expr_eq, Page.expr_eq]
  cases w with
  | array a =>
    cases r with
    | array b =>
      have harray := value_array a b
      simp only [apply_ite Traced.value, Traced.value_pure, harray]
    | _ => simp only [apply_ite Traced.value, Traced.value_pure]
  | _ => simp only [apply_ite Traced.value, Traced.value_pure]
termination_by structural w

theorem value_array (w r : ArrayLit Expr) : (array p w r).value = p.array w r := by
  cases w with
  | mk _ _ _ _ items =>
    have hitems := value_arrayItems items r.items
    rw [array, Page.array, Traced.value_bind, hitems]
    rfl
termination_by structural w

theorem value_arrayItems (is reference : List (ArrayItem Expr)) :
    (arrayItems p is reference).value = p.arrayItems is reference := by
  cases is with
  | nil => rfl
  | cons i is =>
    have hitems := value_arrayItems is reference
    have hitem : (fun r => (arrayItem p i r).value) = p.arrayItem i := funext fun r => value_arrayItem i r
    simp only [arrayItems, Page.arrayItems, Traced.value_bind, Traced.value_pure, value_commaEntry, hitem, hitems]
termination_by structural is

theorem value_arrayItem (w r : ArrayItem Expr) : (arrayItem p w r).value = p.arrayItem w r := by
  cases w with
  | mk origin span key value byRef unpack =>
    have hvalue := value_expr value r.value
    rw [arrayItem, Page.arrayItem, apply_ite Traced.value, Traced.value_bind, hvalue]
    rfl
termination_by structural w

end

theorem value_returnStmt (w r : ReturnStmt) : (returnStmt p w r).value = p.returnStmt w r := by
  unfold returnStmt Page.returnStmt
  cases w.expr with
  | none => rfl
  | some value =>
    cases r.expr with
    | none => rfl
    | some before => rw [Traced.value_bind, value_expr]; rfl

theorem prints_bodyStyle : (bodyStyle p).Prints p.bodyStyle where
  slot _ := rfl
  changed w r := by
    cases w with
    | ret w =>
      cases r with
      | ret r => exact value_returnStmt w r
      | other r => rfl
    | other w => rfl
  inserted _ w := by cases w <;> rfl

theorem value_propertyItem (w r : PropertyItem) : (propertyItem p w r).value = p.propertyItem w r := by
  simp only [propertyItem, Page.propertyItem, Traced.value_bind, Traced.value_splice]
  cases w.default with
  | none => cases r.default <;> rfl
  | some value =>
    cases r.default with
    | none => rfl
    | some before => simp only [Traced.value_bind, Traced.value_pure, value_expr]

theorem value_itemPatch? (rs : List PropertyItem) (w : PropertyItem) :
    (itemPatch? p rs w).value = p.itemPatch? rs w := by
  unfold itemPatch? Page.itemPatch?
  cases rs.find? (·.origin == w.origin) with
  | none => rfl
  | some before =>
    simp only [apply_ite Traced.value, Traced.value_bind, Traced.value_pure, value_propertyItem, Option.bind_some]

theorem value_property (w r : Property) : (property p w r).value = p.property w r := by
  rw [Page.property_eq]
  simp only [property, Traced.each, Traced.value_bind, Traced.value_splice, value_itemPatch?, List.filterMap_map]
  rfl

theorem value_method (w r : Method) : (method p w r).value = p.method w r := by
  simp only [method, Page.method, Traced.value_bind, Traced.value_splice]
  cases w.body with
  | none => rfl
  | some body =>
    cases r.body with
    | none => rfl
    | some before =>
      simp only [apply_ite Traced.value, Traced.value_bind, Traced.value_pure, value_lineList prints_bodyStyle]

theorem value_member (w r : Member) : (member p w r).value = p.member w r := by
  cases w with
  | traitUse w => cases r <;> rfl
  | property w =>
    cases r with
    | property r => exact value_property w r
    | _ => rfl
  | method w =>
    cases r with
    | method r => exact value_method w r
    | _ => rfl
  | other w => cases r <;> rfl

theorem value_insertedMember (indent : Text) (m : Member) :
    (insertedMember p indent m).value = p.insertedMember indent m := by
  unfold insertedMember Page.insertedMember
  cases m.origin with
  | none => rfl
  | some id =>
    simp only [Traced.value_bind, Traced.value_pure]
    cases p.arena.fragment? id with
    | none => rfl
    | some fragment => simp only [apply_ite Traced.value, Traced.value_pure, value_member]

theorem prints_memberStyle : (memberStyle p).Prints p.memberStyle := ⟨fun _ => rfl, value_member, value_insertedMember⟩

theorem value_membersPatch (w r : ClassLike) : (membersPatch p w r).value = p.membersPatch w r := by
  simp only [membersPatch, Page.membersPatch, apply_ite Traced.value, Traced.value_bind, Traced.value_pure,
    value_lineList prints_memberStyle]

theorem value_classLike (w r : ClassLike) : (classLike p w r).value = p.classLike w r := by
  rw [classLike, Page.classLike, Traced.value_bind, value_membersPatch]
  rfl

theorem value_importDecl (w r : Import) : (importDecl p w r).value = p.importDecl w r := by
  rw [importDecl, Page.importDecl, apply_ite Traced.value]
  rfl

theorem value_stmt (w r : Stmt) : (stmt p w r).value = p.stmt w r := by
  cases w with
  | imports w =>
    cases r with
    | imports r => exact value_importDecl w r
    | _ => rfl
  | classLike w =>
    cases r with
    | classLike r => exact value_classLike w r
    | _ => rfl
  | ret w =>
    cases r with
    | ret r => exact value_returnStmt w r
    | _ => rfl
  | declare w => cases r <;> rfl
  | other w => cases r <;> rfl

theorem prints_stmtStyle : (stmtStyle p).Prints p.stmtStyle := ⟨fun _ => rfl, value_stmt, fun _ _ => rfl⟩

theorem value_namespaceDecl (w r : Namespace) : (namespaceDecl p w r).value = p.namespaceDecl w r := by
  simp only [namespaceDecl, Page.namespaceDecl, Traced.value_bind, Traced.value_splice, value_lineList prints_stmtStyle]

theorem prints_topStyle : (topStyle p).Prints p.topStyle where
  slot _ := rfl
  changed w r := by
    cases w with
    | inside w =>
      cases r with
      | inside r => exact value_namespaceDecl w r
      | plain r => rfl
    | plain w =>
      cases r with
      | inside r => rfl
      | plain r => exact value_stmt w r
  inserted _ _ := rfl

end Page.Trace

/-- With its splices a file is printed as it is without them. -/
theorem File.value_trace (w r : File) (a : Arena) : (w.trace r a).value = w.print r a := by
  simp only [trace, File.print, apply_ite Traced.value, Traced.value_pure, Traced.value_bind, Traced.value_splice,
    Page.Trace.value_lineList Page.Trace.prints_topStyle]

end Graft
