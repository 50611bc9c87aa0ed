/-
The order of a walk, and what a stop leaves out of it.

Every call of a hook has a node: where two hooks are called for one part of a file, as for a statement and the class that
it declares, the part has two nodes, the second one below the first.  The place of a node says which child to take on the
way down to it, so that in the order of lists a node stands before what is below it, and what is below one child before
all that is below a later one.

* `Node.events_eq` — what one call comes to: its own event, and unless the walk stops there the events of the children;
* `Node.places` — the places of a tree in the order of a walk, with `pairwise_places` and `mem_places_iff`: that order is
  the one of lists, and every node has exactly one place in it;
* `Node.events_eq_places` — a walk makes the events of those places above which it does not stop;
* `File.events_pruned` — both for the walk through a file.
-/
import Graft.Tree.Walk
import Mathlib.Data.List.Basic

namespace Graft

/-! ### Nodes -/

/-- What a hook is called for. -/
inductive Node where
  | file (f : File)
  | stmt (s : TopStmt)
  | ns (n : Namespace)
  | imports (d : Import)
  | classLike (c : ClassLike)
  | member (m : Member)
  | property (p : Property)
  | method (m : Method)
  | ret (r : ReturnStmt)
  | expr (e : Expr)
  | array (a : ArrayLit Expr)
  | item (i : ArrayItem Expr)

/-- The way down to a node: which child to take at each step. -/
abbrev Place := List Nat

namespace Node

/-- The hook that is called for a node. -/
def hook : Node → Hook
  | file _ => .file
  | stmt _ => .stmt
  | ns _ => .ns
  | imports _ => .imports
  | classLike _ => .classLike
  | member _ => .member
  | property _ => .property
  | method _ => .method
  | ret _ => .ret
  | expr _ => .expr
  | array _ => .array
  | item _ => .item

def span : Node → Span
  | file f => f.span
  | stmt s => s.span
  | ns n => n.span
  | imports d => d.span
  | classLike c => c.span
  | member m => m.span
  | property p => p.span
  | method m => m.span
  | ret r => r.span
  | expr e => e.span
  | array a => a.span
  | item i => i.span

/-- The nodes below a node, in the order of the text. -/
def children : Node → List Node
  | file f => f.stmts.map stmt
  | stmt (.inside n) => [ns n]
  | stmt (.plain (.imports d)) => [imports d]
  | stmt (.plain (.classLike c)) => [classLike c]
  | stmt (.plain (.ret r)) => [ret r]
  | stmt (.plain (.declare _)) => []
  | stmt (.plain (.other _)) => []
  | ns n => n.stmts.map fun s => stmt (.plain s)
  | imports _ => []
  | classLike c => c.members.map member
  | member (.property p) => [property p]
  | member (.method m) => [method m]
  | member (.traitUse _) => []
  | member (.other _) => []
  | property p => (p.items.filterMap PropertyItem.default).map expr
  | method m => (((m.body.map (·.stmts)).getD []).filterMap BodyStmt.return?).map ret
  | ret r => r.expr.toList.map expr
  | expr (.array a) => [array a]
  | expr _ => []
  | array a => a.items.map item
  | item i => i.key.toList.map expr ++ [expr i.value]

/-- The node at a place. -/
def at? : Node → Place → Option Node
  | n, [] => some n
  | n, i :: p => n.children[i]?.bind (·.at? p)

/-- The event of the node at a place. -/
def event? (n : Node) (p : Place) : Option Event := (n.at? p).map fun m => (m.hook, m.span)

/-- A walk stops at a node above the place. -/
def isCutOff (stop : Hook → Bool) (n : Node) (p : Place) : Bool :=
  (List.range p.length).any fun k => (n.at? (p.take k)).any fun m => stop m.hook

/-- The events of a walk through the tree below a node. -/
def events (stop : Hook → Bool) : Node → List Event
  | file f => f.events stop
  | stmt s => s.events stop
  | ns n => n.events stop
  | imports d => enter stop .imports d.span []
  | classLike c => c.events stop
  | member m => m.events stop
  | property p => p.events stop
  | method m => m.events stop
  | ret r => r.events stop
  | expr e => e.events stop
  | array a => a.events stop
  | item i => i.events stop

/-! ### One call -/

variable {stop : Hook → Bool} {n c : Node} {i : Nat} {p : Place}

theorem eventsOption_eq (o : Option Expr) : Expr.eventsOption stop o = (o.toList.map expr).flatMap (events stop) := by
  cases o with
  | none => rfl
  | some e => exact (List.append_nil _).symm

theorem eventsAll_eq (is : List (ArrayItem Expr)) : ArrayItem.eventsAll stop is = (is.map item).flatMap (events stop) := by
  induction is with
  | nil => rfl
  | cons i is ih => rw [ArrayItem.eventsAll, ih, List.map_cons, List.flatMap_cons, events]

theorem events_defaults (is : List PropertyItem) : (is.flatMap fun i => Expr.eventsOption stop i.default) =
    ((is.filterMap PropertyItem.default).map expr).flatMap (events stop) := by
  induction is with
  | nil => rfl
  | cons i is ih =>
    rw [List.flatMap_cons, ih, List.filterMap_cons]
    cases i.default with
    | none => rfl
    | some e => rfl

theorem events_returns (ss : List BodyStmt) : ss.flatMap (BodyStmt.events stop) =
    ((ss.filterMap BodyStmt.return?).map ret).flatMap (events stop) := by
  induction ss with
  | nil => rfl
  | cons s ss ih =>
    rw [List.flatMap_cons, ih, List.filterMap_cons]
    cases s with
    | ret r => rfl
    | other v => rfl

/-- A call makes the event of its node and, unless the walk stops there, the calls for the children. -/
theorem events_eq (stop : Hook → Bool) (n : Node) :
    n.events stop = enter stop n.hook n.span (n.children.flatMap (events stop)) := by
  have single : ∀ m : Node, [m].flatMap (events stop) = m.events stop := fun m => List.append_nil _
  cases n with
  | file f => rw [children, List.flatMap_map]; rfl
  | stmt s => rcases s with n | d | c | r | v | v <;> simp only [children, single] <;> rfl
  | ns n => rw [children, List.flatMap_map]; rfl
  | imports d => rfl
  | classLike c => rw [children, List.flatMap_map]; rfl
  | member m => rcases m with u | p | m | v <;> simp only [children, single] <;> rfl
  | property p => rw [children, ← events_defaults]; rfl
  | method m => rw [children, ← events_returns]; rfl
  | ret r => rw [children, ← eventsOption_eq]; rfl
  | expr e => cases e <;> simp only [children, single] <;> rfl
  | array a =>
    obtain ⟨origin, span, short, region, items⟩ := a
    rw [children, ← eventsAll_eq, events, ArrayLit.events]
    rfl
  | item i =>
    obtain ⟨origin, span, key, value, byRef, unpack⟩ := i
    rw [children, List.flatMap_append, ← eventsOption_eq, single]
    show ArrayItem.events stop _ = _
    rw [ArrayItem.events]
    rfl

/-- A node below another one makes fewer events in a walk without stops. -/
theorem length_events_lt (h : c ∈ n.children) :
    (c.events fun _ => false).length < (n.events fun _ => false).length := by
  obtain ⟨before, behind, hsplit⟩ := List.append_of_mem h
  rw [events_eq _ n, enter, List.length_cons, if_neg Bool.false_ne_true, hsplit, List.flatMap_append, List.flatMap_cons,
    List.length_append, List.length_append]
  omega

/-- What holds of a node when it holds of its children holds of all nodes. -/
theorem induction {P : Node → Prop} (h : ∀ n : Node, (∀ c ∈ n.children, P c) → P n) (n : Node) : P n := by
  induction hk : (n.events fun _ => false).length using Nat.strongRecOn generalizing n with
  | _ k ih => exact h n fun c hc => ih _ (hk ▸ length_events_lt hc) c rfl

/-! ### Places -/

/-- The places of a tree in the order of a walk: that of the node itself, and behind it those below its children. -/
def places (n : Node) : List Place :=
  [] :: (List.range n.children.length).flatMap fun i =>
    match _h : n.children[i]? with
    | some c => c.places.map (i :: ·)
    | none => []
termination_by (n.events fun _ => false).length
decreasing_by exact length_events_lt (List.mem_of_getElem? ‹_›)

theorem places_eq (n : Node) : n.places =
    [] :: (List.range n.children.length).flatMap fun i => ((n.children[i]?.map places).getD []).map (i :: ·) := by
  rw [places]
  congr 2
  funext i
  split <;> simp [*]

/-- A place behind the first one leads to a child first. -/
theorem mem_places_cons : i :: p ∈ n.places ↔ ∃ c, n.children[i]? = some c ∧ p ∈ c.places := by
  rw [places_eq, List.mem_cons, List.mem_flatMap]
  constructor
  · rintro (h | ⟨j, -, h⟩)
    · cases h
    · obtain ⟨q, hq, heq⟩ := List.mem_map.1 h
      obtain ⟨rfl, rfl⟩ := List.cons.inj heq
      cases hc : n.children[j]? with
      | none => simp [hc] at hq
      | some c => exact ⟨c, rfl, by simpa [hc] using hq⟩
  · rintro ⟨c, hc, hp⟩
    refine .inr ⟨i, List.mem_range.2 (List.getElem?_eq_some_iff.1 hc).1, List.mem_map_of_mem ?_⟩
    rwa [hc]

/-- The places are those where a node is. -/
theorem mem_places_iff (n : Node) (p : Place) : p ∈ n.places ↔ (n.at? p).isSome = true := by
  induction p generalizing n with
  | nil =>
    rw [places_eq]
    exact ⟨fun _ => rfl, fun _ => List.mem_cons_self⟩
  | cons i p ih =>
    rw [mem_places_cons, at?]
    cases n.children[i]? with
    | none => simp
    | some c => simpa using ih c

/-- The places stand in the order of lists: a node before what is below it, and what is below one child before what is
below a later one. -/
theorem pairwise_places (n : Node) : n.places.Pairwise (· < ·) := by
  induction n using Node.induction with
  | h n ih =>
    rw [places_eq, List.pairwise_cons, List.pairwise_flatMap]
    refine ⟨fun p hp => ?_, fun i _ => ?_, List.pairwise_lt_range.imp fun {i j} hij p hp q hq => ?_⟩
    · obtain ⟨i, -, hp⟩ := List.mem_flatMap.1 hp
      obtain ⟨q, -, rfl⟩ := List.mem_map.1 hp
      exact List.nil_lt_cons i q
    · cases hc : n.children[i]? with
      | none => exact .nil
      | some c =>
        refine List.pairwise_map.2 ((ih c (List.mem_of_getElem? hc)).imp fun hpq => ?_)
        exact List.cons_lt_cons_iff.2 (.inr ⟨rfl, hpq⟩)
    · obtain ⟨p, -, rfl⟩ := List.mem_map.1 hp
      obtain ⟨q, -, rfl⟩ := List.mem_map.1 hq
      exact List.cons_lt_cons_iff.2 (.inl hij)

/-! ### Stops -/

theorem isCutOff_cons (hc : n.children[i]? = some c) :
    n.isCutOff stop (i :: p) = (stop n.hook || c.isCutOff stop p) := by
  simp [isCutOff, List.range_succ_eq_map, at?, hc, Function.comp_def]

theorem event?_cons (hc : n.children[i]? = some c) : n.event? (i :: p) = c.event? p := by
  rw [event?, at?, hc]
  rfl

/-- The children one by one. -/
theorem flatMap_children (f : Node → List Event) (cs : List Node) :
    cs.flatMap f = (List.range cs.length).flatMap fun i => (cs[i]?.map f).getD [] := by
  induction cs with
  | nil => rfl
  | cons c cs ih => simp [List.range_succ_eq_map, List.flatMap_map, ih]

/-- A walk makes the events of the places above which it does not stop, in their order. -/
theorem events_eq_places (stop : Hook → Bool) (n : Node) :
    (n.events stop).map some = (n.places.filter fun p => !n.isCutOff stop p).map n.event? := by
  induction n using Node.induction with
  | h n ih =>
    rw [events_eq, enter, places_eq, List.map_cons, List.filter_cons_of_pos rfl, List.map_cons]
    congr 1
    -- The places below a child are cut off by the node itself or below the child.
    have hchild : ∀ i < n.children.length,
        (if stop n.hook = true then [] else ((n.children[i]?.map (events stop)).getD []).map some) =
          ((((n.children[i]?.map places).getD []).map (i :: ·)).filter fun p => !n.isCutOff stop p).map n.event? := by
      intro i hi
      have hc := List.getElem?_eq_getElem hi
      rw [hc, Option.map_some, Option.map_some, Option.getD_some, Option.getD_some, List.filter_map, List.map_map]
      have hevent : (n.event? ∘ fun p => i :: p) = n.children[i].event? := funext fun p => event?_cons hc
      have hcut : ((fun p => !n.isCutOff stop p) ∘ fun p => i :: p) =
          fun p => !(stop n.hook || n.children[i].isCutOff stop p) := funext fun p => congrArg _ (isCutOff_cons hc)
      rw [hevent, hcut]
      split
      · rename_i hstop
        simp [hstop]
      · rename_i hstop
        rw [ih _ (List.getElem_mem hi)]
        simp [hstop]
    rw [List.filter_flatMap, List.map_flatMap, flatMap_children,
      ← List.flatMap_congr fun i hi => hchild i (List.mem_range.1 hi)]
    split
    · exact (List.flatMap_eq_nil_iff.2 fun _ _ => rfl).symm
    · rw [List.map_flatMap]

end Node

/-- A walk through a file that stops at some hooks makes the events of the walk without stops but for those which that one
makes in a call of such a hook.  The walk without stops makes one event for each node: a node comes before those below
it, and what is below one child before what is below a later one. -/
theorem File.events_pruned (f : File) :
    (Node.file f).places.Pairwise (· < ·) ∧ (∀ p, p ∈ (Node.file f).places ↔ ((Node.file f).at? p).isSome = true) ∧
      (f.events fun _ => false).map some = (Node.file f).places.map (Node.file f).event? ∧
      ∀ stop, (f.events stop).map some =
        ((Node.file f).places.filter fun p => !(Node.file f).isCutOff stop p).map (Node.file f).event? := by
  have hevents : ∀ stop, (f.events stop).map some =
      ((Node.file f).places.filter fun p => !(Node.file f).isCutOff stop p).map (Node.file f).event? :=
    fun stop => Node.events_eq_places stop (.file f)
  refine ⟨Node.pairwise_places _, Node.mem_places_iff _, ?_, hevents⟩
  -- Without stops nothing is cut off.
  have hnever : ∀ p, (!(Node.file f).isCutOff (fun _ => false) p) = true := by
    intro p
    simp [Node.isCutOff]
  rw [hevents, List.filter_eq_self.2 fun p _ => hnever p]

end Graft
