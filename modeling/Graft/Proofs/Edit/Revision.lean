/-
Edits make revisions.

Whatever an edit does, the file stays a revision of the file that was read: its parts keep their places, and what is
new was built by the edit from its own texts, or was read from a snippet.  So a file with carriage returns keeps them.

* `ArrayLit.follows_appendEntry`, `ArrayLit.follows_setPath`, … — arrays;
* `ClassLike.Revises.addTrait`, `ClassLike.Revises.updateTarget`, … — classes;
* `File.Revises.run`, `File.Revises.runAll` — one edit, and a queue of edits;
* `applyEdits_crlf` — what a queue makes of a file whose lines all end with a carriage return and a line feed.
-/
import Graft.Proofs.Edit.Settled
import Graft.Proofs.Print.Revision
import Graft.Proofs.Text.Search
import Graft.Proofs.Tree.Revision

namespace Graft

open Text (OneLine)

/-! ### The texts of edits -/

/-- The text of a string; other values have none. -/
def Scalar.texts : Scalar → List Text
  | .string value => [value]
  | .int _ | .float _ | .bool _ | .null => []

/-- The names, the keys and the string that the edit writes.  What it only looks for is none of them, nor is the code of
a method. -/
def Edit.texts : Edit → List Text
  | .addImport name | .addTrait name | .addInterface name => [name]
  | .addToArray _ key value => key.toList ++ value.texts
  | .setConfig path value => path :: value.texts
  | .removeImport _ | .removeTrait _ | .removeInterface _ | .addMethod _ | .removeMethod _ | .removeFromArray _ _ => []

theorem Scalar.built_toExpr {value : Scalar} (h : ∀ t ∈ value.texts, t.OneLine) : value.toExpr.Built := by
  cases value with
  | string t => exact ⟨rfl, h t (List.mem_singleton.2 rfl)⟩
  | int i => exact rfl
  | float x => exact rfl
  | bool b => cases b <;> exact ⟨rfl, by decide⟩
  | null => exact ⟨rfl, by decide⟩

theorem Name.built_fresh {name : Text} (h : name.OneLine) : (Name.fresh name).Built := ⟨rfl, h⟩

/-! ### Arrays -/

/-- The array takes the place of another one. -/
abbrev ArrayLit.Follows (a b : ArrayLit Expr) : Prop := Graft.Follows ArrayLit.Built ArrayLit.Revises a b

/-- The entry takes the place of another one. -/
abbrev ArrayItem.Follows (i j : ArrayItem Expr) : Prop := Graft.Follows ArrayItem.Built ArrayItem.Revises i j

/-- An array with other entries, each of which was there, was built, or follows one that was there. -/
theorem ArrayLit.follows_items {a : ArrayLit Expr} {is : List (ArrayItem Expr)}
    (h : ∀ i ∈ is, i ∈ a.items ∨ i.Built ∨ ∃ j ∈ a.items, j.Follows i) : a.Follows { a with items := is } := by
  refine ⟨fun ha => ?_, fun r har => ?_⟩
  · obtain ⟨horigin, hitems⟩ := ArrayLit.built_iff.1 ha
    refine ArrayLit.built_iff.2 ⟨horigin, fun i hi => ?_⟩
    rcases h i hi with hmem | hbuilt | ⟨j, hj, hfollows⟩
    · exact hitems i hmem
    · exact hbuilt
    · exact hfollows.1 (hitems j hj)
  · obtain ⟨heq, hdrawn⟩ := ArrayLit.revises_iff.1 har
    refine ArrayLit.revises_iff.2 ⟨?_, hdrawn.step h⟩
    rw [heq]

theorem ArrayItem.built_fresh (key : Option Text) (hkey : ∀ k ∈ key.toList, k.OneLine) {e : Expr} (he : e.Built) :
    (ArrayItem.fresh (key.map Expr.freshString) e).Built := by
  refine ⟨rfl, ?_, he⟩
  cases key with
  | none => exact trivial
  | some k => exact ⟨rfl, hkey k (List.mem_singleton.2 rfl)⟩

theorem ArrayLit.follows_appendEntry {key : Option Text} {value : Scalar} (hkey : ∀ k ∈ key.toList, k.OneLine)
    (hvalue : ∀ t ∈ value.texts, t.OneLine) (a : ArrayLit Expr) : a.Follows (appendEntry key value a) := by
  unfold appendEntry
  split
  · exact ⟨id, fun _ => id⟩
  · refine ArrayLit.follows_items fun i hi => ?_
    rcases List.mem_append.1 hi with hmem | hnew
    · exact .inl hmem
    · rw [List.mem_singleton.1 hnew]
      exact .inr (.inl (ArrayItem.built_fresh key hkey (Scalar.built_toExpr hvalue)))

theorem ArrayLit.follows_dropEntries (search : Text) (a : ArrayLit Expr) : a.Follows (dropEntries search a) :=
  ArrayLit.follows_items fun _ hi => .inl (List.mem_of_mem_filter hi)

/-- What `f` writes over a value was built, or revises what the value did. -/
structure Overwrites (f : Option Expr → Expr) : Prop where
  none : (f none).Built
  built (e : Expr) : e.Built → (f (some e)).Built
  revises (e r : Expr) : e.Revises r → (f (some e)).Built ∨ (f (some e)).Revises r

theorem ArrayLit.follows_setEntry {key : Text} (hkey : key.OneLine) {f : Option Expr → Expr} (hf : Overwrites f)
    (a : ArrayLit Expr) : a.Follows (setEntry key f a) := by
  refine ArrayLit.follows_items fun i hi => ?_
  generalize hchange : (fun i : ArrayItem Expr => if i.hasKey key = true then
    some { i with value := f (some i.value) } else Option.none) = change at hi
  cases hupdate : updateFirst? change a.items with
  | none =>
    rw [hupdate, Option.getD_none] at hi
    rcases List.mem_append.1 hi with hmem | hnew
    · exact .inl hmem
    · rw [List.mem_singleton.1 hnew]
      refine .inr (.inl (ArrayItem.built_fresh (some key) (fun k hk => ?_) hf.none))
      rw [List.mem_singleton.1 hk]
      exact hkey
  | some is =>
    rw [hupdate, Option.getD_some] at hi
    obtain ⟨l, j, j', r, hitems, rfl, hj, -⟩ := updateFirst?_eq_some_iff.1 hupdate
    have hjmem : j ∈ a.items := hitems ▸ List.mem_append_right l List.mem_cons_self
    have hother : i ∈ l ∨ i ∈ r → i ∈ a.items := by
      rw [hitems]
      rintro (hl | hr)
      · exact List.mem_append_left _ hl
      · exact List.mem_append_right _ (List.mem_cons_of_mem _ hr)
    rcases List.mem_append.1 hi with hl | hr
    · exact .inl (hother (.inl hl))
    · rcases List.mem_cons.1 hr with rfl | hr
      · -- The value of the first entry with the key is written over.
        refine .inr (.inr ⟨j, hjmem, ?_⟩)
        rw [← hchange] at hj
        simp only [Option.ite_none_right_eq_some, Option.some.injEq] at hj
        obtain ⟨-, rfl⟩ := hj
        obtain ⟨origin, span, k, value, byRef, unpack⟩ := j
        refine ⟨fun hbuilt => ⟨hbuilt.1, hbuilt.2.1, hf.built _ hbuilt.2.2⟩, fun r hrevises => ?_⟩
        obtain ⟨heq, hvalue⟩ := ArrayItem.revises_iff.1 hrevises
        refine ArrayItem.revises_iff.2 ⟨?_, ?_⟩
        · simp only [ArrayItem.mk.injEq] at heq ⊢
          exact ⟨heq.1, heq.2.1, heq.2.2.1, trivial, heq.2.2.2.2⟩
        · rcases hvalue with hbuilt | hrevises
          · exact .inl (hf.built _ hbuilt)
          · exact hf.revises _ _ hrevises
      · exact .inl (hother (.inr hr))

theorem ArrayLit.overwrites_overwrite {value : Scalar} (hvalue : ∀ t ∈ value.texts, t.OneLine) :
    Overwrites (overwrite value) := by
  have hbuilt := Scalar.built_toExpr hvalue
  refine ⟨hbuilt, fun e he => ?_, fun e r her => ?_⟩
  · rw [overwrite]
    split
    · exact he
    · exact hbuilt
  · rw [overwrite]
    split
    · exact .inr her
    · exact .inl hbuilt

theorem ArrayLit.built_fresh : (ArrayLit.fresh []).Built := ⟨rfl, trivial⟩

/-- An array that is made of the one in the way, or of a new one, is written over it. -/
theorem ArrayLit.overwrites_array {g : ArrayLit Expr → ArrayLit Expr} (hg : ∀ a : ArrayLit Expr, a.Follows (g a)) :
    Overwrites fun e => .array (g ((e.bind Expr.array?).getD (fresh []))) := by
  have hnew := (hg (fresh [])).1 built_fresh
  refine ⟨hnew, fun e he => ?_, fun e r her => ?_⟩
  · cases e with
    | array a => exact (hg a).1 he
    | _ => exact hnew
  · cases e with
    | array a =>
      cases r with
      | array b => exact .inr ((hg a).2 b her)
      | _ => exact her.elim
    | _ => exact .inl hnew

theorem ArrayLit.follows_setPath {keys : List Text} (hkeys : ∀ k ∈ keys, k.OneLine) {value : Scalar}
    (hvalue : ∀ t ∈ value.texts, t.OneLine) (a : ArrayLit Expr) : a.Follows (setPath keys value a) := by
  induction keys generalizing a with
  | nil => exact ⟨id, fun _ => id⟩
  | cons key rest ih =>
    obtain ⟨hkey, hrest⟩ := List.forall_mem_cons.1 hkeys
    cases rest with
    | nil => exact follows_setEntry hkey (overwrites_overwrite hvalue) a
    | cons k ks => exact follows_setEntry hkey (overwrites_array (ih hrest)) a

/-! ### Values that are arrays -/

/-- A value that is an array with that array changed. -/
theorem Expr.RevisesOption.updateArray {w r : Option Expr} {a : ArrayLit Expr} (h : Expr.RevisesOption w r)
    (ha : w.bind Expr.array? = some a) {g : ArrayLit Expr → ArrayLit Expr} (hg : ∀ a : ArrayLit Expr, a.Follows (g a)) :
    Expr.RevisesOption (some (.array (g a))) r := by
  obtain ⟨e, rfl, he⟩ := Option.bind_eq_some_iff.1 ha
  obtain ⟨e', rfl, hrevises⟩ := h e rfl
  rintro _ ⟨⟩
  refine ⟨e', rfl, ?_⟩
  cases e with
  | array b =>
    cases he
    cases e' with
    | array c => exact (hg a).2 c hrevises
    | _ => exact hrevises.elim
  | _ => cases he

theorem ReturnStmt.Revises.updateArray {v w r : ReturnStmt} (h : v.Revises r) {g : ArrayLit Expr → ArrayLit Expr}
    (hg : ∀ a : ArrayLit Expr, a.Follows (g a)) (hw : v.updateArray? g = some w) : w.Revises r := by
  obtain ⟨a, ha, rfl⟩ := Option.map_eq_some_iff.1 hw
  obtain ⟨heq, hvalue⟩ := h
  refine ⟨?_, hvalue.updateArray ha hg⟩
  rw [heq]

theorem PropertyItem.Revises.updateTarget {v w r : PropertyItem} (h : v.Revises r) {target : Text}
    {g : ArrayLit Expr → ArrayLit Expr} (hg : ∀ a : ArrayLit Expr, a.Follows (g a))
    (hw : v.updateTarget? target g = some w) : w.Revises r := by
  obtain ⟨a, ha, rfl⟩ := Option.map_eq_some_iff.1 hw
  obtain ⟨heq, hvalue⟩ := h
  unfold PropertyItem.target? at ha
  split at ha
  · refine ⟨?_, hvalue.updateArray ha hg⟩
    rw [heq]
  · cases ha

/-! ### Members -/

theorem BodyStmt.follows_updateArray {g : ArrayLit Expr → ArrayLit Expr} (hg : ∀ a : ArrayLit Expr, a.Follows (g a))
    {v w : BodyStmt} (hw : (v.return?.bind fun r => (r.updateArray? g).map .ret) = some w) :
    Follows Unbuilt BodyStmt.Revises v w := by
  refine ⟨False.elim, fun r hr => ?_⟩
  obtain ⟨s, hs, hw⟩ := Option.bind_eq_some_iff.1 hw
  obtain ⟨t, ht, rfl⟩ := Option.map_eq_some_iff.1 hw
  cases v with
  | other v => cases hs
  | ret v =>
    cases hs
    cases r with
    | ret r => exact ReturnStmt.Revises.updateArray hr hg ht
    | other r => cases hr

theorem Method.Revises.updateReturned {v r : Method} (h : v.Revises r) {g : ArrayLit Expr → ArrayLit Expr}
    (hg : ∀ a : ArrayLit Expr, a.Follows (g a)) : (v.updateReturned g).Revises r := by
  obtain ⟨heq, hbody⟩ := h
  refine ⟨?_, fun b hb => ?_⟩
  · rw [Method.updateReturned, heq]
  · obtain ⟨c, hc, rfl⟩ := Option.map_eq_some_iff.1 hb
    obtain ⟨b', hb', hblock, hstmts⟩ := hbody c hc
    refine ⟨b', hb', ?_, hstmts.updateFirst fun _ _ => BodyStmt.follows_updateArray hg⟩
    rw [hblock]

variable {n : NodeId}

/-- The member takes the place of another one. -/
abbrev Member.Follows (n : NodeId) (v w : Member) : Prop := Graft.Follows (Member.Built n) Member.Revises v w

/-- The array that a member holds is changed in it. -/
theorem Member.follows_updateTarget {target : Text} {g : ArrayLit Expr → ArrayLit Expr}
    (hg : ∀ a : ArrayLit Expr, a.Follows (g a)) {v w : Member} (hw : v.updateTarget? target g = some w) :
    Member.Follows n v w := by
  cases v with
  | traitUse c => cases hw
  | other v => cases hw
  | property p =>
    obtain ⟨items, hitems, rfl⟩ := Option.map_eq_some_iff.1 hw
    refine ⟨?_, fun r hr => ?_⟩
    · rintro (hbrought | ⟨c, hc, -⟩)
      · exact .inl hbrought
      · cases hc
    · cases r with
      | property r =>
        obtain ⟨heq, hdrawn⟩ := hr
        refine ⟨?_, hdrawn.updateFirst? (fun v w hvw => ⟨False.elim, fun r hr => ?_⟩) hitems⟩
        · rw [heq]
        · exact PropertyItem.Revises.updateTarget hr hg hvw
      | _ => cases hr
  | method m =>
    rw [Member.updateTarget?] at hw
    split at hw
    · cases hw
      refine ⟨?_, fun r hr => ?_⟩
      · rintro (hbrought | ⟨c, hc, -⟩)
        · exact .inl hbrought
        · cases hc
      · cases r with
        | method r => exact Method.Revises.updateReturned hr hg
        | _ => cases hr
    · cases hw

/-- A clause with other names, each of which was there or was built. -/
theorem Member.follows_traitUse {c : TraitUse} {names : List Name} (h : ∀ m ∈ names, m ∈ c.names ∨ m.Built) :
    Member.Follows n (.traitUse c) (.traitUse { c with names }) := by
  refine ⟨?_, fun r hr => ?_⟩
  · rintro (hbrought | ⟨d, hd, horigin, hnames⟩)
    · exact .inl hbrought
    · cases hd
      exact .inr ⟨_, rfl, horigin, fun m hm => (h m hm).elim (hnames m) id⟩
  · cases r with
    | traitUse r =>
      obtain ⟨heq, hdrawn⟩ := hr
      refine ⟨?_, hdrawn.step fun m hm => (h m hm).imp id .inl⟩
      rw [heq]
    | _ => cases hr

/-! ### Classes -/

namespace ClassLike.Revises

variable {c r : ClassLike}

theorem withMembers (h : c.Revises n r) {members : List Member}
    (hmembers : Drawn (Member.Built n) Member.Revises members r.members) :
    ClassLike.Revises n { c with members } r := by
  obtain ⟨heq, hinterfaces, -⟩ := h
  refine ⟨?_, hinterfaces, hmembers⟩
  rw [heq]

theorem withInterfaces (h : c.Revises n r) {interfaces : List Name}
    (hinterfaces : Drawn Name.Built Eq interfaces r.interfaces) : ClassLike.Revises n { c with interfaces } r := by
  obtain ⟨heq, -, hmembers⟩ := h
  refine ⟨?_, hinterfaces, hmembers⟩
  rw [heq]

theorem addTrait (h : c.Revises n r) {name : Text} (hname : name.OneLine) : (c.addTrait name).Revises n r := by
  have hnew : ∀ m ∈ [Name.fresh name], m.Built := by
    intro m hm
    rw [List.mem_singleton.1 hm]
    exact Name.built_fresh hname
  unfold ClassLike.addTrait
  split
  · exact h
  · refine h.withMembers (Drawn.getD (fun members hupdate => h.2.2.updateFirst? (fun v w hvw => ?_) hupdate) ?_)
    · cases v with
      | traitUse clause =>
        cases hvw
        exact Member.follows_traitUse fun m hm => (List.mem_append.1 hm).imp id (hnew m)
      | _ => cases hvw
    · -- A clause of its own goes before the members.
      refine h.2.2.step fun m hm => ?_
      rcases List.mem_cons.1 hm with rfl | hm
      · exact .inr (.inl (.inr ⟨_, rfl, rfl, hnew⟩))
      · exact .inl hm

theorem removeTrait (h : c.Revises n r) (name : Text) : (c.removeTrait name).Revises n r := by
  refine h.withMembers (h.2.2.filterMap fun v w hvw => ?_)
  cases v with
  | traitUse clause =>
    simp only [ClassLike.withoutTrait?] at hvw
    split at hvw
    · cases hvw
    · cases hvw
      exact Member.follows_traitUse fun m hm => .inl (List.mem_of_mem_filter hm)
  | _ =>
    cases hvw
    exact ⟨id, fun _ => id⟩

theorem addInterface (h : c.Revises n r) {name : Text} (hname : name.OneLine) :
    (c.addInterface name).Revises n r := by
  unfold ClassLike.addInterface
  split
  · exact h
  · refine h.withInterfaces (h.2.1.append fun m hm => ?_)
    rw [List.mem_singleton.1 hm]
    exact Name.built_fresh hname

theorem removeInterface (h : c.Revises n r) (name : Text) : (c.removeInterface name).Revises n r :=
  h.withInterfaces (h.2.1.of_subset fun _ => List.mem_of_mem_filter)

theorem addMethod (h : c.Revises n r) {m : Method} (hm : ∃ i, m.origin = some i ∧ n ≤ i) :
    (c.addMethod m).Revises n r := by
  unfold ClassLike.addMethod
  split
  · exact h
  · refine h.withMembers (h.2.2.append fun member hmember => ?_)
    rw [List.mem_singleton.1 hmember]
    exact .inl hm

theorem removeMethod (h : c.Revises n r) (name : Text) : (c.removeMethod name).Revises n r :=
  h.withMembers (h.2.2.of_subset fun _ => List.mem_of_mem_filter)

theorem updateTarget (h : c.Revises n r) (target : Text) {g : ArrayLit Expr → ArrayLit Expr}
    (hg : ∀ a : ArrayLit Expr, a.Follows (g a)) : (c.updateTarget target g).Revises n r :=
  h.withMembers (h.2.2.updateFirst fun _ _ => Member.follows_updateTarget hg)

end ClassLike.Revises

/-! ### Statements -/

/-- The statement takes the place of another one. -/
abbrev Stmt.Follows (n : NodeId) (v w : Stmt) : Prop := Graft.Follows Stmt.Built (Stmt.Revises n) v w

/-- The statement of a file takes the place of another one. -/
abbrev TopStmt.Follows (n : NodeId) (v w : TopStmt) : Prop := Graft.Follows TopStmt.Built (TopStmt.Revises n) v w

theorem Stmt.follows_updateArray {g : ArrayLit Expr → ArrayLit Expr} (hg : ∀ a : ArrayLit Expr, a.Follows (g a))
    {v w : Stmt} (hw : (v.return?.bind fun r => (r.updateArray? g).map .ret) = some w) : Stmt.Follows n v w := by
  obtain ⟨s, hs, hw⟩ := Option.bind_eq_some_iff.1 hw
  obtain ⟨t, ht, rfl⟩ := Option.map_eq_some_iff.1 hw
  cases v with
  | ret v =>
    cases hs
    refine ⟨?_, fun r hr => ?_⟩
    · rintro ⟨d, hd, -⟩
      cases hd
    · cases r with
      | ret r => exact ReturnStmt.Revises.updateArray hr hg ht
      | _ => cases hr
  | _ => cases hs

theorem Stmt.follows_updateClass {g : ClassLike → ClassLike} (hg : ∀ c r, c.Revises n r → (g c).Revises n r)
    {v w : Stmt} (hw : v.updateClass? g = some w) : Stmt.Follows n v w := by
  cases v with
  | classLike c =>
    rw [Stmt.updateClass?] at hw
    split at hw
    · cases hw
      refine ⟨?_, fun r hr => ?_⟩
      · rintro ⟨d, hd, -⟩
        cases hd
      · cases r with
        | classLike r => exact hg c r hr
        | _ => cases hr
    · cases hw
  | _ => cases hw

/-- The items of an import that stay are the items that were there. -/
theorem Import.items_dropClasses (p : Text → Bool) (d : Import) :
    ∃ items, d.dropClasses p = { d with items } ∧ items.Sublist d.items := by
  unfold Import.dropClasses
  split
  · exact ⟨_, rfl, List.filter_sublist⟩
  · exact ⟨d.items, rfl, List.Sublist.refl _⟩

theorem Stmt.follows_withoutImport {name : Text} {v w : Stmt} (hw : v.withoutImport? name = some w) :
    Stmt.Follows n v w := by
  cases v with
  | imports d =>
    obtain ⟨items, hdrop, hsub⟩ := d.items_dropClasses (isMeantBy name)
    simp only [Stmt.withoutImport?, hdrop] at hw
    split at hw
    · cases hw
    · rename_i hne
      cases hw
      refine ⟨?_, fun r hr => ?_⟩
      · -- An import that was built has one item, and that one stayed.
        rintro ⟨e, he, fresh, hfresh, rfl⟩
        cases he
        refine ⟨_, rfl, fresh, hfresh, ?_⟩
        rcases List.sublist_singleton.1 hsub with rfl | rfl
        · exact absurd rfl hne
        · rfl
      · cases r with
        | imports r =>
          obtain ⟨heq, hdrawn⟩ := hr
          refine ⟨?_, hdrawn.of_subset hsub.subset⟩
          rw [heq]
        | _ => cases hr
  | _ =>
    cases hw
    exact ⟨id, fun _ => id⟩

/-- A namespace with other statements. -/
theorem TopStmt.follows_inside {ns : Namespace} {stmts : List Stmt}
    (h : ∀ rs, Drawn Stmt.Built (Stmt.Revises n) ns.stmts rs → Drawn Stmt.Built (Stmt.Revises n) stmts rs) :
    TopStmt.Follows n (.inside ns) (.inside { ns with stmts }) := by
  refine ⟨?_, fun r hr => ?_⟩
  · rintro ⟨t, ht, -⟩
    cases ht
  · cases r with
    | inside r =>
      obtain ⟨heq, hdrawn⟩ := hr
      refine ⟨?_, h r.stmts hdrawn⟩
      rw [heq]
    | plain r => exact hr.elim

theorem TopStmt.follows_plain {v w : Stmt} (h : Stmt.Follows n v w) : TopStmt.Follows n (.plain v) (.plain w) := by
  refine ⟨?_, fun r hr => ?_⟩
  · rintro ⟨t, ht, hbuilt⟩
    cases ht
    exact ⟨w, rfl, h.1 hbuilt⟩
  · cases r with
    | inside r => exact hr.elim
    | plain r => exact h.2 r hr

theorem TopStmt.follows_updateClass {g : ClassLike → ClassLike} (hg : ∀ c r, c.Revises n r → (g c).Revises n r)
    {v w : TopStmt} (hw : v.updateClass? g = some w) : TopStmt.Follows n v w := by
  cases v with
  | inside ns =>
    obtain ⟨stmts, hstmts, rfl⟩ := Option.map_eq_some_iff.1 hw
    exact follows_inside fun rs hrs => hrs.updateFirst? (fun _ _ => Stmt.follows_updateClass hg) hstmts
  | plain s =>
    obtain ⟨t, ht, rfl⟩ := Option.map_eq_some_iff.1 hw
    exact follows_plain (Stmt.follows_updateClass hg ht)

theorem TopStmt.follows_withoutImport {name : Text} {v w : TopStmt} (hw : v.withoutImport? name = some w) :
    TopStmt.Follows n v w := by
  cases v with
  | inside ns =>
    cases hw
    exact follows_inside fun rs hrs => hrs.filterMap fun _ _ => Stmt.follows_withoutImport
  | plain s =>
    obtain ⟨t, ht, rfl⟩ := Option.map_eq_some_iff.1 hw
    exact follows_plain (Stmt.follows_withoutImport ht)

/-! ### Files -/

namespace File.Revises

variable {w r : File}

theorem withStmts (h : w.Revises n r) {stmts : List TopStmt}
    (hstmts : Drawn TopStmt.Built (TopStmt.Revises n) stmts r.stmts) : File.Revises n { w with stmts } r := by
  refine ⟨?_, hstmts⟩
  rw [h.1]

theorem updateClass (h : w.Revises n r) {g : ClassLike → ClassLike} (hg : ∀ c r, c.Revises n r → (g c).Revises n r)
    {v : File} (hv : w.updateClass? g = some v) : v.Revises n r := by
  obtain ⟨stmts, hstmts, rfl⟩ := Option.map_eq_some_iff.1 hv
  exact h.withStmts (h.2.updateFirst? (fun _ _ => TopStmt.follows_updateClass hg) hstmts)

theorem updateUnit (h : w.Revises n r) {g : List Stmt → List Stmt}
    (hg : ∀ ws rs, Drawn Stmt.Built (Stmt.Revises n) ws rs → Drawn Stmt.Built (Stmt.Revises n) (g ws) rs) :
    (w.updateUnit g).Revises n r := by
  refine h.withStmts ?_
  cases hupdate : updateFirst? (TopStmt.updateInside? g) w.stmts with
  | some stmts =>
    refine h.2.updateFirst? (fun s t hst => ?_) hupdate
    cases s with
    | inside ns =>
      cases hst
      exact TopStmt.follows_inside fun rs => hg ns.stmts rs
    | plain s => cases hst
  | none =>
    -- All statements stand in the file itself.
    have hplain : Drawn Stmt.Built (Stmt.Revises n) (w.stmts.filterMap TopStmt.plain?)
        (r.stmts.filterMap TopStmt.plain?) := by
      intro s hs
      obtain ⟨t, ht, hts⟩ := List.mem_filterMap.1 hs
      cases t with
      | inside ns => cases hts
      | plain t =>
        cases hts
        rcases h.2 _ ht with ⟨u, hu, hbuilt⟩ | ⟨u, hu, hrevises⟩
        · cases hu
          exact .inl hbuilt
        · cases u with
          | inside ns => exact hrevises.elim
          | plain u => exact .inr ⟨u, List.mem_filterMap.2 ⟨_, hu, rfl⟩, hrevises⟩
    intro t ht
    obtain ⟨s, hs, rfl⟩ := List.mem_map.1 ht
    rcases hg _ _ hplain s hs with hbuilt | ⟨u, hu, hrevises⟩
    · exact .inl ⟨s, rfl, hbuilt⟩
    · obtain ⟨v, hv, hvu⟩ := List.mem_filterMap.1 hu
      cases v with
      | inside ns => cases hvu
      | plain v =>
        cases hvu
        exact .inr ⟨_, hv, hrevises⟩

theorem addImport (h : w.Revises n r) {name : Text} (hname : name.OneLine) :
    (w.updateUnit (Graft.addImport name)).Revises n r := by
  refine h.updateUnit fun ws rs hws => ?_
  unfold Graft.addImport
  split
  · exact hws
  · refine hws.step fun s hs => ?_
    rcases List.mem_cons.1 ((insertAt_perm _ _ ws).mem_iff.1 hs) with rfl | hs
    · exact .inr (.inl ⟨_, rfl, name, hname, rfl⟩)
    · exact .inl hs

theorem removeImport (h : w.Revises n r) (name : Text) : (Graft.removeImport name w).Revises n r :=
  h.withStmts (h.2.filterMap fun _ _ => TopStmt.follows_withoutImport)

theorem setConfig (h : w.Revises n r) {path : Text} (hpath : path.OneLine) {value : Scalar}
    (hvalue : ∀ t ∈ value.texts, t.OneLine) : (Graft.setConfig path value w).Revises n r := by
  have hkeys : ∀ k ∈ pathOf path, k.OneLine := by
    intro k hk
    unfold pathOf at hk
    split at hk
    · cases hk
    · exact fun hmem => hpath (Text.subset_of_mem_splitOn hk hmem)
  exact h.updateUnit fun ws rs hws =>
    hws.updateFirst fun _ _ => Stmt.follows_updateArray (ArrayLit.follows_setPath hkeys hvalue)

end File.Revises

/-! ### Queues -/

/-- The texts of the edit are written on one line, and what it brings was read with an id from `n` on. -/
structure PreparedEdit.Ready (n : NodeId) (p : PreparedEdit) : Prop where
  texts : ∀ t ∈ p.edit.texts, t.OneLine
  method : ∀ m, p.method = some m → ∃ i, m.origin = some i ∧ n ≤ i

variable {p : PreparedEdit} {w r : File}

/-- What an edit makes of a class. -/
theorem PreparedEdit.Ready.onClass (hp : p.Ready n) {g : ClassLike → ClassLike} (hg : p.edit.onClass? p.method = some g)
    (c s : ClassLike) (h : c.Revises n s) : (g c).Revises n s := by
  have htexts := hp.texts
  generalize p.edit = e at hg htexts
  cases e with
  | addImport name => cases hg
  | removeImport name => cases hg
  | setConfig path value => cases hg
  | addTrait name =>
    cases hg
    exact h.addTrait (htexts name (List.mem_singleton.2 rfl))
  | removeTrait name =>
    cases hg
    exact h.removeTrait name
  | addInterface name =>
    cases hg
    exact h.addInterface (htexts name (List.mem_singleton.2 rfl))
  | removeInterface name =>
    cases hg
    exact h.removeInterface name
  | addMethod code =>
    cases hg
    cases hm : p.method with
    | none => exact h
    | some m => exact h.addMethod (hp.method m hm)
  | removeMethod name =>
    cases hg
    exact h.removeMethod name
  | addToArray target key value =>
    cases hg
    refine h.updateTarget target (ArrayLit.follows_appendEntry (fun k hk => ?_) fun t ht => ?_)
    · exact htexts k (List.mem_append_left _ hk)
    · exact htexts t (List.mem_append_right _ ht)
  | removeFromArray target search =>
    cases hg
    exact h.updateTarget target (ArrayLit.follows_dropEntries search)

/-- What any other edit makes of the file. -/
theorem PreparedEdit.Ready.onFile (hp : p.Ready n) (h : w.Revises n r) : (p.edit.onFile w).Revises n r := by
  have htexts := hp.texts
  generalize p.edit = e at htexts
  cases e with
  | addImport name =>
    refine h.addImport fun hmem => ?_
    exact htexts name (List.mem_singleton.2 rfl) (List.dropWhile_subset _ hmem)
  | removeImport name => exact h.removeImport _
  | setConfig path value =>
    exact h.setConfig (htexts path List.mem_cons_self) fun t ht => htexts t (List.mem_cons_of_mem _ ht)
  | _ => exact h

/-- An edit makes a revision of a revision. -/
theorem File.Revises.run (h : w.Revises n r) (hp : p.Ready n) : (p.run w).2.Revises n r := by
  unfold PreparedEdit.run
  split
  · exact hp.onFile h
  · rename_i g hg
    split
    · exact h
    · split
      · rename_i v hv
        exact h.updateClass (hp.onClass hg) hv
      · exact h

/-- A queue of edits makes a revision. -/
theorem File.Revises.runAll {ps : List PreparedEdit} (h : w.Revises n r) (hps : ∀ p ∈ ps, p.Ready n) :
    (runAll ps w).Revises n r := by
  induction ps generalizing w with
  | nil => exact h
  | cons p ps ih =>
    obtain ⟨hp, hrest⟩ := List.forall_mem_cons.1 hps
    exact ih (h.run hp) hrest

/-- A method that was read has an id from those of the arena on. -/
theorem ready_prepare {e : Edit} {f : File} {a a' : Arena} (hn : n ≤ a.nextId) (he : ∀ t ∈ e.texts, t.OneLine)
    (h : (PreparedEdit.ofEdit e).prepare f a = (.ok p, a')) : p.Ready n := by
  have hedit : p.edit = e := (PreparedEdit.prepare_eq_ok h).1
  refine ⟨hedit ▸ he, fun m hm => ?_⟩
  cases e with
  | addMethod code =>
    simp only [PreparedEdit.prepare, PreparedEdit.ofEdit] at h
    split at h
    · cases h
    · cases h
    · rename_i m' b hparse
      cases h
      cases hm
      obtain ⟨i, hi, hle, -⟩ := (Arena.fresh_parseMethod hparse).2 _ m.origin_mem_origins
      exact ⟨i, hi, Nat.le_trans hn hle⟩
  | _ =>
    obtain ⟨hreq, -⟩ := Prod.mk.inj h
    obtain ⟨-, -, rfl⟩ := except_map_eq_ok.1 hreq
    cases hm

theorem ready_prepareAll {es : List Edit} {ps : List PreparedEdit} {f : File} {a a' : Arena} (hn : n ≤ a.nextId)
    (hes : ∀ e ∈ es, ∀ t ∈ e.texts, t.OneLine) (h : prepareAll f es a = .ok (ps, a')) : ∀ p ∈ ps, p.Ready n := by
  induction es generalizing a ps with
  | nil =>
    cases h
    exact nofun
  | cons e es ih =>
    obtain ⟨p, b, qs, hp, hqs, rfl⟩ := prepareAll_cons_eq_ok.1 h
    obtain ⟨he, hrest⟩ := List.forall_mem_cons.1 hes
    have hgrows := PreparedEdit.grows_prepare hp
    exact List.forall_mem_cons.2 ⟨ready_prepare hn he hp, ih (Nat.le_trans hn hgrows.nextId) hrest hqs⟩

/-! ### Carriage returns -/

open Text (Crlf)

/-- If every line feed of a file follows a carriage return, then so does every line feed of what a queue makes of it.
The names, keys and strings that the edits write have no line feed; the code of methods may break its lines in any
way. -/
theorem applyEdits_crlf {source out : Text} {edits : List Edit} (hmem : '\n' ∈ source) (hsource : source.Crlf)
    (hedits : ∀ e ∈ edits, ∀ t ∈ e.texts, t.OneLine) (hout : applyEdits source edits = .ok out) : out.Crlf := by
  cases hparse : Arena.empty.parseFile source with
  | mk r a =>
    cases r with
    | error err =>
      simp only [applyEdits, hparse] at hout
      cases hout
    | ok f =>
      obtain ⟨ps, b, hps, rfl⟩ := (applyEdits_eq_ok_iff hparse).1 hout
      obtain ⟨hlaid, hspan, hids⟩ := Arena.laid_of_parseFile hparse
      have hspan : f.span = ⟨0, source.size⟩ := hspan.trans (congrArg (Span.mk 0) (Nat.zero_add source.size))
      have htext : a.text = source := by
        have happend := Arena.empty.text_parseFile source
        rwa [hparse] at happend
      obtain ⟨-, -, more, hmore⟩ := prepareAll_eq_ok hps
      -- What is read after the file has later ids, and stands behind it.
      have hready := ready_prepareAll (Nat.le_refl a.nextId) hedits hps
      have hrevises : (runAll ps f).Revises a.nextId f := f.revises_refl.runAll hready
      exact File.crlf_print hsource hmem ⟨more, by rw [hmore, htext]⟩ hspan
        (Arena.relocate_clear_parseFile hsource hparse) hids hlaid hrevises

/-- A method whose lines end with line feeds alone is brought to a class whose lines do not. -/
theorem applyEdits_crlf_method :
    '\n' ∈ "<?php\r\nclass A\r\n\x7b\r\n\x7d\r\n".toList ∧
      Crlf "<?php\r\nclass A\r\n\x7b\r\n\x7d\r\n".toList ∧
      (∀ e ∈ [Edit.addMethod "function f()\n\x7b\n\x7d".toList, .addTrait "T".toList], ∀ t ∈ e.texts, t.OneLine) ∧
      applyEdits "<?php\r\nclass A\r\n\x7b\r\n\x7d\r\n".toList
          [.addMethod "function f()\n\x7b\n\x7d".toList, .addTrait "T".toList] =
        .ok ("<?php\r\nclass A\r\n\x7b\r\n    use T;\r\n\r\n".toList ++
          "    function f()\r\n    \x7b\r\n    \x7d\r\n\x7d\r\n".toList) ∧
      Crlf ("<?php\r\nclass A\r\n\x7b\r\n    use T;\r\n\r\n".toList ++
        "    function f()\r\n    \x7b\r\n    \x7d\r\n\x7d\r\n".toList) :=
  -- The last part is what the theorem says of the one before it.
  have hcrlf := applyEdits_crlf (by decide) (by decide) (by decide)
  ⟨by decide, by decide, by decide, (and_iff_left_of_imp hcrlf).2 (by decide +kernel)⟩

end Graft
