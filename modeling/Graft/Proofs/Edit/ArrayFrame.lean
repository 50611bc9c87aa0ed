/-
What edits of an array leave alone in the text.

A queue of edits of one array makes other entries of those that it has, and nothing else of the tree: several updates of
an array are one.  So the text of the file is kept but for the region of the entries, wherever the array stands.

* `runAll_of_act` — a queue of updates of an array is one of them;
* `applyEdits_array_frame` — the frame of a queue of edits of an array.
-/
import Graft.Proofs.Edit.Frame
import Graft.Proofs.Print.Array

namespace Graft

/-! ### Queues of updates -/

/-- The array becomes one with other entries. -/
def ChangesEntries (g : ArrayLit Expr → ArrayLit Expr) : Prop := ∀ a, ∃ is, g a = { a with items := is }

theorem changesEntries_id : ChangesEntries id := fun a => ⟨a.items, rfl⟩

theorem ChangesEntries.comp {g h : ArrayLit Expr → ArrayLit Expr} (hg : ChangesEntries g) (hh : ChangesEntries h) :
    ChangesEntries (g ∘ h) := by
  intro a
  obtain ⟨is, hs⟩ := hh a
  obtain ⟨js, hj⟩ := hg (h a)
  exact ⟨js, by rw [Function.comp_apply, hj, hs]⟩

theorem changesEntries_appendEntry (key : Option Text) (value : Scalar) :
    ChangesEntries (ArrayLit.appendEntry key value) := by
  intro a
  unfold ArrayLit.appendEntry
  split
  · exact ⟨a.items, rfl⟩
  · exact ⟨_, rfl⟩

theorem changesEntries_setPath (path : List Text) (value : Scalar) : ChangesEntries (ArrayLit.setPath path value) := by
  intro a
  rcases path with _ | ⟨key, _ | ⟨next, rest⟩⟩
  · exact ⟨a.items, rfl⟩
  · exact ⟨_, rfl⟩
  · exact ⟨_, rfl⟩

/-- A queue of edits that update one array updates it once. -/
theorem runAll_of_act (update : (ArrayLit Expr → ArrayLit Expr) → File → File) (hid : ∀ f, update id f = f)
    (hcomp : ∀ g h f, update g (update h f) = update (g ∘ h) f) {ps : List PreparedEdit}
    (hspent : ∀ p ∈ ps, p.spent = false)
    (h : ∀ p ∈ ps, ∃ g, ChangesEntries g ∧ ∀ f, p.edit.act p.method f = update g f) :
    ∃ g, ChangesEntries g ∧ ∀ f, runAll ps f = update g f := by
  induction ps with
  | nil => exact ⟨id, changesEntries_id, fun f => (hid f).symm⟩
  | cons p ps ih =>
    obtain ⟨g, hg, hact⟩ := h p List.mem_cons_self
    obtain ⟨k, hk, hrun⟩ := ih (fun q hq => hspent q (List.mem_cons_of_mem p hq)) fun q hq =>
      h q (List.mem_cons_of_mem p hq)
    refine ⟨k ∘ g, hk.comp hg, fun f => ?_⟩
    show runAll ps (p.run f).2 = update (k ∘ g) f
    rw [PreparedEdit.run_of_unspent (hspent p List.mem_cons_self) f, hact, hrun, hcomp]

/-! ### Edits of an array -/

/-- The edit adds an entry to the array that `target` addresses, or removes entries from it. -/
def Edit.isOfTarget (target : Text) : Edit → Bool
  | addToArray name _ _ => name == target
  | removeFromArray name _ => name == target
  | _ => false

/-- The edit sets a value in the array that the file returns. -/
def Edit.isSetConfig : Edit → Bool
  | setConfig .. => true
  | _ => false

theorem Edit.act_of_isOfTarget {e : Edit} {target : Text} (h : e.isOfTarget target = true) (m : Option Method) :
    ∃ g, ChangesEntries g ∧ ∀ f, e.act m f = f.onClass (·.updateTarget target g) := by
  cases e with
  | addToArray name key value =>
    obtain rfl : name = target := eq_of_beq h
    exact ⟨_, changesEntries_appendEntry key value, fun f => rfl⟩
  | removeFromArray name search =>
    obtain rfl : name = target := eq_of_beq h
    exact ⟨ArrayLit.dropEntries search, fun a => ⟨_, rfl⟩, fun f => rfl⟩
  | _ => cases h

theorem Edit.act_of_isSetConfig {e : Edit} (h : e.isSetConfig = true) (m : Option Method) :
    ∃ g, ChangesEntries g ∧ ∀ f, e.act m f = f.onReturnedArray g := by
  cases e with
  | setConfig path value => exact ⟨_, changesEntries_setPath (pathOf path) value, fun f => rfl⟩
  | _ => cases h

/-! ### The frame -/

/-- The text `out` is `t` but for the entries of the array; it is `t` when there is no array. -/
def Text.KeepsAround (t : Text) (a : Option (ArrayLit Expr)) (out : Text) : Prop :=
  (a = none → out = t) ∧ ∀ b, a = some b → ∃ new, t.Around b.itemsRegion new 0 t.size out

theorem Text.Around.of_append {source u new out : Text} {region : Span} {x y : Nat}
    (h : Text.Around (source ++ u) region new x y out) (hle : y ≤ source.size) : source.Around region new x y out := by
  have hbehind := h.behind.of_append hle
  have hstop := Nat.le_trans h.behind.2.2 hle
  have hinside := h.inside.of_append hstop
  have hstart := Nat.le_trans h.inside.2.2 hstop
  refine ⟨h.before.of_append hstart, hinside, hbehind, ?_⟩
  rw [h.eq, Text.slice_append_right hstart, Text.slice_append_right hle]

section Frame

variable {source : Text} {f : File} {a b : Arena} {es : List Edit} {ps : List PreparedEdit}

/-- A file of which one array has other entries is printed as the text that was read around them. -/
theorem File.HoldsArray.keepsAround {lit : ArrayLit Expr} {put : ArrayLit Expr → File} (h : f.HoldsArray lit put)
    (hparse : Arena.empty.parseFile source = (.ok f, a)) (hps : prepareAll f es a = .ok (ps, b))
    (is : List (ArrayItem Expr)) :
    source.KeepsAround (some lit) ((put { lit with items := is }).print f b) := by
  obtain ⟨hspan, u, hu⟩ := text_prepareAll hparse hps
  obtain ⟨hlaid, -, hids⟩ := Arena.laid_of_parseFile hparse
  have hcut : (Arena.empty.ground source).Cuts b.text := by
    intro e he
    rw [hu]
    exact (Arena.isCut_of_edge he).append u
  have hstart : b.text.IsCut f.span.start := by
    rw [hspan]
    exact Text.isCut_zero _
  have hstop : b.text.IsCut f.span.stop := by
    rw [hspan, hu]
    exact (Text.isCut_size source).append u
  obtain ⟨new, haround⟩ := h.around hids hlaid hcut hstart hstop is
  rw [hspan, hu] at haround
  refine ⟨fun hnone => absurd hnone (Option.some_ne_none lit), fun c hc => ?_⟩
  cases hc
  exact ⟨new, haround.of_append (Nat.le_refl _)⟩

theorem keepsAround_none (hparse : Arena.empty.parseFile source = (.ok f, a)) (hps : prepareAll f es a = .ok (ps, b)) :
    source.KeepsAround none (f.print f b) :=
  ⟨fun _ => print_prepareAll hparse hps, fun c hc => absurd hc.symm (Option.some_ne_none c)⟩

/-- Other entries of the array that a target addresses in the first class. -/
theorem keepsAround_onClass (hparse : Arena.empty.parseFile source = (.ok f, a))
    (hps : prepareAll f es a = .ok (ps, b)) (target : Text) {g : ArrayLit Expr → ArrayLit Expr}
    (hg : ChangesEntries g) :
    source.KeepsAround (f.firstClass?.bind (·.targetArray? target))
      ((f.onClass (·.updateTarget target g)).print f b) := by
  cases hclass : f.firstClass? with
  | none =>
    have hself : f.onClass (·.updateTarget target g) = f := by
      rw [File.onClass, File.updateClass?_eq_none hclass, Option.getD_none]
    rw [hself]
    exact keepsAround_none hparse hps
  | some c =>
    rw [Option.bind_some]
    cases htarget : c.targetArray? target with
    | none =>
      have hself : f.onClass (·.updateTarget target g) = f := by
        refine File.onClass_eq_self fun d hd => ClassLike.updateTarget_eq_self fun lit hlit => ?_
        rw [hclass] at hd
        cases hd
        rw [htarget] at hlit
        cases hlit
      rw [hself]
      exact keepsAround_none hparse hps
    | some lit =>
      obtain ⟨hcls, k, hk, hupdate⟩ := File.exists_hole hclass
      obtain ⟨put, hput, hchange⟩ := ClassLike.exists_holdsArray htarget
      obtain ⟨is, his⟩ := hg lit
      have hon : f.onClass (·.updateTarget target g) = k { c with members := put { lit with items := is } } := by
        have hfirst := hupdate c hcls (·.updateTarget target g)
        rw [hk.eq] at hfirst
        rw [File.onClass, hfirst, Option.getD_some, hchange, his]
      rw [hon]
      exact (File.HoldsArray.inClass c k put hk hput).keepsAround hparse hps is

/-- Other entries of the array that the file returns. -/
theorem keepsAround_onReturnedArray (hparse : Arena.empty.parseFile source = (.ok f, a))
    (hps : prepareAll f es a = .ok (ps, b)) {g : ArrayLit Expr → ArrayLit Expr} (hg : ChangesEntries g) :
    source.KeepsAround f.returnedArray? ((f.onReturnedArray g).print f b) := by
  cases hreturned : f.returnedArray? with
  | none =>
    have hself : f.onReturnedArray g = f := File.onReturnedArray_eq_self fun lit hlit => by
      rw [hreturned] at hlit
      cases hlit
    rw [hself]
    exact keepsAround_none hparse hps
  | some lit =>
    obtain ⟨put, hput, hchange⟩ := File.exists_holdsArray hreturned
    obtain ⟨is, his⟩ := hg lit
    rw [hchange, his]
    exact hput.keepsAround hparse hps is

/-- Edits of one array change nothing outside of the region of its entries.  A queue of edits that all name one target
is applied, and the array is the one that the target addresses in the first class; for a queue of edits of the array
that the file returns, if it is applied, the array is that one.  Where there is no array the text stays as it is. -/
theorem applyEdits_array_frame (hf : (Arena.empty.parseFile source).1 = .ok f) :
    (∀ target edits, (∀ e ∈ edits, e.isOfTarget target = true) → ∃ out, applyEdits source edits = .ok out ∧
      source.KeepsAround (f.firstClass?.bind (·.targetArray? target)) out) ∧
    ∀ edits out, (∀ e ∈ edits, e.isSetConfig = true) → applyEdits source edits = .ok out →
      source.KeepsAround f.returnedArray? out := by
  obtain ⟨a, hparse⟩ : ∃ a, Arena.empty.parseFile source = (.ok f, a) := ⟨_, Prod.ext hf rfl⟩
  constructor
  · intro target edits hedits
    have hcode : ∀ e ∈ edits, ∀ code, e ≠ .addMethod code := by
      rintro e he code rfl
      cases hedits _ he
    have hrequire : ∀ e ∈ edits, e.require f = .ok () := by
      intro e he
      have htarget := hedits e he
      cases e <;> first | rfl | cases htarget
    have hps := prepareAll_of_require (a := a) hcode hrequire
    obtain ⟨hmap, hspent, -⟩ := prepareAll_eq_ok hps
    obtain ⟨g, hg, hrun⟩ := runAll_of_act (fun g f => f.onClass (·.updateTarget target g))
      (fun f => File.onClass_eq_self fun c _ => ClassLike.updateTarget_eq_self fun _ _ => rfl)
      (fun g h f => (File.onClass_onClass (h := (·.updateTarget target h)) (fun _ => rfl) _ f).trans
        (congrArg (File.onClass · f) (funext (ClassLike.updateTarget_updateTarget target g h))))
      hspent fun p hp => Edit.act_of_isOfTarget (hedits p.edit (hmap ▸ List.mem_map_of_mem hp)) p.method
    refine ⟨_, (applyEdits_eq_ok_iff hparse).2 ⟨_, a, hps, rfl⟩, ?_⟩
    rw [hrun]
    exact keepsAround_onClass hparse hps target hg
  · intro edits out hedits hout
    obtain ⟨ps, b, hps, rfl⟩ := (applyEdits_eq_ok_iff hparse).1 hout
    obtain ⟨hmap, hspent, -⟩ := prepareAll_eq_ok hps
    obtain ⟨g, hg, hrun⟩ := runAll_of_act File.onReturnedArray
      (fun f => File.onReturnedArray_eq_self fun _ _ => rfl) File.onReturnedArray_onReturnedArray
      hspent fun p hp => Edit.act_of_isSetConfig (hedits p.edit (hmap ▸ List.mem_map_of_mem hp)) p.method
    rw [hrun]
    exact keepsAround_onReturnedArray hparse hps hg

/-- An entry for the second property of a declaration, and a value in the array that the file returns. -/
theorem applyEdits_array_frame_property_return :
    let source : Text := "<?php class A { var $a = 1, $b = [2]; } return [3 => 4];".toList
    ∃ f, (Arena.empty.parseFile source).1 = .ok f ∧
      ((f.firstClass?.bind (·.targetArray? "b".toList)).map (·.itemsRegion) = some ⟨34, 35⟩ ∧
        f.returnedArray?.map (·.itemsRegion) = some ⟨48, 54⟩) ∧
      (∃ out, applyEdits source [.addToArray "b".toList none (.int 5), .removeFromArray "b".toList "c".toList] = .ok out ∧
        source.KeepsAround (f.firstClass?.bind (·.targetArray? "b".toList)) out) ∧
      source.KeepsAround f.returnedArray?
        "<?php class A { var $a = 1, $b = [2]; } return [3 => 4, 'k' => 5];".toList := by
  intro source
  have hregions : ((Arena.empty.parseFile source).1.toOption.map fun f => decide
      ((f.firstClass?.bind (·.targetArray? "b".toList)).map (·.itemsRegion) = some ⟨34, 35⟩ ∧
        f.returnedArray?.map (·.itemsRegion) = some ⟨48, 54⟩)) = some true := by decide +kernel
  obtain ⟨f, hf, hcheck⟩ := exists_of_parseFile hregions
  have h := applyEdits_array_frame hf
  refine ⟨f, hf, of_decide_eq_true hcheck, h.1 "b".toList _ (by decide), ?_⟩
  refine h.2 [.setConfig "k".toList (.int 5)] _ (by decide) (eq_ok_of_toOption ?_)
  decide +kernel

end Frame

end Graft
