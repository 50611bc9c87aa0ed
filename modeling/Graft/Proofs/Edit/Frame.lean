/-
What a queue of edits leaves alone in the text.

A queue of edits of traits, interfaces, methods and arrays changes the text of the first class of the file only, and
of that class only the clause of its interfaces and its body.  Every byte before the clause, between it and the body
and behind the body is kept.  Where the tree is the one that was read, the text of the file is printed, whatever the queue
has put behind it in the arena.

* `applyEdits_frame` — the frame of a queue of edits of a class;
* `text_prepareAll` — the text of the file at the front of the arena;
* `print_prepareAll` — the tree that was read, behind a queue;
* `applyEdits_of_require` — a queue whose edits leave the tree alone.
-/
import Graft.Proofs.Edit.FirstClass
import Graft.Proofs.Edit.Prepared
import Graft.Proofs.Print.Frame
import Graft.Proofs.Reading.Source
import Graft.Proofs.Tree.Equal

namespace Graft

/-! ### The text of the file in the arena -/

variable {source u : Text}

/-- A cut of a text that stands before the text appended to it. -/
theorem Text.IsCut.of_append {x : Nat} (h : Text.IsCut (source ++ u) x) (hle : x ≤ source.size) :
    Text.IsCut source x := by
  obtain ⟨p, q, hpq, rfl⟩ := h
  obtain ⟨m, rfl, -⟩ := Text.exists_append_of_size_le hpq.symm hle
  exact ⟨p, m, rfl, rfl⟩

theorem Text.Runs.of_append {x y : Nat} (h : Text.Runs (source ++ u) x y) (hle : y ≤ source.size) :
    Text.Runs source x y :=
  ⟨h.1.of_append (Nat.le_trans h.2.2 hle), h.2.1.of_append hle, h.2.2⟩

namespace ClassLike

variable {c : ClassLike} {x y : Nat}

theorem Between.of_append (h : c.Between (source ++ u) x y) (hle : y ≤ source.size) : c.Between source x y := by
  have h₅ := Nat.le_trans h.behind.2.2 hle
  have h₄ := Nat.le_trans h.body.2.2 h₅
  have h₃ := Nat.le_trans h.header.2.2 h₄
  have h₂ := Nat.le_trans h.clause.2.2 h₃
  exact ⟨h.before.of_append h₂, h.clause.of_append h₃, h.header.of_append h₄, h.body.of_append h₅,
    h.behind.of_append hle⟩

theorem Framed.of_append {out : Text} (h : c.Framed (source ++ u) x y out) (hc : c.Between source x y) :
    c.Framed source x y out := by
  obtain ⟨clause, body, rfl⟩ := h
  refine ⟨clause, body, ?_⟩
  rw [Text.slice_append_right hc.before.2.1.le_size, Text.slice_append_right hc.header.2.1.le_size,
    Text.slice_append_right hc.behind.2.1.le_size]

end ClassLike

/-! ### The frame -/

/-- A queue of edits of a class leaves a file without a class as it is.  In a file with one, the clause of interfaces
and the body of the first class stand in this order in the text, and all that stands around them is kept. -/
theorem applyEdits_frame {edits : List Edit} {f : File} {out : Text}
    (hf : (Arena.empty.parseFile source).1 = .ok f) (hedits : ∀ e ∈ edits, e.isClassEdit = true)
    (hout : applyEdits source edits = .ok out) :
    (f.firstClass? = none → out = source) ∧
      ∀ c, f.firstClass? = some c → c.Between source 0 source.size ∧ ∃ clause body,
        out = source.slice 0 c.clauseSpan.start ++ clause ++ source.slice c.clauseSpan.stop c.body.start ++ body ++
          source.slice c.body.stop source.size := by
  obtain ⟨a, hparse⟩ : ∃ a, Arena.empty.parseFile source = (.ok f, a) := ⟨_, Prod.ext hf rfl⟩
  have htext : a.text = source := by
    have h := Arena.text_parseFile .empty source
    rw [hparse] at h
    exact h
  obtain ⟨hlaid, hspan, hids⟩ := Arena.laid_of_parseFile hparse
  have hspan' : f.span = ⟨0, source.size⟩ := by
    rw [hspan]
    exact congrArg (Span.mk 0) (Nat.zero_add _)
  unfold applyEdits at hout
  simp only [hparse] at hout
  obtain ⟨⟨ps, b⟩, hps, rfl⟩ := except_map_eq_ok.1 hout
  obtain ⟨hmap, hspent, u, hu⟩ := prepareAll_eq_ok hps
  rw [htext] at hu
  have hfresh : ∀ p ∈ ps, p.IsFresh := fun p hp =>
    ⟨hedits p.edit (hmap ▸ List.mem_map_of_mem hp), hspent p hp⟩
  refine ⟨fun hnone => ?_, fun c hc => ?_⟩
  · simp only [runAll_of_firstClass?_none hnone hfresh]
    rw [print_self _ _ _ (File.beq_self hlaid), hspan', Arena.slice, hu]
    exact (Text.slice_append_right (Nat.le_refl _) u).trans
      (Text.slice_zero_size source)
  · obtain ⟨k, is, ms, hk, hrun⟩ := runAll_of_firstClass? hc hfresh
    have hcut : (Arena.empty.ground source).Cuts b.text := by
      intro e he
      rw [hu]
      exact (Arena.isCut_of_edge he).append u
    have hprint := File.framed_print hk is ms (a := b) hids hlaid hcut
    rw [hspan', hu] at hprint
    obtain ⟨hbetween, hframed⟩ := hprint (Text.isCut_zero _) ((Text.isCut_size source).append u)
    have hsource := hbetween.of_append (Nat.le_refl _)
    simp only [hrun]
    exact ⟨hsource, hframed.of_append hsource⟩

/-- A new interface and a new trait change nothing else around a class. -/
theorem applyEdits_frame_interface_trait :
    ∃ f c, (Arena.empty.parseFile "<?php\nclass A implements I \x7b\x7d\nf();".toList).1 = .ok f ∧
      f.firstClass? = some c ∧ c.clauseSpan = ⟨13, 26⟩ ∧ c.body = ⟨28, 28⟩ ∧ ∃ clause body,
        "<?php\nclass A implements I, J \x7b\n    use T;\n\x7d\nf();".toList =
          "<?php\nclass A".toList ++ clause ++ " \x7b".toList ++ body ++ "\x7d\nf();".toList :=
  have h := @applyEdits_frame "<?php\nclass A implements I \x7b\x7d\nf();".toList
    [.addInterface "J".toList, .addTrait "T".toList] _ "<?php\nclass A implements I, J \x7b\n    use T;\n\x7d\nf();".toList
    rfl (by decide) rfl
  ⟨_, _, rfl, rfl, rfl, rfl, (h.2 _ rfl).2⟩

/-! ### Queues that leave the tree alone -/

variable {f : File} {a b : Arena} {es : List Edit} {ps : List PreparedEdit}

/-- The text of the file stands at the front of the arena, whatever a queue has put behind it. -/
theorem text_prepareAll (hparse : Arena.empty.parseFile source = (.ok f, a)) (hps : prepareAll f es a = .ok (ps, b)) :
    f.span = ⟨0, source.size⟩ ∧ ∃ u, b.text = source ++ u := by
  obtain ⟨-, hspan, -⟩ := Arena.laid_of_parseFile hparse
  obtain ⟨-, -, u, hu⟩ := prepareAll_eq_ok hps
  have htext : a.text = source := by
    have h := Arena.text_parseFile .empty source
    rw [hparse] at h
    exact h
  refine ⟨?_, u, by rw [hu, htext]⟩
  rw [hspan]
  exact congrArg (Span.mk 0) (Nat.zero_add _)

/-- The file that was read is printed as its text. -/
theorem print_prepareAll (hparse : Arena.empty.parseFile source = (.ok f, a)) (hps : prepareAll f es a = .ok (ps, b)) :
    f.print f b = source := by
  obtain ⟨hspan, u, hu⟩ := text_prepareAll hparse hps
  rw [print_self _ _ _ (File.beq_self (Arena.laid_of_parseFile hparse).1), hspan, Arena.slice, hu]
  exact (Text.slice_append_right (Nat.le_refl _) u).trans (Text.slice_zero_size source)

/-- A queue of edits that bring no code is prepared when the file has what they need, and reads nothing. -/
theorem prepareAll_of_require (hcode : ∀ e ∈ es, ∀ code, e ≠ .addMethod code) (hrequire : ∀ e ∈ es, e.require f = .ok ()) :
    prepareAll f es a = .ok (es.map .ofEdit, a) := by
  induction es with
  | nil => rfl
  | cons e es ih =>
    have he := (prepare_eq_ok_iff (a := a) (hcode e List.mem_cons_self)).2
      ⟨hrequire e List.mem_cons_self, rfl, rfl⟩
    have hes := ih (fun d hd => hcode d (List.mem_cons_of_mem e hd)) fun d hd => hrequire d (List.mem_cons_of_mem e hd)
    exact prepareAll_cons_eq_ok.2 ⟨_, _, _, he, hes, rfl⟩

/-- Edits that leave the file alone, one by one, do so in a queue. -/
theorem runAll_of_forall (h : ∀ e ∈ es, e.act none f = f) : runAll (es.map .ofEdit) f = f := by
  induction es with
  | nil => rfl
  | cons e es ih =>
    show runAll (es.map .ofEdit) ((PreparedEdit.ofEdit e).run f).2 = f
    have hstep : ((PreparedEdit.ofEdit e).run f).2 = f :=
      (PreparedEdit.run_of_unspent rfl f).trans (h e List.mem_cons_self)
    rw [hstep]
    exact ih fun d hd => h d (List.mem_cons_of_mem e hd)

/-- A queue of edits that bring no code is applied when the file has what they need, and leaves the text alone when they
leave the file alone. -/
theorem applyEdits_of_require (hf : (Arena.empty.parseFile source).1 = .ok f)
    (hcode : ∀ e ∈ es, ∀ code, e ≠ .addMethod code) (hrequire : ∀ e ∈ es, e.require f = .ok ())
    (h : ∀ e ∈ es, e.act none f = f) : applyEdits source es = .ok source := by
  obtain ⟨a, hparse⟩ : ∃ a, Arena.empty.parseFile source = (.ok f, a) := ⟨_, Prod.ext hf rfl⟩
  have hps := prepareAll_of_require (a := a) hcode hrequire
  refine (applyEdits_eq_ok_iff hparse).2 ⟨_, a, hps, ?_⟩
  rw [runAll_of_forall h]
  exact print_prepareAll hparse hps

end Graft
