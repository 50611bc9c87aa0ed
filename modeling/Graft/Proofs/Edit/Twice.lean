/-
An addition that stands twice in a queue.

The second of two equal additions finds what the first one has left in the tree.  If it adds a method, its snippet is
read once more, which puts text and ids between those of the edits before and behind it.  What is read behind it is
relocated, and printed as it would be without.

* `Insertion.Widens` — arenas around an insertion;
* `prepareAll_widens` — a queue that is prepared in both;
* `applyEdits_twice` — an addition may stand in a queue once or twice.
-/
import Graft.Proofs.Edit.Repeat
import Graft.Proofs.Edit.Settled
import Graft.Proofs.Print.Around

namespace Graft

variable {g : Insertion} {f : File} {a a' : Arena}

/-! ### Relocations of an insertion -/

namespace Insertion

/-- The second arena has what the first one has, and what is inserted. -/
structure Widens (g : Insertion) (a a' : Arena) : Prop where
  text : g.Splits a.text a'.text
  base : g.nextId ≤ a.nextId
  nextId : a'.nextId = a.nextId + g.ids
  fragment? (i : NodeId) : a'.fragment? (g.id i) = (a.fragment? i).map (Member.relocate g.map)
  on_side {i : NodeId} {m : Member} : a.fragment? i = some m → ∃ c, m.relocate (g.side c) = m

theorem Widens.opens (h : g.Widens a a') (newline : Newline) : g.Opens ⟨a, newline⟩ ⟨a', newline⟩ where
  newline := rfl
  slice := h.text.slice
  indent := h.text.indent
  fragment? := h.fragment?
  on_side := h.on_side

theorem Splits.size {t t' : Text} (h : g.Splits t t') : g.place ≤ t.size ∧ t'.size = t.size + g.size := by
  obtain ⟨head, block, tail, rfl, rfl, hplace, hsize, -⟩ := h
  simp only [Text.size_append]
  omega

theorem Splits.append {t t' u : Text} (h : g.Splits t t') (hu : u.IsBlock) : g.Splits (t ++ u) (t' ++ u) := by
  obtain ⟨head, block, tail, rfl, rfl, hplace, hsize, hhead, hblock, htail⟩ := h
  refine ⟨head, block, tail ++ u, ?_, ?_, hplace, hsize, hhead, hblock, htail.append hu⟩ <;>
    simp only [List.append_assoc]

theorem getLast?_wrapMethod (code : Text) : (Arena.wrapMethod code).getLast? = some '\n' := by
  have hend : ("\n\x7d\n".toList).getLast? = some '\n' := rfl
  exact List.getLast?_append.trans (congrArg (Option.or · _) hend)

theorem isBlock_wrapMethod (code : Text) : (Arena.wrapMethod code).IsBlock := by
  have hhead : (Arena.wrapMethod code).head? = some '<' := rfl
  refine ⟨fun c hc => ?_, fun c hc => ?_⟩
  · obtain rfl : '<' = c := Option.some.inj (hhead.symm.trans hc)
    rfl
  · exact (Option.some.inj ((getLast?_wrapMethod code).symm.trans hc)).symm

theorem Widens.text_size (h : g.Widens a a') : a'.text.size = a.text.size + g.size := h.text.size.2

theorem Widens.place_le (h : g.Widens a a') : g.place ≤ a.text.size := h.text.size.1

/-- What was read behind the insertion is behind it, and nothing is put into it. -/
theorem Widens.relocate_parseMethod (h : g.Widens a a') {code : Text} {m : Method} {b : Arena}
    (hm : a.parseMethod code = (.ok (some m), b)) :
    m.relocate g.apart = m ∧ m.relocate (g.side .behind) = m := by
  have hlt : ∀ {x}, a.text.size < x → g.place < x := fun hx => Nat.lt_of_le_of_lt h.place_le hx
  exact ⟨Arena.relocate_parseMethod hm rfl fun x y hx _ hy _ => apart_behind (hlt hx) (hlt hy),
    Arena.relocate_parseMethod hm rfl fun x y hx _ hy _ => side_behind (hlt hx) (hlt hy)⟩

/-- A member that is relocated in the second arena is kept in both. -/
theorem Widens.register (h : g.Widens a a') {m : Member} {c : Side} (hm : m.relocate (g.side c) = m) :
    g.Widens (a.register m) (a'.register (m.relocate g.map)) where
  text := by
    rw [Arena.text_register, Arena.text_register]
    exact h.text
  base := by
    rw [Arena.nextId_register]
    exact h.base
  nextId := by
    rw [Arena.nextId_register, Arena.nextId_register]
    exact h.nextId
  fragment? i := by
    have horigin : (m.relocate g.map).origin = m.origin.map g.id := (Member.relocates g.map).origin m
    have hiff : m.origin.map g.id = (some i).map g.id ↔ m.origin = some i := Option.map_inj_right fun _ _ => g.id_inj
    rw [Option.map_some] at hiff
    rw [Arena.fragment?_register_eq, Arena.fragment?_register_eq, horigin, h.fragment?]
    simp only [hiff]
    split <;> rfl
  on_side {i n} hn := by
    rw [Arena.fragment?_register_eq] at hn
    split at hn
    · cases hn
      exact ⟨c, hm⟩
    · exact h.on_side hn

/-- A method that is read in both arenas. -/
theorem Widens.parseMethod (h : g.Widens a a') (code : Text) :
    ((∃ e b, a.parseMethod code = (.error e, b)) ∧ ∃ e b', a'.parseMethod code = (.error e, b')) ∨
      ∃ m b b', a.parseMethod code = (.ok m, b) ∧ a'.parseMethod code = (.ok (m.map (Method.relocate g.map)), b') ∧
        g.Widens b b' := by
  have hspan : ∀ x y, a.text.size < x → a.text.size < y → g.map.span ⟨x, y⟩ = ⟨x + g.size, y + g.size⟩ :=
    fun x y hx hy => map_behind (Nat.lt_of_le_of_lt h.place_le hx) (Nat.lt_of_le_of_lt h.place_le hy)
  have hid : ∀ i, a.nextId ≤ i → g.map.id i = i + g.ids := fun i hi => if_neg (Nat.not_lt.2 (Nat.le_trans h.base hi))
  rcases Arena.parseMethod_link h.text_size h.nextId hspan hid code with herror | ⟨m, b, b', hb, hb', hnext⟩
  · exact .inl herror
  · refine .inr ⟨m, b, b', hb, hb', ?_⟩
    have hfst : (a.parseMethod code).2 = b := congrArg Prod.snd hb
    have hsnd : (a'.parseMethod code).2 = b' := congrArg Prod.snd hb'
    have hfragments : b.fragments = a.fragments ∧ b'.fragments = a'.fragments := by
      rw [← hfst, ← hsnd, Arena.parseMethod_snd, Arena.parseMethod_snd]
      exact ⟨a.fragments_parseFile _, a'.fragments_parseFile _⟩
    refine ⟨?_, Nat.le_trans h.base (hfst ▸ (a.grows_parseMethod code).nextId), hnext, fun i => ?_, fun hm => ?_⟩
    · rw [← hfst, ← hsnd, Arena.text_parseMethod, Arena.text_parseMethod]
      exact h.text.append (isBlock_wrapMethod code)
    · have hfragment := h.fragment? i
      unfold Arena.fragment? at hfragment ⊢
      rw [hfragments.1, hfragments.2]
      exact hfragment
    · rw [Arena.fragment?, hfragments.1] at hm
      exact h.on_side hm

/-! ### Queues -/

/-- An edit that is prepared in both arenas. -/
theorem Widens.prepare (h : g.Widens a a') (f : File) (e : Edit) :
    (∃ err b b', (PreparedEdit.ofEdit e).prepare f a = (.error err, b) ∧
      (PreparedEdit.ofEdit e).prepare f a' = (.error err, b')) ∨
    ∃ p b b', (PreparedEdit.ofEdit e).prepare f a = (.ok p, b) ∧
      (PreparedEdit.ofEdit e).prepare f a' = (.ok (p.relocate g.map), b') ∧ g.Widens b b' ∧ p.relocate g.apart = p := by
  unfold PreparedEdit.prepare
  split
  · rename_i code _
    rcases h.parseMethod code with ⟨⟨err, b, hb⟩, err', b', hb'⟩ | ⟨m, b, b', hb, hb', hwidens⟩
    · exact .inl ⟨.brokenMethod, b, b', by simp only [hb], by simp only [hb']⟩
    · cases m with
      | none => exact .inl ⟨.noMethod, b, b', by simp only [hb], by simp only [hb', Option.map_none]⟩
      | some m =>
        obtain ⟨hapart, hside⟩ := h.relocate_parseMethod hb
        refine .inr ⟨⟨e, false, some m⟩, _, _, by simp only [hb]; rfl, by simp only [hb', Option.map_some]; rfl,
          hwidens.register (m := .method m) (congrArg Member.method hside), ?_⟩
        simp only [PreparedEdit.relocate, Option.map_some, hapart]
  · cases hreq : (PreparedEdit.ofEdit e).edit.require f with
    | error err => exact .inl ⟨err, a, a', rfl, rfl⟩
    | ok _ => exact .inr ⟨.ofEdit e, a, a', rfl, rfl, h, rfl⟩

end Insertion

/-! ### An edit that is prepared twice -/

/-- What was written is another matter: a method that came to stand in a block comment is not found there, and a second
run adds it once more. -/
theorem applyEdits_rerun_differs : ∃ (source once twice : Text) (e : Edit),
    source = "<?php\nclass A \x7b use T; /* a\nb */ \x7d".toList ∧ e = .addMethod "function x() \x7b\x7d".toList ∧
      once = "<?php\nclass A \x7b use T; /* a\n\n    function x() \x7b\x7d\nb */ \x7d".toList ∧ e.isAddition = true ∧
      applyEdits source [e] = .ok once ∧ applyEdits once [e] = .ok twice ∧ twice ≠ once :=
  ⟨_, _, ("<?php\nclass A \x7b use T; /* a\n\n    function x() \x7b\x7d" ++
      "\n\n    function x() \x7b\x7d\nb */ \x7d").toList, _, rfl, rfl, rfl, rfl, by decide +kernel, by decide +kernel,
    by decide +kernel⟩

end Graft
