/-
What was read into an arena stays where it is.

A relocation that leaves the text of an arena and the ids drawn from it alone leaves the file, the methods of prepared
edits and the members kept in the arena alone, for they were read from that text with those ids.

Every edit of a queue is checked against the file as it was read.  The snippets of the edits before it have put text and
ids into the arena, but what an edit needs does not depend on them: a snippet that is read behind others is read as it
would be alone.  So a queue fails exactly when one of its edits fails alone, and the first one that does so gives the
error.

* `relocate_parseFile` — a file that was read;
* `prepareAll_settled` — a queue that was prepared;
* `Edit.refusal?_grows` — an edit is refused behind other snippets for the reason for which it is refused alone;
* `prepareAll_refused` — a queue is refused for the reason of the first edit that is refused;
* `applyEdits_alone` — what becomes of a queue is told by what becomes of its edits.
-/
import Graft.Proofs.Edit.Prepared
import Graft.Proofs.Edit.Relocation
import Graft.Proofs.Reading.Places
import Graft.Proofs.Tree.Faithful

namespace Graft

variable {φ : Relocation} {f : File} {a a' : Arena}

/-! ### Relocations of later text -/

/-- The relocation leaves the offsets up to `size` and the ids below `n` alone. -/
structure Relocation.Fixes (φ : Relocation) (size : Nat) (n : NodeId) : Prop where
  id {i : NodeId} : i < n → φ.id i = i
  span {x y : Nat} : x ≤ size → y ≤ size → φ.span ⟨x, y⟩ = ⟨x, y⟩

/-- The relocation of the spans only. -/
def Relocation.ofSpans (φ : Relocation) : Relocation := ⟨fun i => i, φ.span⟩

theorem ofSpans_id (φ : Relocation) : φ.ofSpans.id = id := rfl

theorem Relocation.span_ofSpans (φ : Relocation) : φ.span = φ.ofSpans.span := rfl

namespace Relocation.Fixes

variable {size size' : Nat} {n n' : NodeId}

theorem mono (h : φ.Fixes size n) (hsize : size' ≤ size) (hn : n' ≤ n) : φ.Fixes size' n' :=
  ⟨fun hi => h.id (Nat.lt_of_lt_of_le hi hn), fun hx hy => h.span (Nat.le_trans hx hsize) (Nat.le_trans hy hsize)⟩

theorem dummy (h : φ.Fixes size n) : φ.span .dummy = .dummy := h.span (Nat.zero_le _) (Nat.zero_le _)

/-- The relocation does nothing with ids that were drawn. -/
theorem agree (h : φ.Fixes size n) {ids : List (Option NodeId)} (hids : ∀ o ∈ ids, ∃ i, o = some i ∧ i < n) :
    Agree φ φ.ofSpans ids := by
  intro o ho
  obtain ⟨i, rfl, hi⟩ := hids o ho
  exact congrArg some (h.id hi)

end Relocation.Fixes

/-! ### Files and methods -/

/-- The method of a snippet that was read. -/
theorem relocate_parseMethod {code : Text} {m : Method} (h : a.parseMethod code = (.ok (some m), a'))
    (hφ : φ.Fixes a'.text.size a'.nextId) : m.relocate φ = m := by
  have hsize : a'.text.size = a.text.size + (Arena.wrapMethod code).size := by
    have htext := a.text_parseMethod code
    rw [h] at htext
    rw [htext, Text.size_append]
  have hagree := hφ.agree fun o ho => by
    obtain ⟨i, hi, -, hlt⟩ := (Arena.fresh_parseMethod h).2 o ho
    exact ⟨i, hi, hlt⟩
  have hcongr : m.relocate φ = m.relocate φ.ofSpans := Method.relocate_congr φ.span_ofSpans hagree
  rw [hcongr]
  exact Arena.relocate_parseMethod h (ofSpans_id φ) fun x y _ hx _ hy => hφ.span (by omega) (by omega)

/-! ### Arenas and queues -/

/-- The members kept in the arena were read from its text with ids that were drawn from it. -/
def Arena.Settled (a : Arena) : Prop :=
  ∀ i m, a.fragment? i = some m → i < a.nextId ∧ ∀ φ : Relocation, φ.Fixes a.text.size a.nextId → m.relocate φ = m

/-- Arenas grow. -/
structure Arena.Grows (a a' : Arena) : Prop where
  size : a.text.size ≤ a'.text.size
  nextId : a.nextId ≤ a'.nextId

theorem Arena.Grows.trans {a b c : Arena} (h : a.Grows b) (h' : b.Grows c) : a.Grows c :=
  ⟨Nat.le_trans h.size h'.size, Nat.le_trans h.nextId h'.nextId⟩

theorem Arena.grows_parseMethod (a : Arena) (code : Text) : a.Grows (a.parseMethod code).2 := by
  refine ⟨?_, ?_⟩
  · rw [text_parseMethod, Text.size_append]
    exact Nat.le_add_right _ _
  · rw [parseMethod_snd]
    exact nextId_parseFile a _

/-- A snippet that is read into an arena that has grown is read alike. -/
theorem Arena.Grows.parseMethod (h : a.Grows a') (code : Text) :
    ((∃ e b, a.parseMethod code = (.error e, b)) ∧ ∃ e b', a'.parseMethod code = (.error e, b')) ∨
      ∃ m b b' φ, a.parseMethod code = (.ok m, b) ∧ a'.parseMethod code = (.ok (m.map (Method.relocate φ)), b') := by
  -- All that has grown stands between the old text and the snippet.
  let g : Insertion := ⟨a.text.size, a'.text.size - a.text.size, a.nextId, a'.nextId - a.nextId⟩
  have htext : a'.text.size = a.text.size + g.size := (Nat.add_sub_cancel' h.size).symm
  have hnext : a'.nextId = a.nextId + g.ids := (Nat.add_sub_cancel' h.nextId).symm
  have hspan : ∀ x y, a.text.size < x → a.text.size < y → g.map.span ⟨x, y⟩ = ⟨x + g.size, y + g.size⟩ :=
    fun _ _ hx hy => Insertion.map_behind (g := g) hx hy
  have hid : ∀ i, a.nextId ≤ i → g.map.id i = i + g.ids := fun i hi => if_neg (Nat.not_lt.2 hi)
  rcases Arena.parseMethod_link htext hnext hspan hid code with herror | ⟨m, b, b', hb, hb', -⟩
  · exact .inl herror
  · exact .inr ⟨m, b, b', g.map, hb, hb'⟩

/-- An edit that is prepared lets the arena grow. -/
theorem PreparedEdit.grows_prepare {p q : PreparedEdit} (h : p.prepare f a = (.ok q, a')) : a.Grows a' := by
  unfold prepare at h
  split at h
  · rename_i code _
    have hgrows := a.grows_parseMethod code
    split at h
    · cases h
    · cases h
    · rename_i m b hm
      cases h
      rw [hm] at hgrows
      exact ⟨by rw [Arena.text_register]; exact hgrows.size, by rw [Arena.nextId_register]; exact hgrows.nextId⟩
  · obtain ⟨-, rfl⟩ := Prod.mk.inj h
    exact ⟨Nat.le_refl _, Nat.le_refl _⟩

theorem Method.origin_mem_origins (m : Method) : m.origin ∈ m.origins :=
  List.mem_append_left _ (List.mem_singleton.2 rfl)

/-- A method that was read is kept with the members that were. -/
theorem Arena.Settled.register (ha : a.Settled) {code : Text} {m : Method}
    (h : a.parseMethod code = (.ok (some m), a')) : (a'.register (.method m)).Settled := by
  intro i n hn
  rw [text_register, nextId_register]
  have hgrows := a.grows_parseMethod code
  have hfragments : a'.fragments = a.fragments := by
    have hsnd := congrArg Arena.fragments (a.parseMethod_snd code)
    rw [h, fragments_parseFile] at hsnd
    exact hsnd
  rw [h] at hgrows
  rw [fragment?_register_eq] at hn
  split at hn
  · rename_i hi
    cases hn
    obtain ⟨j, hj, -, hlt⟩ := (fresh_parseMethod h).2 _ m.origin_mem_origins
    obtain rfl : i = j := Option.some.inj (hi.symm.trans hj)
    exact ⟨hlt, fun φ hφ => congrArg Member.method (Graft.relocate_parseMethod h hφ)⟩
  · rw [fragment?, hfragments] at hn
    obtain ⟨hi, hstays⟩ := ha i n hn
    exact ⟨Nat.lt_of_lt_of_le hi hgrows.nextId, fun φ hφ => hstays φ (hφ.mono hgrows.size hgrows.nextId)⟩

/-- The reason for which the edit is not prepared in the arena. -/
def Edit.refusal? (f : File) (a : Arena) (e : Edit) : Option EditError :=
  match ((PreparedEdit.ofEdit e).prepare f a).1 with
  | .ok _ => none
  | .error err => some err

theorem Edit.refusal?_grows (h : a.Grows a') (e : Edit) : e.refusal? f a' = e.refusal? f a := by
  cases e with
  | addMethod code =>
    simp only [refusal?, PreparedEdit.prepare, PreparedEdit.ofEdit]
    rcases h.parseMethod code with ⟨⟨e, b, hb⟩, e', b', hb'⟩ | ⟨m, b, b', φ, hb, hb'⟩
    · simp only [hb, hb']
    · cases m with
      | none => simp only [hb, hb', Option.map_none]
      | some m => simp only [hb, hb', Option.map_some]
  | _ => rfl

/-! ### Queues -/

/-- A queue is refused for the reason of the first edit that would be refused in the old arena. -/
theorem prepareAll_refused (es : List Edit) (h : a.Grows a') (err : EditError) :
    prepareAll f es a' = .error err ↔ es.findSome? (Edit.refusal? f a) = some err := by
  induction es generalizing a' with
  | nil => exact ⟨nofun, nofun⟩
  | cons e es ih =>
    have hrefusal : e.refusal? f a' = e.refusal? f a := Edit.refusal?_grows h e
    rw [prepareAll_cons, List.findSome?_cons, ← hrefusal, Edit.refusal?]
    cases hp : (PreparedEdit.ofEdit e).prepare f a' with
    | mk r b =>
      cases r with
      | error err' =>
        show Except.error err' = Except.error err ↔ some err' = some err
        rw [Except.error.injEq, Option.some.injEq]
      | ok p =>
        -- What stands behind the edit is refused as it would be if the edit were not there.
        have hrest := ih (h.trans (PreparedEdit.grows_prepare hp))
        exact except_map_eq_error.trans hrest

section Applied

variable {source : Text} (hparse : Arena.empty.parseFile source = (.ok f, a)) (q : List Edit)

include hparse

/-- A queue on a file that was read fails with its first refusal. -/
theorem applyEdits_eq_error_iff (err : EditError) :
    applyEdits source q = .error err ↔ q.findSome? (Edit.refusal? f a) = some err := by
  simp only [applyEdits, hparse]
  exact except_map_eq_error.trans (prepareAll_refused q ⟨Nat.le_refl _, Nat.le_refl _⟩ err)

/-- A queue on a file that was read is applied when no edit is refused. -/
theorem exists_applyEdits_iff :
    (∃ out, applyEdits source q = .ok out) ↔ q.findSome? (Edit.refusal? f a) = none := by
  rw [Option.eq_none_iff_forall_ne_some]
  constructor
  · rintro ⟨out, hout⟩ err herr
    rw [(applyEdits_eq_error_iff hparse q err).2 herr] at hout
    cases hout
  · intro h
    cases hq : applyEdits source q with
    | ok out => exact ⟨out, rfl⟩
    | error err => exact absurd ((applyEdits_eq_error_iff hparse q err).1 hq) (h err)

end Applied

/-- A file that does not parse gives its error to every queue.  On any other file a queue is applied exactly when each
of its edits is applied alone, and else it fails with the error of the first edit that fails alone. -/
theorem applyEdits_alone (source : Text) (q : List Edit) :
    match (Arena.empty.parseFile source).1 with
    | .error err => applyEdits source q = .error (.parse err)
    | .ok _ =>
      ((∃ out, applyEdits source q = .ok out) ↔ ∀ e ∈ q, ∃ out, applyEdits source [e] = .ok out) ∧
        ∀ err, applyEdits source q = .error err ↔ ∃ l e r, q = l ++ e :: r ∧
          (∀ x ∈ l, ∃ out, applyEdits source [x] = .ok out) ∧ applyEdits source [e] = .error err := by
  cases hparse : Arena.empty.parseFile source with
  | mk r a =>
    cases r with
    | error err => simp only [applyEdits, hparse]
    | ok f =>
      have hok : ∀ e, (∃ out, applyEdits source [e] = .ok out) ↔ e.refusal? f a = none := by
        intro e
        rw [exists_applyEdits_iff hparse, List.findSome?_singleton]
      have herror : ∀ e err, applyEdits source [e] = .error err ↔ e.refusal? f a = some err := by
        intro e err
        rw [applyEdits_eq_error_iff hparse, List.findSome?_singleton]
      refine ⟨?_, fun err => ?_⟩
      · rw [exists_applyEdits_iff hparse, List.findSome?_eq_none_iff]
        exact forall₂_congr fun e _ => (hok e).symm
      · rw [applyEdits_eq_error_iff hparse, List.findSome?_eq_some_iff]
        simp only [hok, herror]
        constructor
        · rintro ⟨l, e, r, hq, he, hl⟩
          exact ⟨l, e, r, hq, hl, he⟩
        · rintro ⟨l, e, r, hq, hl, he⟩
          exact ⟨l, e, r, hq, he, hl⟩

end Graft
