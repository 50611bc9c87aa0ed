/-
What preparing a queue leaves.

* `prepare_eq_ok`, `prepareAll_eq_ok` — prepared edits are fresh, and text is only appended to the arena;
* `prepareAll_append`, `runAll_append` — queues one behind the other;
* `applyEdits_eq_ok_iff` — what becomes of a queue that is applied.
-/
import Graft.Edit

namespace Graft

variable {f : File} {a a' : Arena}

theorem except_map_eq_ok {ε α β : Type} {x : Except ε α} {g : α → β} {b : β} :
    x.map g = .ok b ↔ ∃ y, x = .ok y ∧ g y = b := by
  cases x with
  | error e => simp [Except.map]
  | ok y => simp [Except.map]

theorem except_map_eq_error {ε α β : Type} {x : Except ε α} {g : α → β} {err : ε} :
    x.map g = .error err ↔ x = .error err := by
  cases x with
  | error e => simp [Except.map]
  | ok y => simp [Except.map]

theorem Arena.text_parseSource (a : Arena) (s : Source) : (a.parseSource s).2.text = a.text := by
  unfold parseSource
  split
  · rfl
  · simp only
    split <;> rfl

theorem Arena.text_parseFile (a : Arena) (t : Text) : (a.parseFile t).2.text = a.text ++ t := by
  rw [parseFile, text_parseSource, text_push]

theorem Arena.nextId_parseFile (a : Arena) (t : Text) : a.nextId ≤ (a.parseFile t).2.nextId := by
  unfold parseFile parseSource
  split
  · exact Nat.le_refl _
  · simp only
    split <;> exact Nat.le_max_left _ _

theorem Arena.fragments_parseFile (a : Arena) (t : Text) : (a.parseFile t).2.fragments = a.fragments := by
  unfold parseFile parseSource
  split
  · rfl
  · simp only
    split <;> rfl

theorem Arena.parseMethod_snd (a : Arena) (code : Text) : (a.parseMethod code).2 = (a.parseFile (wrapMethod code)).2 := by
  unfold parseMethod
  split <;> simp_all

theorem Arena.text_parseMethod (a : Arena) (code : Text) :
    (a.parseMethod code).2.text = a.text ++ wrapMethod code := by
  rw [parseMethod_snd, text_parseFile]

theorem Arena.text_register (a : Arena) (m : Member) : (a.register m).text = a.text := by
  unfold register
  split <;> rfl

theorem Arena.nextId_register (a : Arena) (m : Member) : (a.register m).nextId = a.nextId := by
  unfold register
  split <;> rfl

/-- The member that is kept last is found under its id. -/
theorem Arena.fragment?_register_eq (a : Arena) (m : Member) (i : NodeId) :
    (a.register m).fragment? i = if m.origin = some i then some m else a.fragment? i := by
  unfold register fragment?
  cases m.origin with
  | none => rfl
  | some j =>
    by_cases hij : j = i
    · simp [hij]
    · simp [hij]

/-- A prepared edit is the edit it was, and text is only appended to the arena. -/
theorem PreparedEdit.prepare_eq_ok {p q : PreparedEdit} (h : p.prepare f a = (.ok q, a')) :
    q.edit = p.edit ∧ q.spent = p.spent ∧ ∃ t, a'.text = a.text ++ t := by
  unfold prepare at h
  split at h
  · rename_i code hedit
    have htext := a.text_parseMethod code
    split at h
    · cases h
    · cases h
    · rename_i m b hm
      cases h
      rw [hm] at htext
      exact ⟨rfl, rfl, _, by rw [Arena.text_register, htext]⟩
  · obtain ⟨hreq, rfl⟩ := Prod.mk.inj h
    obtain ⟨_, -, rfl⟩ := except_map_eq_ok.1 hreq
    exact ⟨rfl, rfl, [], by simp⟩

/-- An edit that brings no code is prepared when the file has what it needs, and reads nothing. -/
theorem prepare_eq_ok_iff {e : Edit} (he : ∀ code, e ≠ .addMethod code) {p : PreparedEdit} :
    (PreparedEdit.ofEdit e).prepare f a = (.ok p, a') ↔ e.require f = .ok () ∧ p = .ofEdit e ∧ a' = a := by
  have hprepare : (PreparedEdit.ofEdit e).prepare f a = ((e.require f).map fun _ => .ofEdit e, a) := by
    cases e with
    | addMethod code => exact absurd rfl (he code)
    | _ => rfl
  rw [hprepare, Prod.mk.injEq]
  cases e.require f with
  | error err => exact ⟨fun h => (nomatch h.1), fun h => (nomatch h.1)⟩
  | ok u =>
    constructor
    · rintro ⟨hp, rfl⟩
      cases hp
      exact ⟨rfl, rfl, rfl⟩
    · rintro ⟨-, rfl, rfl⟩
      exact ⟨rfl, rfl⟩

/-- A queue is prepared edit by edit. -/
theorem prepareEach_cons_eq_ok {q : PreparedEdit} {qs ps : List PreparedEdit} :
    prepareEach f (q :: qs) a = .ok (ps, a') ↔ ∃ p b ps', q.prepare f a = (.ok p, b) ∧
      prepareEach f qs b = .ok (ps', a') ∧ ps = p :: ps' := by
  rw [prepareEach]
  constructor
  · intro h
    split at h
    · cases h
    · rename_i p b hp
      obtain ⟨⟨ps', c⟩, hps', heq⟩ := except_map_eq_ok.1 h
      cases heq
      exact ⟨p, b, ps', hp, hps', rfl⟩
  · rintro ⟨p, b, ps', hp, hps', rfl⟩
    rw [hp]
    exact except_map_eq_ok.2 ⟨(ps', a'), hps', rfl⟩

theorem prepareAll_cons_eq_ok {e : Edit} {es : List Edit} {ps : List PreparedEdit} :
    prepareAll f (e :: es) a = .ok (ps, a') ↔ ∃ p b qs, (PreparedEdit.ofEdit e).prepare f a = (.ok p, b) ∧
      prepareAll f es b = .ok (qs, a') ∧ ps = p :: qs :=
  prepareEach_cons_eq_ok

/-- A prepared queue holds its edits, none of which has met its class. -/
theorem prepareAll_eq_ok {es : List Edit} {ps : List PreparedEdit} (h : prepareAll f es a = .ok (ps, a')) :
    ps.map PreparedEdit.edit = es ∧ (∀ p ∈ ps, p.spent = false) ∧ ∃ t, a'.text = a.text ++ t := by
  induction es generalizing a ps with
  | nil =>
    cases h
    exact ⟨rfl, nofun, [], by simp⟩
  | cons e es ih =>
    obtain ⟨p, b, qs, hp, hqs, rfl⟩ := prepareAll_cons_eq_ok.1 h
    obtain ⟨hedit, hspent, t, ht⟩ := PreparedEdit.prepare_eq_ok hp
    obtain ⟨hedits, hfresh, u, hu⟩ := ih hqs
    refine ⟨by rw [List.map_cons, hedits, hedit]; rfl, fun q hq => ?_, t ++ u, by rw [hu, ht, List.append_assoc]⟩
    rcases List.mem_cons.1 hq with rfl | hq
    · exact hspent
    · exact hfresh q hq

/-- A queue behind another is prepared in the arena that the other one leaves. -/
theorem prepareAll_append (es es' : List Edit) (a : Arena) : prepareAll f (es ++ es') a =
    match prepareAll f es a with
    | .error err => .error err
    | .ok (ps, b) => (prepareAll f es' b).map fun (qs, c) => (ps ++ qs, c) := by
  induction es generalizing a with
  | nil =>
    show prepareAll f es' a = (prepareAll f es' a).map fun (qs, c) => (qs, c)
    cases prepareAll f es' a <;> rfl
  | cons e es ih =>
    rw [List.cons_append, prepareAll_cons, prepareAll_cons]
    split
    · rfl
    · rename_i p b _
      rw [ih]
      cases prepareAll f es b with
      | error err => rfl
      | ok r =>
        obtain ⟨ps, c⟩ := r
        show ((prepareAll f es' c).map _).map _ = (prepareAll f es' c).map _
        cases prepareAll f es' c <;> rfl

theorem prepareAll_append_eq_ok {es es' : List Edit} {ps : List PreparedEdit} :
    prepareAll f (es ++ es') a = .ok (ps, a') ↔ ∃ ps₁ b ps₂, prepareAll f es a = .ok (ps₁, b) ∧
      prepareAll f es' b = .ok (ps₂, a') ∧ ps = ps₁ ++ ps₂ := by
  rw [prepareAll_append]
  constructor
  · intro h
    split at h
    · cases h
    · rename_i ps₁ b hps₁
      obtain ⟨⟨ps₂, c⟩, hps₂, heq⟩ := except_map_eq_ok.1 h
      cases heq
      exact ⟨ps₁, b, ps₂, hps₁, hps₂, rfl⟩
  · rintro ⟨ps₁, b, ps₂, hps₁, hps₂, rfl⟩
    rw [hps₁]
    exact except_map_eq_ok.2 ⟨(ps₂, a'), hps₂, rfl⟩

/-- A queue behind another is run on the file that the other one leaves. -/
theorem runAll_append (ps qs : List PreparedEdit) (f : File) : runAll (ps ++ qs) f = runAll qs (runAll ps f) :=
  List.foldl_append

/-- A file that was read is applied a queue that is prepared. -/
theorem applyEdits_eq_ok_iff {source out : Text} {es : List Edit} (hparse : Arena.empty.parseFile source = (.ok f, a)) :
    applyEdits source es = .ok out ↔
      ∃ ps b, prepareAll f es a = .ok (ps, b) ∧ (runAll ps f).print f b = out := by
  unfold applyEdits
  rw [hparse]
  refine except_map_eq_ok.trans ⟨?_, ?_⟩
  · rintro ⟨⟨ps, b⟩, hps, hprint⟩
    exact ⟨ps, b, hps, hprint⟩
  · rintro ⟨ps, b, hps, hprint⟩
    exact ⟨(ps, b), hps, hprint⟩

/-! ### Answers that are computed -/

theorem eq_ok_of_toOption {ε α : Type} {x : Except ε α} {a : α} (h : x.toOption = some a) : x = .ok a := by
  cases x with
  | error e => cases h
  | ok b =>
    cases h
    rfl

/-- What is computed of a file that is read. -/
theorem exists_of_parseFile {source : Text} {check : File → Bool}
    (h : (Arena.empty.parseFile source).1.toOption.map check = some true) :
    ∃ f, (Arena.empty.parseFile source).1 = .ok f ∧ check f = true := by
  obtain ⟨f, hf, hcheck⟩ := Option.map_eq_some_iff.1 h
  exact ⟨f, eq_ok_of_toOption hf, hcheck⟩

end Graft
