/-
Where the nodes of a file on its way come from.

A queue is prepared before it is run: the methods that it brings are read into the arena behind the file, with ids of
their own, and are kept there.  So at every point of a run each node is blank, or is one of the file as it was read or
of a method that is kept, and no two nodes share an id.

* `Brings`, `prepareEach_brings` — what a queue reads into the arena while it is prepared;
* `runAll_provenance` — the nodes of a file at every point of a run.
-/
import Mathlib.Data.List.Nodup
import Graft.Proofs.Edit.Link

namespace Graft

variable {f : File} {a b c : Arena} {xs ys : List Stamp}

/-! ### What is read while a queue is prepared -/

/-- From one arena to the next, the stamps were read with new ids as those of methods that are kept; what was kept
before still is. -/
structure Brings (a b : Arena) (xs : List Stamp) : Prop where
  nextId : a.nextId ≤ b.nextId
  fresh : Fresh a.nextId b.nextId (xs.map Stamp.origin)
  kept : ∀ s ∈ xs, ∃ i m, i < b.nextId ∧ b.fragment? i = some (.method m) ∧ s ∈ m.stamps
  old : ∀ i, i < a.nextId → b.fragment? i = a.fragment? i

namespace Brings

theorem nil (a : Arena) : Brings a a [] := ⟨Nat.le_refl _, .nil, nofun, fun _ _ => rfl⟩

theorem append (h : Brings a b xs) (h' : Brings b c ys) : Brings a c (xs ++ ys) where
  nextId := Nat.le_trans h.nextId h'.nextId
  fresh := by
    rw [List.map_append]
    exact h.fresh.append h'.fresh h.nextId h'.nextId
  kept s hs := by
    rcases List.mem_append.1 hs with hs | hs
    · obtain ⟨i, m, hi, hm, hsm⟩ := h.kept s hs
      exact ⟨i, m, Nat.lt_of_lt_of_le hi h'.nextId, (h'.old i hi).trans hm, hsm⟩
    · exact h'.kept s hs
  old i hi := (h'.old i (Nat.lt_of_lt_of_le hi h.nextId)).trans (h.old i hi)

/-- A method that is read from a snippet and kept. -/
theorem register {code : Text} {m : Method} (h : a.parseMethod code = (.ok (some m), b)) :
    Brings a (b.register (.method m)) m.stamps := by
  have hnext : a.nextId ≤ b.nextId := by
    have hgrows := (a.grows_parseMethod code).nextId
    rwa [h] at hgrows
  have hfragments : b.fragments = a.fragments := by
    have hsnd := congrArg Arena.fragments (a.parseMethod_snd code)
    rwa [h, Arena.fragments_parseFile] at hsnd
  have hfresh := Arena.fresh_parseMethod h
  obtain ⟨j, hj, hle, hlt⟩ := hfresh.2 _ m.origin_mem_origins
  refine ⟨by rwa [Arena.nextId_register], ?_, fun s hs => ⟨j, m, ?_, ?_, hs⟩, fun i hi => ?_⟩
  · rwa [Method.map_origin_stamps, Arena.nextId_register]
  · rwa [Arena.nextId_register]
  · exact b.fragment?_register hj
  · have hne : ¬(Member.method m).origin = some i := by
      intro heq
      obtain rfl : j = i := Option.some.inj (hj.symm.trans heq)
      exact absurd hi (Nat.not_lt.2 hle)
    rw [Arena.fragment?_register_eq, if_neg hne, Arena.fragment?, hfragments, Arena.fragment?]

end Brings

/-- An edit that is prepared reads what it brings. -/
theorem PreparedEdit.prepare_brings {q p : PreparedEdit} (h : q.prepare f a = (.ok p, b)) : Brings a b p.brought := by
  obtain ⟨hedit, -⟩ := prepare_eq_ok h
  unfold brought
  rw [hedit]
  unfold prepare at h
  split at h
  · rename_i code hcode
    split at h
    · cases h
    · cases h
    · rename_i m a' hm
      cases h
      rw [hcode]
      exact Brings.register hm
  · rename_i hcode
    obtain ⟨-, rfl⟩ := Prod.mk.inj h
    have hnone : q.edit.brought p.method = [] := by
      cases hq : q.edit with
      | addMethod code => exact absurd hq (hcode code)
      | _ => rfl
    rw [hnone]
    exact .nil _

/-- A queue that is prepared reads what it brings. -/
theorem prepareEach_brings {qs ps : List PreparedEdit} (h : prepareEach f qs a = .ok (ps, b)) :
    Brings a b (ps.flatMap PreparedEdit.brought) := by
  induction qs generalizing a ps with
  | nil =>
    cases h
    exact .nil _
  | cons q qs ih =>
    obtain ⟨p, c, ps', hp, hps', rfl⟩ := prepareEach_cons_eq_ok.1 h
    rw [List.flatMap_cons]
    exact (PreparedEdit.prepare_brings hp).append (ih hps')

/-! ### Points of a run -/

section Runs

variable {t : Text} {qs ps l r : List PreparedEdit}

/-- The ids of the file and of the methods that a part of the queue brings were drawn one after the other. -/
theorem fresh_brought (hparse : a.parseFile t = (.ok f, b)) (hprepare : prepareEach f qs b = .ok (ps, c))
    (hps : ps = l ++ r) :
    Fresh a.nextId c.nextId ((l.flatMap PreparedEdit.brought ++ f.stamps).map Stamp.origin) := by
  have hbrings := prepareEach_brings hprepare
  have hfile : Fresh a.nextId b.nextId (f.stamps.map Stamp.origin) := by
    rw [File.map_origin_stamps]
    exact (Arena.laid_of_parseFile hparse).2.2
  have hnext : a.nextId ≤ b.nextId := by
    have hle := a.nextId_parseFile t
    rwa [hparse] at hle
  have hbrought : (l.flatMap PreparedEdit.brought).Sublist (ps.flatMap PreparedEdit.brought) := by
    rw [hps, List.flatMap_append]
    exact List.sublist_append_left _ _
  rw [List.map_append]
  exact (hfile.append (hbrings.fresh.sublist (hbrought.map Stamp.origin)) hnext hbrings.nextId).perm
    List.perm_append_comm

/-- At every point of a run no two nodes have one id. -/
theorem nodup_runAll (hparse : a.parseFile t = (.ok f, b)) (hprepare : prepareEach f qs b = .ok (ps, c))
    (hps : ps = l ++ r) : ((runAll l f).stamps.filterMap Stamp.origin).Nodup := by
  refine (linked_runAll l f).nodup_origins ?_
  have hids := (fresh_brought hparse hprepare hps).1.filterMap (f := id) fun o o' i ho ho' => ho.trans ho'.symm
  rwa [List.filterMap_map] at hids

end Runs

/-- At every point of the run of a queue that was prepared, each node of the file has no id and no place, or has the id
and the place of a node of its kind in the file that was read or in a method that is kept in the arena; and no two nodes
have one id. -/
theorem runAll_provenance {t : Text} {qs ps l r : List PreparedEdit} (hparse : a.parseFile t = (.ok f, b))
    (hprepare : prepareEach f qs b = .ok (ps, c)) (hps : ps = l ++ r) :
    (∀ s ∈ (runAll l f).stamps, (s.origin = none ∧ s.span = .dummy) ∨
      s.origin.isSome = true ∧ (s ∈ f.stamps ∨ ∃ i m, c.fragment? i = some (.method m) ∧ s ∈ m.stamps)) ∧
    ((runAll l f).stamps.filterMap Stamp.origin).Nodup := by
  have hbrings := prepareEach_brings hprepare
  have hfresh := fresh_brought hparse hprepare hps
  refine ⟨fun s hs => ((linked_runAll l f).mem hs).imp id fun hs => ⟨?_, ?_⟩, nodup_runAll hparse hprepare hps⟩
  · obtain ⟨i, hi, -⟩ := hfresh.2 _ (List.mem_map_of_mem hs)
    rw [hi]
    rfl
  · rcases List.mem_append.1 hs with hs | hs
    · have hmem : s ∈ ps.flatMap PreparedEdit.brought := by
        rw [hps, List.flatMap_append]
        exact List.mem_append_left _ hs
      obtain ⟨i, m, -, hm, hsm⟩ := hbrings.kept s hmem
      exact .inr ⟨i, m, hm, hsm⟩
    · exact .inl hs

/-- A name takes the place of another one in a clause, and a method is brought from a snippet: the name has no id, and
the method has the one that it was read with. -/
theorem runAll_provenance_method :
    ∃ f b ps c, Arena.empty.parseFile "<?php\nclass A \x7b use T; \x7d".toList = (.ok f, b) ∧
      prepareEach f [.ofEdit (.addTrait "U".toList), .ofEdit (.removeTrait "T".toList),
        .ofEdit (.addMethod "function f();".toList)] b = .ok (ps, c) ∧
      (runAll ps f).stamps.map Stamp.origin = [some 0, some 1, some 2, none, some 6] ∧
      (∀ s ∈ (runAll ps f).stamps, (s.origin = none ∧ s.span = .dummy) ∨
        s.origin.isSome = true ∧ (s ∈ f.stamps ∨ ∃ i m, c.fragment? i = some (.method m) ∧ s ∈ m.stamps)) ∧
      ((runAll ps f).stamps.filterMap Stamp.origin).Nodup := by
  have hcheck : (Arena.empty.parseFile "<?php\nclass A \x7b use T; \x7d".toList).1.toOption.bind (fun f =>
      (prepareEach f [.ofEdit (.addTrait "U".toList), .ofEdit (.removeTrait "T".toList),
          .ofEdit (.addMethod "function f();".toList)]
        (Arena.empty.parseFile "<?php\nclass A \x7b use T; \x7d".toList).2).toOption.map
        fun r => (runAll r.1 f).stamps.map Stamp.origin) = some [some 0, some 1, some 2, none, some 6] := by
    decide +kernel
  cases hf : Arena.empty.parseFile "<?php\nclass A \x7b use T; \x7d".toList with
  | mk result b =>
    rw [hf] at hcheck
    cases result with
    | error err => cases hcheck
    | ok f =>
      obtain ⟨⟨ps, c⟩, hps, horigins⟩ := Option.map_eq_some_iff.1 hcheck
      have hprepare := eq_ok_of_toOption hps
      obtain ⟨hnodes, hnodup⟩ := runAll_provenance hf hprepare (List.append_nil ps).symm
      exact ⟨f, b, ps, c, rfl, hprepare, horigins, hnodes, hnodup⟩

end Graft
