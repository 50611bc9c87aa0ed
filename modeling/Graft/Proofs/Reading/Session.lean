/-
The ids of a session.

A session is a sequence of calls that read texts into one arena, each a file or the snippet of a method.  A call draws
the ids of its nodes from the arena's supply, which it never winds back, so that an id names one node among all trees
of the session.

* `Arena.nextId_le_visit`, `Arena.fresh_visit` — one call;
* `Arena.fresh_session` — all calls of a session.
-/
import Graft.Proofs.Edit.Prepared
import Graft.Proofs.Reading.Places

namespace Graft.Arena

/-! ### Sessions -/

/-- A call that reads a text into the arena. -/
inductive Call where
  | file (text : Text)
  | method (code : Text)

/-- What was read. -/
inductive Parsed where
  | file (f : File)
  | method (m : Method)

/-- One call: the tree that it returned, unless it failed or found no method, and the arenas before and after it. -/
structure Visit where
  before : Arena
  tree : Option Parsed
  after : Arena

/-- The origins of the tree and of all nodes below it. -/
def Parsed.origins : Parsed → List (Option NodeId)
  | .file f => f.origins
  | .method m => m.origins

/-- The origins of all nodes that the call returned. -/
def Visit.origins (v : Visit) : List (Option NodeId) := (v.tree.map Parsed.origins).getD []

/-- Makes one call. -/
def visit (a : Arena) : Call → Visit
  | .file t => ⟨a, (a.parseFile t).1.toOption.map .file, (a.parseFile t).2⟩
  | .method code => ⟨a, (a.parseMethod code).1.toOption.join.map .method, (a.parseMethod code).2⟩

/-- Makes the calls one after the other on one arena. -/
def session (a : Arena) : List Call → List Visit
  | [] => []
  | c :: cs => a.visit c :: (a.visit c).after.session cs

/-- The arena behind all calls. -/
def afterSession (a : Arena) (calls : List Call) : Arena := calls.foldl (fun a c => (a.visit c).after) a

/-! ### One call -/

theorem before_visit (a : Arena) (c : Call) : (a.visit c).before = a := by
  cases c <;> rfl

/-- A call never gives ids back. -/
theorem nextId_le_visit (a : Arena) (c : Call) : a.nextId ≤ (a.visit c).after.nextId := by
  cases c with
  | file t => exact a.nextId_parseFile t
  | method code =>
    show a.nextId ≤ (a.parseMethod code).2.nextId
    rw [parseMethod_snd]
    exact a.nextId_parseFile _

/-- The nodes that a call returns have ids that the call drew. -/
theorem fresh_visit (a : Arena) (c : Call) : Fresh a.nextId (a.visit c).after.nextId (a.visit c).origins := by
  cases c with
  | file t =>
    show Fresh a.nextId (a.parseFile t).2.nextId
      (((a.parseFile t).1.toOption.map Parsed.file).map Parsed.origins |>.getD [])
    cases h : a.parseFile t with
    | mk r a' =>
      cases r with
      | error e => exact .nil
      | ok f => exact (laid_of_parseFile h).2.2
  | method code =>
    show Fresh a.nextId (a.parseMethod code).2.nextId
      (((a.parseMethod code).1.toOption.join.map Parsed.method).map Parsed.origins |>.getD [])
    cases h : a.parseMethod code with
    | mk r a' =>
      cases r with
      | error e => exact .nil
      | ok m =>
        cases m with
        | none => exact .nil
        | some m => exact fresh_parseMethod h

/-! ### All calls -/

theorem nextId_le_afterSession (a : Arena) (calls : List Call) : a.nextId ≤ (a.afterSession calls).nextId := by
  induction calls generalizing a with
  | nil => exact Nat.le_refl _
  | cons c cs ih => exact Nat.le_trans (a.nextId_le_visit c) (ih (a.visit c).after)

/-- The calls of a session begin at or behind the supply that the session began with. -/
theorem nextId_le_before {a : Arena} {calls : List Call} {v : Visit} (hv : v ∈ a.session calls) :
    a.nextId ≤ v.before.nextId := by
  induction calls generalizing a with
  | nil => cases hv
  | cons c cs ih =>
    rcases List.mem_cons.1 hv with rfl | hv
    · exact Nat.le_of_eq (congrArg Arena.nextId (a.before_visit c).symm)
    · exact Nat.le_trans (a.nextId_le_visit c) (ih hv)

/-- In a session every node of every tree has an id, no two nodes have the same one, each id was drawn by the call that
returned its node, and the supply never goes back. -/
theorem fresh_session (a : Arena) (calls : List Call) :
    Fresh a.nextId (a.afterSession calls).nextId ((a.session calls).flatMap Visit.origins) ∧
      (∀ v ∈ a.session calls, v.before.nextId ≤ v.after.nextId ∧ Fresh v.before.nextId v.after.nextId v.origins) ∧
      (a.session calls).Pairwise fun v w => v.after.nextId ≤ w.before.nextId := by
  induction calls generalizing a with
  | nil => exact ⟨.nil, nofun, .nil⟩
  | cons c cs ih =>
    obtain ⟨hall, heach, hpairs⟩ := ih (a.visit c).after
    have hle := a.nextId_le_visit c
    have hfresh := a.fresh_visit c
    refine ⟨?_, ?_, ?_⟩
    · -- The later calls draw their ids behind those of the first one.
      have hrest := nextId_le_afterSession (a.visit c).after cs
      exact hfresh.append hall hle hrest
    · refine List.forall_mem_cons.2 ⟨?_, heach⟩
      rw [before_visit]
      exact ⟨hle, hfresh⟩
    · exact List.pairwise_cons.2 ⟨fun w hw => nextId_le_before hw, hpairs⟩

end Graft.Arena
