/-
Queues of edits for one file.

Nothing is written until the queue is saved, and then only when every edit applies.  A failed save leaves the file and
the queue as they were.  The edits of a queue are values that carry what they have met and read so far; they are applied
as copies, so that neither a look at the text nor a save changes them.

Main statements: `EditQueue.render`, `EditQueue.save`, `save_of_isEmpty` (an empty queue touches nothing).
-/
import Graft.Edit
import Graft.Project.FileTree

namespace Graft

structure EditQueue where
  path : Text
  edits : List PreparedEdit
deriving BEq

namespace EditQueue

variable {m : Type → Type} [Monad m] [Disk m]

/-- The queue for a file of edits that have not been on their way before. -/
def ofEdits (path : Text) (edits : List Edit) : EditQueue := ⟨path, edits.map .ofEdit⟩

/-- The edits that were not saved. -/
def pending (q : EditQueue) : List Edit := q.edits.map (·.edit)

def enqueue (q : EditQueue) (edits : List PreparedEdit) : EditQueue := { q with edits := q.edits ++ edits }

/-- The text of the file with the edits applied; nothing when there are none. -/
def render (q : EditQueue) : m (Except EditError (Option Text)) := do
  if q.edits.isEmpty then return .ok none
  match ← Disk.readText q.path with
  | .error e => return .error (.io q.path e)
  | .ok source => return (applyEach source q.edits).map some

/-- Writes the text with the edits applied and empties the queue.  Tells whether there was something to write. -/
def save (q : EditQueue) : m (Except EditError Bool × EditQueue) := do
  match ← q.render with
  | .error e => return (.error e, q)
  | .ok none => return (.ok false, q)
  | .ok (some t) =>
    match ← Disk.writeText q.path t with
    | .error e => return (.error (.io q.path e), q)
    | .ok () => return (.ok true, { q with edits := [] })

/-- An empty queue touches nothing. -/
theorem save_of_isEmpty [LawfulMonad m] (q : EditQueue) (h : q.edits.isEmpty = true) :
    q.save (m := m) = pure (.ok false, q) := by
  simp [save, render, h]

end EditQueue

end Graft
