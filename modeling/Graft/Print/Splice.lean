/-
Replacing parts of a text.

Patches are applied in the order of their starts, those with one start in the order in which they were collected.  A
patch that begins before the end of the one before it, or ends outside of the node, is left out.

Main statements: `splice`, `splice_nil`.
-/
import Graft.Sorting
import Graft.Span
import Graft.Text

namespace Graft

/-- A text that replaces what stands at a span; at an empty span it is inserted. -/
structure Patch where
  span : Span
  text : Text
deriving DecidableEq, Repr

/-- The patches by their starts. -/
def sortPatches (ps : List Patch) : List Patch := sortBy (fun p q => p.span.start ≤ q.span.start) ps

/-- The text from `start` to `stop` with sorted patches applied. -/
def applyPatches (t : Text) (start stop : Nat) : List Patch → Text
  | [] => t.slice start stop
  | p :: ps =>
    -- A patch that overlaps the one before it would cut its text.
    if p.span.start < start ∨ stop < p.span.stop then applyPatches t start stop ps
    else t.slice start p.span.start ++ p.text ++ applyPatches t p.span.stop stop ps

/-- The text at `span` with patches applied. -/
def splice (t : Text) (span : Span) (patches : List Patch) : Text :=
  applyPatches t span.start span.stop (sortPatches patches)

theorem splice_nil (t : Text) (span : Span) : splice t span [] = t.slice span.start span.stop := rfl

end Graft
