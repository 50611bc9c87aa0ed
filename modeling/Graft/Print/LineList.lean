/-
Lists with one element per line: statements, members, the statements of bodies.

The text between two elements of a list that was read is cut at its first line break: what comes before stays on the
line of the first element, its trail, and the rest is the lead of the second.  Kept elements bring their leads and
trails, removed ones take them away, and inserted ones borrow the indentation of the list.

Main statements: `LineLayout.ofRegion`, `LineLayout.render`, `splitTrail_append`.
-/
import Graft.Print.Indent
import Graft.Span

namespace Graft

/-! ### Gaps -/

/-- The texts around the elements at `spans` from `start` to `stop`: one more than there are elements. -/
def gaps (t : Text) (start stop : Nat) : List Span → List Text
  | [] => [t.slice start stop]
  | s :: ss => t.slice start s.start :: gaps t s.stop stop ss

/-- The trail of an element and the lead of the next one.  A break keeps its carriage return. -/
def splitTrail (gap : Text) : Text × Text :=
  match gap.firstLine with
  | (_, []) => ([], gap)
  | (line, rest) => if line.getLast? = some '\r' then (line.dropLast, '\r' :: rest) else (line, rest)

theorem splitTrail_append (gap : Text) : (splitTrail gap).1 ++ (splitTrail gap).2 = gap := by
  have h : gap.takeWhile (· ≠ '\n') ++ gap.dropWhile (· ≠ '\n') = gap := List.takeWhile_append_dropWhile
  simp only [splitTrail, Text.firstLine]
  split
  · rfl
  · rename_i line rest _ heq
    simp only [Prod.mk.injEq] at heq
    obtain ⟨rfl, rfl⟩ := heq
    split
    · rename_i hcr
      obtain ⟨line, hline⟩ := List.getLast?_eq_some_iff.1 hcr
      rw [hline] at h ⊢
      simpa using h
    · exact h

/-! ### Layouts -/

/-- Elements of one group follow each other line by line; a blank line separates groups, and blocks from all else. -/
inductive Slot where
  | group (n : Nat)
  | block
deriving DecidableEq, Repr

/-- What stands between two elements when one of them was inserted. -/
def Slot.separator (newline : Newline) (indent : Text) (before after : Slot) : Text :=
  newline.text ++ (if before ≠ after ∨ before = .block then newline.text else []) ++ indent

/-- An element to be printed. -/
structure LineEntry where
  /-- The index of the element that was read and is kept. -/
  kept : Option Nat
  slot : Slot
  text : Text
deriving DecidableEq, Repr

structure LineLayout where
  /-- What stands before each element on lines of its own. -/
  leads : List Text
  /-- What stands behind each element on its line. -/
  trails : List Text
  /-- What follows the last trail. -/
  tail : Text
  /-- The indentation of the elements. -/
  indent : Text
  newline : Newline
deriving DecidableEq, Repr

namespace LineLayout

/-- The indentation of the first of the elements that stands on a line of its own, if it is made of blanks. -/
def indentOf? (leads : List Text) : Option Text :=
  match leads.findSome? (Text.afterLast? '\n') with
  | some indent => if indent.all Text.isIndent then some indent else none
  | none => none

/-- The layout of the elements at `spans` in a region of a text. -/
def ofRegion (t : Text) (region : Span) (spans : List Span) (defaultIndent : Text) (newline : Newline) :
    LineLayout :=
  match gaps t region.start region.stop spans with
  | [] => ⟨[], [], [], defaultIndent, newline⟩
  | [whole] => ⟨[], [], whole, defaultIndent, newline⟩
  | first :: more =>
    -- The gap before the first element has no trail to give away, and the last one leaves its rest to the tail.
    let leads := first :: more.dropLast.map fun gap => (splitTrail gap).2
    ⟨leads, more.map fun gap => (splitTrail gap).1, ((more.getLast?).map fun gap => (splitTrail gap).2).getD [],
      (indentOf? leads).getD defaultIndent, newline⟩

/-- What stands before an element. -/
def before (l : LineLayout) (previous : Option LineEntry) (e : LineEntry) : Text :=
  match previous, e.kept with
  -- Whatever comes first takes the place of the first element.
  | none, _ => l.leads.headD []
  -- A kept element behind a kept one brings its own lead, even if they were no neighbours.
  | some ⟨some _, _, _⟩, some i => l.leads.getD i []
  | some p, _ => p.slot.separator l.newline l.indent e.slot

/-- What stands behind an element on its line. -/
def behind (l : LineLayout) (e : LineEntry) : Text :=
  match e.kept with
  | some i => l.trails.getD i []
  | none => []

/-- The elements of a list that had some. -/
def renderOver (l : LineLayout) : Option LineEntry → List LineEntry → Text
  | _, [] => []
  | previous, e :: es => l.before previous e ++ e.text ++ l.behind e ++ renderOver l (some e) es

/-- The elements of a list that had none. -/
def renderInto (l : LineLayout) : Option LineEntry → List LineEntry → Text
  | _, [] => []
  | none, e :: es => l.newline.text ++ l.indent ++ e.text ++ renderInto l (some e) es
  | some p, e :: es => p.slot.separator l.newline l.indent e.slot ++ e.text ++ renderInto l (some e) es

/-- The text of the region with the given elements; `parentIndent` closes a list that had none. -/
def render (l : LineLayout) (entries : List LineEntry) (parentIndent : Text) : Text :=
  if l.leads.isEmpty then
    if entries.isEmpty then l.tail
    -- The blanks between the brackets make room, a comment there stays.
    else l.tail.trimEnd ++ l.renderInto none entries ++ l.newline.text ++ parentIndent
  else l.renderOver none entries ++ l.tail

end LineLayout

end Graft
