/-
Where a tree is printed, and the two kinds of lists on it.

A changed tree is printed over the text that its reference tree was read from.  An element is the counterpart of the
element of the reference list with the same origin.  An element that equals its counterpart is copied; a changed one
is printed against it; an element without a counterpart is inserted.

Main statements: `counterpart?`, `Page.lineList`, `Page.commaList`.
-/
import Graft.Arena
import Graft.Print.CommaList
import Graft.Print.Splice

namespace Graft

/-! ### Pages -/

/-- The arena and the line breaks of the file that is printed. -/
structure Page where
  arena : Arena
  newline : Newline

/-- The index of the element with the origin of `node`. -/
def counterpart? {α : Type} [Placed α] (reference : List α) (node : α) : Option Nat :=
  (origin node).bind fun id => reference.findIdx? fun other => origin other == some id

namespace Page

/-- The text that a node was read from. -/
def copy {α : Type} [Placed α] (p : Page) (node : α) : Text := p.arena.slice (span node)

/-- The text of `node` with parts of it replaced. -/
def patch {α : Type} [Placed α] (p : Page) (node : α) (patches : List Patch) : Text :=
  splice p.arena.text (span node) patches

/-- The indentation of the line that a node begins on. -/
def indentOf {α : Type} [Placed α] (p : Page) (node : α) : Text := lineIndent p.arena.text (span node).start

/-! ### Lists of lines -/

/-- How the elements of a list of lines are printed. -/
structure LineStyle (α : Type) where
  slot : α → Slot
  /-- An element that differs from its counterpart, which comes second. -/
  changed : α → α → Text
  /-- An element without a counterpart, at the given indentation. -/
  inserted : Text → α → Text

/-- An element of a list that is printed over `reference`. -/
def lineEntry {α : Type} [Placed α] [BEq α] (p : Page) (style : LineStyle α) (indent : Text) (reference : List α)
    (node : α) : LineEntry :=
  let kept := counterpart? reference node
  let text := match kept.bind (reference[·]?) with
    | some other => if node == other then p.copy node else style.changed node other
    | none => style.inserted indent node
  ⟨kept, style.slot node, text⟩

/-- A list printed over the region of the list `reference`.  Elements of a list that had none are placed at
`inner`, and `outer` goes before what closes it. -/
def lineList {α : Type} [Placed α] [BEq α] (p : Page) (style : LineStyle α) (region : Span) (outer inner : Text)
    (working reference : List α) : Text :=
  let layout := LineLayout.ofRegion p.arena.text region (reference.map span) inner p.newline
  layout.render (working.map (p.lineEntry style layout.indent reference)) outer

/-! ### Lists with commas -/

/-- An element of a list that is printed over `reference`.  One that was read from elsewhere is copied. -/
def commaEntry {α : Type} [Placed α] [BEq α] (p : Page) (changed : α → Text) (fresh : Text) (reference : List α)
    (node : α) : CommaEntry :=
  let kept := counterpart? reference node
  let text := match kept.bind (reference[·]?) with
    | some other => if node == other then p.copy node else changed other
    | none => if (origin node).isSome then p.copy node else fresh
  ⟨kept, text⟩

/-- Entries printed over the region of the list `reference`. -/
def commaRegion {α : Type} [Placed α] (p : Page) (region : Span) (reference : List α) (entries : List CommaEntry) :
    Text :=
  (CommaLayout.ofRegion p.arena.text region (reference.map span) p.newline).render entries

/-- A list of elements that are always written anew, printed over the region of the list `reference`. -/
def commaList {α : Type} [Placed α] [BEq α] (p : Page) (write : α → Text) (region : Span)
    (working reference : List α) : Text :=
  p.commaRegion region reference (working.map fun node => p.commaEntry (fun _ => write node) (write node) reference node)

end Page

end Graft
