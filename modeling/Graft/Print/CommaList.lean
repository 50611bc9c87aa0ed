/-
Lists with commas between their elements: names, imports, the entries of arrays.

Main statements: `CommaLayout.ofRegion`, `CommaLayout.render`.
-/
import Graft.Print.LineList

namespace Graft

/-- An element to be printed: the index of the element that was read and is kept, and the text. -/
structure CommaEntry where
  kept : Option Nat
  text : Text
deriving DecidableEq, Repr

structure CommaLayout where
  /-- The list that was read had no elements. -/
  bare : Bool
  /-- What stands before the first element. -/
  head : Text
  /-- What stands between neighbours. -/
  separators : List Text
  /-- What stands behind the last element. -/
  tail : Text
  /-- The indentation of a list with one element per line. -/
  stacked : Option Text
  newline : Newline
deriving DecidableEq, Repr

namespace CommaLayout

/-- The layout of the elements at `spans` in a region of a text. -/
def ofRegion (t : Text) (region : Span) (spans : List Span) (newline : Newline) : CommaLayout :=
  match gaps t region.start region.stop spans with
  | [] => ⟨true, [], [], [], none, newline⟩
  | [whole] => ⟨true, whole, [], [], Text.afterLast? '\n' whole, newline⟩
  | head :: more =>
    let separators := more.dropLast
    -- A separator tells how elements are stacked; the head does if there is only one element.
    ⟨false, head, separators, more.getLast?.getD [], (separators ++ [head]).findSome? (Text.afterLast? '\n'),
      newline⟩

/-- The separator before an element that was inserted. -/
def freshSeparator (l : CommaLayout) : Text :=
  match l.stacked with
  | some indent => ',' :: (l.newline.text ++ indent)
  | none => [',', ' ']

/-- The separator before the kept element `i + 1` when another than its neighbour precedes it: what followed the comma
before it is kept. -/
def movedSeparator (l : CommaLayout) (i : Nat) : Text :=
  ',' :: ((Text.cut? ',' (l.separators.getD i [])).map Prod.snd).getD [' ']

/-- What stands between two elements. -/
def separator (l : CommaLayout) (before after : Option Nat) : Text :=
  match before, after with
  -- Neighbours keep what stood between them.
  | some a, some (b + 1) => if a = b then l.separators.getD a [] else l.movedSeparator b
  | none, some (b + 1) => l.movedSeparator b
  -- The first element never had a separator, nor had an inserted one.
  | _, _ => l.freshSeparator

/-- The elements with their separators. -/
def renderOver (l : CommaLayout) : List CommaEntry → Text
  | [] => []
  | [e] => e.text
  | e :: f :: es => e.text ++ l.separator e.kept f.kept ++ renderOver l (f :: es)

/-- The text of the region with the given elements; an empty list leaves nothing of it. -/
def render (l : CommaLayout) (entries : List CommaEntry) : Text :=
  if entries.isEmpty then []
  else if l.bare then Text.join [',', ' '] (entries.map CommaEntry.text)
  else l.head ++ l.renderOver entries ++ l.tail

end CommaLayout

end Graft
