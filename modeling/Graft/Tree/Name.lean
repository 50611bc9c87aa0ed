/-
Node identity and names.

A parsed node carries the id it was given, its origin; copies keep it, so a changed tree points back at the tree it
was copied from.  Nodes built by an edit have no origin and the dummy span.

Main statements: `simpleName`, `normalizedName` (the two forms in which names are compared).
-/
import Graft.Text
import Graft.Span

/-! ### Identity -/

namespace Graft

/-- Identity of a parsed node, unique in one arena. -/
abbrev NodeId := Nat

/-- What every node has: the id it was parsed with, if it was, and its span. -/
class Placed (α : Type) where
  origin : α → Option NodeId
  span : α → Span

export Placed (origin span)

/-! ### Names -/

/-- The last segment of a qualified name. -/
def simpleName (t : Text) : Text := (Text.afterLast? '\\' t).getD t

/-- A qualified name without leading separators. -/
def normalizedName (t : Text) : Text := t.dropWhile (· = '\\')

/-- A possibly qualified name in its source spelling. -/
structure Name where
  origin : Option NodeId
  span : Span
  text : Text
deriving DecidableEq, Repr

namespace Name

instance : Placed Name := ⟨Name.origin, Name.span⟩

/-- A name that was not read from text. -/
def fresh (text : Text) : Name := ⟨none, .dummy, text⟩

def simple (n : Name) : Text := simpleName n.text

def normalized (n : Name) : Text := normalizedName n.text

end Name

/-- An unqualified identifier: the name of a class, a method or a property. -/
structure Ident where
  span : Span
  text : Text
deriving DecidableEq, Repr

def Ident.fresh (text : Text) : Ident := ⟨.dummy, text⟩

/-! ### Verbatim text -/

/-- A construct of which only the extent is known. -/
structure Verbatim where
  origin : Option NodeId
  span : Span
deriving DecidableEq, Repr

instance : Placed Verbatim := ⟨Verbatim.origin, Verbatim.span⟩

end Graft
