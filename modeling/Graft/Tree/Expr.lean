/-
Expressions.

Only literals that edits read or write are structured: arrays, strings, numbers and constant names.  All other
expressions are verbatim.

Main statements: `Expr.same` (equality of trees, which compares floats as numbers), `ArrayLit.entry?`.
-/
import Graft.Tree.Name
import Graft.Number.Binary64

/-! ### Expressions -/

namespace Graft

/-- An entry of an array literal. -/
structure ArrayItem (ε : Type) where
  origin : Option NodeId
  span : Span
  key : Option ε
  value : ε
  byRef : Bool
  /-- The entries of the value are spread into the array. -/
  unpack : Bool

/-- An array literal. -/
structure ArrayLit (ε : Type) where
  origin : Option NodeId
  span : Span
  /-- Written in brackets rather than as a call. -/
  short : Bool
  /-- The text between the delimiters. -/
  itemsRegion : Span
  items : List (ArrayItem ε)

/-- A string literal with the value it stands for. -/
structure StringLit where
  origin : Option NodeId
  span : Span
  value : Text
deriving DecidableEq, Repr

structure IntLit where
  origin : Option NodeId
  span : Span
  value : Int
deriving DecidableEq, Repr

structure FloatLit where
  origin : Option NodeId
  span : Span
  value : Binary64
deriving BEq, Repr

inductive Expr where
  | array (lit : ArrayLit Expr)
  | string (lit : StringLit)
  | int (lit : IntLit)
  | float (lit : FloatLit)
  /-- A constant such as `true` or `PHP_EOL`. -/
  | const (name : Name)
  | other (text : Verbatim)

instance {ε : Type} : Placed (ArrayItem ε) := ⟨ArrayItem.origin, ArrayItem.span⟩

instance {ε : Type} : Placed (ArrayLit ε) := ⟨ArrayLit.origin, ArrayLit.span⟩

namespace Expr

def origin : Expr → Option NodeId
  | .array e => e.origin
  | .string e => e.origin
  | .int e => e.origin
  | .float e => e.origin
  | .const e => e.origin
  | .other e => e.origin

def span : Expr → Span
  | .array e => e.span
  | .string e => e.span
  | .int e => e.span
  | .float e => e.span
  | .const e => e.span
  | .other e => e.span

instance : Placed Expr := ⟨origin, span⟩

/-! ### Nodes that were not read from text -/

/-- A string that was not read from text. -/
def freshString (value : Text) : Expr := .string ⟨none, .dummy, value⟩

/-- A constant that was not read from text. -/
def freshConst (name : Text) : Expr := .const (.fresh name)

end Expr

namespace ArrayLit

/-- An array that was not read from text. -/
def fresh (items : List (ArrayItem Expr)) : ArrayLit Expr := ⟨none, .dummy, true, .dummy, items⟩

end ArrayLit

namespace ArrayItem

/-- An entry that was not read from text. -/
def fresh (key : Option Expr) (value : Expr) : ArrayItem Expr := ⟨none, .dummy, key, value, false, false⟩

end ArrayItem

/-! ### Equality

Trees are equal when all their fields are, ids and spans included; floats are compared as numbers, so that a tree with
a NaN in it does not equal itself. -/

mutual

/-- Equality of expressions. -/
def Expr.same : Expr → Expr → Bool
  | .array a, .array b => ArrayLit.same a b
  | .string a, .string b => a == b
  | .int a, .int b => a == b
  | .float a, .float b => a == b
  | .const a, .const b => a == b
  | .other a, .other b => a == b
  | _, _ => false
termination_by structural e => e

/-- Equality of arrays. -/
def ArrayLit.same : ArrayLit Expr → ArrayLit Expr → Bool
  | ⟨origin, span, short, region, items⟩, b =>
    origin == b.origin && span == b.span && short == b.short && region == b.itemsRegion &&
      ArrayItem.sameAll items b.items
termination_by structural e => e

/-- Equality of lists of entries. -/
def ArrayItem.sameAll : List (ArrayItem Expr) → List (ArrayItem Expr) → Bool
  | [], [] => true
  | i :: is, j :: js => ArrayItem.same i j && ArrayItem.sameAll is js
  | _, _ => false
termination_by structural e => e

/-- Equality of entries. -/
def ArrayItem.same : ArrayItem Expr → ArrayItem Expr → Bool
  | ⟨origin, span, key, value, byRef, unpack⟩, j =>
    origin == j.origin && span == j.span && Expr.sameOption key j.key && Expr.same value j.value &&
      byRef == j.byRef && unpack == j.unpack
termination_by structural e => e

/-- Equality of optional expressions. -/
def Expr.sameOption : Option Expr → Option Expr → Bool
  | none, none => true
  | some a, some b => Expr.same a b
  | _, _ => false
termination_by structural e => e

end

instance : BEq Expr := ⟨Expr.same⟩

instance : BEq (ArrayLit Expr) := ⟨ArrayLit.same⟩

instance : BEq (ArrayItem Expr) := ⟨ArrayItem.same⟩

/-! ### Looking into arrays -/

/-- The value of a string literal. -/
def Expr.string? : Expr → Option Text
  | .string lit => some lit.value
  | _ => none

/-- The array that an expression is. -/
def Expr.array? : Expr → Option (ArrayLit Expr)
  | .array lit => some lit
  | _ => none

namespace ArrayItem

/-- The key is the string literal `key`. -/
def hasKey (item : ArrayItem Expr) (key : Text) : Bool := item.key.bind Expr.string? == some key

/-- The entry has no key and its value is the string literal `value`. -/
def hasValue (item : ArrayItem Expr) (value : Text) : Bool :=
  item.key.isNone && item.value.string? == some value

end ArrayItem

namespace ArrayLit

/-- The first entry with the string literal `key`. -/
def entry? (a : ArrayLit Expr) (key : Text) : Option (ArrayItem Expr) := a.items.find? (·.hasKey key)

/-- Some entry without a key holds the string literal `value`. -/
def containsValue (a : ArrayLit Expr) (value : Text) : Bool := a.items.any (·.hasValue value)

end ArrayLit

end Graft
