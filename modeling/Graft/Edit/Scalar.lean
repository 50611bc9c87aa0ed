/-
Scalar values that edits write.

Main statements: `Scalar.toExpr`, `Scalar.isHeldBy` (a literal holds a value), `isHeldBy_toExpr`.
-/
import Graft.Document.Reader
import Graft.Edit.Error
import Graft.Tree.Expr

namespace Graft

inductive Scalar where
  | string (value : Text)
  | int (value : Int)
  | float (value : Binary64)
  | bool (value : Bool)
  | null
deriving BEq, Repr

namespace Scalar

/-! ### Literals -/

/-- The literal of a value, not read from text. -/
def toExpr : Scalar → Expr
  | string value => .string ⟨none, .dummy, value⟩
  | int value => .int ⟨none, .dummy, value⟩
  | float value => .float ⟨none, .dummy, value⟩
  | bool true => .freshConst "true".toList
  | bool false => .freshConst "false".toList
  | null => .freshConst "null".toList

/-- The expression is a literal that holds the value.  Floats are compared by their bits, and the names of constants
without regard to the case of letters. -/
def isHeldBy : Scalar → Expr → Bool
  | string value, .string lit => lit.value == value
  | int value, .int lit => lit.value == value
  | float value, .float lit => lit.value.sameBits value
  | bool true, .const n => n.text.sameIgnoringCase "true".toList
  | bool false, .const n => n.text.sameIgnoringCase "false".toList
  | null, .const n => n.text.sameIgnoringCase "null".toList
  | _, _ => false

/-- The literal of a value holds it. -/
theorem isHeldBy_toExpr (v : Scalar) : v.isHeldBy v.toExpr = true := by
  cases v with
  | bool b => cases b <;> decide
  | null => decide
  | string value => simp [toExpr, isHeldBy]
  | int value => simp [toExpr, isHeldBy]
  | float value => simp [toExpr, isHeldBy, Binary64.sameBits]

/-! ### Values on a command line -/

/-- The value of a number: whole numbers in the signed range stay whole. -/
def ofFigure : Figure → Scalar
  | .natural n => if n < Nat.pow 2 63 then int n else float (.ofNat n)
  | .negative n => int (.negSucc n)
  | .float x => float x

/-- The value of a JSON document, which must not be an array or an object. -/
def ofDocument : Document → Except EditError Scalar
  | .null => .ok null
  | .bool b => .ok (bool b)
  | .number n => .ok (ofFigure n)
  | .string t => .ok (string t)
  | .array _ => .error (.unsupportedValue "array")
  | .object _ => .error (.unsupportedValue "object")

/-- The value of an argument: JSON is typed, all else is a string. -/
def ofArgument (t : Text) : Except EditError Scalar :=
  match Document.ofText? t with
  | some d => ofDocument d
  | none => .ok (string t)

end Scalar

end Graft
