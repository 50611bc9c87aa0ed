/-
Answers to the questions of an installation.

Main statements: `Answers.selected`, `Answers.confirmed`, `Answers.answered`.
-/
import Graft.Document.Reader
import Graft.Document.Writer

namespace Graft

/-- Answers by the names of their questions. -/
structure Answers where
  values : List (Text × Document)
deriving BEq

namespace Answers

def empty : Answers := ⟨[]⟩

/-- The answers in a JSON text, which must be an object. -/
def ofText? (t : Text) : Option Answers :=
  match Document.ofText? t with
  | some (.object ms) => some ⟨ms⟩
  | _ => none

def get? (a : Answers) (key : Text) : Option Document := Document.get? key a.values

def insert (a : Answers) (key : Text) (value : Document) : Answers := ⟨Document.put key value a.values⟩

theorem get?_insert_self (a : Answers) (key : Text) (value : Document) : (a.insert key value).get? key = some value :=
  Document.get?_put_self key value a.values

/-! ### Kinds of answers -/

/-- An item of a list is `value`, or a number that is written so. -/
def isChoice (value : Text) : Document → Bool
  | .string t => t == value
  | .number n => n.toText == value
  | _ => false

/-- The answer is a list with the choice `value` in it. -/
def selected (a : Answers) (key value : Text) : Bool :=
  match a.get? key with
  | some (.array items) => items.any (isChoice value)
  | _ => false

def Figure.isZero : Figure → Bool
  | .natural n => n == 0
  | .negative _ => false
  | .float x => x.isZero

/-- Nothing, no, zero, and what is empty do not count as a yes; neither does the text `0`. -/
def isYes : Document → Bool
  | .null => false
  | .bool b => b
  | .number n => !Figure.isZero n
  | .string t => !t.isEmpty && t != ['0']
  | .array items => !items.isEmpty
  | .object members => !members.isEmpty

/-- The question was answered with some kind of yes. -/
def confirmed (a : Answers) (key : Text) : Bool := (a.get? key).any isYes

/-- The question was answered with exactly `value`. -/
def answered (a : Answers) (key : Text) (value : Document) : Bool := (a.get? key).any (· == value)

end Answers

end Graft
