/-
JSON documents.

Whole numbers that fit 64 bits are kept apart from all other numbers, which are floating-point.  The members of an
object are ordered by their names, and of two members with one name the later one counts.

Main statements: `Document.same`, `Document.put`, `get?_put_self`.
-/
import Graft.Text
import Graft.Number.Binary64

/-! ### Documents -/

namespace Graft

/-- A number: whole when it was written without point and exponent and fits 64 bits. -/
inductive Figure where
  | natural (n : Nat)
  /-- The number `-(n + 1)`. -/
  | negative (n : Nat)
  | float (x : Binary64)
deriving BEq, Repr

inductive Document where
  | null
  | bool (b : Bool)
  | number (n : Figure)
  | string (t : Text)
  | array (items : List Document)
  | object (members : List (Text × Document))

namespace Document

/-! ### Equality -/

mutual

/-- Equality of documents; whole numbers differ from floats. -/
def same : Document → Document → Bool
  | .null, .null => true
  | .bool a, .bool b => a == b
  | .number a, .number b => a == b
  | .string a, .string b => a == b
  | .array a, .array b => sameItems a b
  | .object a, .object b => sameMembers a b
  | _, _ => false
termination_by structural d => d

/-- Equality of lists. -/
def sameItems : List Document → List Document → Bool
  | [], [] => true
  | a :: as, b :: bs => same a b && sameItems as bs
  | _, _ => false
termination_by structural d => d

/-- Equality of members with their names. -/
def sameMembers : List (Text × Document) → List (Text × Document) → Bool
  | [], [] => true
  | a :: as, b :: bs => sameMember a b && sameMembers as bs
  | _, _ => false
termination_by structural d => d

/-- Equality of one member. -/
def sameMember : Text × Document → Text × Document → Bool
  | (k, a), (l, b) => k == l && same a b
termination_by structural d => d

end

instance : BEq Document := ⟨same⟩

/-! ### Members of objects -/

/-- Puts a member into its place, over one of the same name. -/
def put (name : Text) (value : Document) : List (Text × Document) → List (Text × Document)
  | [] => [(name, value)]
  | (n, v) :: ms =>
    if n = name then (name, value) :: ms
    else if name.le n then (name, value) :: (n, v) :: ms
    else (n, v) :: put name value ms

/-- The object of members in the order of their appearance. -/
def ofMembers (ms : List (Text × Document)) : List (Text × Document) :=
  ms.foldl (fun acc (n, v) => put n v acc) []

/-- The member of a name. -/
def get? (name : Text) (ms : List (Text × Document)) : Option Document :=
  (ms.find? fun (n, _) => n == name).map Prod.snd

theorem get?_put_self (name : Text) (value : Document) (ms : List (Text × Document)) :
    get? name (put name value ms) = some value := by
  induction ms with
  | nil => simp [put, get?]
  | cons m ms ih =>
    obtain ⟨n, v⟩ := m
    simp only [put]
    split
    · simp [get?]
    · split
      · simp [get?]
      · rename_i h _
        simpa [get?, h] using ih

end Document

end Graft
