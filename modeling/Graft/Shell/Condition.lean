/-
Tests of texts, numbers and files.

A test is an expression of words.  Whether a word is an operator or an operand depends on the words around it, so that
operands may look like operators.

Main statements: `Condition.eval` (whether the words of a test hold, or what is wrong with them), `eval_nil`.
-/
import Graft.Shell.Session

namespace Graft.Shell.Condition

/-! ### Operators -/

inductive Unary where
  | isEmpty
  | isNotEmpty
  /-- A property of a file, by its letter. -/
  | file (letter : Char)
deriving DecidableEq, Repr

inductive Binary where
  | same
  | different
  | before
  | behind
  | equal
  | notEqual
  | greaterOrEqual
  | greater
  | lessOrEqual
  | less
  | newer
  | older
  | sameFile
deriving DecidableEq, Repr

inductive Operator where
  | unary (o : Unary)
  | binary (o : Binary)
  | not
  | and
  | or
  | open_
  | close
deriving DecidableEq, Repr

def operator? (word : Octets) : Option Operator :=
  match String.ofList word with
  | "=" => some (.binary .same)
  | "!=" => some (.binary .different)
  | "<" => some (.binary .before)
  | ">" => some (.binary .behind)
  | "-eq" => some (.binary .equal)
  | "-ne" => some (.binary .notEqual)
  | "-ge" => some (.binary .greaterOrEqual)
  | "-gt" => some (.binary .greater)
  | "-le" => some (.binary .lessOrEqual)
  | "-lt" => some (.binary .less)
  | "-nt" => some (.binary .newer)
  | "-ot" => some (.binary .older)
  | "-ef" => some (.binary .sameFile)
  | "!" => some .not
  | "-a" => some .and
  | "-o" => some .or
  | "(" => some .open_
  | ")" => some .close
  | "-z" => some (.unary .isEmpty)
  | "-n" => some (.unary .isNotEmpty)
  | _ =>
    match word with
    | ['-', c] => if "rwxefdcbpugksthOGLS".toList.contains c then some (.unary (.file c)) else none
    | _ => none

def isBinary : Option Operator → Bool
  | some (.binary _) => true
  | _ => false

/-- What the front word means.  An operator that is followed by too little is an operand. -/
def meaning? : List Octets → Option Operator
  | [] => none
  | w :: rest =>
    match operator? w, rest with
    | some (.unary _), [] => none
    | some (.unary o), [_] => some (.unary o)
    | some (.unary o), next :: _ => if isBinary (operator? next) then none else some (.unary o)
    | some .open_, [] => none
    | o, _ => o

/-! ### Values -/

/-- A property of what a name leads to. -/
def fileHolds (s : Session) (letter : Char) (name : Octets) : Bool :=
  match s.place name with
  | .ok (.path p) =>
    match s.tree.get? p with
    | none => false
    | some .directory => "edrwxsOG".toList.contains letter
    | some (.file c executable) =>
      if letter = 'x' then executable
      else if letter = 's' then !c.toBytes.isEmpty
      else "efrwOG".toList.contains letter
  | .ok .sink => "ecrwOG".toList.contains letter
  | .ok (.descriptor d) => "erw".toList.contains letter && s.env.descriptors.any (·.1 == d)
  | .error _ => false

def unaryHolds (s : Session) (o : Unary) (word : Octets) : Bool :=
  match o with
  | .isEmpty => word.isEmpty
  | .isNotEmpty => !word.isEmpty
  | .file letter => fileHolds s letter word

/-- The number that a word is. -/
def number (word : Octets) : Except Octets Int :=
  match Octets.int? word with
  | some i => if Octets.clamp64 i = i then .ok i else .error ("out of range: ".toList ++ word)
  | none => .error ("Illegal number: ".toList ++ word)

def binaryHolds (s : Session) (o : Binary) (a b : Octets) : Except Octets Bool := do
  let numbers (p : Int → Int → Bool) : Except Octets Bool := do return p (← number a) (← number b)
  match o with
  | .same => return a == b
  | .different => return a != b
  | .before => return Text.le a b && a != b
  | .behind => return Text.le b a && a != b
  | .equal => numbers (· == ·)
  | .notEqual => numbers (· != ·)
  | .greaterOrEqual => numbers (· ≥ ·)
  | .greater => numbers (· > ·)
  | .lessOrEqual => numbers (· ≤ ·)
  | .less => numbers (· < ·)
  -- All files are of one age.
  | .newer | .older => return false
  | .sameFile =>
    match s.locate a, s.locate b with
    | .ok p, .ok q => return p == q && (s.tree.get? p).isSome
    | _, _ => return false

/-! ### Expressions -/

/-- The value of an expression, and the words from its last one on. -/
abbrev Result := Except Octets (Bool × List Octets)

/-- A word, or an operator with its operands, at the front of some words. -/
def primary (s : Session) (whole : List Octets → Result) (words : List Octets) : Result := do
  match words, meaning? words with
  | [], _ => return (false, [])
  | _ :: rest, some .open_ =>
    if meaning? rest = some .close then return (false, rest)
    let (value, left) ← whole rest
    match meaning? (left.drop 1) with
    | some .close => return (value, left.drop 1)
    | _ => throw "closing paren expected".toList
  | op :: rest, some (.unary o) =>
    match rest with
    | [] => throw (op ++ ": argument expected".toList)
    | word :: _ => return (unaryHolds s o word, rest)
  | a :: rest, _ =>
    match rest, meaning? rest with
    | op :: operands, some (.binary o) =>
      match operands with
      | [] => throw (op ++ ": argument expected".toList)
      | b :: _ => return (← binaryHolds s o a b, operands)
    | _, _ => return (!a.isEmpty, words)

/-- A negation, for which the bound lasts. -/
def negation (s : Session) (whole : List Octets → Result) : Nat → List Octets → Result
  | 0, words => primary s whole words
  | n + 1, words =>
    if meaning? words = some .not then
      (negation s whole n (words.drop 1)).map fun (value, left) => (!value, if left.isEmpty then words else left)
    else primary s whole words

/-- Parts with a sign between them, for which the bound lasts. -/
def joined (part : List Octets → Result) (sign : Operator) (join : Bool → Bool → Bool) :
    Nat → List Octets → Result
  | 0, words => part words
  | n + 1, words => do
    let (value, left) ← part words
    if meaning? (left.drop 1) = some sign then
      let (other, left) ← joined part sign join n (left.drop 2)
      return (join value other, left)
    else return (value, left)

/-- An expression, for which the bound lasts. -/
def whole (s : Session) : Nat → List Octets → Result
  | 0, _ => .error "closing paren expected".toList
  | n + 1, words =>
    let conjunction := joined (negation s (whole s n) words.length) .and (· && ·) words.length
    joined conjunction .or (· || ·) words.length words

/-- Nothing but one operand may be left of an expression. -/
def complete (s : Session) (words : List Octets) : Except Octets Bool := do
  let (value, left) ← whole s (words.length + 1) words
  match left with
  | w :: _ :: _ => throw (w ++ ": unexpected operator".toList)
  | _ => return value

/-- An expression whose front word is an operand. -/
def completeBinary (s : Session) (words : List Octets) : Except Octets Bool :=
  match words with
  | [a, op, b] =>
    match operator? op with
    | some (.binary o) => binaryHolds s o a b
    | _ => complete s words
  | _ => complete s words

/-- The words hold.  Three words with an operator in the middle are always read as an operation. -/
def eval (s : Session) : List Octets → Except Octets Bool
  | [] => .ok false
  | [a, op, b] =>
    if isBinary (operator? op) then completeBinary s [a, op, b]
    else if a = ['('] && b = [')'] then complete s [op]
    else if a = ['!'] then (complete s [op, b]).map (!·)
    else complete s [a, op, b]
  | [a, b, c, d] =>
    if a = ['('] && d = [')'] then complete s [b, c]
    else if a = ['!'] then (eval s [b, c, d]).map (!·)
    else complete s [a, b, c, d]
  | words => complete s words

/-- No words at all do not hold. -/
theorem eval_nil (s : Session) : eval s [] = .ok false := rfl

end Graft.Shell.Condition
