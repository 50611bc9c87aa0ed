/-
Expressions over whole numbers.

Numbers have 64 bits and a sign and wrap around.  An expression is read by precedence, and its value may depend on
variables and change them.

Main statements: `Expression.ofOctets?`, `Expression.eval`, `Operator.result?_divide_zero`.
-/
import Graft.Shell.Session

namespace Graft.Shell

/-! ### Expressions -/

inductive Operator where
  | multiply
  | divide
  | remainder
  | add
  | subtract
  | shiftLeft
  | shiftRight
  | less
  | lessOrEqual
  | greater
  | greaterOrEqual
  | equal
  | notEqual
  | bitAnd
  | bitXor
  | bitOr
deriving DecidableEq, Repr

inductive Sign where
  | minus
  | not
  | complement
deriving DecidableEq, Repr

inductive Expression where
  | number (i : Int)
  | name (name : Octets)
  | sign (s : Sign) (e : Expression)
  | operation (o : Operator) (a b : Expression)
  | both (a b : Expression)
  | either (a b : Expression)
  | choice (condition yes no : Expression)
  /-- A variable gets a value, perhaps by an operation on its old one. -/
  | assignment (o : Option Operator) (name : Octets) (e : Expression)
deriving Repr

namespace Operator

def text : Operator → String
  | multiply => "*"
  | divide => "/"
  | remainder => "%"
  | add => "+"
  | subtract => "-"
  | shiftLeft => "<<"
  | shiftRight => ">>"
  | less => "<"
  | lessOrEqual => "<="
  | greater => ">"
  | greaterOrEqual => ">="
  | equal => "=="
  | notEqual => "!="
  | bitAnd => "&"
  | bitXor => "^"
  | bitOr => "|"

def all : List Operator :=
  [multiply, divide, remainder, add, subtract, shiftLeft, shiftRight, less, lessOrEqual, greater, greaterOrEqual, equal,
    notEqual, bitAnd, bitXor, bitOr]

/-- Operators of a lower level bind tighter. -/
def level : Operator → Nat
  | multiply | divide | remainder => 0
  | add | subtract => 1
  | shiftLeft | shiftRight => 2
  | less | lessOrEqual | greater | greaterOrEqual => 3
  | equal | notEqual => 4
  | bitAnd => 5
  | bitXor => 6
  | bitOr => 7

/-- An operator that may stand before an equals sign. -/
def assigns : Operator → Bool
  | less | lessOrEqual | greater | greaterOrEqual | equal | notEqual => false
  | _ => true

/-- The 64 bits of a number. -/
def bits (i : Int) : BitVec 64 := BitVec.ofInt 64 i

/-- The value of an operation; none for a division by zero. -/
def result? (o : Operator) (a b : Int) : Option Int :=
  let truth (p : Bool) : Option Int := some (if p then 1 else 0)
  match o with
  | multiply => some (Octets.wrap64 (a * b))
  | divide => if b = 0 then none else some (Octets.wrap64 (Int.tdiv a b))
  | remainder => if b = 0 then none else some (Int.tmod a b)
  | add => some (Octets.wrap64 (a + b))
  | subtract => some (Octets.wrap64 (a - b))
  | shiftLeft => some ((bits a <<< ((bits b).toNat % 64)).toInt)
  | shiftRight => some (((bits a).sshiftRight ((bits b).toNat % 64)).toInt)
  | less => truth (a < b)
  | lessOrEqual => truth (a ≤ b)
  | greater => truth (a > b)
  | greaterOrEqual => truth (a ≥ b)
  | equal => truth (a == b)
  | notEqual => truth (a != b)
  | bitAnd => some ((bits a &&& bits b).toInt)
  | bitXor => some ((bits a ^^^ bits b).toInt)
  | bitOr => some ((bits a ||| bits b).toInt)

/-- Nothing can be divided by zero. -/
theorem result?_divide_zero (a : Int) : divide.result? a 0 = none := rfl

end Operator

def Sign.apply (s : Sign) (i : Int) : Int :=
  match s with
  | minus => Octets.wrap64 (-i)
  | not => if i = 0 then 1 else 0
  | complement => -i - 1

/-! ### Reading -/

namespace Expression

inductive Symbol where
  | number (i : Int)
  | name (name : Octets)
  | operator (o : Operator)
  | assign (o : Option Operator)
  | and
  | or
  | not
  | complement
  | question
  | colon
  | open_
  | close
  /-- A character that has no place in an expression. -/
  | other
deriving DecidableEq

/-- Signs of two or three characters come before those that they begin with. -/
def signs : List (String × Symbol) :=
  [("<<=", .assign (some .shiftLeft)), (">>=", .assign (some .shiftRight)), ("||", .or), ("&&", .and)] ++
    (Operator.all.filter fun o => o.text.length == 2).map (fun o => (o.text, .operator o)) ++
    ((Operator.all.filter fun o => o.text.length == 1 && o.assigns).map fun o => (o.text ++ "=", .assign (some o))) ++
    (Operator.all.filter fun o => o.text.length == 1).map (fun o => (o.text, .operator o)) ++
    [("=", .assign none), ("!", .not), ("~", .complement), ("?", .question), (":", .colon), ("(", .open_), (")", .close)]

def sign? (t : Octets) : Option (Symbol × Octets) :=
  signs.findSome? fun (text, s) => (Text.strip? text.toList t).map fun rest => (s, rest)

/-- The symbols of a text. -/
def symbols : Nat → Octets → List Symbol
  | 0, _ => []
  | _ + 1, [] => []
  | n + 1, c :: t =>
    if c == ' ' || c == '\t' || c == '\n' then symbols n t
    else if c.isDigit then
      match Octets.numberAt? (c :: t) with
      | some (i, rest) => .number (Octets.clamp64 i) :: symbols n rest
      | none => [.other]
    else if Octets.isNameStart c then
      .name ((c :: t).takeWhile Octets.isNameChar) :: symbols n ((c :: t).dropWhile Octets.isNameChar)
    else match sign? (c :: t) with
      | some (s, rest) => s :: symbols n rest
      | none => [.other]

/-- An expression at the front of some symbols; or else what should stand there. -/
abbrev Result := Except String (Expression × List Symbol)

/-- A number, a name, or an expression with signs or in brackets. -/
def primary (whole : List Symbol → Result) : List Symbol → Result
  | .number i :: t => .ok (.number i, t)
  | .name n :: t => .ok (.name n, t)
  | .operator .add :: t => primary whole t
  | .operator .subtract :: t => (primary whole t).map fun (e, rest) => (.sign .minus e, rest)
  | .not :: t => (primary whole t).map fun (e, rest) => (.sign .not e, rest)
  | .complement :: t => (primary whole t).map fun (e, rest) => (.sign .complement e, rest)
  | .open_ :: t => do
    let (e, rest) ← whole t
    match rest with
    | .close :: rest => return (e, rest)
    | _ => throw "expecting ')'"
  | _ => .error "expecting primary"

/-- Operations of one level, behind their first operand. -/
def operations (operand : List Symbol → Result) (level : Nat) : Nat → Expression → List Symbol → Result
  | 0, a, t => .ok (a, t)
  | n + 1, a, .operator o :: t =>
    if o.level = level then do
      let (b, rest) ← operand t
      operations operand level n (.operation o a b) rest
    else .ok (a, .operator o :: t)
  | _ + 1, a, t => .ok (a, t)

/-- Operations of all levels below one. -/
def upTo (whole : List Symbol → Result) : Nat → List Symbol → Result
  | 0, t => primary whole t
  | level + 1, t => do
    let (a, rest) ← upTo whole level t
    operations (upTo whole level) level rest.length a rest

/-- Conjunctions, then disjunctions, for which the bound lasts. -/
def conjunction (whole : List Symbol → Result) : Nat → List Symbol → Result
  | 0, t => upTo whole 8 t
  | n + 1, t => do
    let (a, rest) ← upTo whole 8 t
    match rest with
    | .and :: rest => return (← conjunction whole n rest).map (.both a) id
    | rest => return (a, rest)

def disjunction (whole : List Symbol → Result) : Nat → List Symbol → Result
  | 0, t => conjunction whole t.length t
  | n + 1, t => do
    let (a, rest) ← conjunction whole t.length t
    match rest with
    | .or :: rest => return (← disjunction whole n rest).map (.either a) id
    | rest => return (a, rest)

def conditional (whole : List Symbol → Result) : Nat → List Symbol → Result
  | 0, t => disjunction whole t.length t
  | n + 1, t => do
    let (a, rest) ← disjunction whole t.length t
    match rest with
    | .question :: rest =>
      let (yes, rest) ← whole rest
      match rest with
      | .colon :: rest => return (← conditional whole n rest).map (.choice a yes) id
      | _ => throw "expecting ':'"
    | rest => return (a, rest)

/-- An assignment or an expression without one. -/
def whole : Nat → List Symbol → Result
  | 0, _ => .error "expecting primary"
  | n + 1, .name x :: .assign o :: t => (whole n t).map fun (e, rest) => (.assignment o x e, rest)
  | n + 1, t => conditional (whole n) t.length t

/-- The expression that a text is, or else what it lacks. -/
def ofOctets? (o : Octets) : Except String Expression := do
  let s := symbols o.length o
  let (e, rest) ← whole (s.length + 1) s
  if rest.isEmpty then return e else throw "expecting EOF"

/-! ### Values -/

/-- The number that the value of a variable is. -/
def numberOf (value : Octets) : Act Int :=
  let illegal : Act Int := Act.fail ("Illegal number: ".toList ++ value)
  if (value.dropWhile Octets.isSpace).isEmpty then return 0
  else match Octets.numberAt? value with
    | some (i, rest) => if rest.all Octets.isSpace && Octets.clamp64 i = i then return i else illegal
    | none => illegal

def variableNumber (name : Octets) : Act Int := do numberOf ((← Act.lookup? name).getD [])

/-- The value of an expression; `text` is how it is written. -/
def eval (text : Octets) : Expression → Act Int
  | number i => return i
  | name n => variableNumber n
  | sign s e => do return s.apply (← eval text e)
  | operation o a b => do
    let i ← eval text a
    let j ← eval text b
    operate text o i j
  | both a b => do
    if (← eval text a) = 0 then return 0
    return if (← eval text b) = 0 then 0 else 1
  | either a b => do
    if (← eval text a) ≠ 0 then return 1
    return if (← eval text b) = 0 then 0 else 1
  | choice c a b => do
    if (← eval text c) ≠ 0 then eval text a else eval text b
  | assignment o n e => do
    let j ← eval text e
    let i ← match o with
      | none => pure j
      | some o => do operate text o (← variableNumber n) j
    Act.assign n (Text.ofInt i)
    return i
where
  operate (text : Octets) (o : Operator) (i j : Int) : Act Int :=
    match o.result? i j with
    | some k => return k
    | none => Act.fail ("arithmetic expression: division by zero: \"".toList ++ text ++ ['"'])

/-- The value of the expression that a text is. -/
def evalOctets (text : Octets) : Act Int :=
  match ofOctets? text with
  | .ok e => e.eval text
  | .error reason =>
    Act.fail ("arithmetic expression: ".toList ++ reason.toList ++ ": \"".toList ++ text ++ ['"'])

end Expression

end Graft.Shell
