/-
Tools that calculate.

Main statements: `Tool.seq`, `Tool.expr`, `Decimal.text` (decimal numbers with a fixed number of places).
-/
import Graft.Shell.Printing
import Graft.Shell.Program
import Graft.Shell.Regex

namespace Graft.Shell.Tool

open Program

/-! ### Sequences -/

/-- A decimal number: its digits as a whole number, how many of them stand behind the point, and how long its text is. -/
structure Decimal where
  digits : Int
  places : Nat
  width : Nat

namespace Decimal

/-- The number that a text is. -/
def ofOctets? (t : Octets) : Option Decimal :=
  let t := t.dropWhile Octets.isSpace
  let (negative, u) := Octets.signed t
  let (digits, places, rest) := Printed.fractionAt u
  if digits.isEmpty then none
  else
    let (e, rest) := Printed.exponentAt rest
    if !rest.isEmpty then none
    else
      let n := Octets.negateIf negative (Octets.natOf 10 digits)
      let behind : Int := places - e
      let width := if t.head? = some '+' then t.length - 1 else t.length
      some (if behind ≥ 0 then ⟨n, behind.toNat, width⟩ else ⟨n * Nat.pow 10 (-behind).toNat, 0, width⟩)

/-- The digits of the number with more places. -/
def scaled (d : Decimal) (places : Nat) : Int := d.digits * Nat.pow 10 (places - d.places)

/-- A number, given by its digits, with some places behind the point. -/
def text (places : Nat) (digits : Int) : Octets :=
  let ds := Text.ofNat digits.natAbs
  let ds := List.replicate (places + 1 - ds.length) '0' ++ ds
  let whole := ds.take (ds.length - places)
  (if digits < 0 then ['-'] else []) ++ whole ++ (if places = 0 then [] else '.' :: ds.drop (ds.length - places))

end Decimal

/-- The number of terms from a number to another one. -/
def countOfTerms (first step last : Int) : Nat :=
  if step > 0 then (if first ≤ last then ((last - first) / step + 1).toNat else 0)
  else if first ≥ last then ((first - last) / (-step) + 1).toNat else 0

def seqOptions : OptionTable := .ofString "f:s:w" [("format", 'f'), ("separator", 's'), ("equal-width", 'w')] false

/-- A number with a sign is no option. -/
def isSignedNumber (a : Octets) : Bool :=
  match a with
  | '-' :: c :: _ => c.isDigit || c == '.'
  | _ => false

/-- The letters of the directives of a format; the bound lasts. -/
def directives : Nat → Octets → List Char
  | 0, _ => []
  | _ + 1, [] => []
  | n + 1, '%' :: '%' :: t => directives n t
  | n + 1, '%' :: t =>
    let rest := t.dropWhile fun c => c.isDigit || "#-+ .'".toList.contains c
    match rest with
    | c :: u => c :: directives n u
    | [] => [Char.ofNat 0]
  | n + 1, _ :: t => directives n t

/-- What is wrong with a format for numbers. -/
def formatFault? (format : Octets) : Option Octets :=
  let named (reason : Octets) : Octets := "format ".toList ++ quoted format ++ reason
  match directives (format.length + 1) format with
  | [] => some (named " has no % directive".toList)
  | c :: rest =>
    if c = Char.ofNat 0 then some (named " ends in %".toList)
    else if !"aefgAEFG".toList.contains c then some (named (" has unknown %".toList ++ [c] ++ " directive".toList))
    else if rest.isEmpty then none
    else some (named " has too many % directives".toList)

/-- The terms of a sequence as texts. -/
def terms (format : Option Octets) (equalWidth : Bool) (first step last : Decimal) : List Octets :=
  let places := max first.places step.places
  let common := max places last.places
  let count := countOfTerms (first.scaled common) (step.scaled common) (last.scaled common)
  let widthOf (d : Decimal) : Nat :=
    let point (n : Nat) : Nat := if n = 0 then 0 else 1
    d.width + places + point places - d.places - point d.places
  let width := if equalWidth then max (widthOf first) (widthOf last) else 0
  (List.range count).map fun i =>
    let t := Decimal.text places (first.scaled places + step.scaled places * Int.ofNat i)
    match format with
    | some f => (printed (Text.replace ['\\'] ['\\', '\\'] f) [t]).out
    | none =>
      match t with
      | '-' :: u => '-' :: (List.replicate (width - t.length) '0' ++ u)
      | u => List.replicate (width - t.length) '0' ++ u

def seq : Program := fun _ arguments =>
  let front := arguments.takeWhile fun a => !isSignedNumber a
  let numbers := arguments.drop front.length
  withOptions "seq" 1 seqOptions (fun o operands => do
    let operands := operands ++ numbers
    let one : Decimal := ⟨1, 0, 1⟩
    match operands, operands.find? fun a => (Decimal.ofOctets? a).isNone with
    | [], _ => misuse "seq" 1 "missing operand".toList
    | _ :: _ :: _ :: extra :: _, _ => misuse "seq" 1 ("extra operand ".toList ++ quoted extra)
    | _, some a => misuse "seq" 1 ("invalid floating point argument: ".toList ++ quoted a)
    | _, none =>
      let format := o.value? 'f'
      match format.bind formatFault? with
      | some fault =>
        complain "seq" fault
        return 1
      | none =>
        let (first, step, last) : Decimal × Decimal × Decimal := match operands.filterMap Decimal.ofOctets? with
          | [a, b, c] => (a, b, c)
          | [a, c] => (a, one, c)
          | c :: _ => (one, one, c)
          | [] => (one, one, one)
        if step.digits = 0 then
          misuse "seq" 1 ("invalid Zero increment value: ".toList ++ quoted (operands.getD 1 []))
        else
          let ts := terms format (o.has 'w') first step last
          if !ts.isEmpty then writeLine (Text.join ((o.value? 's').getD ['\n']) ts)
          return 0) front

/-! ### Expressions of words -/

/-- Reads a value from some words; what is wrong is told in words. -/
abbrev WordReader := List Octets → Except Octets (Octets × List Octets)

namespace Expr

/-- A value that counts as false. -/
def isNull (v : Octets) : Bool :=
  let digits := match v with
    | '-' :: t => t
    | t => t
  v.isEmpty || (!digits.isEmpty && digits.all (· == '0'))

def integer? (v : Octets) : Option Int :=
  let (negative, digits) : Bool × Octets := match v with
    | '-' :: t => (true, t)
    | t => (false, t)
  (Octets.nat? digits).map (Octets.negateIf negative)

def integer (v : Octets) : Except Octets Int :=
  match integer? v with
  | some i => .ok i
  | none => .error "non-integer argument".toList

def ofBool (b : Bool) : Octets := if b then ['1'] else ['0']

/-- The part of a text that an expression matches from its start on: what its first group has matched, or else the
length. -/
def matched (text pattern : Octets) : Except Octets Octets :=
  match Regex.ofOctets? ⟨false, false⟩ pattern with
  | .error e => .error e.toList
  | .ok r =>
    match r.matchAt? false text ⟨none, text, 0, []⟩ with
    | some m =>
      if r.groupCount > 0 then .ok ((Regex.groupText text m.groups 1).getD []) else .ok (Text.ofNat m.stop)
    | none => .ok (if r.groupCount > 0 then [] else ['0'])

def substring (text position length : Octets) : Octets :=
  match integer? position, integer? length with
  | some p, some n => if p ≤ 0 || n ≤ 0 then [] else (text.drop (p.toNat - 1)).take n.toNat
  | _, _ => []

/-- The value of an operation. -/
def operation (op a b : Octets) : Except Octets Octets :=
  let numbers (f : Int → Int → Except Octets Int) : Except Octets Octets := do
    return Text.ofInt (← f (← integer a) (← integer b))
  let nonZero (f : Int → Int → Int) : Int → Int → Except Octets Int := fun i j =>
    if j = 0 then .error "division by zero".toList else .ok (f i j)
  let compared (p : Ordering → Bool) : Except Octets Octets :=
    match integer? a, integer? b with
    | some i, some j => .ok (ofBool (p (compare i j)))
    | _, _ => .ok (ofBool (p (if a = b then .eq else if Text.le a b then .lt else .gt)))
  match String.ofList op with
  | "|" => .ok (if !isNull a then a else if isNull b then ['0'] else b)
  | "&" => .ok (if isNull a || isNull b then ['0'] else a)
  | "<" => compared (· == .lt)
  | "<=" => compared (· != .gt)
  | "=" | "==" => compared (· == .eq)
  | "!=" => compared (· != .eq)
  | ">=" => compared (· != .lt)
  | ">" => compared (· == .gt)
  | "+" => numbers fun i j => .ok (i + j)
  | "-" => numbers fun i j => .ok (i - j)
  | "*" => numbers fun i j => .ok (i * j)
  | "/" => numbers (nonZero Int.tdiv)
  | "%" => numbers (nonZero Int.tmod)
  | _ => matched a b

/-- The operators, from those that bind least on. -/
def levels : List (List String) :=
  [["|"], ["&"], ["<", "<=", "=", "==", "!=", ">=", ">"], ["+", "-"], ["*", "/", "%"], [":"]]

/-- Operations of one level, for which the bound lasts, behind their first operand. -/
def chain (ops : List String) (operand : WordReader) : Nat → Octets → WordReader
  | 0, a, words => .ok (a, words)
  | n + 1, a, words =>
    match words with
    | op :: rest =>
      if ops.any (·.toList == op) then do
        if rest.isEmpty then throw ("syntax error: missing argument after ".toList ++ quoted op)
        let (b, rest) ← operand rest
        -- What stands behind a value that decides is read, but not reckoned.
        let value ←
          if op = ['|'] && !isNull a then pure a
          else if op = ['&'] && isNull a then pure ['0']
          else operation op a b
        chain ops operand n value rest
      else .ok (a, words)
    | [] => .ok (a, words)

/-- A word, a call of a function, or an expression in brackets. -/
def atom (whole : WordReader) : Nat → WordReader
  | 0, _ => .error "syntax error".toList
  | n + 1, words => do
    let missing (after : Octets) : Octets := "syntax error: missing argument after ".toList ++ quoted after
    let argument (after : Octets) (words : List Octets) : Except Octets (Octets × List Octets) :=
      if words.isEmpty then .error (missing after) else atom whole n words
    match words with
    | [] => throw "syntax error".toList
    | ['+'] :: rest =>
      match rest with
      | w :: rest => return (w, rest)
      | [] => throw (missing ['+'])
    | ['('] :: rest =>
      if rest.isEmpty then throw (missing ['('])
      let (v, left) ← whole rest
      match left with
      | [')'] :: left => return (v, left)
      | [] => throw ("syntax error: expecting ')' after ".toList ++ quoted ((words.getLast?).getD []))
      | w :: _ => throw ("syntax error: expecting ')' instead of ".toList ++ quoted w)
    | [')'] :: _ => throw "syntax error: unexpected ')'".toList
    | w :: rest =>
      match String.ofList w with
      | "length" =>
        let (v, rest) ← argument w rest
        return (Text.ofNat v.length, rest)
      | "match" =>
        let (a, rest) ← argument w rest
        let (b, rest) ← argument a rest
        return (← matched a b, rest)
      | "index" =>
        let (a, rest) ← argument w rest
        let (b, rest) ← argument a rest
        return (Text.ofNat ((a.findIdx? b.contains).map (· + 1) |>.getD 0), rest)
      | "substr" =>
        let (a, rest) ← argument w rest
        let (b, rest) ← argument a rest
        let (c, rest) ← argument b rest
        return (substring a b c, rest)
      | _ => return (w, rest)

/-- An expression, for which the bound lasts. -/
def whole : Nat → WordReader
  | 0 => fun _ => .error "syntax error".toList
  | n + 1 => fun words =>
    let level (ops : List String) (operand : WordReader) : WordReader := fun words => do
      let (a, rest) ← operand words
      chain ops operand words.length a rest
    levels.foldr level (atom (whole n) (words.length + 1)) words

end Expr

def expr : Program := fun _ arguments => do
  let words := if arguments.head? = some ['-', '-'] then arguments.drop 1 else arguments
  let refuse (message : Octets) : Act Nat := do
    complain "expr" message
    return 2
  if words.isEmpty then misuse "expr" 2 "missing operand".toList
  else match Expr.whole (words.length + 1) words with
    | .error message => refuse message
    | .ok (_, w :: _) => refuse ("syntax error: unexpected argument ".toList ++ quoted w)
    | .ok (v, []) =>
      writeLine v
      return if Expr.isNull v then 1 else 0

end Graft.Shell.Tool
