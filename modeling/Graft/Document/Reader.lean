/-
Reading JSON.

Documents nest to a depth of 127.  The digits of a number that is not whole are gathered in 64 bits; digits that no
longer fit only count for the exponent, and the result is the gathered number times or over a power of ten, each of
them rounded.  A number that is too large is an error.

Main statements: `Document.ofText?`.
-/
import Graft.Document
import Graft.Literal.Quoted

namespace Graft.Document

/-! ### Blanks and words -/

def isSpace (c : Char) : Bool := c == ' ' || c == '\n' || c == '\t' || c == '\r'

def skipSpace (t : Text) : Text := t.dropWhile isSpace

/-! ### Strings -/

/-- The number that four hexadecimal digits write. -/
def hex4? : Text → Option (Nat × Text)
  | a :: b :: c :: d :: t =>
    if [a, b, c, d].all Literal.isHexDigit then some (Literal.ofDigits 16 [a, b, c, d], t) else none
  | _ => none

/-- The character of the escape whose digits are at the front of a text, which may need the escape behind it too. -/
def unicodeEscape? (t : Text) : Option (Char × Text) :=
  (hex4? t).bind fun (n, rest) =>
    if 0xD800 ≤ n ∧ n < 0xDC00 then
      match rest with
      | '\\' :: 'u' :: more => (hex4? more).bind fun (m, rest) =>
        if 0xDC00 ≤ m ∧ m < 0xE000 then
          some (Char.ofNat (0x10000 + (n - 0xD800) * 0x400 + (m - 0xDC00)), rest)
        else none
      | _ => none
    else if 0xDC00 ≤ n ∧ n < 0xE000 then none
    else some (Char.ofNat n, rest)

/-- The character that a backslash before `c` stands for. -/
def shortEscape? : Char → Option Char
  | '"' => some '"'
  | '\\' => some '\\'
  | '/' => some '/'
  | 'b' => some '\x08'
  | 'f' => some '\x0c'
  | 'n' => some '\n'
  | 'r' => some '\r'
  | 't' => some '\t'
  | _ => none

/-- The value of a string whose opening quote has been read, with the text behind the closing one.  There are no more
characters than the budget. -/
def stringBody? : Nat → Text → Option (Text × Text)
  | 0, _ => none
  | _ + 1, [] => none
  | _ + 1, '"' :: t => some ([], t)
  | n + 1, '\\' :: 'u' :: t => do
    let (c, t) ← unicodeEscape? t
    let (s, t) ← stringBody? n t
    return (c :: s, t)
  | n + 1, '\\' :: e :: t => do
    let c ← shortEscape? e
    let (s, t) ← stringBody? n t
    return (c :: s, t)
  | n + 1, c :: t =>
    if c == '\\' || c.toNat < 0x20 then none
    else do
      let (s, t) ← stringBody? n t
      return (c :: s, t)

/-- The string whose opening quote has been read. -/
def string? (t : Text) : Option (Text × Text) := stringBody? (t.length + 1) t

/-! ### Numbers -/

/-- The largest number that digits are gathered to. -/
def maxWord : Nat := Nat.pow 2 64 - 1

def digitOf (c : Char) : Nat := c.toNat - '0'.toNat

/-- Gathers digits onto `m` while they fit: the result, the number of digits taken, and the rest. -/
def gather : Nat → Text → Nat × Nat × Text
  | m, [] => (m, 0, [])
  | m, c :: t =>
    if c.isDigit ∧ 10 * m + digitOf c ≤ maxWord then
      let (m, n, rest) := gather (10 * m + digitOf c) t
      (m, n + 1, rest)
    else (m, 0, c :: t)

/-- The digits at the front of a text, which no longer count, and the rest. -/
def dropDigits (t : Text) : Nat × Text := ((t.takeWhile Char.isDigit).length, t.dropWhile Char.isDigit)

/-- Divides by `10^308` until the exponent is in the range of powers or nothing is left.  Two rounds leave nothing. -/
def sink : Nat → Binary64 → Int → Binary64 × Int
  | 0, x, e => (x, e)
  | n + 1, x, e => if e < -308 ∧ !x.isZero then sink n (x.div (.ofDecimal 1 308)) (e + 308) else (x, e)

/-- `m * 10^e`, unless it is too large. -/
def scale? (m : Nat) (e : Int) : Option Binary64 :=
  let (x, e) := sink 3 (.ofNat m) e
  if x.isZero then some x
  else if 308 < e then none
  else if 0 ≤ e then
    let y := x.mul (.ofDecimal 1 e)
    if y.isInfinite then none else some y
  else some (x.div (.ofDecimal 1 (-e)))

/-- A number whose exponent, behind the letter, is at the front of a text. -/
def withExponent? (m : Nat) (e : Int) (t : Text) : Option (Binary64 × Text) :=
  let (positive, t) := match t with
    | '+' :: t => (true, t)
    | '-' :: t => (false, t)
    | t => (true, t)
  let digits := t.takeWhile Char.isDigit
  let rest := t.dropWhile Char.isDigit
  let n := Literal.ofDigits 10 digits
  if digits.isEmpty then none
  else if n < Nat.pow 2 31 then (scale? m (if positive then e + n else e - n)).map fun x => (x, rest)
  else if m ≠ 0 ∧ positive then none
  else some (.ofNat 0, rest)

/-- A number behind its digits: an exponent may follow. -/
def finish? (m : Nat) (e : Int) : Text → Option (Binary64 × Text)
  | 'e' :: t | 'E' :: t => withExponent? m e t
  | t => (scale? m e).map fun x => (x, t)

/-- A number whose fraction, behind the point, is at the front of a text. -/
def withFraction? (m : Nat) (e : Int) (t : Text) : Option (Binary64 × Text) :=
  if !t.head?.any Char.isDigit then none
  else
    let (m, n, rest) := gather m t
    finish? m (e - n) (dropDigits rest).2

/-- A number behind its whole digits. -/
def behindDigits? (m : Nat) (e : Int) : Text → Option (Binary64 × Text)
  | '.' :: t => withFraction? m e t
  | t => finish? m e t

/-- A whole number with its sign; minus zero is a float. -/
def whole (minus : Bool) (m : Nat) : Figure :=
  if !minus then .natural m
  else if 0 < m ∧ m ≤ Nat.pow 2 63 then .negative (m - 1)
  else .float (Binary64.ofNat m).neg

/-- The number at the front of a text, behind its sign. -/
def unsigned? (minus : Bool) (t : Text) : Option (Figure × Text) :=
  let (m, n, rest) := gather 0 t
  let signed (x : Binary64) : Figure := .float (if minus then x.neg else x)
  if n = 0 ∨ (t.head? = some '0' ∧ 1 < n) then none
  else match rest with
    | '.' :: _ | 'e' :: _ | 'E' :: _ => (behindDigits? m 0 rest).map fun (x, t) => (signed x, t)
    | c :: _ =>
      if c.isDigit then
        let (dropped, rest) := dropDigits rest
        (behindDigits? m dropped rest).map fun (x, t) => (signed x, t)
      else some (whole minus m, rest)
    | [] => some (whole minus m, rest)

def number? : Text → Option (Figure × Text)
  | '-' :: t => unsigned? true t
  | t => unsigned? false t

/-! ### Documents -/

/-- What is at the front of a text, unless it is an array or an object. -/
def scalar? (t : Text) : Option (Document × Text) :=
  match t with
  | '"' :: t => (string? t).map fun (s, t) => (.string s, t)
  | 'n' :: 'u' :: 'l' :: 'l' :: t => some (.null, t)
  | 't' :: 'r' :: 'u' :: 'e' :: t => some (.bool true, t)
  | 'f' :: 'a' :: 'l' :: 's' :: 'e' :: t => some (.bool false, t)
  | t => (number? t).map fun (n, t) => (.number n, t)

/-- The items of an array from the next one on; there are no more of them than the budget. -/
def items? (value : Text → Option (Document × Text)) : Nat → Text → Option (List Document × Text)
  | 0, _ => none
  | n + 1, t => do
    let (d, t) ← value (skipSpace t)
    match skipSpace t with
    | ',' :: t => do
      let (ds, t) ← items? value n t
      return (d :: ds, t)
    | ']' :: t => return ([d], t)
    | _ => none

/-- The members of an object from the next one on; there are no more of them than the budget. -/
def members? (value : Text → Option (Document × Text)) : Nat → Text → Option (List (Text × Document) × Text)
  | 0, _ => none
  | n + 1, t =>
    match skipSpace t with
    | '"' :: t => do
      let (name, t) ← string? t
      match skipSpace t with
      | ':' :: t => do
        let (d, t) ← value (skipSpace t)
        match skipSpace t with
        | ',' :: t => do
          let (ms, t) ← members? value n t
          return ((name, d) :: ms, t)
        | '}' :: t => return ([(name, d)], t)
        | _ => none
      | _ => none
    | _ => none

/-- The array or the object at the front of a text, or what else is there. -/
def container? (value : Text → Option (Document × Text)) (t : Text) : Option (Document × Text) :=
  match t with
  | '[' :: t => match skipSpace t with
    | ']' :: t => some (.array [], t)
    | t => (items? value (t.length + 1) t).map fun (ds, t) => (.array ds, t)
  | '{' :: t => match skipSpace t with
    | '}' :: t => some (.object [], t)
    | t => (members? value (t.length + 1) t).map fun (ms, t) => (.object (ofMembers ms), t)
  | t => scalar? t

/-- The document at the front of a text, nested at most as deep as the first argument. -/
def value? : Nat → Text → Option (Document × Text)
  | 0, t => scalar? t
  | depth + 1, t => container? (value? depth) t

/-- How deep documents nest. -/
def maxDepth : Nat := 127

/-- The document that a text is, blanks around it aside. -/
def ofText? (t : Text) : Option Document :=
  (value? maxDepth (skipSpace t)).bind fun (d, rest) => if (skipSpace rest).isEmpty then some d else none

end Graft.Document
