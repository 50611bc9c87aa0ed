/-
Formats and escapes.

A format is written with its directives replaced by arguments, and again from its front as long as arguments are left.

Main statements: `unescaped` (a text with its escapes replaced), `Directive.write`, `printed` (a format over its
arguments), `printed_plain` (a format without directives and escapes is written as it is).
-/
import Graft.Number.Decimal
import Graft.Shell.Octets

namespace Graft.Shell

/-! ### Escapes -/

/-- The character that a letter behind a backslash stands for. -/
def escape? (c : Char) : Option Char :=
  match c with
  | 'a' => some '\x07'
  | 'b' => some '\x08'
  | 'e' => some '\x1b'
  | 'f' => some '\x0c'
  | 'n' => some '\n'
  | 'r' => some '\r'
  | 't' => some '\t'
  | 'v' => some '\x0b'
  | '\\' => some '\\'
  | _ => none

def isOctal (c : Char) : Bool := '0' ≤ c && c ≤ '7'

/-- The character of a code in base eight of at most three digits, and what follows it. -/
def octal (t : Octets) : Char × Octets :=
  let digits := (t.take 3).takeWhile isOctal
  (Char.ofNat (Octets.natOf 8 digits % 256), t.drop digits.length)

/-- The characters of an escape, behind its backslash, and what follows them. -/
def escapeAt : Octets → Octets × Octets
  | [] => (['\\'], [])
  | c :: t =>
    if isOctal c then let (d, rest) := octal (c :: t); ([d], rest)
    else match escape? c with
      | some d => ([d], t)
      | none => (['\\'], c :: t)

/-- A text with its escapes replaced, for which the bound lasts, and whether it ran to its end: `\c` stops it.  A code
in base eight may start with a zero of its own. -/
def unescapedFrom : Nat → Octets → Octets × Bool
  | 0, _ => ([], true)
  | _ + 1, [] => ([], true)
  | n + 1, '\\' :: t =>
    match t with
    | 'c' :: _ => ([], false)
    | '0' :: u =>
      let (d, rest) := octal u
      let (o, whole) := unescapedFrom n rest
      (d :: o, whole)
    | t =>
      let (d, rest) := escapeAt t
      let (o, whole) := unescapedFrom n rest
      (d ++ o, whole)
  | n + 1, c :: t =>
    let (o, whole) := unescapedFrom n t
    (c :: o, whole)

def unescaped (t : Octets) : Octets × Bool := unescapedFrom (t.length + 1) t

/-! ### Directives -/

/-- A directive of a format. -/
structure Directive where
  flags : Octets
  width : Option Int
  precision : Option Int
  letter : Char

namespace Directive

def has (d : Directive) (c : Char) : Bool := d.flags.contains c

/-- A text at the width of a directive.  A sign or a base in front stays in front of zeros. -/
def padded (d : Directive) (zeros : Bool) (front body : Octets) : Octets :=
  let w := d.width.getD 0
  let width := w.natAbs
  let missing := width - (front.length + body.length)
  if d.has '-' || w < 0 then front ++ body ++ List.replicate missing ' '
  else if zeros && d.has '0' then front ++ List.replicate missing '0' ++ body
  else List.replicate missing ' ' ++ front ++ body

/-- The precision; a negative one is none. -/
def precision? (d : Directive) : Option Nat := d.precision.bind fun p => if p < 0 then none else some p.toNat

def text (d : Directive) (o : Octets) : Octets :=
  d.padded false [] (match d.precision? with
    | some p => o.take p
    | none => o)

/-- The sign of a number. -/
def sign (d : Directive) (negative : Bool) : Octets :=
  if negative then ['-'] else if d.has '+' then ['+'] else if d.has ' ' then [' '] else []

/-- The digits of a whole number, as many as the precision asks for. -/
def digits (d : Directive) (base n : Nat) : Octets :=
  let ds := if n = 0 && d.precision? = some 0 then [] else Octets.inBase base n
  List.replicate (d.precision?.getD 0 - ds.length) '0' ++ ds

def signed (d : Directive) (i : Int) : Octets :=
  d.padded d.precision?.isNone (d.sign (i < 0)) (d.digits 10 i.natAbs)

def unsigned (d : Directive) (n : Nat) : Octets :=
  let base := if d.letter = 'o' then 8 else if d.letter = 'x' || d.letter = 'X' then 16 else 10
  let ds := d.digits base n
  let front : Octets :=
    if !d.has '#' || n = 0 then []
    else if d.letter = 'o' then (if ds.head? = some '0' then [] else ['0'])
    else if d.letter = 'x' || d.letter = 'X' then ['0', 'x']
    else []
  let o := d.padded d.precision?.isNone front ds
  if d.letter = 'X' then o.map Char.toUpper else o

/-! ### Fractions -/

/-- A number with some places behind the point. -/
def fixed (keepPoint : Bool) (places : Nat) (a : Ratio) : Octets :=
  let ds := Octets.inBase 10 (a.mul ⟨Nat.pow 10 places, 1⟩).roundHalfEven
  let ds := List.replicate (places + 1 - ds.length) '0' ++ ds
  let whole := ds.take (ds.length - places)
  whole ++ (if places > 0 || keepPoint then ['.'] else []) ++ ds.drop (ds.length - places)

/-- The digits and the exponent of a number with some places behind its first digit. -/
def scientificParts (places : Nat) (a : Ratio) : Octets × Int :=
  if a.num = 0 then (List.replicate (places + 1) '0', 0)
  else
    let e := Decimal.scale a - 1
    let n := (a.mul (Ratio.scaled 1 0 ((places : Int) - e))).roundHalfEven
    let ds := Octets.inBase 10 n
    if ds.length > places + 1 then (ds.take (places + 1), e + 1) else (ds, e)

def exponentText (e : Int) : Octets :=
  let ds := Octets.inBase 10 e.natAbs
  ['e', if e < 0 then '-' else '+'] ++ List.replicate (2 - ds.length) '0' ++ ds

def withPoint (keepPoint : Bool) : Octets → Octets
  | [] => []
  | c :: t => c :: (if t.isEmpty && !keepPoint then [] else '.' :: t)

def scientific (keepPoint : Bool) (places : Nat) (a : Ratio) : Octets :=
  let (ds, e) := scientificParts places a
  withPoint keepPoint ds ++ exponentText e

/-- A number without the zeros at the end of its fraction. -/
def stripZeros (o : Octets) : Octets :=
  if o.contains '.' then
    let o := (o.reverse.dropWhile (· == '0')).reverse
    if o.getLast? = some '.' then o.dropLast else o
  else o

/-- A number with as many digits as the precision says, in the shorter of both forms. -/
def general (keepZeros : Bool) (precision : Nat) (a : Ratio) : Octets :=
  let p := max precision 1
  let (ds, e) := scientificParts (p - 1) a
  let strip := if keepZeros then id else stripZeros
  if e < -4 || e ≥ p then strip (withPoint keepZeros ds) ++ exponentText e
  else strip (fixed keepZeros ((p : Int) - 1 - e).toNat a)

def float (d : Directive) (x : Binary64) : Octets :=
  let upper : Octets → Octets := if d.letter.isUpper then List.map Char.toUpper else id
  let front := d.sign x.isNegative
  if x.isNaN then d.padded false front (upper "nan".toList)
  else if x.isInfinite then d.padded false front (upper "inf".toList)
  else
    let p := d.precision?.getD 6
    let body := match d.letter.toLower with
      | 'f' => fixed (d.has '#') p x.abs
      | 'e' => scientific (d.has '#') p x.abs
      | _ => general (d.has '#') p x.abs
    d.padded true front (upper body)

end Directive

/-! ### Arguments -/

/-- What has been written, and what went wrong on the way. -/
structure Printed where
  out : Octets := []
  arguments : List Octets
  used : Bool := false
  /-- Arguments that are not the numbers they should be. -/
  warnings : List Octets := []
  /-- Why the format cannot be written to its end. -/
  error : Option Octets := none
  stopped : Bool := false

namespace Printed

def write (p : Printed) (o : Octets) : Printed := { p with out := p.out ++ o }

/-- The next argument, which is empty when there is none. -/
def next (p : Printed) : Option Octets × Printed :=
  (p.arguments.head?, { p with arguments := p.arguments.drop 1, used := true })

def warn (p : Printed) (argument reason : Octets) : Printed :=
  { p with warnings := p.warnings ++ [argument ++ [':', ' '] ++ reason] }

/-- A warning about what stands behind a number. -/
def check (p : Printed) (argument rest : Octets) (outOfRange : Bool) : Printed :=
  if !rest.isEmpty then
    p.warn argument (if rest = argument then "expected numeric value" else "not completely converted").toList
  else if outOfRange then p.warn argument "Numerical result out of range".toList
  else p

/-- The code of a character behind a quote. -/
def quotedCode? (argument : Octets) : Option Nat :=
  match argument with
  | '\'' :: t | '"' :: t => some ((t.head?.map Char.toNat).getD 0)
  | _ => none

/-- An argument as a whole number between two bounds. -/
def integer (low high : Int) (p : Printed) : Int × Printed :=
  match p.next with
  | (none, p) => (0, p)
  | (some a, p) =>
    match quotedCode? a with
    | some n => (n, p)
    | none =>
      match Octets.numberAt? a with
      | some (i, rest) =>
        let j := max low (min high i)
        (j, p.check a rest (i ≠ j))
      | none => (0, p.check a a false)

/-- The digits of a fraction at the front of a text, with the number of those behind the point. -/
def fractionAt (t : Octets) : Octets × Nat × Octets :=
  let whole := t.takeWhile Char.isDigit
  match t.drop whole.length with
  | '.' :: u =>
    let fraction := u.takeWhile Char.isDigit
    (whole ++ fraction, fraction.length, u.drop fraction.length)
  | u => (whole, 0, u)

/-- The exponent at the front of a text, zero if none is there. -/
def exponentAt (t : Octets) : Int × Octets :=
  match t with
  | e :: u =>
    if e = 'e' || e = 'E' then
      let (negative, v) := Octets.signed u
      let digits := v.takeWhile Char.isDigit
      if digits.isEmpty then (0, t) else (Octets.negateIf negative (Octets.natOf 10 digits), v.drop digits.length)
    else (0, t)
  | [] => (0, [])

/-- The number at the front of a text, and what follows it; nothing when no number is there. -/
def floatAt? (t : Octets) : Option (Binary64 × Octets) :=
  let (negative, u) := Octets.signed (t.dropWhile Octets.isSpace)
  let signed (x : Binary64) : Binary64 := if negative then x.neg else x
  match Text.strip? "inf".toList (u.map Char.toLower) with
  | some _ =>
    let length := if Text.startsWith (u.map Char.toLower) "infinity".toList then 8 else 3
    some (signed (.ofMagnitude false Binary64.infinityBits), u.drop length)
  | none =>
    let (digits, places, rest) := fractionAt u
    if digits.isEmpty then none
    else
      let (e, rest) := exponentAt rest
      some (signed (.ofDecimal (Octets.natOf 10 digits) (e - places)), rest)

def float (p : Printed) : Binary64 × Printed :=
  match p.next with
  | (none, p) => (.ofNat 0, p)
  | (some a, p) =>
    match quotedCode? a, floatAt? a with
    | some n, _ => (.ofNat n, p)
    | none, some (x, rest) => (x, p.check a rest false)
    | none, none => (.ofNat 0, p.check a a false)

/-- Writes an argument by a directive. -/
def direct (p : Printed) (d : Directive) (written : Octets) : Printed :=
  match d.letter with
  | 's' =>
    let (a, p) := p.next
    p.write (d.text (a.getD []))
  | 'b' =>
    let (a, p) := p.next
    let (o, whole) := unescaped (a.getD [])
    { p.write (d.text o) with stopped := !whole }
  | 'c' =>
    let (a, p) := p.next
    p.write (d.padded false [] [((a.getD []).head?).getD (Char.ofNat 0)])
  | 'd' | 'i' =>
    let (i, p) := p.integer (-9223372036854775808) 9223372036854775807
    p.write (d.signed i)
  | 'o' | 'u' | 'x' | 'X' =>
    let (i, p) := p.integer (-18446744073709551615) 18446744073709551615
    p.write (d.unsigned (Int.emod i 18446744073709551616).toNat)
  | 'e' | 'E' | 'f' | 'F' | 'g' | 'G' =>
    let (x, p) := p.float
    p.write (d.float x)
  | _ => { p with error := some ("%".toList ++ written ++ ": invalid directive".toList) }

end Printed

/-! ### Formats -/

/-- A width or a precision at the front of a format; a star takes it from an argument. -/
def measureAt (p : Printed) (t : Octets) : Option Int × Octets × Printed :=
  match t with
  | '*' :: u => let (i, p) := p.integer (-2147483648) 2147483647; (some i, u, p)
  | t =>
    let digits := t.takeWhile Char.isDigit
    (if digits.isEmpty then none else some (Octets.natOf 10 digits), t.drop digits.length, p)

/-- A directive behind its percent sign. -/
def directiveAt (p : Printed) (t : Octets) : Option (Directive × Octets) × Printed :=
  let flags := t.takeWhile fun c => "#-+ 0".toList.contains c
  let (width, t, p) := measureAt p (t.drop flags.length)
  let (precision, t, p) : Option Int × Octets × Printed := match t with
    | '.' :: u => let (i, rest, p) := measureAt p u; (some (i.getD 0), rest, p)
    | t => (none, t, p)
  match t with
  | [] => (none, p)
  | c :: rest => (some (⟨flags, width, precision, c⟩, rest), p)

/-- One pass of a format, for which the bound lasts. -/
def pass : Nat → Octets → Printed → Printed
  | 0, _, p => p
  | _ + 1, [], p => p
  | n + 1, '\\' :: t, p =>
    let (o, rest) := escapeAt t
    pass n rest (p.write o)
  | n + 1, '%' :: '%' :: t, p => pass n t (p.write ['%'])
  | n + 1, '%' :: t, p =>
    match directiveAt p t with
    | (none, p) => { p with error := some "missing format character".toList }
    | (some (d, rest), p) =>
      let p := p.direct d (t.take (t.length - rest.length))
      if p.error.isSome || p.stopped then p else pass n rest p
  | n + 1, c :: t, p => pass n t (p.write [c])

/-- A format over all arguments, for which the bound lasts. -/
def passes (format : Octets) : Nat → Printed → Printed
  | 0, p => p
  | n + 1, p =>
    let p := pass (format.length + 1) format { p with used := false }
    if p.error.isSome || p.stopped || !p.used || p.arguments.isEmpty then p else passes format n p

/-- A format over its arguments. -/
def printed (format : Octets) (arguments : List Octets) : Printed :=
  passes format (arguments.length + 1) { arguments := arguments }

theorem pass_plain (format : Octets) (h : ∀ c ∈ format, c ≠ '\\' ∧ c ≠ '%') (n : Nat) (hn : format.length < n)
    (p : Printed) : pass n format p = p.write format := by
  induction format generalizing n p with
  | nil =>
    obtain ⟨m, rfl⟩ : ∃ m, n = m + 1 := ⟨n - 1, by omega⟩
    simp [pass, Printed.write]
  | cons c t ih =>
    obtain ⟨m, rfl⟩ : ∃ m, n = m + 1 := ⟨n - 1, by omega⟩
    have hc := h c (by simp)
    have ht := ih (fun d hd => h d (by simp [hd])) m (by simp at hn; omega) (p.write [c])
    rw [pass.eq_6 p m c t hc.1 (fun _ hp _ => hc.2 hp) hc.2, ht]
    simp [Printed.write]

/-- A format without directives and escapes is written as it is. -/
theorem printed_plain (format : Octets) (h : ∀ c ∈ format, c ≠ '\\' ∧ c ≠ '%') (arguments : List Octets) :
    (printed format arguments).out = format := by
  simp only [printed, passes]
  rw [pass_plain format h _ (by omega)]
  simp [Printed.write]

end Graft.Shell
