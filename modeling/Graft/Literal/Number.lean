/-
Number literals and the values they stand for.

Underscores only separate digits.  An integer literal is binary, octal, decimal or hexadecimal by its first
characters and has no integer value when its magnitude is too large for 64 bits.  `sourceFloats` is the style in which
source code writes a float so that it reads back as one.

Main statements: `integer?`, `float?`.
-/
import Graft.Literal.Quoted
import Graft.Number.Decimal

/-! ### Integers -/

namespace Graft.Literal

/-- The base and the digits of an integer literal in lower case without underscores. -/
def radix : Text → Nat × Text
  | '0' :: 'x' :: digits => (16, digits)
  | '0' :: 'b' :: digits => (2, digits)
  | '0' :: 'o' :: digits => (8, digits)
  | '0' :: d :: digits => (8, d :: digits)
  | digits => (10, digits)

/-- The largest integer. -/
def maxInt : Nat := Nat.pow 2 63 - 1

/-- A digit of the base. -/
def isDigitOf (base : Nat) (c : Char) : Bool := (hexDigit? c).any (· < base)

/-- The text without underscores. -/
def joinDigits (t : Text) : Text := t.filter (· ≠ '_')

/-- The value of an integer literal with its sign, when it has digits, all of its base, and fits. -/
def integer? (t : Text) (negative : Bool) : Option Int :=
  let (base, digits) := radix (Text.lower (joinDigits t))
  if digits.isEmpty || !digits.all (isDigitOf base) then none
  else
    let n := ofDigits base digits
    if maxInt < n then none else some (if negative then -(n : Int) else n)

/-! ### Floats -/

/-- The decimal exponent that stands behind a number: an `e`, perhaps a sign, digits. -/
def exponentPart? : Text → Option Int
  | [] => some 0
  | e :: t =>
    if e ≠ 'e' ∧ e ≠ 'E' then none
    else
      let (negative, digits) : Bool × Text := match t with
        | '-' :: ds => (true, ds)
        | '+' :: ds => (false, ds)
        | ds => (false, ds)
      if digits.isEmpty || !digits.all Char.isDigit then none
      else some (if negative then -(ofDigits 10 digits : Int) else ofDigits 10 digits)

/-- The number that a decimal with an optional fraction and exponent is nearest to. -/
def decimal? (t : Text) : Option Binary64 :=
  let whole := t.takeWhile Char.isDigit
  let t := t.dropWhile Char.isDigit
  let (fraction, t) : Text × Text := match t with
    | '.' :: r => (r.takeWhile Char.isDigit, r.dropWhile Char.isDigit)
    | r => ([], r)
  if whole.isEmpty && fraction.isEmpty then none
  else (exponentPart? t).map fun exp => Binary64.ofDecimal (ofDigits 10 (whole ++ fraction)) (exp - fraction.length)

/-- The value of a float literal with its sign. -/
def float? (t : Text) (negative : Bool) : Option Binary64 :=
  (decimal? (joinDigits t)).map fun x => if negative then x.neg else x

theorem isNaN_of_decimal? {t : Text} {x : Binary64} (h : decimal? t = some x) : x.isNaN = false := by
  have nearest (c : Bool) (digits : Nat) (shift : Int) (exp : Option Int)
      (h : (if c then none else exp.map fun e => Binary64.ofDecimal digits (e - shift)) = some x) :
      x.isNaN = false := by
    split at h
    · cases h
    · obtain ⟨e, -, rfl⟩ := Option.map_eq_some_iff.1 h
      exact Binary64.isNaN_ofDecimal _ _
  simp only [decimal?] at h
  split at h
  · exact nearest _ _ _ _ h
  · exact nearest _ _ _ _ h

/-- A literal is never read as a NaN. -/
theorem beq_self_of_float? {t : Text} {negative : Bool} {x : Binary64} (h : float? t negative = some x) :
    (x == x) = true := by
  obtain ⟨y, hy, rfl⟩ := Option.map_eq_some_iff.1 h
  have hnan := isNaN_of_decimal? hy
  refine Binary64.beq_self_of_isNaN ?_
  split
  · exact Binary64.isNaN_neg hnan
  · exact hnan

/-! ### Writing numbers -/

/-- Floats in source code: positional from `0.0001` up to sixteen digits, always with a point or an exponent. -/
def sourceFloats : FloatStyle :=
  { positional := fun e => -4 ≤ e && e ≤ 15
    keepsPoint := true
    plus := false
    tie := .up
    nan := "NAN".toList
    infinity := "INF".toList }

end Graft.Literal
