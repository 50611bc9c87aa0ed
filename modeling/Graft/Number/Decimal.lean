/-
Decimal text of floating-point numbers.

A number is written with the fewest digits that read back to it, and with the nearest such digits; `FloatStyle` holds
what a format decides beyond that: which exponents are written positionally, whether a whole number keeps its point,
which way a tie between two digit sequences goes, and the names of the values that are not finite.

Main statements: `shortest?` (the search for the digits), `FloatStyle.write`.
-/
import Graft.Number.Binary64
import Graft.Text

/-! ### The fewest digits -/

namespace Graft

/-- The number `digits * 10^exp`. -/
structure Decimal where
  digits : Nat
  exp : Int
deriving DecidableEq, Repr

/-- How a tie between two equally near digit sequences is broken. -/
inductive Tie where
  | toEven
  | up
deriving DecidableEq, Repr

namespace Binary64

/-- The numbers that round to a positive finite `x`, from and to which; both ends belong to them exactly when the
significand is even.  Below a power of two the gap is half as wide. -/
def interval (x : Binary64) : Ratio × Ratio :=
  let (m, q) := x.parts
  let narrow := m = Nat.pow 2 52 ∧ -1074 < q
  (Ratio.scaled (if narrow then 4 * m - 1 else 4 * m - 2) (q - 2) 0, Ratio.scaled (4 * m + 2) (q - 2) 0)

/-- The ratio rounds to `x`. -/
def holds (x : Binary64) (a : Ratio) : Bool :=
  let (low, high) := x.interval
  if x.parts.1 % 2 = 0 then low.le a && a.le high else low.lt a && a.lt high

end Binary64

namespace Decimal

def toRatio (d : Decimal) : Ratio := Ratio.scaled d.digits 0 d.exp

/-- The least `j` up to the budget with `1 ≤ a * 10^j`. -/
def leadingZeros (a : Ratio) : Nat → Nat
  | 0 => 0
  | n + 1 => if a.den ≤ a.num then 0 else leadingZeros ⟨a.num * 10, a.den⟩ n + 1

/-- The least `k` with `a < 10^k`. -/
def scale (a : Ratio) : Int :=
  if a.den ≤ a.num then (Nat.repr a.floor).length else 1 - (leadingZeros a 400 : Int)

/-- Of the two neighbours of `x` on the grid `10^g`, the one that rounds to `x`, or the nearer one when both do. -/
def onGrid? (tie : Tie) (x : Binary64) (g : Int) : Option Decimal :=
  let a := x.abs
  let low := (a.mul (Ratio.scaled 1 0 (-g))).floor
  let middle := Ratio.scaled (2 * low + 1) 0 g
  let twice : Ratio := ⟨2 * a.num, a.den⟩
  match x.holds (toRatio ⟨low, g⟩), x.holds (toRatio ⟨low + 1, g⟩) with
  | true, true =>
    if twice.lt middle ∨ (twice.same middle ∧ tie = .toEven ∧ low % 2 = 0) then some ⟨low, g⟩
    else some ⟨low + 1, g⟩
  | true, false => some ⟨low, g⟩
  | false, true => some ⟨low + 1, g⟩
  | false, false => none

/-- The digits of the first of the given counts that suffices. -/
def search? (tie : Tie) (x : Binary64) (k : Int) : List Nat → Option Decimal
  | [] => none
  | n :: ns => (onGrid? tie x (k - n)).or (search? tie x k ns)

/-- The fewest digits that read back to a positive finite number. -/
def shortest? (tie : Tie) (x : Binary64) : Option Decimal :=
  search? tie x (scale x.abs) [1, 2, 3, 4, 5, 6, 7, 8, 9, 10, 11, 12, 13, 14, 15, 16, 17]

/-- Moves trailing zeros of the digits into the exponent, at most as many as the budget. -/
def strip : Nat → Decimal → Decimal
  | 0, d => d
  | n + 1, d => if d.digits ≠ 0 ∧ d.digits % 10 = 0 then strip n ⟨d.digits / 10, d.exp + 1⟩ else d

end Decimal

/-! ### Styles -/

/-- What a format decides about the text of a number. -/
structure FloatStyle where
  /-- Whether a number whose first digit has this exponent is written positionally. -/
  positional : Int → Bool
  /-- A whole number in positional form ends in `.0`. -/
  keepsPoint : Bool
  /-- An exponent that is not negative has a plus. -/
  plus : Bool
  tie : Tie
  nan : Text
  infinity : Text

namespace FloatStyle

def zeros (n : Int) : Text := List.replicate n.toNat '0'

/-- Digits `ds` times `10^exp` without an exponent. -/
def positionalText (style : FloatStyle) (ds : Text) (exp : Int) : Text :=
  let whole : Int := ds.length + exp
  if 0 ≤ exp then ds ++ zeros exp ++ (if style.keepsPoint then ".0".toList else [])
  else if 0 < whole then ds.take whole.toNat ++ '.' :: ds.drop whole.toNat
  else "0.".toList ++ zeros (-whole) ++ ds

/-- Digits `ds` times `10^exp` with one digit before the point and an exponent. -/
def scientificText (style : FloatStyle) (ds : Text) (exp : Int) : Text :=
  let e := exp + ds.length - 1
  ds.take 1 ++ (if ds.length ≤ 1 then [] else '.' :: ds.drop 1) ++ ['e'] ++
    (if style.plus && 0 ≤ e then ['+'] else []) ++ Text.ofInt e

/-- The text of a finite magnitude. -/
def writeAbs (style : FloatStyle) (x : Binary64) : Text :=
  if x.isZero then style.positionalText ['0'] 0
  else
    let d := Decimal.strip 20 ((Decimal.shortest? style.tie x).getD ⟨x.abs.floor, 0⟩)
    let ds := Text.ofNat d.digits
    if style.positional (d.exp + ds.length - 1) then style.positionalText ds d.exp
    else style.scientificText ds d.exp

/-- The text of a number. -/
def write (style : FloatStyle) (x : Binary64) : Text :=
  if x.isNaN then style.nan
  else
    (if x.isNegative then ['-'] else []) ++ (if x.isInfinite then style.infinity else style.writeAbs x)

end FloatStyle

end Graft
