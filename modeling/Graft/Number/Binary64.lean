/-
Floating-point numbers of 64 bits, held as their bits.

A number is its 64-bit word, so that the sign of zero and the payload of a NaN survive, and its finite value is an
exact ratio.  Comparison follows arithmetic: the two zeros are equal and a NaN equals nothing.  Results are rounded
to nearest, ties to even.

Main statements: `ofRatio` (the number nearest to a ratio), `instBEq` and `sameBits` (the two ways to compare).
-/
import Graft.Number.Ratio

/-! ### Words and their fields -/

namespace Graft

structure Binary64 where
  bits : BitVec 64
deriving Repr, Inhabited

namespace Binary64

/-- The sign bit is set. -/
def isNegative (x : Binary64) : Bool := Nat.pow 2 63 ≤ x.bits.toNat

/-- The word without its sign bit. -/
def magnitude (x : Binary64) : Nat := x.bits.toNat % Nat.pow 2 63

/-- The magnitude of the infinities; larger ones are NaNs. -/
def infinityBits : Nat := 2047 * Nat.pow 2 52

def isNaN (x : Binary64) : Bool := infinityBits < x.magnitude

def isInfinite (x : Binary64) : Bool := x.magnitude == infinityBits

def isZero (x : Binary64) : Bool := x.magnitude == 0

/-- The word with the sign and magnitude. -/
def ofMagnitude (negative : Bool) (magnitude : Nat) : Binary64 :=
  ⟨BitVec.ofNat 64 (magnitude + if negative then Nat.pow 2 63 else 0)⟩

def neg (x : Binary64) : Binary64 := ofMagnitude (!x.isNegative) x.magnitude

/-- Equal words. -/
def sameBits (x y : Binary64) : Bool := x.bits == y.bits

/-- Equal as numbers: the zeros are equal, a NaN equals nothing. -/
instance instBEq : BEq Binary64 where
  beq x y := !x.isNaN && !y.isNaN && (x.bits == y.bits || (x.isZero && y.isZero))

/-- The integer significand `m` and the exponent `q` of the magnitude `m * 2^q` of a finite number. -/
def parts (x : Binary64) : Nat × Int :=
  let e : Nat := x.magnitude / Nat.pow 2 52
  let f : Nat := x.magnitude % Nat.pow 2 52
  if e = 0 then (f, -1074) else (Nat.pow 2 52 + f, (e : Int) - 1075)

/-- The magnitude of a finite number. -/
def abs (x : Binary64) : Ratio := Ratio.scaled x.parts.1 x.parts.2 0

/-- The word as sixteen hexadecimal digits. -/
def toHex (x : Binary64) : String :=
  let digits := Nat.toDigits 16 x.bits.toNat
  String.ofList (List.replicate (16 - digits.length) '0' ++ digits)

/-! ### Rounding -/

/-- The exponent `e` with `2^e ≤ a < 2^(e + 1)`, for a positive ratio. -/
def log2 (a : Ratio) : Int :=
  let e : Int := (Nat.log2 a.num : Int) - Nat.log2 a.den
  if Ratio.lt a (Ratio.scaled 1 e 0) then e - 1 else e

/-- The magnitude of the number nearest to a ratio, ties to even; infinity from half a unit above the largest. -/
def magnitudeOf (a : Ratio) : Nat :=
  if a.num = 0 then 0
  else
    let q := max (log2 a - 52) (-1074)
    let m := (a.mul (Ratio.scaled 1 (-q) 0)).roundHalfEven
    min ((q + 1074).toNat * Nat.pow 2 52 + m) infinityBits

/-- The number nearest to a ratio with a sign. -/
def ofRatio (negative : Bool) (a : Ratio) : Binary64 := ofMagnitude negative (magnitudeOf a)

def ofNat (n : Nat) : Binary64 := ofRatio false ⟨n, 1⟩

/-- The number nearest to `digits * 10^exp`.  Exponents beyond the range of the format are decided by the number of
digits alone. -/
def ofDecimal (digits : Nat) (exp : Int) : Binary64 :=
  let top := exp + (Nat.repr digits).length
  if digits = 0 ∨ top < -400 then ofMagnitude false 0
  else if 400 < top then ofMagnitude false infinityBits
  else ofRatio false (Ratio.scaled digits 0 exp)

/-! ### Numbers that are not NaN -/

theorem magnitude_ofMagnitude {negative : Bool} {m : Nat} (h : m < Nat.pow 2 63) :
    (ofMagnitude negative m).magnitude = m := by
  have h63 : Nat.pow 2 63 = 9223372036854775808 := rfl
  unfold magnitude ofMagnitude
  rw [h63] at h ⊢
  simp only [BitVec.toNat_ofNat]
  split <;> omega

theorem isNaN_ofMagnitude {negative : Bool} {m : Nat} (h : m ≤ infinityBits) :
    (ofMagnitude negative m).isNaN = false := by
  have hinf : infinityBits < Nat.pow 2 63 := by decide
  unfold isNaN
  rw [magnitude_ofMagnitude (Nat.lt_of_le_of_lt h hinf)]
  simpa using h

theorem isNaN_ofDecimal (digits : Nat) (exp : Int) : (ofDecimal digits exp).isNaN = false := by
  have hmag (a : Ratio) : magnitudeOf a ≤ infinityBits := by
    unfold magnitudeOf
    split
    · exact Nat.zero_le _
    · exact Nat.min_le_right _ _
  simp only [ofDecimal]
  split
  · exact isNaN_ofMagnitude (Nat.zero_le _)
  · split
    · exact isNaN_ofMagnitude (Nat.le_refl _)
    · exact isNaN_ofMagnitude (hmag _)

theorem isNaN_neg {x : Binary64} (h : x.isNaN = false) : x.neg.isNaN = false := by
  have hle : x.magnitude ≤ infinityBits := by simpa [isNaN] using h
  exact isNaN_ofMagnitude hle

/-- A number that is not NaN equals itself. -/
theorem beq_self_of_isNaN {x : Binary64} (h : x.isNaN = false) : (x == x) = true := by
  show (!x.isNaN && !x.isNaN && (x.bits == x.bits || (x.isZero && x.isZero))) = true
  rw [h]
  simp

/-! ### Arithmetic -/

/-- The product of two finite numbers, rounded once. -/
def mul (x y : Binary64) : Binary64 := ofRatio (x.isNegative != y.isNegative) (x.abs.mul y.abs)

/-- The quotient of two finite numbers, the second not zero, rounded once. -/
def div (x y : Binary64) : Binary64 := ofRatio (x.isNegative != y.isNegative) (x.abs.div y.abs)

end Binary64

end Graft
