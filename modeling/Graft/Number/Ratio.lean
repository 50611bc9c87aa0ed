/-
Ratios of natural numbers, for exact comparison and rounding.

Main statements: `roundHalfEven_spec` (the quotient is rounded to a nearest number).
-/

/-! ### Ratios -/

namespace Graft

/-- The ratio `num / den` of a positive denominator; it need not be in lowest terms. -/
structure Ratio where
  num : Nat
  den : Nat
deriving Repr

namespace Ratio

/-- `n * 2^two * 10^ten`. -/
def scaled (n : Nat) (two ten : Int) : Ratio :=
  ⟨n * Nat.pow 2 two.toNat * Nat.pow 10 ten.toNat, Nat.pow 2 (-two).toNat * Nat.pow 10 (-ten).toNat⟩

def lt (a b : Ratio) : Bool := a.num * b.den < b.num * a.den

def le (a b : Ratio) : Bool := a.num * b.den ≤ b.num * a.den

/-- Equal as numbers. -/
def same (a b : Ratio) : Bool := a.num * b.den == b.num * a.den

def floor (a : Ratio) : Nat := a.num / a.den

def mul (a b : Ratio) : Ratio := ⟨a.num * b.num, a.den * b.den⟩

def div (a b : Ratio) : Ratio := ⟨a.num * b.den, a.den * b.num⟩

/-- The nearest number, of two equally near ones the even one. -/
def roundHalfEven (a : Ratio) : Nat :=
  let k := a.num / a.den
  let r := a.num % a.den
  if a.den < 2 * r ∨ (2 * r = a.den ∧ k % 2 = 1) then k + 1 else k

/-- The rounded number is within half a unit. -/
theorem roundHalfEven_spec (a : Ratio) (h : 0 < a.den) :
    2 * a.num ≤ (2 * a.roundHalfEven + 1) * a.den ∧ 2 * (a.roundHalfEven * a.den) ≤ 2 * a.num + a.den := by
  have hdiv := Nat.div_add_mod a.num a.den
  have hmod := Nat.mod_lt a.num h
  unfold roundHalfEven
  simp only
  generalize a.num / a.den = k at *
  generalize a.num % a.den = r at *
  have hk : a.num = a.den * k + r := hdiv.symm
  split <;> rename_i hc
  · have e₁ : (2 * (k + 1) + 1) * a.den = 2 * (a.den * k) + 3 * a.den := by
      rw [Nat.mul_comm a.den k, Nat.add_mul, Nat.mul_assoc, Nat.add_mul]; omega
    have e₂ : (k + 1) * a.den = a.den * k + a.den := by rw [Nat.add_mul, Nat.mul_comm]; omega
    rw [e₁, e₂]
    omega
  · have e₁ : (2 * k + 1) * a.den = 2 * (a.den * k) + a.den := by
      rw [Nat.mul_comm a.den k, Nat.add_mul, Nat.mul_assoc]; omega
    have e₂ : k * a.den = a.den * k := Nat.mul_comm ..
    rw [e₁, e₂]
    omega

end Ratio

end Graft
