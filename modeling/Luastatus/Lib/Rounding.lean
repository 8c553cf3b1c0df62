import Mathlib.Data.Nat.Size
import Mathlib.Tactic.Linarith

/-!
# Rounding of natural numbers

A binary format with a precision of `p` bits keeps the `p` leading bits of a number.  A number is
rounded to the nearer neighbour, and to the even one when it is half-way between the two.
-/

namespace Rounding

/-- The bits of a number that do not fit into the precision. -/
def excess (p n : Nat) : Nat := n.size - p

/-- Round to nearest, ties to even, with a precision of `p` bits. -/
def roundNat (p n : Nat) : Nat :=
  let ulp := 2 ^ excess p n
  let q := n / ulp
  let rest := n % ulp
  if 2 * rest < ulp ∨ 2 * rest = ulp ∧ q % 2 = 0 then q * ulp else (q + 1) * ulp

/-- The error is at most half of the unit in the last place. -/
theorem roundNat_le_half (p n : Nat) : 2 * roundNat p n ≤ 2 * n + 2 ^ excess p n := by
  rw [roundNat]
  generalize 2 ^ excess p n = ulp
  have hn := Nat.div_add_mod' n ulp
  split
  · omega
  · rename_i h
    have hrest : ulp ≤ 2 * (n % ulp) := by
      by_contra hlt
      exact h (Or.inl (by omega))
    rw [Nat.succ_mul (n / ulp)]
    omega

theorem roundNat_of_size_le {p n : Nat} (h : n.size ≤ p) : roundNat p n = n := by
  simp [roundNat, excess, Nat.sub_eq_zero_of_le h, Nat.mod_one]

/-- The error relative to the number. -/
theorem roundNat_le (p n : Nat) : 2 ^ p * roundNat p n ≤ (2 ^ p + 1) * n := by
  rcases Nat.lt_or_ge p n.size with h | h
  · -- the number is at least its leading bit
    have hsize : 2 ^ (n.size - 1) ≤ n := Nat.lt_size.mp (by omega)
    have hulp : 2 ^ p * 2 ^ excess p n ≤ 2 * n := by
      calc 2 ^ p * 2 ^ excess p n = 2 * 2 ^ (n.size - 1) := by
            rw [← Nat.pow_add, ← Nat.pow_succ', excess]
            congr 1
            omega
        _ ≤ 2 * n := Nat.mul_le_mul_left 2 hsize
    have hhalf := Nat.mul_le_mul_left (2 ^ p) (roundNat_le_half p n)
    linarith
  · rw [roundNat_of_size_le h]
    exact Nat.mul_le_mul_right n (Nat.le_succ _)

/-- Two numbers that are half-way between their neighbours. -/
example : roundNat 3 9 = 8 ∧ roundNat 3 11 = 12 := by decide

end Rounding
