/- digest: Rounding to a number of significant bits, and products of floats with naturals. -/

import Mathlib.Algebra.Group.Nat.Defs
import Mathlib.Data.Nat.Basic

set_option autoImplicit false
set_option relaxedAutoImplicit false

namespace Gyre.Lib

/-- The nearest multiple of `2 ^ k`, in units of `2 ^ k`; between two, the even one. -/
@[grind =] def nearestUnits (x k : Nat) : Nat :=
  let rest := x % 2 ^ k
  if 2 ^ k < 2 * rest ∨ 2 ^ k = 2 * rest ∧ x / 2 ^ k % 2 = 1 then x / 2 ^ k + 1 else x / 2 ^ k

/-- Rounding to `bits` significant bits. -/
@[grind =] def roundTo (bits x : Nat) : Nat :=
  let k := x.log2 + 1 - bits
  nearestUnits x k * 2 ^ k

theorem nearestUnits_zero (x : Nat) : nearestUnits x 0 = x := by
  unfold nearestUnits
  simp [Nat.mod_one]

theorem nearestUnits_le (x k : Nat) : nearestUnits x k ≤ x / 2 ^ k + 1 := by
  unfold nearestUnits
  dsimp only
  split
  · exact le_rfl
  · exact Nat.le_succ _

/-- With three significant bits or more, rounding adds at most a third. -/
theorem roundTo_le {bits : Nat} (hbits : 3 ≤ bits) (x : Nat) : 3 * roundTo bits x ≤ 4 * x := by
  unfold roundTo
  dsimp only
  by_cases hk : x.log2 + 1 - bits = 0
  · rw [hk, nearestUnits_zero]
    omega
  · have hx : x ≠ 0 := by
      rintro rfl
      rw [Nat.log2_zero] at hk
      omega
    generalize hkeep : x.log2 + 1 - bits = k at hk
    have hlarge : 2 ^ (k + 2) ≤ x := by
      refine le_trans (Nat.pow_le_pow_right (by omega) ?_) (Nat.log2_self_le hx)
      omega
    have hfour : 2 ^ (k + 2) = 4 * 2 ^ k := by
      rw [Nat.pow_add, Nat.mul_comm]
    have hdown : x / 2 ^ k * 2 ^ k ≤ x := Nat.div_mul_le_self x (2 ^ k)
    have hup : nearestUnits x k * 2 ^ k ≤ (x / 2 ^ k + 1) * 2 ^ k :=
      Nat.mul_le_mul_right _ (nearestUnits_le x k)
    rw [Nat.add_mul, Nat.one_mul] at hup
    omega

/-- A single precision float: a sign, and a magnitude in units of `2 ^ (-scale)`. -/
structure Single where
  negative : Bool
  mantissa : Nat
  scale : Nat
  deriving DecidableEq, Repr

namespace Single

/-- `(n as f32 * p) as usize`: both operands and the product are rounded, the result is cut off. -/
@[grind =] def scaled (p : Single) (n : Nat) : Nat :=
  if p.negative then 0 else min (roundTo 24 (roundTo 24 n * p.mantissa) / 2 ^ p.scale) (2 ^ 64 - 1)

def AtMostHalf (p : Single) : Prop := p.negative ∨ 2 * p.mantissa ≤ 2 ^ p.scale

theorem scaled_lt {p : Single} (hp : p.AtMostHalf) {n : Nat} (hn : 0 < n) : p.scaled n < n := by
  unfold scaled
  split
  · exact hn
  · rename_i hsign
    have hhalf : 2 * p.mantissa ≤ 2 ^ p.scale := hp.resolve_left hsign
    refine lt_of_le_of_lt (Nat.min_le_left _ _) ?_
    have hpos : 0 < 2 ^ p.scale := Nat.two_pow_pos _
    rw [Nat.div_lt_iff_lt_mul hpos]
    have hsize : 3 * roundTo 24 n ≤ 4 * n := roundTo_le (by omega) n
    have hproduct := roundTo_le (show 3 ≤ 24 by omega) (roundTo 24 n * p.mantissa)
    have hbound : 2 * (roundTo 24 n * p.mantissa) ≤ roundTo 24 n * 2 ^ p.scale := by
      calc 2 * (roundTo 24 n * p.mantissa) = roundTo 24 n * (2 * p.mantissa) := by
            rw [Nat.mul_left_comm]
        _ ≤ roundTo 24 n * 2 ^ p.scale := Nat.mul_le_mul_left _ hhalf
    have hscaled : 3 * (roundTo 24 n * 2 ^ p.scale) ≤ 4 * (n * 2 ^ p.scale) := by
      calc 3 * (roundTo 24 n * 2 ^ p.scale) = 3 * roundTo 24 n * 2 ^ p.scale := by
            rw [Nat.mul_assoc]
        _ ≤ 4 * n * 2 ^ p.scale := Nat.mul_le_mul_right _ hsize
        _ = 4 * (n * 2 ^ p.scale) := Nat.mul_assoc _ _ _
    have htotal : 0 < n * 2 ^ p.scale := Nat.mul_pos hn hpos
    omega

end Single

end Gyre.Lib
