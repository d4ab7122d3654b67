import Mathlib.Tactic.Ring

/-! # Alignment

Rounding to a multiple of a power of two, by the masks that machine code uses for it. -/

namespace ZenovOS.Align

theorem and_mask {x k w : Nat} (hx : x < 2 ^ w) (hk : k ≤ w) : x &&& (2 ^ w - 2 ^ k) = x / 2 ^ k * 2 ^ k := by
  have hmask : 2 ^ w - 2 ^ k = (2 ^ (w - k) - 1) * 2 ^ k := by
    rw [Nat.sub_mul, Nat.one_mul, ← Nat.pow_add, Nat.sub_add_cancel hk]
  apply Nat.eq_of_testBit_eq
  intro i
  rw [Nat.testBit_and, hmask, Nat.testBit_mul_two_pow, Nat.testBit_mul_two_pow, Nat.testBit_two_pow_sub_one]
  by_cases hi : k ≤ i
  · rw [Nat.testBit_div_two_pow, Nat.sub_add_cancel hi, decide_eq_true hi, Bool.true_and, Bool.true_and]
    by_cases hw : i - k < w - k
    · rw [decide_eq_true hw, Bool.and_true]
    · have hlt : x < 2 ^ i := Nat.lt_of_lt_of_le hx (Nat.pow_le_pow_right (by decide) (by omega))
      rw [Nat.testBit_lt_two_pow hlt, Bool.false_and]
  · rw [decide_eq_false hi, Bool.false_and, Bool.false_and, Bool.and_false]

/-- The least multiple of `a` that is not below. -/
def roundUp (x a : Nat) : Nat := (x + a - 1) / a * a

variable {x a : Nat}

theorem dvd_roundUp : a ∣ roundUp x a := Nat.dvd_mul_left a _

theorem le_roundUp (ha : 0 < a) : x ≤ roundUp x a := by
  have := Nat.lt_div_mul_add ha (a := x + a - 1)
  unfold roundUp
  omega

theorem roundUp_of_dvd (ha : 0 < a) (h : a ∣ x) : roundUp x a = x := by
  obtain ⟨n, rfl⟩ := h
  unfold roundUp
  rw [Nat.add_sub_assoc ha, Nat.mul_add_div ha, Nat.div_eq_of_lt (Nat.sub_lt ha Nat.one_pos), Nat.add_zero, Nat.mul_comm]

theorem roundUp_le {y : Nat} (ha : 0 < a) (hy : a ∣ y) (h : x ≤ y) : roundUp x a ≤ y := by
  obtain ⟨n, rfl⟩ := hy
  unfold roundUp
  rw [Nat.mul_comm a n]
  refine Nat.mul_le_mul_right a ?_
  rw [← Nat.lt_succ_iff, Nat.div_lt_iff_lt_mul ha, Nat.succ_mul, Nat.mul_comm]
  omega

theorem dvd_of_pow {j k n : Nat} (h : j ≤ k) (hn : 2 ^ k ∣ n) : 2 ^ j ∣ n := Nat.dvd_trans (Nat.pow_dvd_pow 2 h) hn

end ZenovOS.Align
