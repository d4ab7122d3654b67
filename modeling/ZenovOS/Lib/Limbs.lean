import Mathlib.Data.Nat.Bitwise
import ZenovOS.Lib.Bytes

/-! # Numbers in limbs

Numbers as lists of words of 32 bits, the least significant first. -/

namespace ZenovOS.Limbs

/-- The number that the limbs write. -/
def value : List UInt32 → Nat
  | [] => 0
  | x :: l => x.toNat + 2 ^ 32 * value l

theorem value_cons (x : UInt32) (l : List UInt32) : value (x :: l) = x.toNat + 2 ^ 32 * value l := rfl

theorem value_lt (l : List UInt32) : value l < 2 ^ (32 * l.length) := by
  induction l with
  | nil => exact Nat.one_pos
  | cons x l ih =>
    have hx := x.toNat_lt
    rw [value_cons, List.length_cons, Nat.mul_succ, Nat.add_comm (32 * l.length), Nat.pow_add]
    omega

@[simp] theorem value_zero (n : Nat) : value (List.replicate n 0) = 0 := by
  induction n with
  | zero => rfl
  | succ n ih => rw [List.replicate_succ, value_cons, ih, UInt32.toNat_zero, Nat.mul_zero]

theorem toNat_getD (l : List UInt32) (k : Nat) : (l.getD k 0).toNat = value l / 2 ^ (32 * k) % 2 ^ 32 := by
  induction l generalizing k with
  | nil => simp [value]
  | cons x l ih =>
    have hx := x.toNat_lt
    cases k with
    | zero =>
      rw [List.getD_cons_zero, value_cons, Nat.mul_zero, Nat.pow_zero, Nat.div_one, Nat.add_mul_mod_self_left, Nat.mod_eq_of_lt hx]
    | succ k =>
      rw [List.getD_cons_succ, ih, value_cons, Nat.mul_succ, Nat.add_comm (32 * k), Nat.pow_add, ← Nat.div_div_eq_div_mul,
        Nat.add_mul_div_left _ _ (by decide), Nat.div_eq_of_lt hx, Nat.zero_add]

theorem testBit_value (l : List UInt32) (bit : Nat) : (value l).testBit bit = (l.getD (bit / 32) 0).toNat.testBit (bit % 32) := by
  rw [toNat_getD, Nat.testBit_mod_two_pow, decide_eq_true (Nat.mod_lt bit (by decide)), Bool.true_and, ← Nat.shiftRight_eq_div_pow,
    Nat.testBit_shiftRight, Nat.div_add_mod]

theorem value_modify (f : UInt32 → UInt32) {l : List UInt32} {k : Nat} (h : k < l.length) :
    value (l.modify k f) + (l.getD k 0).toNat * 2 ^ (32 * k) = value l + (f (l.getD k 0)).toNat * 2 ^ (32 * k) := by
  induction l generalizing k with
  | nil => exact absurd h (Nat.not_lt_zero k)
  | cons x l ih =>
    cases k with
    | zero =>
      rw [List.modify_zero_cons, value_cons, value_cons, List.getD_cons_zero]
      ring
    | succ k =>
      have hrest := ih (Nat.lt_of_succ_lt_succ h)
      rw [List.modify_succ_cons, value_cons, value_cons, List.getD_cons_succ, Nat.mul_succ, Nat.add_comm (32 * k), Nat.pow_add]
      calc x.toNat + 2 ^ 32 * value (l.modify k f) + (l.getD k 0).toNat * (2 ^ 32 * 2 ^ (32 * k))
          = x.toNat + 2 ^ 32 * (value (l.modify k f) + (l.getD k 0).toNat * 2 ^ (32 * k)) := by ring
        _ = x.toNat + 2 ^ 32 * (value l + (f (l.getD k 0)).toNat * 2 ^ (32 * k)) := by rw [hrest]
        _ = x.toNat + 2 ^ 32 * value l + (f (l.getD k 0)).toNat * (2 ^ 32 * 2 ^ (32 * k)) := by ring

/-! ### Bytes of a limb -/

theorem toNat_or_byte {x : UInt32} {j : Nat} (hj : j < 4) (hx : 256 ^ (j + 1) ∣ x.toNat) (b : UInt8) :
    (x ||| b.toUInt32 <<< UInt32.ofNat (j * 8)).toNat = x.toNat + b.toNat * 256 ^ j := by
  have hb := b.toNat_lt
  have hshift : (UInt32.ofNat (j * 8)).toNat % 32 = j * 8 := by
    rw [UInt32.toNat_ofNat']
    omega
  have hpow : (256 : Nat) ^ j = 2 ^ (j * 8) := by rw [Nat.mul_comm, Nat.pow_mul]
  have hlt : b.toNat * 2 ^ (j * 8) < 2 ^ (j * 8 + 8) := by
    rw [Nat.pow_add, Nat.mul_comm]
    exact Nat.mul_lt_mul_of_pos_left hb (Nat.two_pow_pos _)
  have hle : 2 ^ (j * 8 + 8) ≤ 2 ^ 32 := Nat.pow_le_pow_right (by decide) (by omega)
  obtain ⟨c, hc⟩ := hx
  have hc : x.toNat = 2 ^ (j * 8 + 8) * c := by
    rw [hc, Nat.pow_succ, hpow, Nat.pow_add]
  rw [UInt32.toNat_or, UInt32.toNat_shiftLeft, hshift, UInt8.toNat_toUInt32, Nat.shiftLeft_eq,
    Nat.mod_eq_of_lt (hlt.trans_le hle), hc, ← Nat.two_pow_add_eq_or_of_lt hlt, hpow]

theorem toNat_shiftRight_byte (x : UInt32) {j : Nat} (hj : j < 4) :
    (x >>> UInt32.ofNat (j * 8)).toUInt8 = UInt8.ofNat (x.toNat / 256 ^ j % 256) := by
  have hshift : (UInt32.ofNat (j * 8)).toNat % 32 = j * 8 := by
    rw [UInt32.toNat_ofNat']
    omega
  have hpow : (256 : Nat) ^ j = 2 ^ (j * 8) := by rw [Nat.mul_comm, Nat.pow_mul]
  apply UInt8.toNat_inj.mp
  rw [UInt32.toNat_toUInt8, UInt32.toNat_shiftRight, hshift, Nat.shiftRight_eq_div_pow, hpow, UInt8.toNat_ofNat']
  omega

/-! ### Carries -/

theorem toNat_addCarry {x y : UInt32} {carry : UInt64} (hcarry : carry.toNat ≤ 1) :
    (x.toUInt64 + y.toUInt64 + carry).toNat = x.toNat + y.toNat + carry.toNat := by
  have hx := x.toNat_lt
  have hy := y.toNat_lt
  rw [UInt64.toNat_add, UInt64.toNat_add, UInt32.toNat_toUInt64, UInt32.toNat_toUInt64]
  omega

theorem toNat_low_high (sum : UInt64) : sum.toUInt32.toNat + 2 ^ 32 * (sum >>> 32).toNat = sum.toNat := by
  have hshift : (32 : UInt64).toNat % 64 = 32 := by decide
  rw [UInt64.toNat_toUInt32, UInt64.toNat_shiftRight, hshift, Nat.shiftRight_eq_div_pow]
  exact Nat.mod_add_div _ _

theorem toNat_borrow {x y : UInt32} {borrow : UInt64} (hborrow : borrow.toNat ≤ 1) :
    (x.toUInt64 - (y.toUInt64 + borrow)).toUInt32.toNat + (y.toNat + borrow.toNat) =
      x.toNat + 2 ^ 32 * (if x.toUInt64 < y.toUInt64 + borrow then (1 : UInt64) else 0).toNat := by
  have hx := x.toNat_lt
  have hy := y.toNat_lt
  have hsum : (y.toUInt64 + borrow).toNat = y.toNat + borrow.toNat := by
    rw [UInt64.toNat_add, UInt32.toNat_toUInt64]
    omega
  rw [UInt64.toNat_toUInt32, UInt64.toNat_sub, hsum, UInt32.toNat_toUInt64]
  split
  · next hlt =>
    rw [UInt64.lt_iff_toNat_lt, hsum, UInt32.toNat_toUInt64] at hlt
    rw [UInt64.toNat_one]
    omega
  · next hle =>
    rw [UInt64.lt_iff_toNat_lt, hsum, UInt32.toNat_toUInt64] at hle
    rw [UInt64.toNat_zero]
    omega

end ZenovOS.Limbs

/-! ## Big-endian numbers

Numbers as bytes with the highest first, and as a reader puts them together by shifts. -/

namespace ZenovOS.Bytes

/-- The `k` low bytes of `n`, highest first. -/
def be (k n : Nat) : Bytes := (le k n).reverse

/-- The number whose bytes, highest first, are given. -/
def beToNat (b : Bytes) : Nat := toNat b.reverse

@[simp] theorem length_be (k n : Nat) : (be k n).length = k := by
  rw [be, List.length_reverse, length_le]

theorem beToNat_be {k n : Nat} (h : n < 256 ^ k) : beToNat (be k n) = n := by
  rw [beToNat, be, List.reverse_reverse, toNat_le_of_lt h]

theorem be_beToNat {k : Nat} {b : Bytes} (h : b.length = k) : be k (beToNat b) = b := by
  rw [be, beToNat, le_toNat (List.length_reverse.trans h), List.reverse_reverse]

theorem beToNat_lt (b : Bytes) : beToNat b < 256 ^ b.length := by
  have h := toNat_lt b.reverse
  rwa [List.length_reverse] at h

theorem shiftLeft_or {hi lo w : Nat} (h : lo < 2 ^ w) : hi <<< w ||| lo = hi * 2 ^ w + lo := by
  rw [← Nat.shiftLeft_add_eq_or_of_lt h, Nat.shiftLeft_eq]

theorem beToNat_append (a b : Bytes) : beToNat (a ++ b) = beToNat a * 256 ^ b.length + beToNat b := by
  have happend : ∀ x y : Bytes, toNat (x ++ y) = toNat x + 256 ^ x.length * toNat y := by
    intro x y
    induction x with
    | nil => simp [toNat]
    | cons c x ih =>
      rw [List.cons_append, toNat, ih, toNat, List.length_cons, Nat.pow_succ]
      ring
  rw [beToNat, List.reverse_append, happend, List.length_reverse, beToNat, beToNat, Nat.mul_comm, Nat.add_comm]

end ZenovOS.Bytes

/-! ## Long division

A number is divided digit by digit, the highest first: what is left of the digits before goes with the next one. -/

namespace ZenovOS.LongDivision

variable {β m b d : Nat}

theorem div_step (hd : 0 < d) : (β * m + b) / d = β * (m / d) + (β * (m % d) + b) / d := by
  have heq : β * m + b = d * (β * (m / d)) + (β * (m % d) + b) := by
    calc β * m + b = β * (d * (m / d) + m % d) + b := by rw [Nat.div_add_mod]
      _ = d * (β * (m / d)) + (β * (m % d) + b) := by ring
  rw [heq, Nat.mul_add_div hd]

theorem mod_step : (β * m + b) % d = (β * (m % d) + b) % d := by
  rw [Nat.add_mod, Nat.mul_mod, Nat.add_mod (β * (m % d)), Nat.mul_mod β (m % d), Nat.mod_mod]

theorem bit_step (hd : 0 < d) (hb : b < 2) :
    (2 * m + b) / d = 2 * (m / d) + (if d ≤ 2 * (m % d) + b then 1 else 0) ∧
      (2 * m + b) % d = if d ≤ 2 * (m % d) + b then 2 * (m % d) + b - d else 2 * (m % d) + b := by
  have hr := Nat.mod_lt m hd
  rw [div_step hd, mod_step]
  generalize m % d = r at hr ⊢
  split
  · next hle =>
    have hdiv : (2 * r + b) / d = 1 := Nat.div_eq_of_lt_le (by omega) (by omega)
    have hmod : (2 * r + b) % d = 2 * r + b - d := by rw [Nat.mod_eq_sub_mod hle, Nat.mod_eq_of_lt (by omega)]
    exact ⟨congrArg (2 * (m / d) + ·) hdiv, hmod⟩
  · next hlt =>
    have hlt := not_le.mp hlt
    exact ⟨congrArg (2 * (m / d) + ·) (Nat.div_eq_of_lt hlt), Nat.mod_eq_of_lt hlt⟩

end ZenovOS.LongDivision
