import ZenovOS.Productivity.Units

/-! # Units are converted exactly

A product is refused only where it leaves 64 bits: what is doubled once more is added at least once more. -/

namespace ZenovOS.Productivity

/-! ### The product -/

theorem and_one_ne_zero_iff (factor : UInt32) : factor &&& 1 ≠ 0 ↔ factor.toNat % 2 = 1 := by
  rw [ne_eq, ← UInt32.toNat_inj, UInt32.toNat_and, show (1 : UInt32).toNat = 1 from rfl, show (0 : UInt32).toNat = 0 from rfl,
    Nat.and_one_is_mod]
  omega

theorem toNat_shiftRight_one (factor : UInt32) : (factor >>> 1).toNat = factor.toNat / 2 := by
  rw [UInt32.toNat_shiftRight, show (1 : UInt32).toNat % 32 = 1 from rfl, Nat.shiftRight_eq_div_pow]

theorem toNat_doubled {value : UInt64} (h : value.toNat < 2 ^ 63) : (value <<< 1).toNat = 2 * value.toNat := by
  rw [UInt64.toNat_shiftLeft, show (1 : UInt64).toNat % 64 = 1 from rfl, Nat.shiftLeft_eq]
  omega

theorem mul_halves (v f : Nat) : v * f = 2 * (v * (f / 2)) + v * (f % 2) := by
  calc v * f = v * (2 * (f / 2) + f % 2) := by rw [Nat.div_add_mod]
    _ = 2 * (v * (f / 2)) + v * (f % 2) := by rw [Nat.mul_add, Nat.mul_left_comm]

/-- What the lowest bit of the factor adds. -/
def lowTerm (value : UInt64) (factor : UInt32) : Nat := value.toNat * (factor.toNat % 2)

theorem lowTerm_eq (value : UInt64) (factor : UInt32) : lowTerm value factor = if factor &&& 1 ≠ 0 then value.toNat else 0 := by
  rw [lowTerm]
  split
  · next hodd => rw [(and_one_ne_zero_iff factor).mp hodd, Nat.mul_one]
  · next heven =>
    have := mt (and_one_ne_zero_iff factor).mpr heven
    rw [show factor.toNat % 2 = 0 by omega, Nat.mul_zero]

theorem overflows_iff (output value : UInt64) (factor : UInt32) :
    (factor &&& 1 ≠ 0 ∧ 0xFFFFFFFFFFFFFFFF - value < output) ↔ 2 ^ 64 ≤ output.toNat + lowTerm value factor := by
  have hv := value.toNat_lt
  have ho := output.toNat_lt
  have hroom : (0xFFFFFFFFFFFFFFFF - value).toNat = 0xFFFFFFFFFFFFFFFF - value.toNat := by
    rw [UInt64.toNat_sub, show (0xFFFFFFFFFFFFFFFF : UInt64).toNat = 0xFFFFFFFFFFFFFFFF from rfl]
    omega
  rw [lowTerm_eq, UInt64.lt_iff_toNat_lt, hroom]
  split
  · next hodd =>
    rw [and_iff_right hodd]
    omega
  · next heven => exact ⟨fun h => absurd h.1 heven, fun h => by omega⟩

theorem toNat_accumulated {output value : UInt64} {factor : UInt32} (h : output.toNat + lowTerm value factor < 2 ^ 64) :
    (if factor &&& 1 ≠ 0 then output + value else output).toNat = output.toNat + lowTerm value factor := by
  rw [lowTerm_eq] at h ⊢
  split at h
  · rw [if_pos ‹_›, if_pos ‹_›, UInt64.toNat_add, Nat.mod_eq_of_lt h]
  · rw [if_neg ‹_›, if_neg ‹_›, Nat.add_zero]

theorem mulLoop_eq (output value : UInt64) (factor : UInt32) :
    mulLoop output value factor =
      if output.toNat + value.toNat * factor.toNat < 2 ^ 64 then some (UInt64.ofNat (output.toNat + value.toNat * factor.toNat)) else none := by
  induction hn : factor.toNat using Nat.strongRecOn generalizing output value factor with
  | ind n ih =>
    subst hn
    have hv := value.toNat_lt
    have hhalves : value.toNat * factor.toNat = 2 * (value.toNat * (factor.toNat / 2)) + lowTerm value factor := mul_halves _ _
    rw [mulLoop]
    by_cases hzero : factor = 0
    · subst hzero
      rw [if_pos rfl, show (0 : UInt32).toNat = 0 from rfl, Nat.mul_zero, Nat.add_zero, if_pos output.toNat_lt, UInt64.ofNat_toNat]
    rw [if_neg hzero]
    by_cases hover : factor &&& 1 ≠ 0 ∧ 0xFFFFFFFFFFFFFFFF - value < output
    · have := (overflows_iff output value factor).mp hover
      rw [if_pos hover, if_neg (by omega)]
    have hroom := Nat.not_le.mp (mt (overflows_iff output value factor).mpr hover)
    have hsum := toNat_accumulated hroom
    rw [if_neg hover]
    dsimp only
    generalize (if factor &&& 1 ≠ 0 then output + value else output) = next at hsum ⊢
    have hhalf := toNat_shiftRight_one factor
    by_cases hlast : factor >>> 1 = 0
    · -- the highest bit was the lowest
      rw [hlast, show (0 : UInt32).toNat = 0 from rfl] at hhalf
      rw [← hhalf, Nat.mul_zero] at hhalves
      rw [if_pos hlast, hhalves, Nat.mul_zero, Nat.zero_add, if_pos hroom, ← hsum, UInt64.ofNat_toNat]
    have hmore : 1 ≤ factor.toNat / 2 := by
      rw [← hhalf]
      exact Nat.pos_of_ne_zero fun h => hlast (UInt32.toNat_inj.mp h)
    have hatLeast : value.toNat ≤ value.toNat * (factor.toNat / 2) := Nat.le_mul_of_pos_right _ hmore
    rw [if_neg hlast]
    by_cases hhigh : 0x7FFFFFFFFFFFFFFF < value
    · have hhigh' : 2 ^ 63 - 1 < value.toNat := UInt64.lt_iff_toNat_lt.mp hhigh
      rw [if_pos hhigh, if_neg (by omega)]
    · have hlow : value.toNat < 2 ^ 63 := by
        have hle : value.toNat ≤ 2 ^ 63 - 1 := UInt64.le_iff_toNat_le.mp (UInt64.not_lt.mp hhigh)
        omega
      have hnext := ih _ (by omega) next (value <<< 1) (factor >>> 1) hhalf
      have htotal : next.toNat + (value <<< 1).toNat * (factor.toNat / 2) = output.toNat + value.toNat * factor.toNat := by
        rw [toNat_doubled hlow, hsum, hhalves, Nat.mul_assoc]
        omega
      rw [if_neg hhigh, hnext, htotal]

theorem u64MulU32_eq (value : UInt64) (factor : UInt32) :
    u64MulU32 value factor =
      if value.toNat * factor.toNat < 2 ^ 64 then some (UInt64.ofNat (value.toNat * factor.toNat)) else none := by
  rw [u64MulU32, mulLoop_eq, show (0 : UInt64).toNat = 0 from rfl, Nat.zero_add]

/-! ### Conversions -/

theorem unitFactor_bounds (group : UnitGroup) (unit : UInt8) :
    0 < (unitFactor group unit).toNat ∧ (unitFactor group unit).toNat ≤ 1073741824 := by
  have hlength : ∀ i < 6, 0 < (lengthFactors.getD i 0).toNat ∧ (lengthFactors.getD i 0).toNat ≤ 1073741824 := by decide
  have hstorage : ∀ i < 4, 0 < (storageFactors.getD i 0).toNat ∧ (storageFactors.getD i 0).toNat ≤ 1073741824 := by decide
  unfold unitFactor
  split
  · refine hlength _ ?_
    rw [UInt8.toNat_mod]
    exact Nat.mod_lt _ (by decide)
  · refine hstorage _ ?_
    rw [UInt8.toNat_mod]
    exact Nat.mod_lt _ (by decide)

theorem absolute_eq (input : Int32) :
    (if input < 0 then 0 - input.toUInt32 else input.toUInt32).toNat = input.toInt.natAbs := by
  have hlow := input.le_toInt
  have hhigh := input.toInt_lt
  have hbits : input.toInt = if input.toUInt32.toNat < 2 ^ 31 then (input.toUInt32.toNat : Int) else input.toUInt32.toNat - 2 ^ 32 := by
    show input.toBitVec.toInt = _
    rw [BitVec.toInt_eq_toNat_cond, ← Int32.toNat_toBitVec]
    split <;> split <;> omega
  have hneg : input < 0 ↔ input.toInt < 0 := Int32.lt_iff_toInt_lt
  have hbound := input.toUInt32.toNat_lt
  split
  · next h =>
    have := hneg.mp h
    rw [UInt32.toNat_sub, show (0 : UInt32).toNat = 0 from rfl]
    split at hbits <;> omega
  · next h =>
    have := mt hneg.mpr h
    split at hbits <;> omega

theorem unitScaled_eq {units : Units} (hgroup : units.group ≠ .temperature) (input : Int32) :
    unitScaled units input =
      if input.toInt.natAbs ≤ 1000000 then
        some (decide (input < 0), UInt64.ofNat (input.toInt.natAbs * (unitFactor units.group units.unitFrom).toNat * 1000 /
          (unitFactor units.group units.unitTo).toNat))
      else none := by
  have habs := absolute_eq input
  unfold unitScaled
  dsimp only
  generalize (if input < 0 then 0 - input.toUInt32 else input.toUInt32) = absolute at habs ⊢
  have hlimit : 1000000 < absolute ↔ 1000000 < input.toInt.natAbs := by
    rw [UInt32.lt_iff_toNat_lt, habs]
    exact Iff.rfl
  rw [if_neg hgroup]
  by_cases hlarge : 1000000 < input.toInt.natAbs
  · rw [if_pos (hlimit.mpr hlarge), if_neg (Nat.not_le.mpr hlarge)]
  have hle := Nat.not_lt.mp hlarge
  have hfactor := (unitFactor_bounds units.group units.unitFrom).2
  generalize unitFactor units.group units.unitFrom = factor at hfactor ⊢
  have hproduct : input.toInt.natAbs * factor.toNat ≤ 1000000 * 1073741824 := Nat.mul_le_mul hle hfactor
  have hfirst : u64MulU32 absolute.toUInt64 factor = some (UInt64.ofNat (input.toInt.natAbs * factor.toNat)) := by
    rw [u64MulU32_eq, UInt32.toNat_toUInt64, habs, if_pos (by omega)]
  have hsecond : u64MulU32 (UInt64.ofNat (input.toInt.natAbs * factor.toNat)) 1000 =
      some (UInt64.ofNat (input.toInt.natAbs * factor.toNat * 1000)) := by
    rw [u64MulU32_eq, UInt64.toNat_ofNat', Nat.mod_eq_of_lt (by omega), show (1000 : UInt32).toNat = 1000 from rfl, if_pos (by omega)]
  rw [if_neg (mt hlimit.mp hlarge), if_pos hle, hfirst, Option.bind_eq_bind, Option.bind_some, hsecond, Option.bind_some]
  refine congrArg (fun magnitude => some (decide (input < 0), magnitude)) (UInt64.toNat_inj.mp ?_)
  have hdiv := Nat.div_le_self (input.toInt.natAbs * factor.toNat * 1000) (unitFactor units.group units.unitTo).toNat
  rw [UInt64.toNat_div, UInt32.toNat_toUInt64, UInt64.toNat_ofNat', UInt64.toNat_ofNat', Nat.mod_eq_of_lt (show _ < 2 ^ 64 by omega),
    Nat.mod_eq_of_lt (show _ < 2 ^ 64 by omega)]

/-- A product is given exactly where it is below 2^64, and so each accepted length and each accepted amount of storage is converted to
the exact magnitude, cut off. -/
theorem checked_product_exact :
    (∀ (value : UInt64) (factor : UInt32), u64MulU32 value factor =
      if value.toNat * factor.toNat < 2 ^ 64 then some (UInt64.ofNat (value.toNat * factor.toNat)) else none) ∧
    ∀ (units : Units) (input : Int32) (negative : Bool) (magnitude : UInt64), units.group ≠ .temperature →
      unitScaled units input = some (negative, magnitude) →
        negative = decide (input < 0) ∧ magnitude.toNat =
          input.toInt.natAbs * (unitFactor units.group units.unitFrom).toNat * 1000 / (unitFactor units.group units.unitTo).toNat := by
  refine ⟨u64MulU32_eq, fun units input negative magnitude hgroup h => ?_⟩
  rw [unitScaled_eq hgroup] at h
  split at h
  · next hle =>
    obtain ⟨hnegative, hmagnitude⟩ := Prod.mk.inj (Option.some.inj h)
    have hproduct : input.toInt.natAbs * (unitFactor units.group units.unitFrom).toNat ≤ 1000000 * 1073741824 :=
      Nat.mul_le_mul hle (unitFactor_bounds units.group units.unitFrom).2
    have hdiv := Nat.div_le_self (input.toInt.natAbs * (unitFactor units.group units.unitFrom).toNat * 1000)
      (unitFactor units.group units.unitTo).toNat
    refine ⟨hnegative.symm, ?_⟩
    rw [← hmagnitude, UInt64.toNat_ofNat', Nat.mod_eq_of_lt (show _ < 2 ^ 64 by omega)]
  · cases h

end ZenovOS.Productivity
