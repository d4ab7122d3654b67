import Mathlib.Tactic.Ring

/-! # Unit conversion

The units mode of the calculator, `ui_productivity_calculator_modes.inc`. -/

namespace ZenovOS.Productivity

/-- The loop of `productivity_calculator_u64_mul_u32`; `none` where it returns false. -/
def mulLoop (output value : UInt64) (factor : UInt32) : Option UInt64 :=
  if factor = 0 then some output
  else if factor &&& 1 ≠ 0 ∧ 0xFFFFFFFFFFFFFFFF - value < output then none
  else
    let output := if factor &&& 1 ≠ 0 then output + value else output
    if factor >>> 1 = 0 then some output
    else if 0x7FFFFFFFFFFFFFFF < value then none
    else mulLoop output (value <<< 1) (factor >>> 1)
termination_by factor.toNat
decreasing_by
  rename_i hzero _ _ _
  have hne : factor.toNat ≠ 0 := fun h => hzero (UInt32.toNat_inj.mp h)
  rw [UInt32.toNat_shiftRight, show (1 : UInt32).toNat % 32 = 1 from rfl, Nat.shiftRight_eq_div_pow]
  omega

def u64MulU32 (value : UInt64) (factor : UInt32) : Option UInt64 := mulLoop 0 value factor

/-- `ProductivityUnitGroup` -/
inductive UnitGroup where
  | length
  | temperature
  | storage
  deriving DecidableEq, Repr

/-- `productivity_unit_group`, `productivity_unit_from` and `productivity_unit_to` -/
structure Units where
  group : UnitGroup
  unitFrom : UInt8
  unitTo : UInt8

def lengthFactors : List UInt32 := [1000, 10000, 1000000, 1000000000, 25400, 304800]

def storageFactors : List UInt32 := [1, 1024, 1048576, 1073741824]

/-- The factor of a unit of the group, whose number is cut to those there are. -/
def unitFactor (group : UnitGroup) (unit : UInt8) : UInt32 :=
  if group = .length then lengthFactors.getD (unit % 6).toNat 0 else storageFactors.getD (unit % 4).toNat 0

/-! ### Temperatures -/

def celsiusMilli (unitFrom : UInt8) (input : Int) : Int :=
  if unitFrom % 3 = 0 then input * 1000
  else if unitFrom % 3 = 1 then ((input - 32) * 5000).tdiv 9
  else input * 1000 - 273150

def scaledTemperature (unitTo : UInt8) (celsius : Int) : Int :=
  if unitTo % 3 = 0 then celsius
  else if unitTo % 3 = 1 then (celsius * 9).tdiv 5 + 32000
  else celsius + 273150

/-- `productivity_calculator_unit_scaled`: the sign and the magnitude in thousandths, or `none` where it returns false. -/
def unitScaled (units : Units) (input : Int32) : Option (Bool × UInt64) :=
  let negative := decide (input < 0)
  let absolute := if input < 0 then 0 - input.toUInt32 else input.toUInt32
  if 1000000 < absolute then none
  else if units.group = .temperature then
    if 100000 < absolute then none
    else
      -- no sum or product leaves 32 bits here
      let scaled := scaledTemperature units.unitTo (celsiusMilli units.unitFrom input.toInt)
      some (decide (scaled < 0), UInt64.ofNat scaled.natAbs)
  else do
    let product ← u64MulU32 absolute.toUInt64 (unitFactor units.group units.unitFrom)
    let magnitude ← u64MulU32 product 1000
    pure (negative, magnitude / (unitFactor units.group units.unitTo).toUInt64)

end ZenovOS.Productivity
