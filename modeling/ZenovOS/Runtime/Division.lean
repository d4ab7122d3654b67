import Mathlib.Tactic.Ring

/-! # Division of 64-bit integers

`div64_runtime.inc`, which the compiler calls for divisions that the processor does not have. -/

namespace ZenovOS.Runtime

/-! ### Unsigned division -/

/-- The loop of `__udivmoddi4` with the bits below `bit` to come. -/
def udivmodLoop (numerator denominator : UInt64) : Nat → UInt64 → UInt64 → UInt64 × UInt64
  | 0, quotient, remainder => (quotient, remainder)
  | bit + 1, quotient, remainder =>
    let remainder := remainder <<< 1 ||| (numerator >>> UInt64.ofNat bit &&& 1)
    if denominator ≤ remainder then
      udivmodLoop numerator denominator bit (quotient ||| 1 <<< UInt64.ofNat bit) (remainder - denominator)
    else udivmodLoop numerator denominator bit quotient remainder

/-- The quotient, and what is stored behind `remainder_output` where there is one. -/
def udivmoddi4 (numerator denominator : UInt64) : UInt64 × UInt64 :=
  if denominator = 0 then (0, 0)
  else if numerator >>> 32 = 0 ∧ denominator >>> 32 = 0 then
    let numerator32 := numerator.toUInt32
    let denominator32 := denominator.toUInt32
    ((numerator32 / denominator32).toUInt64, (numerator32 % denominator32).toUInt64)
  else udivmodLoop numerator denominator 64 0 0

def udivdi3 (numerator denominator : UInt64) : UInt64 := (udivmoddi4 numerator denominator).1

def umoddi3 (numerator denominator : UInt64) : UInt64 := (udivmoddi4 numerator denominator).2

/-! ### Signed division -/

/-- What a signed operation gives; its overflow, which the language leaves undefined, is `none`. -/
def signed (exact : Int) : Option Int64 := if -2 ^ 63 ≤ exact ∧ exact < 2 ^ 63 then some (Int64.ofInt exact) else none

/-- `unsigned_numerator` and `unsigned_denominator`. -/
def unsignedOf (value : Int64) : Option UInt64 :=
  if value < 0 then do
    let next ← signed (value.toInt + 1)
    let negated ← signed (-next.toInt)
    pure (negated.toUInt64 + 1)
  else some value.toUInt64

def divdi3 (numerator denominator : Int64) : Option Int64 :=
  if denominator = 0 then some 0
  else do
    let negative := decide (numerator < 0) != decide (denominator < 0)
    let unsignedNumerator ← unsignedOf numerator
    let unsignedDenominator ← unsignedOf denominator
    let quotient := udivdi3 unsignedNumerator unsignedDenominator
    if !negative then pure quotient.toInt64
    else
      let negated ← signed (-(quotient - 1).toInt64.toInt)
      signed (negated.toInt - 1)

end ZenovOS.Runtime
