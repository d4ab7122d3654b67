import ZenovOS.Security.Sha256

/-! # RSA-PSS signatures

`rsa_pss.inc`: numbers of 2048 bits in limbs, the public operation, and the check of an encoded message. `zgdb_policy.inc` has the
functions a second time, the numbers and `mgf1_sha256` word for word, and its own `rsa_pss_verify_with_modulus`. -/

namespace ZenovOS.Security

/-- `digest_equal` of `security_guard.inc`. -/
def digestEqual (left right : Bytes) : Bool :=
  let difference := (List.range 32).foldl (fun difference i => difference ||| (left.getD i 0 ^^^ right.getD i 0)) (0 : UInt8)
  difference = 0

namespace RsaPss
open Bytes

/-- The limbs are words of 32 bits, the least significant first. -/
structure BigInteger where
  limb : List UInt32
  length_limb : limb.length = 64

def bigZero : BigInteger := ⟨List.replicate 64 0, List.length_replicate⟩

/-! ### Bytes -/

/-- A byte goes into its limb; `reverse` counts from the least significant one. -/
def putByte (limb : List UInt32) (reverse : Nat) (byte : UInt8) : List UInt32 :=
  limb.modify (reverse / 4) fun x => x ||| byte.toUInt32 <<< UInt32.ofNat (reverse % 4 * 8)

theorem length_foldl_putByte (input : Bytes) (l : List Nat) (limb : List UInt32) :
    (l.foldl (fun limb i => putByte limb (255 - i) (input.getD i 0)) limb).length = limb.length := by
  induction l generalizing limb with
  | nil => rfl
  | cons i l ih => rw [List.foldl_cons, ih, putByte, List.length_modify]

def bigFromBe (input : Bytes) : BigInteger :=
  ⟨(List.range 256).foldl (fun limb i => putByte limb (255 - i) (input.getD i 0)) bigZero.limb,
    (length_foldl_putByte input _ _).trans bigZero.length_limb⟩

def bigToBe (value : BigInteger) : Bytes :=
  (List.range 256).map fun i =>
    let reverse := 255 - i
    (value.limb.getD (reverse / 4) 0 >>> UInt32.ofNat (reverse % 4 * 8)).toUInt8

/-! ### Arithmetic -/

/-- The loop of `big_compare`: the limbs above are compared first. -/
def compareLimbs : List UInt32 → List UInt32 → Int
  | x :: left, y :: right =>
    let above := compareLimbs left right
    if above ≠ 0 then above else if x < y then -1 else if y < x then 1 else 0
  | _, _ => 0

def bigCompare (left right : BigInteger) : Int := compareLimbs left.limb right.limb

def subtractLimbs (borrow : UInt64) : List UInt32 → List UInt32 → List UInt32
  | x :: left, y :: right =>
    let current := x.toUInt64
    let subtrahend := y.toUInt64 + borrow
    (current - subtrahend).toUInt32 :: subtractLimbs (if current < subtrahend then 1 else 0) left right
  | _, _ => []

theorem length_subtractLimbs (borrow : UInt64) {left right : List UInt32} (h : left.length = right.length) :
    (subtractLimbs borrow left right).length = left.length := by
  induction left generalizing right borrow with
  | nil =>
    obtain rfl := List.length_eq_zero_iff.mp h.symm
    rfl
  | cons x left ih =>
    obtain ⟨y, right, rfl⟩ := List.exists_cons_of_length_eq_add_one h.symm
    rw [subtractLimbs, List.length_cons, List.length_cons, ih _ (Nat.succ.inj h)]

def bigSubtract (left right : BigInteger) : BigInteger :=
  ⟨subtractLimbs 0 left.limb right.limb,
    (length_subtractLimbs 0 (left.length_limb.trans right.length_limb.symm)).trans left.length_limb⟩

def addLimbs (carry : UInt64) : List UInt32 → List UInt32 → List UInt32
  | x :: left, y :: right =>
    let sum := x.toUInt64 + y.toUInt64 + carry
    sum.toUInt32 :: addLimbs (sum >>> 32) left right
  | _, _ => []

theorem length_addLimbs (carry : UInt64) {left right : List UInt32} (h : left.length = right.length) :
    (addLimbs carry left right).length = left.length := by
  induction left generalizing right carry with
  | nil =>
    obtain rfl := List.length_eq_zero_iff.mp h.symm
    rfl
  | cons x left ih =>
    obtain ⟨y, right, rfl⟩ := List.exists_cons_of_length_eq_add_one h.symm
    rw [addLimbs, List.length_cons, List.length_cons, ih _ (Nat.succ.inj h)]

def bigAddPlain (left right : BigInteger) : BigInteger :=
  ⟨addLimbs 0 left.limb right.limb, (length_addLimbs 0 (left.length_limb.trans right.length_limb.symm)).trans left.length_limb⟩

def bigAddMod (left right modulus : BigInteger) : BigInteger :=
  let threshold := bigSubtract modulus right
  if 0 ≤ bigCompare left threshold then bigSubtract left threshold else bigAddPlain left right

def bigBit (value : BigInteger) (bit : Nat) : Bool :=
  (value.limb.getD (bit / 32) 0 >>> UInt32.ofNat (bit % 32)) &&& 1 ≠ 0

/-- A round of the loop of `big_multiply_mod`; the state is `result` and `current`. -/
def multiplyBit (right modulus : BigInteger) (s : BigInteger × BigInteger) (bit : Nat) : BigInteger × BigInteger :=
  (if bigBit right bit then bigAddMod s.1 s.2 modulus else s.1, bigAddMod s.2 s.2 modulus)

def bigMultiplyMod (left right modulus : BigInteger) : BigInteger :=
  ((List.range 2048).foldl (multiplyBit right modulus) (bigZero, left)).1

/-- A round of the loop of `big_exp_65537`. -/
def expBit (signature modulus result : BigInteger) (bit : Nat) : BigInteger :=
  let result := bigMultiplyMod result result modulus
  if (65537 : UInt32) >>> UInt32.ofNat bit &&& 1 ≠ 0 then bigMultiplyMod result signature modulus else result

def bigOne : BigInteger := ⟨bigZero.limb.set 0 1, rfl⟩

def bigExp65537 (signature modulus : BigInteger) : BigInteger :=
  (List.range 17).reverse.foldl (expBit signature modulus) bigOne

/-! ### The encoded message -/

/-- The rounds of `mgf1_sha256` from an offset on. -/
def mgf1From (seed : Bytes) (size offset : Nat) (counter : UInt32) : Bytes :=
  if offset < size then
    let counterBe := storeBe32 counter
    let block := sha256Final (sha256Update (sha256Update sha256Init seed) counterBe)
    let copy := size - offset
    let copy := if 32 < copy then 32 else copy
    block.take copy ++ mgf1From seed size (offset + copy) (counter + 1)
  else []
termination_by size - offset
decreasing_by split <;> omega

def mgf1Sha256 (seed : Bytes) (size : Nat) : Bytes := mgf1From seed size 0 0

def verify (signature digest modulusBytes : Bytes) : Bool :=
  let encodedSignature := bigFromBe signature
  let modulus := bigFromBe modulusBytes
  if modulusBytes.getD 0 0 &&& 0x80 = 0 ∨ 0 ≤ bigCompare encodedSignature modulus then false
  else
    let decoded := bigExp65537 encodedSignature modulus
    let encoded := bigToBe decoded
    let databaseBytes := 223
    let paddingBytes := 190
    if encoded.getD 255 0 ≠ 0xBC ∨ encoded.getD 0 0 &&& 0x80 ≠ 0 then false
    else
      let encodedHash := slice encoded databaseBytes 32
      let mask := mgf1Sha256 encodedHash databaseBytes
      let database := (List.range databaseBytes).map fun i => encoded.getD i 0 ^^^ mask.getD i 0
      let database := database.set 0 (database.getD 0 0 &&& 0x7F)
      let malformed := (List.range paddingBytes).foldl (fun malformed i => malformed ||| database.getD i 0) 0
      let malformed := malformed ||| (database.getD paddingBytes 0 ^^^ 0x01)
      let message := overwrite (List.replicate 72 0) 8 (slice digest 0 32)
      let message := overwrite message 40 (slice database (paddingBytes + 1) 32)
      let expectedHash := sha256 message
      malformed = 0 && digestEqual encodedHash expectedHash

end RsaPss

namespace Zgdb
open Bytes RsaPss

/-- `rsa_pss_verify_with_modulus` of `zgdb_policy.inc`. -/
def rsaPssVerifyWithModulus (signature digest modulusBytes : Bytes) : Bool :=
  let encodedSignature := bigFromBe signature
  let modulus := bigFromBe modulusBytes
  if modulusBytes.getD 0 0 &&& 0x80 = 0 ∨ 0 ≤ bigCompare encodedSignature modulus then false
  else
    let decoded := bigExp65537 encodedSignature modulus
    let encoded := bigToBe decoded
    let hashBytes := 32
    let saltBytes := 32
    let databaseBytes := 223
    let paddingBytes := 190
    if encoded.getD 255 0 ≠ 0xBC ∨ encoded.getD 0 0 &&& 0x80 ≠ 0 then false
    else
      let encodedHash := slice encoded databaseBytes 32
      let mask := mgf1Sha256 encodedHash databaseBytes
      let database := (List.range databaseBytes).map fun i => encoded.getD i 0 ^^^ mask.getD i 0
      let database := database.set 0 (database.getD 0 0 &&& 0x7F)
      let malformed := (List.range paddingBytes).foldl (fun malformed i => malformed ||| database.getD i 0) 0
      let malformed := malformed ||| (database.getD paddingBytes 0 ^^^ 0x01)
      let message := overwrite (List.replicate (8 + hashBytes + saltBytes) 0) 8 (slice digest 0 hashBytes)
      let message := overwrite message (8 + hashBytes) (slice database (paddingBytes + 1) saltBytes)
      let expectedHash := sha256 message
      malformed = 0 && digestEqual encodedHash expectedHash

end Zgdb
end ZenovOS.Security
