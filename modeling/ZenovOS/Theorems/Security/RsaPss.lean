import ZenovOS.Lib.Limbs
import ZenovOS.Lib.Pss
import ZenovOS.Security.RsaPss
import ZenovOS.Theorems.Security.AuditChain
import ZenovOS.Theorems.Security.SecureHash

/-! # Signatures that verify

The numbers of 64 limbs are added modulo the public modulus without a 65th: every sum is kept below it. A signature verifies where,
and only where, its power is an encoding of the digest. -/

namespace ZenovOS.Security.RsaPss
open Bytes Pss

/-! ### Bytes -/

def BigInteger.value (x : BigInteger) : Nat := Limbs.value x.limb

theorem value_lt (x : BigInteger) : x.value < 2 ^ (32 * 64) := by
  have h := Limbs.value_lt x.limb
  rwa [x.length_limb] at h

theorem value_bigZero : bigZero.value = 0 := Limbs.value_zero 64

theorem value_bigOne : bigOne.value = 1 := by decide

theorem value_putByte {limb : List UInt32} {reverse : Nat} (h : reverse < 4 * limb.length) (hfree : 256 ^ (reverse + 1) ∣ Limbs.value limb)
    (byte : UInt8) : Limbs.value (putByte limb reverse byte) = Limbs.value limb + byte.toNat * 256 ^ reverse := by
  have hj : reverse % 4 < 4 := Nat.mod_lt _ (by decide)
  have hsplit : (256 : Nat) ^ reverse = 2 ^ (32 * (reverse / 4)) * 256 ^ (reverse % 4) := by
    have h256 : (256 : Nat) = 2 ^ 8 := by decide
    rw [h256, ← Nat.pow_mul, ← Nat.pow_mul, ← Nat.pow_add]
    congr 1
    omega
  have hlimb : 256 ^ (reverse % 4 + 1) ∣ (limb.getD (reverse / 4) 0).toNat := by
    have hword : (256 : Nat) ^ (reverse % 4 + 1) ∣ 2 ^ 32 := by
      have h256 : (2 : Nat) ^ 32 = 256 ^ 4 := by decide
      rw [h256]
      exact Nat.pow_dvd_pow 256 (by omega)
    obtain ⟨c, hc⟩ := hfree
    have hquotient : Limbs.value limb / 2 ^ (32 * (reverse / 4)) = 256 ^ (reverse % 4 + 1) * c := by
      rw [hc, Nat.pow_succ, hsplit, Nat.pow_succ, Nat.mul_assoc, Nat.mul_assoc, Nat.mul_div_cancel_left _ (Nat.two_pow_pos _),
        Nat.mul_assoc]
    rw [Limbs.toNat_getD, hquotient]
    exact (Nat.dvd_mod_iff hword).mpr (Nat.dvd_mul_right _ _)
  have hmodify := Limbs.value_modify (fun x => x ||| byte.toUInt32 <<< UInt32.ofNat (reverse % 4 * 8)) (l := limb) (k := reverse / 4) (by omega)
  rw [Limbs.toNat_or_byte hj hlimb] at hmodify
  unfold putByte
  rw [hsplit]
  have hright : (limb.getD (reverse / 4) 0).toNat * 2 ^ (32 * (reverse / 4)) + byte.toNat * (2 ^ (32 * (reverse / 4)) * 256 ^ (reverse % 4)) =
      ((limb.getD (reverse / 4) 0).toNat + byte.toNat * 256 ^ (reverse % 4)) * 2 ^ (32 * (reverse / 4)) := by ring
  omega

theorem value_bigFromBe {input : Bytes} (h : input.length = 256) : (bigFromBe input).value = os2ip input := by
  have hloop : ∀ i ≤ 256, Limbs.value ((List.range i).foldl (fun limb i => putByte limb (255 - i) (input.getD i 0)) bigZero.limb) =
      toNat (input.take i).reverse * 256 ^ (256 - i) := by
    intro i hi
    induction i with
    | zero =>
      rw [List.take_zero, List.reverse_nil, Bytes.toNat, Nat.zero_mul]
      exact value_bigZero
    | succ i ih =>
      have hbefore := ih (by omega)
      have hpow : 256 ^ (256 - i) = 256 * 256 ^ (256 - (i + 1)) := by
        rw [← Nat.pow_succ']
        congr 1
        omega
      have hlength : 255 - i < 4 * ((List.range i).foldl (fun limb i => putByte limb (255 - i) (input.getD i 0)) bigZero.limb).length := by
        rw [length_foldl_putByte, bigZero.length_limb]
        omega
      have hplace : 255 - i + 1 = 256 - i := by omega
      have hbyte : input.take (i + 1) = input.take i ++ [input.getD i 0] := by
        rw [List.take_succ_eq_append_getElem (by omega), List.getD_eq_getElem _ _ (by omega)]
      rw [List.range_succ, List.foldl_append, List.foldl_cons, List.foldl_nil,
        value_putByte hlength (by rw [hbefore, hplace]; exact Nat.dvd_mul_left _ _), hbefore, hpow, hbyte, List.reverse_append,
        List.reverse_singleton, List.singleton_append, Bytes.toNat, (by omega : 255 - i = 256 - (i + 1))]
      ring
  have hend := hloop 256 (Nat.le_refl 256)
  rw [List.take_of_length_le (by omega), Nat.sub_self, Nat.pow_zero, Nat.mul_one] at hend
  unfold BigInteger.value bigFromBe os2ip
  dsimp only
  rw [hend]

theorem getD_le {k n i : Nat} (h : i < k) : (le k n).getD i 0 = UInt8.ofNat (n / 256 ^ i % 256) := by
  induction k generalizing n i with
  | zero => exact absurd h (Nat.not_lt_zero i)
  | succ k ih =>
    rw [le]
    cases i with
    | zero => rw [List.getD_cons_zero, Nat.pow_zero, Nat.div_one]
    | succ i => rw [List.getD_cons_succ, ih (Nat.lt_of_succ_lt_succ h), Nat.div_div_eq_div_mul, ← Nat.pow_succ']

theorem getD_i2osp {n length i : Nat} (h : i < length) : (i2osp n length).getD i 0 = UInt8.ofNat (n / 256 ^ (length - 1 - i) % 256) := by
  unfold i2osp
  have hi : i < (le length n).reverse.length := by rwa [List.length_reverse, length_le]
  rw [← getD_le (show length - 1 - i < length by omega), List.getD_eq_getElem _ _ hi,
    List.getD_eq_getElem _ _ (by rw [length_le]; omega), List.getElem_reverse]
  congr 1
  rw [length_le]

theorem ext_getD {a b : Bytes} (hlength : a.length = b.length) (h : ∀ i < a.length, a.getD i 0 = b.getD i 0) : a = b := by
  refine List.ext_getElem hlength fun i hi hi' => ?_
  rw [← List.getD_eq_getElem _ 0 hi, ← List.getD_eq_getElem _ 0 hi', h i hi]

theorem length_bigToBe (x : BigInteger) : (bigToBe x).length = 256 := by rw [bigToBe, List.length_map, List.length_range]

theorem getD_map_range {f : Nat → UInt8} {n i : Nat} (h : i < n) : ((List.range n).map f).getD i 0 = f i := by
  rw [List.getD_eq_getElem _ _ (by rwa [List.length_map, List.length_range]), List.getElem_map, List.getElem_range]

theorem bigToBe_eq (x : BigInteger) : bigToBe x = i2osp x.value 256 := by
  refine ext_getD (by rw [length_bigToBe, length_i2osp]) fun i hi => ?_
  rw [length_bigToBe] at hi
  have hj : (255 - i) % 4 < 4 := Nat.mod_lt _ (by decide)
  have hdigit : x.value / 256 ^ (255 - i) % 256 = (x.limb.getD ((255 - i) / 4) 0).toNat / 256 ^ ((255 - i) % 4) % 256 := by
    have hsplit : (256 : Nat) ^ (255 - i) = 2 ^ (32 * ((255 - i) / 4)) * 256 ^ ((255 - i) % 4) := by
      have h256 : (256 : Nat) = 2 ^ 8 := by decide
      rw [h256, ← Nat.pow_mul, ← Nat.pow_mul, ← Nat.pow_add]
      congr 1
      omega
    have hword : (2 : Nat) ^ 32 = 256 ^ ((255 - i) % 4) * 256 ^ (4 - (255 - i) % 4) := by
      have h256 : (2 : Nat) ^ 32 = 256 ^ 4 := by decide
      rw [h256, ← Nat.pow_add, Nat.add_sub_cancel' (by omega)]
    rw [Limbs.toNat_getD, hword, Nat.mod_mul_right_div_self, Nat.mod_mod_of_dvd _ (dvd_pow_self 256 (by omega)), Nat.div_div_eq_div_mul,
      ← hsplit]
    rfl
  rw [getD_i2osp hi, hdigit, ← Limbs.toNat_shiftRight_byte _ hj]
  unfold bigToBe
  rw [getD_map_range hi]

/-! ### Sums and differences -/

theorem compareLimbs_eq {left right : List UInt32} (h : left.length = right.length) :
    compareLimbs left right = if Limbs.value left < Limbs.value right then -1 else if Limbs.value right < Limbs.value left then 1 else 0 := by
  induction left generalizing right with
  | nil =>
    obtain rfl := List.length_eq_zero_iff.mp h.symm
    rfl
  | cons x left ih =>
    obtain ⟨y, right, rfl⟩ := List.exists_cons_of_length_eq_add_one h.symm
    have hx := x.toNat_lt
    have hy := y.toNat_lt
    rw [compareLimbs, ih (Nat.succ.inj h), Limbs.value_cons, Limbs.value_cons]
    simp only [UInt32.lt_iff_toNat_lt]
    split_ifs <;> omega

theorem bigCompare_nonneg_iff (left right : BigInteger) : 0 ≤ bigCompare left right ↔ right.value ≤ left.value := by
  unfold bigCompare BigInteger.value
  rw [compareLimbs_eq (left.length_limb.trans right.length_limb.symm)]
  split_ifs <;> omega

theorem value_subtractLimbs (borrow : UInt64) (hborrow : borrow.toNat ≤ 1) {left right : List UInt32} (h : left.length = right.length) :
    ∃ out ≤ 1, Limbs.value left + 2 ^ (32 * left.length) * out =
      Limbs.value (subtractLimbs borrow left right) + Limbs.value right + borrow.toNat := by
  induction left generalizing right borrow with
  | nil =>
    obtain rfl := List.length_eq_zero_iff.mp h.symm
    exact ⟨borrow.toNat, hborrow, by simp [subtractLimbs, Limbs.value]⟩
  | cons x left ih =>
    obtain ⟨y, right, rfl⟩ := List.exists_cons_of_length_eq_add_one h.symm
    have hlimb := Limbs.toNat_borrow (x := x) (y := y) hborrow
    rw [subtractLimbs]
    generalize hnext : (if x.toUInt64 < y.toUInt64 + borrow then (1 : UInt64) else 0) = next at hlimb
    have hone : next.toNat ≤ 1 := by
      rw [← hnext]
      split <;> decide
    obtain ⟨out, hout, hrest⟩ := ih _ hone (Nat.succ.inj h)
    refine ⟨out, hout, ?_⟩
    rw [Limbs.value_cons, Limbs.value_cons, Limbs.value_cons, List.length_cons, Nat.mul_succ, Nat.add_comm (32 * left.length), Nat.pow_add]
    calc x.toNat + 2 ^ 32 * Limbs.value left + 2 ^ 32 * 2 ^ (32 * left.length) * out
        = x.toNat + 2 ^ 32 * (Limbs.value left + 2 ^ (32 * left.length) * out) := by ring
      _ = (x.toNat + 2 ^ 32 * next.toNat) + 2 ^ 32 * (Limbs.value (subtractLimbs next left right) + Limbs.value right) := by
        rw [hrest]
        ring
      _ = _ := by
        rw [← hlimb]
        ring

theorem value_bigSubtract {left right : BigInteger} (h : right.value ≤ left.value) :
    (bigSubtract left right).value = left.value - right.value := by
  obtain ⟨out, hout, hsum⟩ := value_subtractLimbs 0 (by decide) (left.length_limb.trans right.length_limb.symm)
  have hlt := value_lt (bigSubtract left right)
  have hdifference : (bigSubtract left right).value = Limbs.value (subtractLimbs 0 left.limb right.limb) := rfl
  rw [left.length_limb, UInt64.toNat_zero, Nat.add_zero, ← hdifference] at hsum
  unfold BigInteger.value at h hlt hsum ⊢
  generalize 2 ^ (32 * 64) = bound at hsum hlt
  rcases Nat.le_one_iff_eq_zero_or_eq_one.mp hout with rfl | rfl <;> omega

theorem value_addLimbs (carry : UInt64) (hcarry : carry.toNat ≤ 1) {left right : List UInt32} (h : left.length = right.length) :
    ∃ out ≤ 1, Limbs.value (addLimbs carry left right) + 2 ^ (32 * left.length) * out =
      Limbs.value left + Limbs.value right + carry.toNat := by
  induction left generalizing right carry with
  | nil =>
    obtain rfl := List.length_eq_zero_iff.mp h.symm
    exact ⟨carry.toNat, hcarry, by simp [addLimbs, Limbs.value]⟩
  | cons x left ih =>
    obtain ⟨y, right, rfl⟩ := List.exists_cons_of_length_eq_add_one h.symm
    have hsum := Limbs.toNat_addCarry (x := x) (y := y) hcarry
    rw [addLimbs]
    generalize x.toUInt64 + y.toUInt64 + carry = sum at hsum
    have hlimb := Limbs.toNat_low_high sum
    have hone : (sum >>> 32).toNat ≤ 1 := by
      have hx := x.toNat_lt
      have hy := y.toNat_lt
      omega
    obtain ⟨out, hout, hrest⟩ := ih _ hone (Nat.succ.inj h)
    refine ⟨out, hout, ?_⟩
    rw [Limbs.value_cons, Limbs.value_cons, Limbs.value_cons, List.length_cons, Nat.mul_succ, Nat.add_comm (32 * left.length), Nat.pow_add]
    calc sum.toUInt32.toNat + 2 ^ 32 * Limbs.value (addLimbs (sum >>> 32) left right) + 2 ^ 32 * 2 ^ (32 * left.length) * out
        = sum.toUInt32.toNat + 2 ^ 32 * (Limbs.value (addLimbs (sum >>> 32) left right) + 2 ^ (32 * left.length) * out) := by ring
      _ = (sum.toUInt32.toNat + 2 ^ 32 * (sum >>> 32).toNat) + 2 ^ 32 * (Limbs.value left + Limbs.value right) := by
        rw [hrest]
        ring
      _ = _ := by
        rw [hlimb, hsum]
        ring

theorem value_bigAddPlain {left right : BigInteger} (h : left.value + right.value < 2 ^ (32 * 64)) :
    (bigAddPlain left right).value = left.value + right.value := by
  obtain ⟨out, hout, hsum⟩ := value_addLimbs 0 (by decide) (left.length_limb.trans right.length_limb.symm)
  have htotal : (bigAddPlain left right).value = Limbs.value (addLimbs 0 left.limb right.limb) := rfl
  rw [left.length_limb, UInt64.toNat_zero, Nat.add_zero, ← htotal] at hsum
  unfold BigInteger.value at h hsum ⊢
  generalize 2 ^ (32 * 64) = bound at hsum h
  rcases Nat.le_one_iff_eq_zero_or_eq_one.mp hout with rfl | rfl <;> omega

/-! ### Arithmetic modulo a number -/

section Modular
variable {left right signature modulus : BigInteger}

theorem value_bigAddMod (hl : left.value < modulus.value) (hr : right.value < modulus.value) :
    (bigAddMod left right modulus).value = (left.value + right.value) % modulus.value := by
  have hthreshold : (bigSubtract modulus right).value = modulus.value - right.value := value_bigSubtract (Nat.le_of_lt hr)
  have hbound := value_lt modulus
  unfold bigAddMod
  dsimp only
  split
  · next hge =>
    rw [bigCompare_nonneg_iff, hthreshold] at hge
    rw [value_bigSubtract (by rw [hthreshold]; exact hge), hthreshold, Nat.mod_eq_sub_mod (by omega), Nat.mod_eq_of_lt (by omega)]
    omega
  · next hlt =>
    rw [bigCompare_nonneg_iff, hthreshold] at hlt
    rw [value_bigAddPlain (by omega), Nat.mod_eq_of_lt (by omega)]

theorem bigBit_eq (x : BigInteger) (bit : Nat) : bigBit x bit = x.value.testBit bit := by
  have hshift : (UInt32.ofNat (bit % 32)).toNat % 32 = bit % 32 := by
    rw [UInt32.toNat_ofNat']
    omega
  unfold bigBit BigInteger.value
  rw [Limbs.testBit_value, Nat.testBit, ← hshift, ← UInt32.toNat_shiftRight, Nat.and_comm, hshift]
  rw [Bool.eq_iff_iff, decide_eq_true_iff, bne_iff_ne, ← UInt32.toNat_inj.ne]
  rfl

theorem value_multiplyBits (hl : left.value < modulus.value) (n : Nat) :
    ((List.range n).foldl (multiplyBit right modulus) (bigZero, left)).1.value = left.value * (right.value % 2 ^ n) % modulus.value ∧
      ((List.range n).foldl (multiplyBit right modulus) (bigZero, left)).2.value = left.value * 2 ^ n % modulus.value := by
  have hpos : 0 < modulus.value := Nat.lt_of_le_of_lt (Nat.zero_le _) hl
  induction n with
  | zero =>
    refine ⟨?_, ?_⟩
    · rw [Nat.pow_zero, Nat.mod_one, Nat.mul_zero, Nat.zero_mod]
      exact value_bigZero
    · rw [Nat.pow_zero, Nat.mul_one, Nat.mod_eq_of_lt hl]
      rfl
  | succ n ih =>
    rw [List.range_succ, List.foldl_append, List.foldl_cons, List.foldl_nil]
    generalize (List.range n).foldl (multiplyBit right modulus) (bigZero, left) = s at ih
    obtain ⟨hresult, hcurrent⟩ := ih
    have hs₁ : s.1.value < modulus.value := hresult ▸ Nat.mod_lt _ hpos
    have hs₂ : s.2.value < modulus.value := hcurrent ▸ Nat.mod_lt _ hpos
    have hbit : right.value % 2 ^ (n + 1) = right.value % 2 ^ n + 2 ^ n * (right.value.testBit n).toNat := by
      rw [Nat.pow_succ, Nat.mod_mul, Nat.toNat_testBit]
    unfold multiplyBit
    refine ⟨?_, ?_⟩
    · rw [bigBit_eq, hbit]
      split
      · next hset =>
        rw [value_bigAddMod hs₁ hs₂, hresult, hcurrent, ← Nat.add_mod, hset, Bool.toNat_true, Nat.mul_one, Nat.mul_add]
      · next hclear =>
        rw [Bool.not_eq_true] at hclear
        rw [hresult, hclear, Bool.toNat_false, Nat.mul_zero, Nat.add_zero]
    · rw [value_bigAddMod hs₂ hs₂, hcurrent, ← Nat.add_mod, Nat.pow_succ, ← Nat.mul_assoc, Nat.mul_two]

theorem value_bigMultiplyMod (hl : left.value < modulus.value) :
    (bigMultiplyMod left right modulus).value = left.value * right.value % modulus.value := by
  have hlt := value_lt right
  have hbits : 32 * 64 = 2048 := by decide
  rw [hbits] at hlt
  unfold bigMultiplyMod
  rw [(value_multiplyBits hl 2048).1, Nat.mod_eq_of_lt hlt]

theorem exponent_bits : ∀ bit < 17, ((65537 : UInt32) >>> UInt32.ofNat bit &&& 1 ≠ 0 ∧
    65537 >>> bit = 65537 >>> (bit + 1) + 65537 >>> (bit + 1) + 1) ∨
      (¬(65537 : UInt32) >>> UInt32.ofNat bit &&& 1 ≠ 0 ∧ 65537 >>> bit = 65537 >>> (bit + 1) + 65537 >>> (bit + 1)) := by
  decide

theorem value_expBit {result : BigInteger} {e bit : Nat} (hone : 1 < modulus.value) (hbit : bit < 17)
    (he : e = 65537 >>> (bit + 1)) (h : result.value = signature.value ^ e % modulus.value) :
    (expBit signature modulus result bit).value = signature.value ^ (65537 >>> bit) % modulus.value := by
  have hpos : 0 < modulus.value := by omega
  have hresult : result.value < modulus.value := h ▸ Nat.mod_lt _ hpos
  have hsquare : (bigMultiplyMod result result modulus).value = signature.value ^ (e + e) % modulus.value := by
    rw [value_bigMultiplyMod hresult, h, ← Nat.mul_mod, ← Nat.pow_add]
  have hreduced : (bigMultiplyMod result result modulus).value < modulus.value := by
    rw [hsquare]
    exact Nat.mod_lt _ hpos
  have hbits := exponent_bits bit hbit
  rw [← he] at hbits
  unfold expBit
  dsimp only
  rcases hbits with ⟨hset, hexp⟩ | ⟨hclear, hexp⟩
  · rw [if_pos hset, value_bigMultiplyMod hreduced, hsquare, hexp, Nat.mod_mul_mod, ← Nat.pow_succ]
  · rw [if_neg hclear, hsquare, hexp]

theorem value_bigExp65537 (signature : BigInteger) (hone : 1 < modulus.value) :
    (bigExp65537 signature modulus).value = signature.value ^ 65537 % modulus.value := by
  have hrounds : ∀ n ≤ 17, ∀ result : BigInteger, result.value = signature.value ^ (65537 >>> n) % modulus.value →
      ((List.range n).reverse.foldl (expBit signature modulus) result).value = signature.value ^ 65537 % modulus.value := by
    intro n hn
    induction n with
    | zero =>
      intro result h
      rw [Nat.shiftRight_zero] at h
      rw [← h]
      rfl
    | succ n ih =>
      intro result h
      rw [List.range_succ, List.reverse_append, List.reverse_singleton, List.singleton_append, List.foldl_cons]
      exact ih (by omega) _ (value_expBit hone (by omega) rfl h)
  unfold bigExp65537
  refine hrounds 17 (Nat.le_refl 17) bigOne ?_
  have hend : 65537 >>> 17 = 0 := by decide
  rw [hend, Nat.pow_zero, Nat.mod_eq_of_lt hone, value_bigOne]

end Modular

/-! ### The encoded message -/

theorem length_digest (data : Bytes) : (SecureHash.digest data).length = 32 := rfl

/-- SHA-256 for the hash and for the masks, a salt of 32 bytes, and encodings of 2047 bits. -/
def sha256Pss : Scheme where
  hash := SecureHash.digest
  hLen := 32
  sLen := 32
  emBits := 2047
  length_hash := length_digest
  pos_hLen := by decide
  room := by decide

theorem storeBe32_i2osp {n : Nat} (h : n < 2 ^ 32) : storeBe32 (UInt32.ofNat n) = i2osp n 4 := by
  have hword : (UInt32.ofNat n).toNat = n := by rw [UInt32.toNat_ofNat', Nat.mod_eq_of_lt h]
  refine ext_getD (by rw [length_i2osp]; rfl) fun i hi => ?_
  have hi : i < 4 := hi
  rw [getD_i2osp hi]
  have hbyte : ∀ j < 4, (UInt32.ofNat n >>> UInt32.ofNat (j * 8)).toUInt8 = UInt8.ofNat (n / 256 ^ j % 256) := by
    intro j hj
    rw [Limbs.toNat_shiftRight_byte _ hj, hword]
  have hlow : (UInt32.ofNat n).toUInt8 = (UInt32.ofNat n >>> UInt32.ofNat (0 * 8)).toUInt8 := by
    rw [Nat.zero_mul]
    simp
  unfold storeBe32
  rcases i with _ | _ | _ | _ | i
  · exact hbyte 3 (by decide)
  · exact hbyte 2 (by decide)
  · exact hbyte 1 (by decide)
  · exact hlow.trans (hbyte 0 (by decide))
  · omega

theorem mgf1From_end {seed : Bytes} {size offset : Nat} (h : size ≤ offset) (counter : UInt32) : mgf1From seed size offset counter = [] := by
  rw [mgf1From, if_neg (Nat.not_lt.mpr h)]

theorem mgf1From_eq {seed : Bytes} (hseed : seed.length + 4 < 2 ^ 61) (size left counter : Nat)
    (hleft : counter + left = (size + 31) / 32) (hcounter : counter + left ≤ 2 ^ 32) :
    mgf1From seed size (32 * counter) (UInt32.ofNat counter) =
      ((List.range' counter left).flatMap fun c => SecureHash.digest (seed ++ i2osp c 4)).take (size - 32 * counter) := by
  induction left generalizing counter with
  | zero =>
    rw [mgf1From_end (by omega), List.range'_zero, List.flatMap_nil, List.take_nil]
  | succ left ih =>
    have hblock : sha256Final (sha256Update (sha256Update sha256Init seed) (storeBe32 (UInt32.ofNat counter))) =
        SecureHash.digest (seed ++ i2osp counter 4) := by
      rw [← Audit.sha256Update_append, storeBe32_i2osp (by omega)]
      exact sha256_digest (by rw [List.length_append, length_i2osp]; exact hseed)
    rw [mgf1From, if_pos (by omega), List.range'_succ, List.flatMap_cons, List.take_append, length_digest]
    dsimp only
    rw [hblock]
    split
    · next hlong =>
      have hnext : 32 * counter + 32 = 32 * (counter + 1) := by omega
      have hsucc : UInt32.ofNat counter + 1 = UInt32.ofNat (counter + 1) := (UInt32.ofNat_add counter 1).symm
      have hsize : size - 32 * counter - 32 = size - 32 * (counter + 1) := by omega
      have hlength := length_digest (seed ++ i2osp counter 4)
      rw [hnext, hsucc, ih _ (by omega) (by omega), hsize, List.take_of_length_le hlength.le,
        List.take_of_length_le (hlength.trans_le (Nat.le_of_lt hlong))]
    · next hlast =>
      have hsize : size - 32 * counter - 32 = 0 := by omega
      rw [mgf1From_end (by omega), hsize, List.take_zero]

theorem mgf1Sha256_eq {seed : Bytes} (hseed : seed.length + 4 < 2 ^ 61) {size : Nat} (hsize : size < 2 ^ 32) :
    mgf1Sha256 seed size = mgf1 SecureHash.digest 32 seed size := by
  have hrounds := mgf1From_eq hseed size ((size + 31) / 32) 0 (Nat.zero_add _) (by omega)
  unfold mgf1Sha256 mgf1
  rw [Nat.mul_zero, Nat.sub_zero, ← List.range_eq_range'] at hrounds
  exact hrounds

/-! ### The checks -/

theorem foldl_or_eq_zero (f : Nat → UInt8) (l : List Nat) (start : UInt8) :
    l.foldl (fun bits i => bits ||| f i) start = 0 ↔ start = 0 ∧ ∀ i ∈ l, f i = 0 := by
  induction l generalizing start with
  | nil => simp
  | cons i l ih => rw [List.foldl_cons, ih, UInt8.or_eq_zero_iff, List.forall_mem_cons, and_assoc]

theorem digestEqual_iff {left right : Bytes} (hl : left.length = 32) (hr : right.length = 32) :
    digestEqual left right = true ↔ left = right := by
  unfold digestEqual
  dsimp only
  rw [decide_eq_true_iff, foldl_or_eq_zero fun i => left.getD i 0 ^^^ right.getD i 0]
  constructor
  · rintro ⟨-, h⟩
    refine ext_getD (hl.trans hr.symm) fun i hi => ?_
    exact UInt8.xor_eq_zero_iff.mp (h i (List.mem_range.mpr (hl ▸ hi)))
  · rintro rfl
    exact ⟨rfl, fun i _ => UInt8.xor_self⟩

theorem and_top_iff (x : UInt8) : (x &&& 0x7F = x ↔ x &&& 0x80 = 0) ∧ (x &&& 0x80 = 0 ↔ x.toNat < 128) := by
  have hall : ∀ n < 256, (UInt8.ofNat n &&& 0x7F = UInt8.ofNat n ↔ UInt8.ofNat n &&& 0x80 = 0) ∧
      (UInt8.ofNat n &&& 0x80 = 0 ↔ (UInt8.ofNat n).toNat < 128) := by decide +kernel
  have h := hall x.toNat x.toNat_lt
  rwa [UInt8.ofNat_toNat] at h

theorem clearLeft_eq_iff {em : Bytes} (h : em ≠ []) : clearLeft 1 em = em ↔ em.getD 0 0 &&& 0x80 = 0 := by
  obtain ⟨x, em, rfl⟩ := List.exists_cons_of_ne_nil h
  rw [clearLeft, List.getD_cons_zero, ← (and_top_iff x).1, List.cons.injEq, and_iff_left rfl]
  rfl

theorem database_eq (em : Bytes) {mask : Bytes} (hem : 223 ≤ em.length) (hmask : mask.length = 223) :
    ((List.range 223).map fun i => em.getD i 0 ^^^ mask.getD i 0).set 0
        (((List.range 223).map fun i => em.getD i 0 ^^^ mask.getD i 0).getD 0 0 &&& 0x7F) =
      clearLeft 1 (Pss.xor (slice em 0 223) mask) := by
  have hxor : ((List.range 223).map fun i => em.getD i 0 ^^^ mask.getD i 0) = Pss.xor (slice em 0 223) mask := by
    have hslice : (slice em 0 223).length = 223 := length_slice (by omega)
    have hlength : (Pss.xor (slice em 0 223) mask).length = 223 := by rw [Pss.xor, List.length_zipWith, hslice, hmask, Nat.min_self]
    refine ext_getD (by rw [List.length_map, List.length_range, hlength]) fun i hi => ?_
    rw [List.length_map, List.length_range] at hi
    have hbyte : (slice em 0 223).getD i 0 = em.getD i 0 := by rw [getD_slice hi, Nat.zero_add]
    rw [getD_map_range hi, ← hbyte, List.getD_eq_getElem (Pss.xor _ _) _ (hi.trans_eq hlength.symm),
      List.getD_eq_getElem (slice em 0 223) _ (hi.trans_eq hslice.symm), List.getD_eq_getElem mask _ (hi.trans_eq hmask.symm)]
    unfold Pss.xor
    rw [List.getElem_zipWith]
  rw [hxor]
  cases Pss.xor (slice em 0 223) mask <;> rfl

theorem padding_iff {database : Bytes} (hlength : database.length = 223) :
    (List.range 190).foldl (fun malformed i => malformed ||| database.getD i 0) 0 ||| (database.getD 190 0 ^^^ 0x01) = 0 ↔
      database = List.replicate 190 0 ++ 1 :: slice database 191 32 := by
  have hparts : database = slice database 0 190 ++ slice database 190 1 ++ slice database 191 32 := by
    rw [slice_append_slice database 0 190 1, slice_append_slice database 0 191 32, slice_of_length hlength]
  have hone : slice database 190 1 = [database.getD 190 0] := by
    refine ext_getD (by rw [length_slice (by omega)]; rfl) fun i hi => ?_
    rw [length_slice (by omega), Nat.lt_one_iff] at hi
    subst hi
    rw [getD_slice (by decide), List.getD_cons_zero]
  rw [UInt8.or_eq_zero_iff, UInt8.xor_eq_zero_iff, foldl_or_eq_zero fun i => database.getD i 0]
  constructor
  · rintro ⟨⟨-, hzeros⟩, hseparator⟩
    have hpadding : slice database 0 190 = List.replicate 190 0 := by
      refine ext_getD (by rw [length_slice (by omega), List.length_replicate]) fun i hi => ?_
      rw [length_slice (by omega)] at hi
      rw [getD_slice hi, Nat.zero_add, hzeros i (List.mem_range.mpr hi), List.getD_replicate _ hi]
    rw [hpadding, hone, hseparator, List.append_assoc] at hparts
    exact hparts
  · intro h
    refine ⟨⟨rfl, fun i hi => ?_⟩, ?_⟩
    · rw [h, List.getD_append _ _ _ _ (by rw [List.length_replicate]; exact List.mem_range.mp hi),
        List.getD_replicate _ (List.mem_range.mp hi)]
    · rw [h, List.getD_append_right _ _ _ _ (by rw [List.length_replicate]), List.length_replicate]
      rfl

theorem message_eq {digest salt : Bytes} (hd : digest.length = 32) (hs : salt.length = 32) :
    overwrite (overwrite (List.replicate 72 0) 8 (slice digest 0 32)) 40 salt = List.replicate 8 0 ++ digest ++ salt := by
  have hzeros : List.replicate 72 (0 : UInt8) = List.replicate 8 0 ++ List.replicate 32 0 ++ List.replicate 32 0 := by
    rw [List.replicate_append_replicate, List.replicate_append_replicate]
  have hdigest : overwrite (List.replicate 72 0) 8 digest = List.replicate 8 0 ++ digest ++ List.replicate 32 0 := by
    rw [hzeros]
    exact overwrite_field List.length_replicate (by rw [List.length_replicate, hd])
  have hsalt : overwrite (List.replicate 8 0 ++ digest ++ List.replicate 32 0 ++ []) 40 salt = List.replicate 8 0 ++ digest ++ salt ++ [] :=
    overwrite_field (by rw [List.length_append, List.length_replicate, hd]) (by rw [List.length_replicate, hs])
  rw [List.append_nil, List.append_nil] at hsalt
  rw [slice_of_length hd, hdigest, hsalt]

/-- What `verify` checks of the message that the signature gives. -/
def checkEncoded (em digest : Bytes) : Bool :=
  if em.getD 255 0 ≠ 0xBC ∨ em.getD 0 0 &&& 0x80 ≠ 0 then false
  else
    let encodedHash := slice em 223 32
    let mask := mgf1Sha256 encodedHash 223
    let database := (List.range 223).map fun i => em.getD i 0 ^^^ mask.getD i 0
    let database := database.set 0 (database.getD 0 0 &&& 0x7F)
    let malformed := (List.range 190).foldl (fun malformed i => malformed ||| database.getD i 0) 0
    let malformed := malformed ||| (database.getD 190 0 ^^^ 0x01)
    let message := overwrite (overwrite (List.replicate 72 0) 8 (slice digest 0 32)) 40 (slice database 191 32)
    malformed = 0 && digestEqual encodedHash (sha256 message)

theorem checkEncoded_iff {em digest : Bytes} (hem : em.length = 256) (hd : digest.length = 32) :
    checkEncoded em digest = true ↔ ∃ salt : Bytes, salt.length = 32 ∧ em = sha256Pss.encode digest salt := by
  have hhash : (slice em 223 32).length = 32 := length_slice (by omega)
  have hmask : mgf1Sha256 (slice em 223 32) 223 = mgf1 SecureHash.digest 32 (slice em 223 32) 223 :=
    mgf1Sha256_eq (by rw [hhash]; decide) (by decide)
  have hmasked : (mgf1 SecureHash.digest 32 (slice em 223 32) 223).length = 223 := length_mgf1 (by decide) length_digest _ _
  have hdatabase := database_eq em (by omega) hmasked
  have hunmasked : clearLeft 1 (Pss.xor (slice em 0 223) (mgf1 SecureHash.digest 32 (slice em 223 32) 223)) = sha256Pss.unmasked em := rfl
  have hlength : (sha256Pss.unmasked em).length = 223 := by
    rw [← hunmasked, length_clearLeft, Pss.xor, List.length_zipWith, hmasked, length_slice (by omega), Nat.min_self]
  have hne : em ≠ [] := by
    rintro rfl
    cases hem
  have htrailer : em.drop 255 = [0xbc] ↔ em.getD 255 0 = 0xbc := by
    rw [List.drop_eq_getElem_cons (by omega), List.drop_eq_nil_of_le (by omega), List.getD_eq_getElem _ _ (by omega), List.cons.injEq,
      and_iff_left rfl]
  have hsalt : (slice (sha256Pss.unmasked em) 191 32).length = 32 := length_slice (by omega)
  unfold checkEncoded
  dsimp only
  rw [hmask, hdatabase, hunmasked, message_eq hd hsalt, sha256_digest (by
    rw [List.length_append, List.length_append, List.length_replicate, hd, hsalt]
    decide)]
  have hiff : ∀ salt : Bytes, salt.length = 32 → (em = sha256Pss.encode digest salt ↔ em.drop 255 = [0xbc] ∧ clearLeft 1 em = em ∧
      sha256Pss.unmasked em = List.replicate 190 0 ++ 1 :: salt ∧
      slice em 223 32 = SecureHash.digest (List.replicate 8 0 ++ digest ++ salt)) := fun salt hsalt => encode_iff hem hsalt
  rw [htrailer, clearLeft_eq_iff hne] at hiff
  constructor
  · intro h
    split at h
    · cases h
    next hchecks =>
    rw [not_or, not_not, not_not] at hchecks
    rw [Bool.and_eq_true, decide_eq_true_iff, padding_iff hlength, digestEqual_iff hhash (length_digest _)] at h
    exact ⟨_, hsalt, (hiff _ hsalt).mpr ⟨hchecks.1, hchecks.2, h⟩⟩
  · rintro ⟨salt, hlen, h⟩
    obtain ⟨hlast, htop, hblock, hhashed⟩ := (hiff salt hlen).mp h
    have hsame : slice (sha256Pss.unmasked em) 191 32 = salt := by
      rw [hblock]
      exact slice_field (List.replicate 190 0 ++ [1]) salt (by rw [List.length_append, List.length_replicate]; rfl) hlen
        (by rw [List.append_nil, List.append_assoc]; rfl)
    rw [if_neg (by rw [not_or, not_not, not_not]; exact ⟨hlast, htop⟩), Bool.and_eq_true, decide_eq_true_iff, padding_iff hlength,
      digestEqual_iff hhash (length_digest _), hsame]
    exact ⟨hblock, hhashed⟩

theorem verify_eq (signature digest modulusBytes : Bytes) : verify signature digest modulusBytes =
    if modulusBytes.getD 0 0 &&& 0x80 = 0 ∨ 0 ≤ bigCompare (bigFromBe signature) (bigFromBe modulusBytes) then false
    else checkEncoded (bigToBe (bigExp65537 (bigFromBe signature) (bigFromBe modulusBytes))) digest := rfl

theorem toNat_append (a b : Bytes) : toNat (a ++ b) = toNat a + 256 ^ a.length * toNat b := by
  induction a with
  | nil => rw [List.nil_append, Bytes.toNat, List.length_nil, Nat.pow_zero, Nat.one_mul, Nat.zero_add]
  | cons x a ih =>
    rw [List.cons_append, Bytes.toNat, Bytes.toNat, ih, List.length_cons, Nat.pow_succ']
    ring

theorem os2ip_lt {octets : Bytes} {n : Nat} (h : octets.length = n + 1) (htop : octets.getD 0 0 &&& 0x80 = 0) :
    os2ip octets < 2 ^ (8 * n + 7) := by
  obtain ⟨x, rest, rfl⟩ := List.exists_cons_of_length_eq_add_one h
  have hlength : rest.reverse.length = n := (List.length_reverse).trans (Nat.succ.inj h)
  have hx : x.toNat < 128 := (and_top_iff x).2.mp htop
  have hrest := toNat_lt rest.reverse
  unfold os2ip
  rw [List.reverse_cons, toNat_append, hlength, Bytes.toNat, Bytes.toNat, Nat.mul_zero, Nat.add_zero]
  rw [hlength] at hrest
  calc toNat rest.reverse + 256 ^ n * x.toNat < 256 ^ n + 256 ^ n * x.toNat := Nat.add_lt_add_right hrest _
    _ = 256 ^ n * (x.toNat + 1) := by ring
    _ ≤ 256 ^ n * 128 := Nat.mul_le_mul_left _ hx
    _ = 2 ^ (8 * n + 7) := by rw [Nat.pow_add, Nat.pow_mul]

/-- Both functions accept a signature if and only if it verifies. -/
theorem verify_iff {signature digest modulusBytes : Bytes} (hs : signature.length = 256) (hd : digest.length = 32)
    (hm : modulusBytes.length = 256) (htop : 2 ^ 2047 ≤ os2ip modulusBytes) :
    verify signature digest modulusBytes = Zgdb.rsaPssVerifyWithModulus signature digest modulusBytes ∧
      (verify signature digest modulusBytes = true ↔ sha256Pss.Verifies (os2ip modulusBytes) 65537 signature digest) := by
  refine ⟨rfl, ?_⟩
  have htop' : ¬modulusBytes.getD 0 0 &&& 0x80 = 0 := by
    intro hclear
    have hlt := os2ip_lt hm hclear
    have hbits : 8 * 255 + 7 = 2047 := by decide
    rw [hbits] at hlt
    exact Nat.not_le.mpr hlt htop
  have hone : 1 < (bigFromBe modulusBytes).value := by
    rw [value_bigFromBe hm]
    exact Nat.lt_of_lt_of_le (Nat.one_lt_two_pow (by decide)) htop
  have hdecoded := value_bigExp65537 (bigFromBe signature) hone
  have hcompare := bigCompare_nonneg_iff (bigFromBe signature) (bigFromBe modulusBytes)
  rw [value_bigFromBe hs, value_bigFromBe hm] at hdecoded hcompare
  rw [verify_eq, bigToBe_eq, hdecoded]
  have hlength : sha256Pss.emLen = 256 := by decide
  have hsalt : sha256Pss.sLen = 32 := by decide
  unfold Scheme.Verifies
  rw [hlength, hsalt]
  split
  · next h =>
    have hge := hcompare.mp (h.resolve_left htop')
    exact ⟨fun h => Bool.noConfusion h, fun h => absurd h.1 (Nat.not_lt.mpr hge)⟩
  · next h =>
    have hlt := Nat.not_le.mp (hcompare.not.mp fun hge => h (.inr hge))
    have hchecked := checkEncoded_iff (length_i2osp (os2ip signature ^ 65537 % os2ip modulusBytes) 256) hd
    exact ⟨fun h => ⟨hlt, hchecked.mp h⟩, fun h => hchecked.mpr h.2⟩

/-- A modulus whose top bit is set, and nothing else. -/
theorem verify_iff_sample : verify (List.replicate 256 0) (List.replicate 32 0) (0x80 :: List.replicate 255 0) =
    Zgdb.rsaPssVerifyWithModulus (List.replicate 256 0) (List.replicate 32 0) (0x80 :: List.replicate 255 0) ∧
      (verify (List.replicate 256 0) (List.replicate 32 0) (0x80 :: List.replicate 255 0) = true ↔
        sha256Pss.Verifies (os2ip (0x80 :: List.replicate 255 0)) 65537 (List.replicate 256 0) (List.replicate 32 0)) :=
  verify_iff List.length_replicate List.length_replicate (by rw [List.length_cons, List.length_replicate]) (by decide +kernel)

end ZenovOS.Security.RsaPss
