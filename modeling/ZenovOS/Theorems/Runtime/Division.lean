import ZenovOS.Lib.Limbs
import ZenovOS.Runtime.Division

/-! # The division runtime divides

Behind every bit the loop holds the quotient and the remainder of the bits it has read. A remainder is at most the number that
these bits write, so that no bit is lost where it is shifted. -/

namespace ZenovOS.Runtime

/-! ### Unsigned division -/

theorem toNat_bit (n : UInt64) {bit : Nat} (h : bit < 64) : (n >>> UInt64.ofNat bit &&& 1).toNat = n.toNat / 2 ^ bit % 2 := by
  rw [UInt64.toNat_and, UInt64.toNat_shiftRight, UInt64.toNat_ofNat', show (1 : UInt64).toNat = 1 from rfl, Nat.and_one_is_mod,
    Nat.shiftRight_eq_div_pow, Nat.mod_eq_of_lt (show bit < 2 ^ 64 by omega), Nat.mod_eq_of_lt h]

theorem toNat_shiftIn {r b : UInt64} (hr : r.toNat < 2 ^ 63) (hb : b.toNat < 2) : (r <<< 1 ||| b).toNat = 2 * r.toNat + b.toNat := by
  rw [UInt64.toNat_or, UInt64.toNat_shiftLeft, show (1 : UInt64).toNat % 64 = 1 from rfl,
    Nat.mod_eq_of_lt (by rw [Nat.shiftLeft_eq]; omega), Bytes.shiftLeft_or (w := 1) hb]
  omega

theorem toNat_setBit {q : UInt64} {high bit : Nat} (hq : q.toNat = high * 2 ^ (bit + 1)) (h : bit < 64) :
    (q ||| 1 <<< UInt64.ofNat bit).toNat = (2 * high + 1) * 2 ^ bit := by
  have hone : (1 <<< UInt64.ofNat bit : UInt64).toNat = 2 ^ bit := by
    rw [UInt64.toNat_shiftLeft, UInt64.toNat_ofNat', show (1 : UInt64).toNat = 1 from rfl, Nat.mod_eq_of_lt (show bit < 2 ^ 64 by omega),
      Nat.mod_eq_of_lt h, Nat.shiftLeft_eq, Nat.one_mul]
    exact Nat.mod_eq_of_lt (Nat.pow_lt_pow_right (by decide) h)
  have hlt : 2 ^ bit < 2 ^ (bit + 1) := Nat.pow_lt_pow_right (by decide) (Nat.lt_succ_self bit)
  rw [UInt64.toNat_or, hone, hq, ← Nat.shiftLeft_eq, Bytes.shiftLeft_or hlt, Nat.pow_succ]
  ring

theorem udivmodLoop_eq {n d : UInt64} (hd : d ≠ 0) {bit : Nat} (hbit : bit ≤ 64) {q r : UInt64}
    (hq : q.toNat = n.toNat / 2 ^ bit / d.toNat * 2 ^ bit) (hr : r.toNat = n.toNat / 2 ^ bit % d.toNat) :
    (udivmodLoop n d bit q r).1.toNat = n.toNat / d.toNat ∧ (udivmodLoop n d bit q r).2.toNat = n.toNat % d.toNat := by
  have hpos : 0 < d.toNat := Nat.pos_of_ne_zero fun hz => hd (UInt64.toNat_inj.mp hz)
  induction bit generalizing q r with
  | zero =>
    rw [Nat.pow_zero, Nat.div_one] at hq hr
    exact ⟨by rw [udivmodLoop, hq, Nat.mul_one], hr⟩
  | succ bit ih =>
    have hread : n.toNat / 2 ^ bit = 2 * (n.toNat / 2 ^ (bit + 1)) + n.toNat / 2 ^ bit % 2 := by
      rw [Nat.pow_succ, ← Nat.div_div_eq_div_mul]
      omega
    have hb := Nat.mod_lt (n.toNat / 2 ^ bit) (show 2 > 0 by decide)
    -- the remainder is no more than the number read so far
    have hsmall : r.toNat < 2 ^ 63 := by
      have hle : n.toNat / 2 ^ (bit + 1) ≤ n.toNat / 2 ^ 1 :=
        Nat.div_le_div_left (Nat.pow_le_pow_right (by decide) (Nat.le_add_left 1 bit)) (by decide)
      have := Nat.mod_le (n.toNat / 2 ^ (bit + 1)) d.toNat
      have := n.toNat_lt
      omega
    have hbit' := toNat_bit n (show bit < 64 by omega)
    have hshift := toNat_shiftIn hsmall (b := n >>> UInt64.ofNat bit &&& 1) (by rw [hbit']; exact hb)
    obtain ⟨hdiv, hmod⟩ := LongDivision.bit_step (m := n.toNat / 2 ^ (bit + 1)) hpos hb
    rw [← hread, ← hr] at hdiv hmod
    rw [hbit'] at hshift
    rw [udivmodLoop]
    simp only [UInt64.le_iff_toNat_le, hshift]
    split
    · next hle =>
      rw [if_pos hle] at hdiv hmod
      refine ih (by omega) ?_ ?_
      · rw [toNat_setBit hq (by omega), hdiv]
      · rw [UInt64.toNat_sub_of_le _ _ (UInt64.le_iff_toNat_le.mpr (by rw [hshift]; exact hle)), hshift, hmod]
    · next hlt =>
      rw [if_neg hlt] at hdiv hmod
      refine ih (by omega) ?_ (by rw [hshift, hmod])
      rw [hq, hdiv, Nat.pow_succ]
      ring

theorem udivmodLoop_whole (n : UInt64) {d : UInt64} (hd : d ≠ 0) :
    (udivmodLoop n d 64 0 0).1.toNat = n.toNat / d.toNat ∧ (udivmodLoop n d 64 0 0).2.toNat = n.toNat % d.toNat := by
  have hzero : n.toNat / 2 ^ 64 = 0 := Nat.div_eq_of_lt n.toNat_lt
  refine udivmodLoop_eq hd (le_refl 64) ?_ ?_
  · rw [hzero, Nat.zero_div, Nat.zero_mul]
    rfl
  · rw [hzero, Nat.zero_mod]
    rfl

theorem udivmoddi4_eq (n : UInt64) {d : UInt64} (hd : d ≠ 0) :
    (udivmoddi4 n d).1.toNat = n.toNat / d.toNat ∧ (udivmoddi4 n d).2.toNat = n.toNat % d.toNat := by
  rw [udivmoddi4, if_neg hd]
  split
  · next hsmall =>
    have htoNat : ∀ x : UInt64, x >>> 32 = 0 → x.toUInt32.toNat = x.toNat := by
      intro x hx
      have hhigh : x.toNat >>> 32 = 0 := (UInt64.toNat_shiftRight x 32).symm.trans (congrArg UInt64.toNat hx)
      rw [Nat.shiftRight_eq_div_pow] at hhigh
      rw [UInt64.toNat_toUInt32]
      omega
    simp only [UInt32.toNat_toUInt64, UInt32.toNat_div, UInt32.toNat_mod, htoNat n hsmall.1, htoNat d hsmall.2, and_self]
  · exact udivmodLoop_whole n hd

/-! ### Signed division -/

theorem signed_eq {n : Int} (hlow : -2 ^ 63 ≤ n) (hhigh : n < 2 ^ 63) : ∃ x, signed n = some x ∧ x.toInt = n :=
  ⟨Int64.ofInt n, if_pos ⟨hlow, hhigh⟩, Int64.toInt_ofInt_of_le hlow hhigh⟩

theorem toNat_toUInt64 {x : Int64} (h : 0 ≤ x.toInt) : (x.toUInt64.toNat : Int) = x.toInt := by
  have heq := Int64.toNat_toUInt64_of_le (Int64.le_iff_toInt_le.mpr h)
  rw [heq]
  exact Int.toNat_of_nonneg h

theorem unsignedOf_eq (x : Int64) : ∃ u, unsignedOf x = some u ∧ u.toNat = x.toInt.natAbs := by
  have hlow := x.le_toInt
  have hhigh := x.toInt_lt
  unfold unsignedOf
  by_cases hneg : x < 0
  · have hlt : x.toInt < 0 := Int64.lt_iff_toInt_lt.mp hneg
    obtain ⟨next, hnext, htoInt⟩ := signed_eq (n := x.toInt + 1) (by omega) (by omega)
    obtain ⟨negated, hnegated, htoInt'⟩ := signed_eq (n := -next.toInt) (by omega) (by omega)
    refine ⟨negated.toUInt64 + 1, by simp [if_pos hneg, hnext, hnegated], ?_⟩
    have hcast := toNat_toUInt64 (x := negated) (by omega)
    rw [UInt64.toNat_add, show (1 : UInt64).toNat = 1 from rfl]
    omega
  · have hle : 0 ≤ x.toInt := Int64.le_iff_toInt_le.mp (Int64.not_lt.mp hneg)
    refine ⟨x.toUInt64, if_neg hneg, ?_⟩
    have hcast := toNat_toUInt64 hle
    omega

theorem toInt_toInt64 (x : UInt64) : x.toInt64.toInt = if x.toNat < 2 ^ 63 then (x.toNat : Int) else x.toNat - 2 ^ 64 := by
  show x.toBitVec.toInt = _
  rw [BitVec.toInt_eq_toNat_cond, UInt64.toNat_toBitVec]
  split <;> split <;> omega

theorem negated_eq {q : UInt64} (h : q.toNat ≤ 2 ^ 63) :
    ∃ r, ((signed (-(q - 1).toInt64.toInt)).bind fun negated => signed (negated.toInt - 1)) = some r ∧ r.toInt = -(q.toNat : Int) := by
  have hless : (q - 1).toInt64.toInt = (q.toNat : Int) - 1 := by
    rw [toInt_toInt64, UInt64.toNat_sub, show (1 : UInt64).toNat = 1 from rfl]
    split <;> omega
  obtain ⟨negated, hnegated, htoInt⟩ := signed_eq (n := -(q - 1).toInt64.toInt) (by omega) (by omega)
  obtain ⟨r, hr, hr'⟩ := signed_eq (n := negated.toInt - 1) (by omega) (by omega)
  exact ⟨r, by rw [hnegated, Option.bind_some, hr], by omega⟩

theorem tdiv_eq (n d : Int) :
    n.tdiv d = if decide (n < 0) = decide (d < 0) then ((n.natAbs / d.natAbs : Nat) : Int) else -((n.natAbs / d.natAbs : Nat) : Int) := by
  obtain ⟨a, rfl | rfl⟩ := n.eq_nat_or_neg <;> obtain ⟨b, rfl | rfl⟩ := d.eq_nat_or_neg
  all_goals
    simp only [Int.neg_tdiv, Int.tdiv_neg, Int.natAbs_neg, Int.natAbs_natCast, Int.neg_neg, ← Int.ofNat_tdiv, decide_eq_decide]
    have hzero : a = 0 ∨ b = 0 → a / b = 0 := by
      rintro (rfl | rfl)
      · exact Nat.zero_div b
      · exact Nat.div_zero a
    generalize a / b = q at hzero ⊢
    split <;> omega

theorem divdi3_eq {n d : Int64} (hd : d ≠ 0) (h : ¬(n = Int64.minValue ∧ d = -1)) :
    ∃ q, divdi3 n d = some q ∧ q.toInt = n.toInt.tdiv d.toInt := by
  obtain ⟨a, ha, habs⟩ := unsignedOf_eq n
  obtain ⟨b, hb, hbabs⟩ := unsignedOf_eq d
  have hd0 : d.toInt ≠ 0 := fun hz => hd (Int64.toInt_inj.mp hz)
  have hb0 : b ≠ 0 := by
    rintro rfl
    have h0 : (0 : UInt64).toNat = 0 := rfl
    omega
  have hq : (udivdi3 a b).toNat = n.toInt.natAbs / d.toInt.natAbs := by rw [udivdi3, (udivmoddi4_eq a hb0).1, habs, hbabs]
  have hlow := n.le_toInt
  have hhigh := n.toInt_lt
  have hle : (udivdi3 a b).toNat ≤ 2 ^ 63 := by
    have := Nat.div_le_self n.toInt.natAbs d.toInt.natAbs
    omega
  unfold divdi3
  rw [if_neg hd, ha, hb, tdiv_eq, ← hq]
  simp only [Option.bind_eq_bind, Option.bind_some, Int64.lt_iff_toInt_lt, show (0 : Int64).toInt = 0 from rfl]
  by_cases hsign : decide (n.toInt < 0) = decide (d.toInt < 0)
  · refine ⟨(udivdi3 a b).toInt64, by simp [hsign], ?_⟩
    -- only the least value by -1 has a quotient that is not a signed number
    have hlt : (udivdi3 a b).toNat < 2 ^ 63 := by
      by_contra hge
      have hmul : 2 ^ 63 * d.toInt.natAbs ≤ n.toInt.natAbs := (Nat.le_div_iff_mul_le (by omega)).mp (hq ▸ not_lt.mp hge)
      have hn : n.toInt = -2 ^ 63 := by omega
      have hdneg : d.toInt < 0 := by
        rw [decide_eq_decide] at hsign
        omega
      exact h ⟨Int64.toInt_inj.mp hn, Int64.toInt_inj.mp (show d.toInt = -1 by omega)⟩
    rw [toInt_toInt64, if_pos hlt, if_pos hsign]
  · obtain ⟨r, hr, htoInt⟩ := negated_eq hle
    refine ⟨r, ?_, by rw [if_neg hsign, htoInt]⟩
    have hbne : (decide (n.toInt < 0) != decide (d.toInt < 0)) = true := bne_iff_ne.mpr hsign
    rw [hbne]
    exact hr

/-- The loop and the runtime's unsigned division give the quotient and the remainder for every divisor but zero, and signed division cuts
the quotient off towards zero, without an overflow on the way, where the quotient is a signed number. -/
theorem division_exact :
    (∀ n d : UInt64, d ≠ 0 →
      n.toNat = (udivmoddi4 n d).1.toNat * d.toNat + (udivmoddi4 n d).2.toNat ∧ (udivmoddi4 n d).2 < d ∧
        udivmodLoop n d 64 0 0 = udivmoddi4 n d ∧ udivdi3 n d = (udivmoddi4 n d).1 ∧ umoddi3 n d = (udivmoddi4 n d).2) ∧
    ∀ n d : Int64, d ≠ 0 → ¬(n = Int64.minValue ∧ d = -1) → ∃ q, divdi3 n d = some q ∧ q.toInt = n.toInt.tdiv d.toInt := by
  refine ⟨fun n d hd => ?_, fun n d hd h => divdi3_eq hd h⟩
  have hpos : 0 < d.toNat := Nat.pos_of_ne_zero fun hz => hd (UInt64.toNat_inj.mp hz)
  obtain ⟨hdiv, hmod⟩ := udivmoddi4_eq n hd
  obtain ⟨hloopDiv, hloopMod⟩ := udivmodLoop_whole n hd
  refine ⟨by rw [hdiv, hmod, Nat.mul_comm, Nat.div_add_mod], UInt64.lt_iff_toNat_lt.mpr (by rw [hmod]; exact Nat.mod_lt _ hpos), ?_, rfl, rfl⟩
  exact Prod.ext (UInt64.toNat_inj.mp (hloopDiv.trans hdiv.symm)) (UInt64.toNat_inj.mp (hloopMod.trans hmod.symm))

end ZenovOS.Runtime
