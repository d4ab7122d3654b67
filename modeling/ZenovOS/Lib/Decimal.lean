import ZenovOS.Lib.Bytes

/-! # Decimal numbers

The text of a number: its digits, the first of them zero for zero only, and the number is read back from them. -/

namespace ZenovOS
open Bytes

/-- The digits of a number, as a stream writes them. -/
def decimal (n : Nat) : Bytes := ascii (toString n)

namespace Decimal

/-- The number that digits write behind a number. -/
def number (n : Nat) (digits : Bytes) : Nat := digits.foldl (fun value digit => value * 10 + (digit.toNat - 48)) n

def IsDigit (c : UInt8) : Prop := 48 ≤ c ∧ c ≤ 57

theorem decimal_eq (n : Nat) : decimal n = (Nat.toDigits 10 n).map fun c => UInt8.ofNat c.toNat := by
  unfold decimal ascii
  rw [Nat.toString_eq_repr, Nat.toList_repr]

theorem toNat_digitChar {n : Nat} (h : n < 10) : (UInt8.ofNat n.digitChar.toNat).toNat = 48 + n := by
  rw [Nat.toNat_digitChar_of_lt_ten h, UInt8.toNat_ofNat']
  exact Nat.mod_eq_of_lt (by omega)

theorem decimal_of_lt {n : Nat} (h : n < 10) : decimal n = [UInt8.ofNat n.digitChar.toNat] := by
  rw [decimal_eq, Nat.toDigits_of_lt_base h, List.map_singleton]

theorem decimal_of_le {n : Nat} (h : 10 ≤ n) : decimal n = decimal (n / 10) ++ decimal (n % 10) := by
  rw [decimal_of_lt (Nat.mod_lt n (by decide)), decimal_eq, decimal_eq, Nat.toDigits_of_base_le (by decide) h, List.map_append,
    List.map_singleton]

theorem decimal_ne_nil (n : Nat) : decimal n ≠ [] := by
  rw [decimal_eq]
  exact fun h => Nat.toDigits_ne_nil (List.map_eq_nil_iff.mp h)

theorem induction_on {P : Nat → Prop} (hone : ∀ n < 10, P n) (hmore : ∀ n, 10 ≤ n → P (n / 10) → P n) (n : Nat) : P n := by
  induction n using Nat.strongRecOn with
  | ind n ih =>
    by_cases h : n < 10
    · exact hone n h
    · exact hmore n (by omega) (ih (n / 10) (by omega))

theorem isDigit_decimal (n : Nat) : ∀ c ∈ decimal n, IsDigit c := by
  have hone : ∀ n < 10, ∀ c ∈ decimal n, IsDigit c := by
    intro n hn c hc
    rw [decimal_of_lt hn] at hc
    obtain rfl := List.mem_singleton.mp hc
    unfold IsDigit
    rw [UInt8.le_iff_toNat_le, UInt8.le_iff_toNat_le, toNat_digitChar hn]
    exact ⟨by simp, show 48 + n ≤ 57 by omega⟩
  induction n using induction_on with
  | hone n hn => exact hone n hn
  | hmore n hn ih =>
    rw [decimal_of_le hn]
    intro c hc
    rcases List.mem_append.mp hc with hc | hc
    · exact ih c hc
    · exact hone (n % 10) (Nat.mod_lt n (by decide)) c hc

theorem head?_decimal {n : Nat} (h : (decimal n).head? = some 48) : n = 0 := by
  have hone : ∀ n < 10, (decimal n).head? = some 48 → n = 0 := by
    intro n hn h
    rw [decimal_of_lt hn] at h
    have hdigit := congrArg UInt8.toNat (Option.some.inj h)
    rw [toNat_digitChar hn] at hdigit
    have hzero : UInt8.toNat 48 = 48 := rfl
    omega
  induction n using induction_on with
  | hone n hn => exact hone n hn h
  | hmore n hn ih =>
    obtain ⟨c, rest, htenth⟩ := List.exists_cons_of_ne_nil (decimal_ne_nil (n / 10))
    rw [decimal_of_le hn, htenth] at h
    have := ih (by rw [htenth]; exact h)
    omega

theorem number_append (n : Nat) (a b : Bytes) : number n (a ++ b) = number (number n a) b := List.foldl_append

theorem number_decimal (n : Nat) : number 0 (decimal n) = n := by
  induction n using induction_on with
  | hone n hn =>
    rw [decimal_of_lt hn]
    show 0 * 10 + (_ - 48) = n
    rw [toNat_digitChar hn]
    omega
  | hmore n hn ih =>
    have hlast := Nat.mod_lt n (show 10 > 0 by decide)
    rw [decimal_of_le hn, number_append, ih, decimal_of_lt hlast]
    show n / 10 * 10 + (_ - 48) = n
    rw [toNat_digitChar hlast]
    omega

theorem length_decimal_le {n k : Nat} (h : n < 10 ^ k) (hk : k ≠ 0) : (decimal n).length ≤ k := by
  obtain ⟨k, rfl⟩ := Nat.exists_eq_succ_of_ne_zero hk
  clear hk
  induction k generalizing n with
  | zero =>
    rw [decimal_of_lt (by simpa using h)]
    exact Nat.le_refl _
  | succ k ih =>
    by_cases hn : n < 10
    · rw [decimal_of_lt hn]
      exact Nat.le_add_left 1 _
    · have htenth := ih (n := n / 10) ((Nat.div_lt_iff_lt_mul (by decide)).mpr (by rwa [Nat.pow_succ] at h))
      rw [decimal_of_le (by omega), List.length_append, decimal_of_lt (Nat.mod_lt n (by decide)), List.length_singleton]
      omega

/-! ### Columns of a fixed width -/

/-- A number with zeros before it, in a column of this width. -/
def padded (width n : Nat) : Bytes := List.replicate (width - (decimal n).length) 48 ++ decimal n

theorem length_padded {width n : Nat} (h : n < 10 ^ width) (hwidth : width ≠ 0) : (padded width n).length = width := by
  have hle := length_decimal_le h hwidth
  rw [padded, List.length_append, List.length_replicate]
  omega

theorem isDigit_padded (width n : Nat) : ∀ c ∈ padded width n, IsDigit c := by
  intro c hc
  rcases List.mem_append.mp hc with hc | hc
  · rw [List.eq_of_mem_replicate hc]
    exact ⟨by decide, by decide⟩
  · exact isDigit_decimal n c hc

theorem number_zeros (k : Nat) : number 0 (List.replicate k 48) = 0 := by
  induction k with
  | zero => rfl
  | succ k ih =>
    rw [List.replicate_succ']
    rw [number_append, ih]
    rfl

theorem number_padded (width n : Nat) : number 0 (padded width n) = n := by
  rw [padded, number_append, number_zeros, number_decimal]

end Decimal
end ZenovOS
