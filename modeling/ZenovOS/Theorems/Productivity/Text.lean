import ZenovOS.Lib.Decimal
import ZenovOS.Productivity.Text

/-! What fits into a text buffer is written as it is, and a number as its decimal digits. -/

namespace ZenovOS.Productivity
open Decimal

theorem pushAll_fits {capacity : Nat} {output text : Bytes} (h : output.length + text.length < capacity) :
    pushAll capacity output text = output ++ text := by
  induction text generalizing output with
  | nil => rw [pushAll, List.append_nil]
  | cons c text ih =>
    rw [List.length_cons] at h
    rw [pushAll, if_pos (by omega), ih (by rw [List.length_append, List.length_singleton]; omega), List.append_assoc]
    rfl

theorem appendText_fits {capacity : Nat} {output text : Bytes} (h : output.length + text.length < capacity) :
    appendText capacity output text = (true, output ++ text) := by
  induction text generalizing output with
  | nil => rw [appendText, List.append_nil]
  | cons c text ih =>
    rw [List.length_cons] at h
    rw [appendText, if_neg (by omega), ih (by rw [List.length_append, List.length_singleton]; omega), List.append_assoc]
    rfl

theorem reverse_reverseDigits {room value : Nat} (h : value < 10 ^ (room + 1)) : (reverseDigits (room + 1) value).reverse = decimal value := by
  have hdigit {n : Nat} (hn : n < 10) : decimal n = [UInt8.ofNat (48 + n)] := by
    rw [decimal_of_lt hn, Nat.toNat_digitChar_of_lt_ten hn]
  induction room generalizing value with
  | zero =>
    have hvalue : value < 10 := by simpa using h
    rw [reverseDigits, if_pos (by omega), Nat.mod_eq_of_lt hvalue, hdigit hvalue]
    rfl
  | succ room ih =>
    rw [reverseDigits]
    by_cases hvalue : value < 10
    · rw [if_pos (by omega), Nat.mod_eq_of_lt hvalue, hdigit hvalue]
      rfl
    · have htenth : value / 10 < 10 ^ (room + 1) := (Nat.div_lt_iff_lt_mul (by decide)).mpr (by rwa [Nat.pow_succ] at h)
      rw [if_neg (by omega), List.reverse_cons, ih htenth, decimal_of_le (n := value) (by omega), hdigit (Nat.mod_lt value (by decide))]

theorem reverse_digitBuffer {value digits : Nat} (h : value < 10 ^ 11) (hdigits : digits ≤ 11) :
    (digitBuffer value digits).reverse = padded digits value := by
  have hlength : (reverseDigits 11 value).length = (decimal value).length := by
    rw [← List.length_reverse, reverse_reverseDigits h]
  rw [digitBuffer, List.reverse_append, reverse_reverseDigits h, List.reverse_replicate, Nat.min_eq_left hdigits, hlength, padded]

theorem appendUint_fits {capacity value digits : Nat} {output : Bytes} (h : value < 10 ^ 11) (hdigits : digits ≤ 11)
    (hfits : output.length + (padded digits value).length < capacity) :
    appendUint capacity output value digits = output ++ padded digits value := by
  rw [appendUint, reverse_digitBuffer h hdigits, pushAll_fits hfits]

/-- A step that puts a text behind the output where it leaves a byte for the terminator. -/
def Adds (capacity : Nat) (step : Bytes → Bytes) (text : Bytes) : Prop :=
  ∀ output : Bytes, output.length + text.length < capacity → step output = output ++ text

theorem adds_text {capacity : Nat} (text : Bytes) : Adds capacity (fun output => (appendText capacity output text).2) text := by
  intro output h
  show (appendText capacity output text).2 = output ++ text
  rw [appendText_fits h]

theorem adds_uint {capacity : Nat} (value digits : Nat) (hvalue : value < 10 ^ 11) (hdigits : digits ≤ 11) :
    Adds capacity (fun output => appendUint capacity output value digits) (padded digits value) :=
  fun _ h => appendUint_fits hvalue hdigits h

theorem Adds.trans {capacity : Nat} {step next : Bytes → Bytes} {text more : Bytes} (h : Adds capacity step text) (hnext : Adds capacity next more) :
    Adds capacity (fun output => next (step output)) (text ++ more) := by
  intro output hfits
  rw [List.length_append] at hfits
  show next (step output) = output ++ (text ++ more)
  rw [h output (by omega), hnext _ (by rw [List.length_append]; omega), List.append_assoc]

theorem padded_zero (n : Nat) : padded 0 n = decimal n := by
  rw [padded, Nat.zero_sub]
  rfl

theorem formatInt32_eq {v : Int} (hlow : -2147483648 ≤ v) (hhigh : v ≤ 2147483647) :
    formatInt32 16 v = if v < 0 then 45 :: decimal v.natAbs else decimal v.natAbs := by
  have hbound {n : Nat} (hn : n ≤ 2147483648) : n < 10 ^ 11 ∧ (decimal n).length ≤ 10 :=
    ⟨hn.trans_lt (by decide), length_decimal_le (hn.trans_lt (by decide)) (by decide)⟩
  obtain ⟨hpow, hlength⟩ := hbound (n := v.natAbs) (by omega)
  rw [formatInt32, appendInt32, if_neg (by decide)]
  by_cases hneg : v < 0
  · have hmagnitude : (0#32 - BitVec.ofInt 32 v).toNat = v.natAbs := by
      rw [BitVec.toNat_sub, BitVec.toNat_ofInt]
      simp
      omega
    simp only [if_pos hneg, hmagnitude]
    rw [if_pos (by decide), appendUint_fits hpow (by decide) (by rw [padded_zero]; simp; omega), padded_zero]
    rfl
  · have hmagnitude : (BitVec.ofInt 32 v).toNat = v.natAbs := by
      rw [BitVec.toNat_ofInt]
      omega
    simp only [if_neg hneg, hmagnitude]
    rw [appendUint_fits hpow (by decide) (by rw [padded_zero]; simp; omega), padded_zero]
    rfl

end ZenovOS.Productivity
