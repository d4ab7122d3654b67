import Mathlib.Data.List.TakeWhile
import Mathlib.Tactic.Ring

/-! # Byte strings

Little-endian numbers, the pieces of a buffer, copying into a buffer, and C strings (the bytes of a
buffer before its first zero). -/

namespace ZenovOS

abbrev Bytes := List UInt8

instance : LawfulBEq Bytes := List.instLawfulBEq

/-- The bytes of an ASCII literal. -/
def ascii (s : String) : Bytes := s.toList.map fun c => UInt8.ofNat c.toNat

namespace Bytes

/-! ### Little-endian numbers -/

/-- The `k` low bytes of `n`, lowest first. -/
def le : Nat → Nat → Bytes
  | 0, _ => []
  | k + 1, n => UInt8.ofNat (n % 256) :: le k (n / 256)

/-- The number whose bytes, lowest first, are given. -/
def toNat : Bytes → Nat
  | [] => 0
  | b :: bs => b.toNat + 256 * toNat bs

@[simp] theorem length_le (k n : Nat) : (le k n).length = k := by
  induction k generalizing n with
  | zero => rfl
  | succ k ih => simp [le, ih]

theorem toNat_le (k n : Nat) : toNat (le k n) = n % 256 ^ k := by
  induction k generalizing n with
  | zero => simp [le, toNat, Nat.mod_one]
  | succ k ih =>
    have hb : (UInt8.ofNat (n % 256)).toNat = n % 256 := by simp
    rw [le, toNat, ih, hb, Nat.pow_succ', Nat.mod_mul]

theorem toNat_le_of_lt {k n : Nat} (h : n < 256 ^ k) : toNat (le k n) = n := by
  rw [toNat_le, Nat.mod_eq_of_lt h]

theorem le_toNat {k : Nat} {b : Bytes} (h : b.length = k) : le k (toNat b) = b := by
  induction b generalizing k with
  | nil =>
    subst h
    rfl
  | cons x b ih =>
    subst h
    have hx := x.toNat_lt
    rw [List.length_cons, le, toNat, Nat.add_mul_mod_self_left, Nat.mod_eq_of_lt hx, UInt8.ofNat_toNat,
      Nat.add_mul_div_left _ _ (by decide), Nat.div_eq_of_lt hx, Nat.zero_add, ih rfl]

theorem toNat_lt (b : Bytes) : toNat b < 256 ^ b.length := by
  induction b with
  | nil => exact Nat.one_pos
  | cons x b ih =>
    have hx := x.toNat_lt
    rw [toNat, List.length_cons, Nat.pow_succ']
    omega

theorem ofNat_toNat_le16 (x : UInt16) : UInt16.ofNat (toNat (le 2 x.toNat)) = x := by
  rw [toNat_le_of_lt (by simpa using x.toNat_lt), UInt16.ofNat_toNat]

theorem ofNat_toNat_le32 (x : UInt32) : UInt32.ofNat (toNat (le 4 x.toNat)) = x := by
  rw [toNat_le_of_lt (by simpa using x.toNat_lt), UInt32.ofNat_toNat]

theorem ofNat_toNat_byte (x : UInt8) : UInt8.ofNat (toNat [x]) = x := by
  simp [toNat]

/-! ### Pieces of a buffer -/

/-- The `n` bytes at offset `off`. -/
def slice (b : Bytes) (off n : Nat) : Bytes := (b.drop off).take n

/-- Copy `src` into the buffer `b` at offset `off`. -/
def overwrite (b : Bytes) (off : Nat) (src : Bytes) : Bytes := b.take off ++ src ++ b.drop (off + src.length)

theorem length_slice {b : Bytes} {off n : Nat} (h : off + n ≤ b.length) : (slice b off n).length = n := by
  simp [slice]
  omega

theorem length_overwrite {b src : Bytes} {off : Nat} (h : off + src.length ≤ b.length) :
    (overwrite b off src).length = b.length := by
  simp [overwrite]
  omega

theorem slice_append_left {b c : Bytes} {off n : Nat} (h : off + n ≤ b.length) : slice (b ++ c) off n = slice b off n := by
  unfold slice
  rw [List.drop_append_of_le_length (by omega), List.take_append_of_le_length (by simp; omega)]

theorem slice_append_right {b c : Bytes} {off n : Nat} (h : b.length ≤ off) :
    slice (b ++ c) off n = slice c (off - b.length) n := by
  unfold slice
  rw [List.drop_append, List.drop_eq_nil_of_le h, List.nil_append]

theorem slice_of_length {b : Bytes} {n : Nat} (h : b.length = n) : slice b 0 n = b := by
  simp [slice, ← h]

theorem slice_first {a b : Bytes} {n : Nat} (h : a.length = n) : slice (a ++ b) 0 n = a := by
  rw [slice_append_left (by omega), slice_of_length h]

theorem slice_append_slice (b : Bytes) (off n m : Nat) : slice b off n ++ slice b (off + n) m = slice b off (n + m) := by
  unfold slice
  rw [List.take_add, List.drop_drop]

theorem slice_field (pre mid : Bytes) {post b : Bytes} {off n : Nat} (hpre : pre.length = off) (hmid : mid.length = n)
    (hb : b = pre ++ (mid ++ post)) : slice b off n = mid := by
  rw [hb, slice_append_right (by omega), hpre, Nat.sub_self, slice_append_left (by omega), slice_of_length hmid]

theorem overwrite_field {pre mid post src : Bytes} {off : Nat} (hpre : pre.length = off) (hmid : mid.length = src.length) :
    overwrite (pre ++ mid ++ post) off src = pre ++ src ++ post := by
  unfold overwrite
  have hlen : off + src.length = (pre ++ mid).length := by simp [hpre, hmid]
  rw [hlen, List.drop_left, List.append_assoc pre mid post, ← hpre, List.take_left]

theorem slice_overwrite_self {b src : Bytes} {off n : Nat} (hn : src.length = n) (h : off ≤ b.length) :
    slice (overwrite b off src) off n = src := by
  unfold overwrite
  have hlen : (b.take off).length = off := by simp; omega
  rw [slice_append_left (by simp; omega), slice_append_right (by omega), hlen, Nat.sub_self, slice_of_length hn]

theorem slice_overwrite_disjoint {b src : Bytes} {off o n : Nat} (h : off + src.length ≤ b.length)
    (hd : o + n ≤ off ∨ off + src.length ≤ o) : slice (overwrite b off src) o n = slice b o n := by
  rcases hd with hd | hd
  · unfold overwrite
    rw [List.append_assoc, slice_append_left (by simp; omega)]
    unfold slice
    rw [List.drop_take, List.take_take, Nat.min_eq_left (by omega)]
  · have hlen : (b.take off ++ src).length = off + src.length := by simp; omega
    unfold overwrite
    rw [slice_append_right (by omega), hlen]
    unfold slice
    rw [List.drop_drop]
    congr 2
    omega

theorem slice_slice {b : Bytes} {off n o m : Nat} (h : o + m ≤ n) : slice (slice b off n) o m = slice b (off + o) m := by
  unfold slice
  rw [List.drop_take, List.take_take, List.drop_drop, Nat.min_eq_left (by omega)]

theorem getD_slice {b : Bytes} {off n k : Nat} (h : k < n) : (slice b off n).getD k 0 = b.getD (off + k) 0 := by
  unfold slice
  rw [List.getD_eq_getElem?_getD, List.getD_eq_getElem?_getD, List.getElem?_take_of_lt h, List.getElem?_drop]

theorem getD_overwrite {b src : Bytes} {off : Nat} (h : off + src.length ≤ b.length) (k : Nat) :
    (overwrite b off src).getD k 0 = if off ≤ k ∧ k < off + src.length then src.getD (k - off) 0 else b.getD k 0 := by
  have htake : (b.take off).length = off := List.length_take_of_le (by omega)
  unfold overwrite
  rw [List.getD_eq_getElem?_getD]
  by_cases hbefore : k < off
  · rw [if_neg fun hk => Nat.not_lt.mpr hk.1 hbefore, List.append_assoc, List.getElem?_append_left (by omega),
      List.getElem?_take_of_lt hbefore, List.getD_eq_getElem?_getD]
  · by_cases hin : k < off + src.length
    · rw [if_pos ⟨Nat.not_lt.mp hbefore, hin⟩, List.append_assoc, List.getElem?_append_right (by omega), htake,
        List.getElem?_append_left (by omega), List.getD_eq_getElem?_getD]
    · rw [if_neg fun hk => hin hk.2, List.getElem?_append_right (by rw [List.length_append, htake]; omega), List.length_append, htake,
        List.getElem?_drop, List.getD_eq_getElem?_getD, Nat.add_sub_cancel' (Nat.not_lt.mp hin)]

theorem set_eq_overwrite {data : Bytes} {offset : Nat} (h : offset < data.length) (value : UInt8) :
    data.set offset value = overwrite data offset [value] := by
  rw [overwrite, List.set_eq_take_append_cons_drop, if_pos h, List.append_assoc]
  rfl

theorem take_overwrite {buffer src : Bytes} {at_ : Nat} (h : at_ ≤ buffer.length) :
    (overwrite buffer at_ src).take (at_ + src.length) = buffer.take at_ ++ src := by
  unfold overwrite
  refine List.take_left' ?_
  rw [List.length_append, List.length_take, Nat.min_eq_left h]

theorem overwrite_append {data a b : Bytes} {offset : Nat} (h : offset + a.length + b.length ≤ data.length) :
    overwrite (overwrite data offset a) (offset + a.length) b = overwrite data offset (a ++ b) := by
  have hlength : (data.take offset ++ a).length = offset + a.length := by rw [List.length_append, List.length_take_of_le (by omega)]
  have htwo : overwrite data offset (a ++ b) = (data.take offset ++ a) ++ b ++ (data.drop (offset + a.length)).drop b.length := by
    rw [overwrite, List.length_append, List.drop_drop, Nat.add_assoc, ← List.append_assoc (data.take offset)]
  rw [htwo, overwrite.eq_1 data]
  generalize data.take offset ++ a = pre at hlength ⊢
  generalize data.drop (offset + a.length) = rest
  rw [overwrite, ← hlength, List.take_left, ← List.drop_drop, List.drop_left]

theorem overwrite_overwrite (b front back : Bytes) {off : Nat} (h : off + front.length ≤ b.length) :
    overwrite (overwrite b (off + front.length) back) off front = overwrite b off (front ++ back) := by
  have hlen : (b.take (off + front.length)).length = off + front.length := List.length_take_of_le h
  unfold overwrite
  rw [List.append_assoc _ back, List.take_append_of_le_length (by omega), List.take_take, Nat.min_eq_left (Nat.le_add_right ..),
    List.drop_left' hlen, List.length_append, ← Nat.add_assoc]
  simp only [List.append_assoc]

theorem slice_flatMap {α : Type} {f : α → Bytes} {n : Nat} {l : List α} {i : Nat} {a : α} (hf : ∀ a, (f a).length = n)
    (hi : l[i]? = some a) : slice (l.flatMap f) (i * n) n = f a := by
  induction l generalizing i with
  | nil => cases hi
  | cons x l ih =>
    rw [List.flatMap_cons]
    cases i with
    | zero =>
      obtain rfl : x = a := Option.some.inj hi
      rw [Nat.zero_mul, slice_first (hf x)]
    | succ i =>
      rw [slice_append_right (by rw [hf, Nat.succ_mul]; omega), hf, Nat.succ_mul, Nat.add_sub_cancel]
      exact ih hi

theorem drop_flatMap {α : Type} {f : α → Bytes} (l : List α) (i : Nat) :
    (l.flatMap f).drop ((l.take i).map fun a => (f a).length).sum = (l.drop i).flatMap f := by
  induction l generalizing i with
  | nil => simp
  | cons x l ih =>
    cases i with
    | zero => rfl
    | succ i =>
      rw [List.take_succ_cons, List.map_cons, List.sum_cons, List.flatMap_cons, List.drop_succ_cons, ← ih i, List.drop_append,
        List.drop_eq_nil_of_le (by omega), List.nil_append, Nat.add_sub_cancel_left]

/-! ### C strings -/

/-- The string that starts at a buffer: its bytes before the first zero. -/
def cstr (b : Bytes) : Bytes := b.takeWhile (· != 0)

theorem zero_notMem_cstr (b : Bytes) : (0 : UInt8) ∉ cstr b := by
  intro h
  have := List.mem_takeWhile_imp h
  simp at this

theorem cstr_of_notMem {b : Bytes} (h : (0 : UInt8) ∉ b) : cstr b = b := by
  unfold cstr
  rw [List.takeWhile_eq_self_iff]
  intro x hx
  rw [bne_iff_ne]
  rintro rfl
  exact h hx

theorem cstr_append_zero {b c : Bytes} (h : (0 : UInt8) ∉ b) : cstr (b ++ 0 :: c) = b := by
  induction b with
  | nil => simp [cstr]
  | cons x b ih =>
    simp only [List.mem_cons, not_or] at h
    have hx : x ≠ 0 := Ne.symm h.1
    have := ih h.2
    unfold cstr at this ⊢
    simp [hx, this]

end Bytes
end ZenovOS
