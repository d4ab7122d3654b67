import Mathlib.Data.List.Basic
import Mathlib.Tactic.Ring

/-! # Bitmaps

An array of words of `w` bits, bit `i` in word `i / w`: setting, clearing and testing a bit with masks, and the
number of the clear ones. -/

namespace ZenovOS.Bitmap
variable {w : Nat}

def mask (w bit : Nat) : BitVec w := 1#w <<< bit

def test (words : Nat → BitVec w) (i : Nat) : Bool := words (i / w) &&& mask w (i % w) ≠ 0

/-- A word is stored. -/
def store (words : Nat → BitVec w) (index : Nat) (word : BitVec w) : Nat → BitVec w :=
  fun j => if j = index then word else words j

def set (words : Nat → BitVec w) (i : Nat) : Nat → BitVec w := store words (i / w) (words (i / w) ||| mask w (i % w))

def clear (words : Nat → BitVec w) (i : Nat) : Nat → BitVec w :=
  store words (i / w) (words (i / w) &&& ~~~mask w (i % w))

/-- The number of clear bits among the first `n`. -/
def clearCount (words : Nat → BitVec w) (n : Nat) : Nat := ((List.range n).filter fun i => !test words i).length

variable {words : Nat → BitVec w} {i j n : Nat}

theorem getLsbD_mask {bit k : Nat} : (mask w bit).getLsbD k = (decide (k < w) && decide (k = bit)) := by
  rw [mask, BitVec.getLsbD_shiftLeft]
  by_cases hk : k < w
  · rw [decide_eq_true hk, Bool.true_and, Bool.true_and]
    by_cases hlt : k < bit
    · rw [decide_eq_true hlt, Bool.not_true, Bool.false_and, decide_eq_false (by omega)]
    · rw [decide_eq_false hlt, Bool.not_false, Bool.true_and, BitVec.getLsbD_one, decide_eq_true (by omega : 0 < w),
        Bool.true_and]
      exact decide_eq_decide.mpr (by omega)
  · rw [decide_eq_false hk, Bool.false_and, Bool.false_and, Bool.false_and]

theorem test_eq (hw : 0 < w) : test words i = (words (i / w)).getLsbD (i % w) := by
  have hlt : i % w < w := Nat.mod_lt _ hw
  rw [test, Bool.eq_iff_iff, decide_eq_true_eq]
  constructor
  · intro hne
    by_contra hbit
    apply hne
    apply BitVec.eq_of_getLsbD_eq
    intro k hk
    rw [BitVec.getLsbD_and, getLsbD_mask]
    by_cases he : k = i % w
    · rw [he, Bool.eq_false_iff.mpr hbit]
      simp
    · simp [he]
  · intro hbit hzero
    have hread := congrArg (fun word => word.getLsbD (i % w)) hzero
    rw [BitVec.getLsbD_and, hbit, getLsbD_mask, decide_eq_true hlt, decide_eq_true rfl] at hread
    simp at hread

theorem store_self (words : Nat → BitVec w) (index : Nat) (word : BitVec w) : store words index word index = word := if_pos rfl

theorem store_ne {index k : Nat} {word : BitVec w} (hk : k ≠ index) : store words index word k = words k := if_neg hk

theorem index_ext (hword : i / w = j / w) (hbit : i % w = j % w) : i = j := by
  rw [← Nat.div_add_mod i w, hword, hbit, Nat.div_add_mod]

theorem test_set (hw : 0 < w) : test (set words i) j = (decide (j = i) || test words j) := by
  rw [test_eq hw, test_eq hw, set]
  by_cases hword : j / w = i / w
  · have hlt : j % w < w := Nat.mod_lt _ hw
    rw [hword, store_self, BitVec.getLsbD_or, getLsbD_mask, decide_eq_true hlt, Bool.true_and, Bool.or_comm]
    congr 1
    exact decide_eq_decide.mpr ⟨index_ext hword, fun he => by rw [he]⟩
  · rw [store_ne hword, decide_eq_false fun he => hword (by rw [he]), Bool.false_or]

theorem test_clear (hw : 0 < w) : test (clear words i) j = (decide (j ≠ i) && test words j) := by
  rw [test_eq hw, test_eq hw, clear]
  by_cases hword : j / w = i / w
  · have hlt : j % w < w := Nat.mod_lt _ hw
    rw [hword, store_self, BitVec.getLsbD_and, BitVec.getLsbD_not, getLsbD_mask, decide_eq_true hlt, Bool.true_and,
      Bool.true_and, Bool.and_comm]
    congr 1
    rw [← decide_not]
    exact decide_eq_decide.mpr ⟨fun hne he => hne (by rw [he]), fun hne he => hne (index_ext hword he)⟩
  · have hne : j ≠ i := fun he => hword (by rw [he])
    rw [store_ne hword, decide_eq_true hne, Bool.true_and]

theorem ext_test (hw : 0 < w) {words' : Nat → BitVec w} (h : ∀ i, test words' i = test words i) : words' = words := by
  funext index
  apply BitVec.eq_of_getLsbD_eq
  intro k hk
  have hbit := h (w * index + k)
  rw [test_eq hw, test_eq hw, Nat.mul_add_div hw, Nat.div_eq_of_lt hk, Nat.add_zero, Nat.mul_add_mod, Nat.mod_eq_of_lt hk] at hbit
  exact hbit

theorem clear_set (hw : 0 < w) (h : test words i = false) : clear (set words i) i = words := by
  apply ext_test hw
  intro j
  rw [test_clear hw, test_set hw]
  by_cases hj : j = i
  · rw [hj, h, decide_eq_false (not_not.mpr rfl), Bool.false_and]
  · rw [decide_eq_true hj, decide_eq_false hj, Bool.true_and, Bool.false_or]

theorem test_of_allOnes (hw : 0 < w) (h : words (i / w) = BitVec.allOnes w) : test words i = true := by
  rw [test_eq hw, h, BitVec.getLsbD_allOnes, decide_eq_true (Nat.mod_lt _ hw)]

/-! ### Counting -/

theorem clearCount_succ (words : Nat → BitVec w) (n : Nat) :
    clearCount words (n + 1) = clearCount words n + if test words n then 0 else 1 := by
  rw [clearCount, List.range_succ, List.filter_append, List.length_append, clearCount]
  cases h : test words n <;> simp [h]

theorem clearCount_congr {words' : Nat → BitVec w} (h : ∀ i < n, test words' i = test words i) :
    clearCount words' n = clearCount words n := by
  induction n with
  | zero => rfl
  | succ n ih =>
    rw [clearCount_succ, clearCount_succ, ih fun i hi => h i (Nat.lt_succ_of_lt hi), h n (Nat.lt_succ_self n)]

theorem clearCount_set (hw : 0 < w) (hi : i < n) (h : test words i = false) :
    clearCount (set words i) n + 1 = clearCount words n := by
  induction n with
  | zero => exact absurd hi (Nat.not_lt_zero i)
  | succ n ih =>
    rw [clearCount_succ, clearCount_succ, test_set hw]
    rcases Nat.lt_succ_iff_lt_or_eq.mp hi with hlt | rfl
    · rw [decide_eq_false (Nat.ne_of_gt hlt), Bool.false_or, ← ih hlt]
      omega
    · have hbelow : ∀ k < i, test (set words i) k = test words k := by
        intro k hk
        rw [test_set hw, decide_eq_false (Nat.ne_of_lt hk), Bool.false_or]
      rw [clearCount_congr hbelow, decide_eq_true rfl, Bool.true_or, h]
      rfl

theorem clearCount_clear (hw : 0 < w) (hi : i < n) (h : test words i = true) :
    clearCount (clear words i) n = clearCount words n + 1 := by
  have hclear : test (clear words i) i = false := by
    rw [test_clear hw, decide_eq_false (not_not.mpr rfl), Bool.false_and]
  have hback : set (clear words i) i = words := by
    apply ext_test hw
    intro j
    rw [test_set hw, test_clear hw]
    by_cases hj : j = i
    · rw [hj, h, decide_eq_true rfl, Bool.true_or]
    · rw [decide_eq_true hj, decide_eq_false hj, Bool.true_and, Bool.false_or]
  rw [← clearCount_set hw hi hclear, hback]

theorem clearCount_eq_zero (h : ∀ i < n, test words i = true) : clearCount words n = 0 := by
  rw [clearCount, List.length_eq_zero_iff, List.filter_eq_nil_iff]
  intro i hi
  rw [h i (List.mem_range.mp hi)]
  exact Bool.false_ne_true

theorem clearCount_pos (hi : i < n) (h : test words i = false) : 0 < clearCount words n := by
  rw [clearCount, List.length_pos_iff_exists_mem]
  exact ⟨i, List.mem_filter.mpr ⟨List.mem_range.mpr hi, by rw [h]; rfl⟩⟩

end ZenovOS.Bitmap
