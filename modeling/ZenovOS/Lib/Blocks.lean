import Mathlib.Tactic.Ring

/-! # Numbering the places of blocks

Blocks of different lengths stand one behind the other, and every place has a number from the start on. The number of a place is the total of
the blocks before its own and its place there; the order of the numbers is that of the blocks and of the places in them. -/

namespace ZenovOS
namespace Blocks

variable {len : Nat → Nat}

/-- The length of `count` blocks from `first` on. -/
def total (len : Nat → Nat) (first : Nat) : Nat → Nat
  | 0 => 0
  | count + 1 => total len first count + len (first + count)

/-- The block of a place, and the place in it, looking at no more than `steps` blocks behind the first. -/
def locate (len : Nat → Nat) : Nat → Nat → Nat → Nat × Nat
  | 0, current, place => (current, place)
  | steps + 1, current, place => if place < len current then (current, place) else locate len steps (current + 1) (place - len current)

@[simp] theorem total_zero (first : Nat) : total len first 0 = 0 := rfl

theorem total_succ (first count : Nat) : total len first (count + 1) = total len first count + len (first + count) := rfl

theorem total_add (first m n : Nat) : total len first (m + n) = total len first m + total len (first + m) n := by
  induction n with
  | zero => rfl
  | succ n ih => rw [← Nat.add_assoc, total_succ, total_succ, ih, Nat.add_assoc, Nat.add_assoc]

theorem total_head (first count : Nat) : total len first (count + 1) = len first + total len (first + 1) count := by
  rw [Nat.add_comm, total_add, total_succ]
  simp

theorem total_congr {len' : Nat → Nat} {first first' count : Nat} (h : ∀ i < count, len (first + i) = len' (first' + i)) :
    total len first count = total len' first' count := by
  induction count with
  | zero => rfl
  | succ count ih => rw [total_succ, total_succ, ih fun i hi => h i (Nat.lt_succ_of_lt hi), h count (Nat.lt_succ_self count)]

theorem total_le (first : Nat) {m n : Nat} (h : m ≤ n) : total len first m ≤ total len first n := by
  obtain ⟨k, rfl⟩ := Nat.exists_eq_add_of_le h
  rw [total_add]
  exact Nat.le_add_right ..

theorem total_mul {outer : Nat → Nat} {first size : Nat} (houter : ∀ k, total len (first + size * k) size = outer k) (count : Nat) :
    total len first (size * count) = total outer 0 count := by
  induction count with
  | zero => rfl
  | succ count ih => rw [Nat.mul_succ, total_add, total_succ, ih, houter, Nat.zero_add]

section
variable {first m n place place' : Nat}

theorem place_lt (h : place < len (first + m)) (hmn : m < n) : total len first m + place < total len first n := by
  have hle : total len first (m + 1) ≤ total len first n := total_le first (Nat.succ_le_of_lt hmn)
  rw [total_succ] at hle
  omega

theorem number_lt_iff (h : place < len (first + m)) (h' : place' < len (first + n)) :
    total len first m + place < total len first n + place' ↔ m < n ∨ m = n ∧ place < place' := by
  rcases lt_trichotomy m n with hlt | rfl | hlt
  · exact iff_of_true ((place_lt h hlt).trans_le (Nat.le_add_right ..)) (Or.inl hlt)
  · rw [Nat.add_lt_add_iff_left]
    exact ⟨fun h => Or.inr ⟨rfl, h⟩, fun h => h.resolve_left (lt_irrefl m) |>.2⟩
  · have hback := place_lt h' hlt
    refine iff_of_false (by omega) ?_
    rintro (h | ⟨rfl, -⟩) <;> omega

theorem number_inj (h : place < len (first + m)) (h' : place' < len (first + n))
    (heq : total len first m + place = total len first n + place') : m = n ∧ place = place' := by
  have hlt := mt (number_lt_iff h h').mpr (by omega)
  have hgt := mt (number_lt_iff h' h).mpr (by omega)
  omega

theorem exists_place (h : n < total len first m) : ∃ k < m, ∃ place < len (first + k), n = total len first k + place := by
  induction m with
  | zero => exact absurd h (Nat.not_lt_zero _)
  | succ m ih =>
    by_cases hlt : n < total len first m
    · obtain ⟨k, hk, hplace⟩ := ih hlt
      exact ⟨k, Nat.lt_succ_of_lt hk, hplace⟩
    · rw [total_succ] at h
      exact ⟨m, Nat.lt_succ_self m, n - total len first m, by omega, by omega⟩

end

theorem locate_total {count steps first place : Nat} (hsteps : count ≤ steps) (h : place < len (first + count)) :
    locate len steps first (total len first count + place) = (first + count, place) := by
  induction count generalizing steps first with
  | zero =>
    rw [total_zero, Nat.zero_add]
    cases steps with
    | zero => rfl
    | succ steps => exact if_pos h
  | succ count ih =>
    obtain ⟨steps, rfl⟩ : ∃ m, steps = m + 1 := ⟨steps - 1, by omega⟩
    have hnext : first + (count + 1) = first + 1 + count := by omega
    rw [hnext] at h
    have hlarge : ¬total len first (count + 1) + place < len first := by
      rw [total_head]
      omega
    have hrest : total len first (count + 1) + place - len first = total len (first + 1) count + place := by
      rw [total_head]
      omega
    rw [locate, if_neg hlarge, hrest, ih (Nat.le_of_succ_le_succ hsteps) h, hnext]

end Blocks
end ZenovOS
