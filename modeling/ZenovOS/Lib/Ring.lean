import Mathlib.Data.List.GetD
import Mathlib.Tactic.Ring

/-! # Ring buffers

A ring of `capacity` slots takes an unbounded list of items: item `n` stands in slot `n % capacity`, so that
the ring holds the last `capacity` of them. -/

namespace ZenovOS.Ring
variable {α : Type}

/-- The slots hold the last items of the list; `default` fills a slot that is out of reach. -/
def Holds (capacity : Nat) (default : α) (slots items : List α) : Prop :=
  slots.length = capacity ∧
    ∀ n, n < items.length → items.length ≤ n + capacity → slots.getD (n % capacity) default = items.getD n default

/-- `count` slots in order, from the slot `first` on. -/
def window (capacity : Nat) (default : α) (slots : List α) (first count : Nat) : List α :=
  (List.range count).map fun i => slots.getD ((first + i) % capacity) default

variable {capacity : Nat} {default : α} {slots items : List α}

theorem Holds.nil (h : slots.length = capacity) : Holds capacity default slots [] :=
  ⟨h, fun _ hn => absurd hn (Nat.not_lt_zero _)⟩

theorem Holds.push (h : Holds capacity default slots items) (hc : 0 < capacity) (x : α) :
    Holds capacity default (slots.set (items.length % capacity) x) (items ++ [x]) := by
  obtain ⟨hlen, hslot⟩ := h
  refine ⟨by rw [List.length_set, hlen], fun n hn hage => ?_⟩
  rw [List.length_append, List.length_singleton] at hn hage
  have hmod : items.length % capacity < slots.length := by
    rw [hlen]
    exact Nat.mod_lt _ hc
  rcases Nat.lt_succ_iff_lt_or_eq.mp hn with hn | rfl
  · have hne : items.length % capacity ≠ n % capacity := by
      intro he
      have hdvd : capacity ∣ items.length - n := Nat.dvd_of_mod_eq_zero (Nat.sub_mod_eq_zero_of_mod_eq he)
      have hge := Nat.le_of_dvd (Nat.sub_pos_of_lt hn) hdvd
      omega
    rw [List.getD_eq_getElem?_getD, List.getElem?_set_ne hne, ← List.getD_eq_getElem?_getD, hslot n hn (by omega),
      List.getD_append _ _ _ _ hn]
  · rw [List.getD_eq_getElem?_getD, List.getElem?_set_self hmod, List.getD_append_right _ _ _ _ (Nat.le_refl _),
      Nat.sub_self]
    rfl

theorem Holds.window (h : Holds capacity default slots items) {first count : Nat} (hcount : count ≤ items.length)
    (hcapacity : count ≤ capacity) (hfirst : first % capacity = (items.length - count) % capacity) :
    window capacity default slots first count = items.drop (items.length - count) := by
  apply List.ext_getElem
  · simp only [Ring.window, List.length_map, List.length_range, List.length_drop]
    omega
  · intro i hi _
    simp only [Ring.window, List.length_map, List.length_range] at hi
    have hlt : items.length - count + i < items.length := by omega
    simp only [Ring.window, List.getElem_map, List.getElem_range, List.getElem_drop]
    rw [Nat.add_mod, hfirst, ← Nat.add_mod, h.2 _ hlt (by omega), List.getD_eq_getElem _ _ hlt]

end ZenovOS.Ring
