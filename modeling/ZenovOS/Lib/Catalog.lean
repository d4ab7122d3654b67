import Mathlib.Data.Finset.Card
import Mathlib.Data.Finset.Range
import Mathlib.Logic.Function.Basic

/-! # A catalogue of files over a table of limited size

What a table of entries shows: the file under each name, and how many entries are vacant. Putting a file under a
new name takes an entry, dropping a file gives one back, and a move takes none. `vacancies` counts the vacant
entries of the table itself. -/

namespace ZenovOS

structure Catalog (κ φ : Type) where
  files : κ → Option φ
  free : Nat

namespace Catalog
variable {κ φ : Type} [DecidableEq κ] {c : Catalog κ φ} {k l m : κ} {x y : φ}

/-- The file under `k` is `x` now. -/
def put (c : Catalog κ φ) (k : κ) (x : φ) : Catalog κ φ :=
  ⟨Function.update c.files k (some x), if (c.files k).isSome then c.free else c.free - 1⟩

/-- There is no file under `k` any more. -/
def drop (c : Catalog κ φ) (k : κ) : Catalog κ φ :=
  ⟨Function.update c.files k none, if (c.files k).isSome then c.free + 1 else c.free⟩

/-- The file under `k` is under `l` now. -/
def move (c : Catalog κ φ) (k l : κ) : Catalog κ φ :=
  ⟨Function.update (Function.update c.files k none) l (c.files k), c.free⟩

@[simp] theorem put_files (c : Catalog κ φ) (k : κ) (x : φ) : (c.put k x).files k = some x := Function.update_self ..

theorem put_of_ne (h : l ≠ k) : (c.put k x).files l = c.files l := Function.update_of_ne h ..

@[simp] theorem drop_files (c : Catalog κ φ) (k : κ) : (c.drop k).files k = none := Function.update_self ..

theorem drop_of_ne (h : l ≠ k) : (c.drop k).files l = c.files l := Function.update_of_ne h ..

@[simp] theorem move_files (c : Catalog κ φ) (k l : κ) : (c.move k l).files l = c.files k := Function.update_self ..

theorem move_source (h : k ≠ l) : (c.move k l).files k = none := by
  show Function.update (Function.update c.files k none) l (c.files k) k = none
  rw [Function.update_of_ne h, Function.update_self]

theorem move_of_ne (hk : m ≠ k) (hl : m ≠ l) : (c.move k l).files m = c.files m := by
  show Function.update (Function.update c.files k none) l (c.files k) m = c.files m
  rw [Function.update_of_ne hl, Function.update_of_ne hk]

theorem put_free_of_some (h : c.files k = some y) : (c.put k x).free = c.free := by
  show (if (c.files k).isSome then c.free else c.free - 1) = c.free
  rw [h]
  rfl

theorem put_free_of_none (h : c.files k = none) : (c.put k x).free = c.free - 1 := by
  show (if (c.files k).isSome then c.free else c.free - 1) = c.free - 1
  rw [h]
  rfl

end Catalog

/-! ### Vacant entries -/

/-- The vacant entries among the first `n`. -/
def vacancies {ε : Type} (vacant : ε → Prop) [DecidablePred vacant] (n : Nat) (t : Nat → ε) : Nat :=
  ((Finset.range n).filter fun i => vacant (t i)).card

section Vacancies
variable {ε : Type} {vacant : ε → Prop} [DecidablePred vacant] {n i : Nat} {t t' : Nat → ε} {e : ε}

theorem vacancies_pos (hi : i < n) (h : vacant (t i)) : 0 < vacancies vacant n t :=
  Finset.card_pos.mpr ⟨i, Finset.mem_filter.mpr ⟨Finset.mem_range.mpr hi, h⟩⟩

theorem exists_vacant (h : 0 < vacancies vacant n t) : ∃ i < n, vacant (t i) := by
  obtain ⟨i, hi⟩ := Finset.card_pos.mp h
  rw [Finset.mem_filter, Finset.mem_range] at hi
  exact ⟨i, hi⟩

theorem vacancies_take (hi : i < n) (h : vacant (t i)) (he : ¬vacant e) :
    vacancies vacant n (Function.update t i e) = vacancies vacant n t - 1 := by
  have hset : ((Finset.range n).filter fun j => vacant (Function.update t i e j)) =
      ((Finset.range n).filter fun j => vacant (t j)).erase i := by
    ext j
    rw [Finset.mem_erase, Finset.mem_filter, Finset.mem_filter]
    by_cases hji : j = i
    · subst hji
      rw [Function.update_self]
      tauto
    · rw [Function.update_of_ne hji]
      tauto
  unfold vacancies
  rw [hset, Finset.card_erase_of_mem (Finset.mem_filter.mpr ⟨Finset.mem_range.mpr hi, h⟩)]

theorem vacancies_give (hi : i < n) (h : ¬vacant (t i)) (he : vacant e) :
    vacancies vacant n (Function.update t i e) = vacancies vacant n t + 1 := by
  have hset : ((Finset.range n).filter fun j => vacant (Function.update t i e j)) =
      insert i ((Finset.range n).filter fun j => vacant (t j)) := by
    ext j
    rw [Finset.mem_insert, Finset.mem_filter, Finset.mem_filter]
    by_cases hji : j = i
    · subst hji
      rw [Function.update_self, Finset.mem_range]
      tauto
    · rw [Function.update_of_ne hji]
      tauto
  have hout : i ∉ (Finset.range n).filter fun j => vacant (t j) := fun hmem => h (Finset.mem_filter.mp hmem).2
  unfold vacancies
  rw [hset, Finset.card_insert_of_notMem hout]

theorem vacancies_keep (h : ¬vacant (t i)) (he : ¬vacant e) :
    vacancies vacant n (Function.update t i e) = vacancies vacant n t := by
  unfold vacancies
  refine congrArg Finset.card (Finset.filter_congr fun j _ => ?_)
  by_cases hji : j = i
  · subst hji
    rw [Function.update_self]
    tauto
  · rw [Function.update_of_ne hji]

end Vacancies
end ZenovOS
