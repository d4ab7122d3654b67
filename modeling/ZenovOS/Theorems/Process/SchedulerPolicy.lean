import ZenovOS.Lib.Ranking
import ZenovOS.Process.SchedulerPolicy

/-! # Which task is next

`select` takes the first ready task of the highest priority, in the order of the indices behind the current one and around to it. -/

namespace ZenovOS.Process.SchedulerPolicy

variable {count : Nat} {candidates : Fin count → Candidate} {current : Option (Fin count)} {i j : Fin count}

/-- The number of steps from the current index around to `i`, at least one. -/
def stepsTo (current : Option (Fin count)) (i : Fin count) : Nat :=
  if position current < i.val then (i.val - position current).toNat else (count + i.val - position current).toNat

theorem position_bounds (current : Option (Fin count)) : -1 ≤ position current ∧ position current < count := by
  cases current with
  | none => exact ⟨le_refl _, show (-1 : Int) < count by omega⟩
  | some index => exact ⟨show (-1 : Int) ≤ index.val by omega, show (index.val : Int) < count by omega⟩

theorem stepsTo_bounds (current : Option (Fin count)) (i : Fin count) : 1 ≤ stepsTo current i ∧ stepsTo current i ≤ count := by
  have hp := position_bounds current
  have hi := i.isLt
  unfold stepsTo
  split <;> omega

/-- `sizeof(Candidate)` -/
abbrev candidateSize : Nat := 8

/-- The round of the loop that looks at `i`. -/
def round (current : Option (Fin count)) (i : Fin count) : Fin count :=
  ⟨stepsTo current i - 1, by have := stepsTo_bounds current i; omega⟩

theorem indexAt_round (current : Option (Fin count)) (i : Fin count) : indexAt current (round current i) = i := by
  have hp := position_bounds current
  have hi := i.isLt
  have hbounds := stepsTo_bounds current i
  apply Fin.ext
  show ((position current + (((stepsTo current i - 1 : Nat) : Int) + 1) + count) % count).toNat = i.val
  have hcast : ((stepsTo current i - 1 : Nat) : Int) + 1 = stepsTo current i := by omega
  rw [hcast]
  unfold stepsTo
  split
  · have heq : position current + ((i.val - position current).toNat : Int) + count = i.val + count * 1 := by omega
    rw [heq, Int.add_mul_emod_self_left, Int.emod_eq_of_lt (by omega) (by omega), Int.toNat_natCast]
  · have heq : position current + ((count + i.val - position current).toNat : Int) + count = i.val + count * 2 := by omega
    rw [heq, Int.add_mul_emod_self_left, Int.emod_eq_of_lt (by omega) (by omega), Int.toNat_natCast]

theorem stepsTo_injective (h : stepsTo current i = stepsTo current j) : i = j := by
  rw [← indexAt_round current i, ← indexAt_round current j, round, round]
  simp only [h]

theorem stepsTo_indexAt (current : Option (Fin count)) (distance : Fin count) :
    stepsTo current (indexAt current distance) = distance.val + 1 := by
  have hp := position_bounds current
  have hd := distance.isLt
  have hindex : ((indexAt current distance).val : Int) = (position current + (distance.val + 1) + count) % count :=
    Int.toNat_of_nonneg (Int.emod_nonneg _ (by omega))
  unfold stepsTo
  by_cases hwrap : position current + (distance.val + 1) < count
  · have heq : position current + (distance.val + 1) + count = position current + (distance.val + 1) + count * 1 := by omega
    rw [heq, Int.add_mul_emod_self_left, Int.emod_eq_of_lt (by omega) hwrap] at hindex
    rw [if_pos (by omega)]
    omega
  · have heq : position current + (distance.val + 1) + count = position current + (distance.val + 1) - count + count * 2 := by omega
    rw [heq, Int.add_mul_emod_self_left, Int.emod_eq_of_lt (by omega) (by omega)] at hindex
    rw [if_neg (by omega)]
    omega

theorem rawIndex (current : Option (Fin count)) (distance : Fin count) :
    (position current + (distance.val + 1) + count).tmod count = (indexAt current distance).val := by
  have hp := position_bounds current
  have hpos : (0 : Int) < count := Int.natCast_pos.mpr distance.pos
  have hnonneg := Int.emod_nonneg (position current + (distance.val + 1) + count) hpos.ne'
  rw [Int.tmod_eq_emod_of_nonneg (by omega)]
  exact (Int.toNat_of_nonneg hnonneg).symm

/-- The indices in the order in which the loop looks at them. -/
abbrev scan (current : Option (Fin count)) : List (Fin count) := (List.finRange count).map (indexAt current)

theorem getElem?_scan (current : Option (Fin count)) (i : Fin count) : (scan current)[stepsTo current i - 1]? = some i := by
  have hbounds := stepsTo_bounds current i
  have hlt : stepsTo current i - 1 < count := by omega
  rw [scan, List.getElem?_map, List.getElem?_eq_getElem (by rw [List.length_finRange]; exact hlt), List.getElem_finRange]
  exact congrArg some (indexAt_round current i)

theorem stepsTo_of_getElem? {k : Nat} (h : (scan current)[k]? = some i) : stepsTo current i = k + 1 := by
  rw [scan, List.getElem?_map] at h
  obtain ⟨distance, hdistance, rfl⟩ := Option.map_eq_some_iff.mp h
  obtain ⟨hk, hget⟩ := List.getElem?_eq_some_iff.mp hdistance
  rw [stepsTo_indexAt, ← hget, List.getElem_finRange]
  rfl

theorem mem_scan (current : Option (Fin count)) (i : Fin count) : i ∈ scan current := List.mem_of_getElem? (getElem?_scan current i)

/-! ### The search -/

/-- The search that `select` is. -/
abbrev search (candidates : Fin count → Candidate) : Option (Fin count) → Fin count → Option (Fin count) :=
  Search.keepFirst (fun i => (candidates i).ready) fun i => (candidates i).dynamicPriority.toNat

theorem select_eq (candidates : Fin count → Candidate) (current : Option (Fin count)) :
    select candidates current = (scan current).foldl (search candidates) none := by
  have hstep : ∀ found index, selectIndex candidates (Option.map (fun i => (i, (candidates i).dynamicPriority)) found) index =
      (search candidates found index).map fun i => (i, (candidates i).dynamicPriority) := by
    intro found index
    simp only [selectIndex, search, Search.keepFirst]
    cases (candidates index).ready with
    | false => rfl
    | true =>
      cases found with
      | none => rfl
      | some best =>
        simp only [Option.map_some, Bool.not_true, Bool.false_eq_true, if_false, UInt8.lt_iff_toNat_lt]
        split <;> rfl
  have hrun := @List.foldl_hom _ _ _ (Option.map fun i => (i, (candidates i).dynamicPriority)) _ _ (scan current) none hstep
  rw [Option.map_none] at hrun
  rw [select, hrun, Option.map_map]
  exact Option.map_id'

theorem firstBest_scan (h : Search.FirstBest (fun i => (candidates i).ready) (fun i => (candidates i).dynamicPriority.toNat) (scan current) i)
    (hj : (candidates j).ready = true) :
    (candidates j).dynamicPriority ≤ (candidates i).dynamicPriority ∧
      ((candidates j).dynamicPriority = (candidates i).dynamicPriority → stepsTo current i ≤ stepsTo current j) := by
  refine ⟨UInt8.le_iff_toNat_le.mpr (h.le (mem_scan current j) hj), fun heq => ?_⟩
  obtain ⟨-, before, after, hscan, hbefore, -⟩ := h
  have hi : stepsTo current i = before.length + 1 :=
    stepsTo_of_getElem? (by rw [hscan, List.getElem?_append_right (le_refl _), Nat.sub_self, List.getElem?_cons_zero])
  by_contra hlt
  have hmem : j ∈ before := by
    have hget := getElem?_scan current j
    rw [hscan, List.getElem?_append_left (by have := stepsTo_bounds current j; omega)] at hget
    exact List.mem_of_getElem? hget
  exact absurd (congrArg UInt8.toNat heq) (ne_of_lt (hbefore j hmem hj))

/-- No task is selected when none is ready, and otherwise the ready task of the highest priority with the fewest steps behind the current
one, which is itself the last; each index that the source computes is one of the array, and for an array in an address space of 32 bits the
sum is an `int`. -/
theorem select_iff (candidates : Fin count → Candidate) (current : Option (Fin count)) :
    (select candidates current = none ↔ ∀ i, (candidates i).ready = false) ∧
    (∀ i, select candidates current = some i ↔ (candidates i).ready = true ∧ ∀ j, (candidates j).ready = true →
      (candidates j).dynamicPriority ≤ (candidates i).dynamicPriority ∧
        ((candidates j).dynamicPriority = (candidates i).dynamicPriority → stepsTo current i ≤ stepsTo current j)) ∧
    ∀ distance : Fin count, (position current + (distance.val + 1) + count).tmod count = (indexAt current distance).val ∧
      (candidateSize * count ≤ 2 ^ 32 → position current + (distance.val + 1) + count < 2 ^ 31) := by
  have hfold := Search.foldl_keepFirst (fun i => (candidates i).ready) (fun i => (candidates i).dynamicPriority.toNat) (scan current)
  rw [← select_eq] at hfold
  refine ⟨⟨fun h i => ?_, fun h => ?_⟩, fun i => ⟨fun h => ?_, fun h => ?_⟩, fun distance => ⟨rawIndex current distance, ?_⟩⟩
  · rw [h] at hfold
    exact hfold i (mem_scan current i)
  · cases hs : select candidates current with
    | none => rfl
    | some i =>
      rw [hs] at hfold
      exact absurd ((h i).symm.trans hfold.1) Bool.false_ne_true
  · rw [h] at hfold
    exact ⟨hfold.1, fun j hj => firstBest_scan hfold hj⟩
  · obtain ⟨hi, hbest⟩ := h
    cases hs : select candidates current with
    | none =>
      rw [hs] at hfold
      exact absurd ((hfold i (mem_scan current i)).symm.trans hi) Bool.false_ne_true
    | some k =>
      rw [hs] at hfold
      obtain ⟨hle, hsteps⟩ := hbest k hfold.1
      obtain ⟨hle', hsteps'⟩ := firstBest_scan hfold hi
      have heq := UInt8.le_antisymm hle hle'
      exact congrArg some (stepsTo_injective (Nat.le_antisymm (hsteps' heq.symm) (hsteps heq)))
  · intro hsize
    have hp := position_bounds current
    have hd := distance.isLt
    unfold candidateSize at hsize
    omega

end ZenovOS.Process.SchedulerPolicy
