import ZenovOS.Process.Lifecycle

/-! # Keys, pids and the objects that they find -/

namespace ZenovOS.Process
open Lifecycle

theorem encodePid_injective {slot slot' : Fin objectCapacity} {g g' : UInt16} (hg : g ≠ 0) (hg' : g' ≠ 0)
    (h : encodePid slot g = encodePid slot' g') : slot = slot' ∧ g = g' := by
  unfold encodePid at h
  rw [if_neg hg, if_neg hg'] at h
  have hpos : 0 < g.toNat := Nat.pos_of_ne_zero fun h => hg (UInt16.toNat_inj.mp h)
  have hpos' : 0 < g'.toNat := Nat.pos_of_ne_zero fun h => hg' (UInt16.toNat_inj.mp h)
  have hlt : slot.val < 16 := slot.isLt
  have hlt' : slot'.val < 16 := slot'.isLt
  exact ⟨Fin.ext (by omega), UInt16.toNat_inj.mp (by omega)⟩

theorem nextGeneration_ne_zero (g : UInt16) : nextGeneration g ≠ 0 := by
  unfold nextGeneration
  split
  · decide
  · assumption

namespace Lifecycle
variable {l : Lifecycle} {key : ObjectKey} {o : Object}

theorem find_some (h : l.find key = some o) :
    key.generation ≠ 0 ∧ o = l.objects key.slot ∧ o.used = true ∧ o.generation = key.generation := by
  unfold find at h
  split at h
  · cases h
  split at h
  · rename_i hg hu
    cases h
    rw [Bool.and_eq_true, decide_eq_true_eq] at hu
    exact ⟨hg, rfl, hu⟩
  · cases h

theorem find_of_used (hu : (l.objects key.slot).used = true) (hg : (l.objects key.slot).generation = key.generation)
    (hne : key.generation ≠ 0) : l.find key = some (l.objects key.slot) := by
  unfold find
  rw [if_neg hne, if_pos (by simp [hu, hg])]

end Lifecycle
end ZenovOS.Process
