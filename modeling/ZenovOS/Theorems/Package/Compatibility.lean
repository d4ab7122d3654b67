import ZenovOS.Theorems.Process.Loader

/-! # What the compatibility check promises

A file that the check finds runnable is loaded. -/

namespace ZenovOS.Package.Compatibility
open Process Memory Memory.Paging Security

theorem check_runnable {d : Detectors} {file path : Bytes} (h : (check d file path).verdict = .runnableSandbox) :
    ∃ layout, LinuxI386Elf.validate file stackBase Pmm.pageSize = some layout := by
  have hinspected : ∀ format platform valid accepted refused, (inspected format platform valid accepted refused).verdict ≠ .runnableSandbox := by
    intro format platform valid accepted refused
    cases valid <;> exact Verdict.noConfusion
  unfold check at h
  dsimp only at h
  split at h
  · have hsome : (LinuxI386Elf.validate file 0x000fc000 4096).isSome = true := by
      by_contra hnone
      rw [Bool.not_eq_true] at hnone
      rw [hnone] at h
      cases h
    exact Option.isSome_iff_exists.mp hsome
  · exact absurd h (hinspected _ _ _ _ _)
  · exact absurd h (hinspected _ _ _ _ _)
  · exact absurd h (hinspected _ _ _ _ _)
  · exact absurd h (hinspected _ _ _ _ _)
  · cases h

/-- Where the check says that a file is runnable and there are frames for its pages, the loader succeeds, and the image is
    in the window as the file says; the entry point is in an executable segment and cannot be written. -/
theorem runnable_loads (d : Detectors) (file path : Bytes) (s : Paging) (hs : Reached s)
    (hcheck : (check d file path).verdict = .runnableSandbox)
    (hframes : ∀ bias, linuxI386StaticLayout file = some bias → s.Enough (framesNeeded bias (programHeaders file))) :
    ∃ bias s', linuxI386StaticLayout file = some bias ∧ loadLinuxI386 file s = (some (some (u32 file 24 - bias, bias)), s') ∧
      Loaded file bias (programHeaders file) s' ∧ Process.EntersAt (u32 file 24) bias (programHeaders file) s' := by
  obtain ⟨layout, hvalid⟩ := check_runnable hcheck
  obtain ⟨p, own, hsound⟩ := hs.sound
  have hbias : linuxI386StaticLayout file = some layout.imageBias := by
    unfold linuxI386StaticLayout
    rw [hvalid, Option.map_some]
  obtain ⟨s', hload, hloaded, henters⟩ := loadLinuxI386_runnable hsound (runnable_of_validate hvalid) hvalid (hframes _ hbias)
  exact ⟨layout.imageBias, s', hbias, hload, hloaded, henters⟩

/-- An ELF file with one segment, which is executable and takes eight bytes of memory for four of the file. -/
def smallElf : Bytes :=
  [0x7F, 69, 76, 70, 1, 1, 1, 0, 0, 0, 0, 0, 0, 0, 0, 0] ++ Bytes.le 2 2 ++ Bytes.le 2 3 ++ Bytes.le 4 1 ++ Bytes.le 4 0x08048000 ++
    Bytes.le 4 52 ++ Bytes.le 4 0 ++ Bytes.le 4 0 ++ Bytes.le 2 52 ++ Bytes.le 2 32 ++ Bytes.le 2 1 ++ Bytes.le 2 0 ++ Bytes.le 2 0 ++ Bytes.le 2 0 ++
    Bytes.le 4 1 ++ Bytes.le 4 84 ++ Bytes.le 4 0x08048000 ++ Bytes.le 4 0x08048000 ++ Bytes.le 4 4 ++ Bytes.le 4 8 ++ Bytes.le 4 5 ++ Bytes.le 4 1 ++
    [0x90, 0x90, 0xCD, 0x80]

/-- Detectors that know the signature of this file. -/
def elfDetectors : Detectors where
  classify file _ := if Bytes.slice file 0 4 = [0x7F, 69, 76, 70] then .elf else .unknown
  validatePe32 _ := false
  validatePsxExe _ := false
  validatePs2Elf _ := false
  validateXbe _ := false

def smallState : Paging := [Op.create 0, .activate (some 0)].foldl apply (fresh (Pmm.init sixteenFrames) fun _ _ => 0)

theorem reached_smallState : Reached smallState :=
  .call (.call (.fresh .init fun _ _ => 0) (.create 0)) (.activate (some 0))

theorem runnable_loads_sample :
    ∃ bias s', linuxI386StaticLayout smallElf = some bias ∧
      loadLinuxI386 smallElf smallState = (some (some (u32 smallElf 24 - bias, bias)), s') ∧
      Loaded smallElf bias (programHeaders smallElf) s' ∧ Process.EntersAt (u32 smallElf 24) bias (programHeaders smallElf) s' := by
  refine runnable_loads elfDetectors smallElf [] smallState reached_smallState (by decide +kernel) fun bias hbias => ?_
  have hknown : linuxI386StaticLayout smallElf = some 0x08048000 := by decide +kernel
  obtain rfl := Option.some.inj (hknown.symm.trans hbias)
  have hroom : framesNeeded 0x08048000 (programHeaders smallElf) ≤ smallState.clearUser.pmm.availableFrames := by decide +kernel
  exact fun _ => hroom

end ZenovOS.Package.Compatibility
