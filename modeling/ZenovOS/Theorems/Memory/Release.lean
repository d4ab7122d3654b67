import ZenovOS.Theorems.Memory.Frames

/-! # What `free_frame` takes back

`free_frame` is called with any address. The bit of a frame that is outstanding is the one of a frame that the memory map does
not make usable, so `free_frame` takes either. -/

namespace ZenovOS.Memory.Pmm
open Bitmap

variable {boot : BootInfo} {p : Pmm} {outstanding : List Nat} {address f : Nat}

/-- The address of a frame that lies where frames may be handed out, and that the memory map does not make usable. -/
structure Reserved (boot : BootInfo) (address : Nat) : Prop where
  frame : ∃ f, address = f * pageSize ∧ Managed f ∧ ¬boot.Usable f

/-- The call is not about a reserved frame, or the allocator is off. -/
def Spares (boot : BootInfo) (p : Pmm) (address : Nat) : Prop := p.initialized = false ∨ ¬Reserved boot address

/-- Calls of `allocate_frame` and `free_frame` after `init`, with the frames that are outstanding. -/
inductive Calls (boot : BootInfo) : Pmm → List Nat → Prop
  | init : Calls boot (init boot) []
  | allocate {p : Pmm} {outstanding : List Nat} : Calls boot p outstanding →
      Calls boot p.allocateFrame.1 (if p.allocateFrame.2 = 0 then outstanding else p.allocateFrame.2 :: outstanding)
  | free {p : Pmm} {outstanding : List Nat} (address : Nat) : Calls boot p outstanding → Spares boot p address →
      Calls boot (p.freeFrame address).1 (if (p.freeFrame address).2 = true then outstanding.erase address else outstanding)

/-- `free_frame` takes a frame back exactly when it is outstanding, any other call changes nothing, and what may be handed out
    afterwards is usable. -/
structure FreeLaw (boot : BootInfo) (p : Pmm) (outstanding : List Nat) (address : Nat) : Prop where
  exact : (p.freeFrame address).2 = true ↔ address % pageSize = 0 ∧ address ∈ outstanding
  unchanged : address ∉ outstanding → (p.freeFrame address).1 = p
  allocatable : ∀ f, (p.freeFrame address).1.isUsed f = false → boot.Usable f

theorem freeFrame_off (h : p.initialized = false) (address : Nat) : p.freeFrame address = (p, false) := if_pos (.inl (by rw [h]; rfl))

/-- An address that `free_frame` looks up in the bitmap is the address of a managed frame. -/
theorem managed_of_looked (h : p.freeFrame address ≠ (p, false)) : ∃ f, address = f * pageSize ∧ Managed f := by
  unfold freeFrame at h
  split at h
  · exact absurd rfl h
  rename_i hguard
  obtain ⟨-, habove, hbelow, hhole, hlow⟩ : p.initialized = true ∧ reservedEnd ≤ address ∧ address < managedLimit ∧
      inHole address = false ∧ address &&& 4095 = 0 := by
    simpa using hguard
  have haligned : address % 4096 = 0 := (and_page address).symm.trans hlow
  have hframe : address = address / pageSize * pageSize := (Nat.div_mul_cancel (Nat.dvd_of_mod_eq_zero haligned)).symm
  refine ⟨address / pageSize, hframe, by rw [← hframe]; exact habove, ?_, by rw [← hframe]; exact hhole⟩
  show (address / 4096 + 1) * 4096 ≤ 0x8000000
  have hbelow : address < 0x8000000 := hbelow
  omega

/-- A reserved frame's bit is the one of a frame that is handed out: `free_frame` makes the frame available. -/
theorem freeFrame_reserved (h : Books boot p outstanding) (hinit : p.initialized = true) (hm : Managed f) (hf : ¬boot.Usable f) :
    p.freeFrame (f * pageSize) = ({ p.openFrame f with allocatedFrames := p.allocatedFrames - 1 }, true) := by
  refine freeFrame_eq hinit hm ?_
  by_contra hclear
  exact hf ((h.bits f).mp (Bool.eq_false_iff.mpr hclear)).1

theorem Books.usable (h : Books boot p outstanding) (hf : p.isUsed f = false) : boot.Usable f := ((h.bits f).mp hf).1

theorem freeFrame_spared (h : Books boot p outstanding) (hspares : Spares boot p address) (hnot : address ∉ outstanding) :
    p.freeFrame address = (p, false) := by
  rcases hspares with hoff | hspared
  · exact freeFrame_off hoff address
  by_contra hlooked
  obtain ⟨f, rfl, hm⟩ := managed_of_looked hlooked
  have husable : boot.Usable f := not_not.mp fun hf => hspared ⟨f, rfl, hm, hf⟩
  exact hlooked (freeFrame_clear ((h.bits f).mpr ⟨husable, hnot⟩))

theorem Books.freeLaw (h : Books boot p outstanding) (hspares : Spares boot p address) : FreeLaw boot p outstanding address := by
  by_cases hmem : address ∈ outstanding
  · obtain ⟨htrue, hnext⟩ := books_freeFrame h hmem
    obtain ⟨f, hframe, -⟩ := h.frames address hmem
    have haligned : address % pageSize = 0 := by rw [hframe]; exact Nat.mul_mod_left f pageSize
    exact ⟨⟨fun _ => ⟨haligned, hmem⟩, fun _ => htrue⟩, fun hnot => absurd hmem hnot, fun _ hf => hnext.usable hf⟩
  · have hnone := freeFrame_spared h hspares hmem
    refine ⟨⟨fun htrue => ?_, fun hboth => absurd hboth.2 hmem⟩, fun _ => by rw [hnone], fun f hf => ?_⟩
    · rw [hnone] at htrue
      cases htrue
    · rw [hnone] at hf
      exact h.usable hf

theorem books_calls (hc : Calls boot p outstanding) : Books boot p outstanding := by
  induction hc with
  | init => exact books_init boot
  | @allocate p outstanding _ ih =>
    rcases allocateFrame_spec ih.counted with ⟨hnone, -⟩ | ⟨f, hinit, hf, hsome⟩
    · rw [hnone]
      exact ih
    · have hbounds := (ih.counted.managed f hf).bounds
      rw [hsome, if_neg (Nat.mul_ne_zero (by omega) (by decide))]
      exact books_takeFrame ih hinit hf
  | @free p outstanding address _ hspares ih =>
    by_cases hmem : address ∈ outstanding
    · obtain ⟨htrue, hnext⟩ := books_freeFrame ih hmem
      rw [if_pos htrue]
      exact hnext
    · rw [freeFrame_spared ih hspares hmem]
      exact ih

/-- In a run that frees no reserved frame: a call is right exactly if it is not about a reserved frame, or the allocator is
    off. -/
theorem calls_freeLaw_iff (boot : BootInfo) (p : Pmm) (outstanding : List Nat) (hc : Calls boot p outstanding) (address : Nat) :
    FreeLaw boot p outstanding address ↔ Spares boot p address := by
  have h := books_calls hc
  refine ⟨fun hlaw => ?_, fun hspares => h.freeLaw hspares⟩
  unfold Spares
  by_cases hinit : p.initialized = true
  · refine .inr fun ⟨f, hframe, hm, hf⟩ => hf ?_
    subst hframe
    refine hlaw.allocatable f ?_
    rw [freeFrame_reserved h hinit hm hf]
    show (p.openFrame f).isUsed f = false
    rw [isUsed_openFrame]
    simp
  · exact .inl (Bool.eq_false_iff.mpr hinit)

/-- A memory map of 16 frames, behind which there is nothing. -/
def sixteenFrames : BootInfo := ⟨bootMagic, [⟨0x00C00000, 0, 0x10000, 0, 1⟩]⟩

theorem calls_freeLaw_sample :
    FreeLaw sixteenFrames (init sixteenFrames) [] 0x00C00000 ↔ Spares sixteenFrames (init sixteenFrames) 0x00C00000 :=
  calls_freeLaw_iff sixteenFrames (init sixteenFrames) [] .init 0x00C00000

/-- A frame that is not there becomes available. -/
theorem freeFrame_absent :
    Calls sixteenFrames (init sixteenFrames) [] ∧ ((init sixteenFrames).freeFrame 0x00D00000).2 = true ∧
      ¬FreeLaw sixteenFrames (init sixteenFrames) [] 0x00D00000 := by
  have hinit : (init sixteenFrames).initialized = true := by decide +kernel
  have hm : Managed 0xD00 := ⟨by decide, by decide, by decide⟩
  have hf : ¬sixteenFrames.Usable 0xD00 := by
    rintro ⟨-, -, e, he, hholds⟩
    obtain rfl := List.mem_singleton.mp he
    exact absurd hholds.ends (by decide)
  have htrue : ((init sixteenFrames).freeFrame 0x00D00000).2 = true :=
    congrArg Prod.snd (freeFrame_reserved (books_init sixteenFrames) hinit hm hf)
  exact ⟨.init, htrue, fun hlaw => List.not_mem_nil (hlaw.exact.mp htrue).2⟩

end ZenovOS.Memory.Pmm
