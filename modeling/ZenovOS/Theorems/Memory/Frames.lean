import Mathlib.Data.List.Perm.Basic
import ZenovOS.Lib.Align
import ZenovOS.Memory.Frames

/-! # The frames of the allocator

The counters against the bits, what `init` makes of a memory map, and every run of `allocate_frame` and
`free_frame` after it. -/

namespace ZenovOS.Memory
open Bitmap Align

namespace Pmm

variable {p : Pmm} {f g : Nat}

/-- The frame lies where frames may be handed out. -/
structure Managed (f : Nat) : Prop where
  above : reservedEnd ≤ f * pageSize
  below : (f + 1) * pageSize ≤ managedLimit
  outside : inHole (f * pageSize) = false

theorem Managed.bounds (h : Managed f) : 2080 ≤ f ∧ f < 32768 := by
  have habove : 0x820000 ≤ f * 4096 := h.above
  have hbelow : (f + 1) * 4096 ≤ 0x8000000 := h.below
  omega

/-- The counter of the available frames counts the clear bits, and these lie where they may. -/
structure Counted (p : Pmm) : Prop where
  available : p.availableFrames = clearCount p.frameBitmap frameCount
  managed : ∀ f, p.isUsed f = false → Managed f

theorem isUsed_takeFrame : (p.takeFrame f).isUsed g = (decide (g = f) || p.isUsed g) := test_set (by decide)

theorem isUsed_openFrame : (p.openFrame f).isUsed g = (decide (g ≠ f) && p.isUsed g) := test_clear (by decide)

theorem Counted.lt (h : Counted p) (hf : p.isUsed f = false) : f < frameCount := (h.managed f hf).bounds.2

theorem Counted.pos (h : Counted p) (hf : p.isUsed f = false) : 0 < p.availableFrames := by
  rw [h.available]
  exact clearCount_pos (h.lt hf) hf

theorem counted_takeFrame (h : Counted p) (hf : p.isUsed f = false) : Counted (p.takeFrame f) where
  available := by
    have hcount := clearCount_set (by decide) (h.lt hf) hf
    show p.availableFrames - 1 = clearCount (set p.frameBitmap f) frameCount
    rw [h.available]
    omega
  managed g hg := by
    rw [isUsed_takeFrame, Bool.or_eq_false_iff] at hg
    exact h.managed g hg.2

theorem counted_openFrame (h : Counted p) (hf : p.isUsed f = true) (hm : Managed f) : Counted (p.openFrame f) where
  available := by
    have hcount := clearCount_clear (by decide) (show f < frameCount from hm.bounds.2) hf
    show p.availableFrames + 1 = clearCount (clear p.frameBitmap f) frameCount
    rw [hcount, h.available]
  managed g hg := by
    rw [isUsed_openFrame, Bool.and_eq_false_iff, decide_eq_false_iff_not, not_not] at hg
    rcases hg with rfl | hg
    · exact hm
    · exact h.managed g hg

/-! ### The memory map -/

theorem page_pos : 0 < 4096 := Nat.zero_lt_of_ne_zero (by decide)

theorem alignDown_eq {value : Nat} (h : value < 2 ^ 32) : alignDown value = value / 4096 * 4096 :=
  and_mask (k := 12) h (by decide)

theorem alignUp_eq {value : Nat} (h : value + 4096 ≤ 2 ^ 32) : alignUp value = roundUp value 4096 := by
  have hlt : value + 4096 - 1 < 2 ^ 32 := by omega
  have hmask := and_mask (k := 12) hlt (by decide)
  unfold alignUp
  rw [Nat.mod_eq_of_lt hlt]
  exact hmask

theorem releaseFrom_spec {stop left k : Nat} (h : Counted p) (hstop : 4096 ∣ stop) (hlimit : stop ≤ managedLimit)
    (hstart : reservedEnd ≤ k * 4096) (hleft : stop ≤ (k + left) * 4096) :
    Counted (releaseFrom stop left (k * 4096) p) ∧
      (∀ f, (releaseFrom stop left (k * 4096) p).isUsed f = false ↔
        p.isUsed f = false ∨ k ≤ f ∧ (f + 1) * 4096 ≤ stop ∧ inHole (f * 4096) = false) ∧
      (releaseFrom stop left (k * 4096) p).allocatedFrames = p.allocatedFrames := by
  obtain ⟨n, rfl⟩ := hstop
  induction left generalizing p k with
  | zero =>
    refine ⟨h, fun f => ⟨.inl, ?_⟩, rfl⟩
    rintro (hf | ⟨hk, hle, -⟩)
    · exact hf
    · omega
  | succ left ih =>
    have hnext : k * 4096 + pageSize = (k + 1) * 4096 := by
      show k * 4096 + 4096 = _
      omega
    have hstart' : reservedEnd ≤ (k + 1) * 4096 := Nat.le_trans hstart (by omega)
    have hleft' : 4096 * n ≤ (k + 1 + left) * 4096 := by
      rw [Nat.add_assoc, Nat.add_comm 1 left]
      exact hleft
    unfold releaseFrom
    rw [hnext]
    split
    · rename_i hlt
      split
      · -- the hole is passed over
        rename_i hhole
        obtain ⟨hcounted, hbits, hallocated⟩ := ih h hstart' hleft'
        refine ⟨hcounted, fun f => (hbits f).trans (or_congr_right ⟨?_, ?_⟩), hallocated⟩
        · rintro ⟨hk, hle, hout⟩
          exact ⟨by omega, hle, hout⟩
        · rintro ⟨hk, hle, hout⟩
          have hne : k ≠ f := by
            rintro rfl
            rw [hhole] at hout
            cases hout
          exact ⟨by omega, hle, hout⟩
      · rename_i hhole
        have hframe : k * 4096 / pageSize = k := Nat.mul_div_cancel k page_pos
        have hm : Managed k := ⟨hstart, by show (k + 1) * 4096 ≤ _; omega, Bool.eq_false_iff.mpr hhole⟩
        dsimp only
        rw [hframe]
        have hopened : Counted (if p.isUsed k then p.openFrame k else p) ∧
            (∀ f, (if p.isUsed k then p.openFrame k else p).isUsed f = false ↔ p.isUsed f = false ∨ f = k) ∧
            (if p.isUsed k then p.openFrame k else p).allocatedFrames = p.allocatedFrames := by
          split
          · rename_i hused
            refine ⟨counted_openFrame h hused hm, fun f => ?_, rfl⟩
            rw [isUsed_openFrame, Bool.and_eq_false_iff, decide_eq_false_iff_not, not_not, or_comm]
          · rename_i hused
            refine ⟨h, fun f => ⟨.inl, ?_⟩, rfl⟩
            rintro (hf | rfl)
            · exact hf
            · exact Bool.eq_false_iff.mpr hused
        obtain ⟨hcounted, hbits, hallocated⟩ := ih hopened.1 hstart' hleft'
        refine ⟨hcounted, fun f => ?_, hallocated.trans hopened.2.2⟩
        rw [hbits, hopened.2.1, or_assoc]
        refine or_congr_right ⟨?_, ?_⟩
        · rintro (rfl | ⟨hk, hle, hout⟩)
          · exact ⟨Nat.le_refl _, by omega, hm.outside⟩
          · exact ⟨by omega, hle, hout⟩
        · rintro ⟨hk, hle, hout⟩
          rcases Nat.eq_or_lt_of_le hk with rfl | hk
          · exact .inl rfl
          · exact .inr ⟨hk, hle, hout⟩
    · refine ⟨h, fun f => ⟨.inl, ?_⟩, rfl⟩
      rintro (hf | ⟨hk, hle, -⟩)
      · exact hf
      · omega

theorem first_frame {start : Nat} (h : start < managedLimit) :
    ∃ k, (if alignUp start < reservedEnd then reservedEnd else alignUp start) = k * 4096 ∧ reservedEnd ≤ k * 4096 ∧
      ∀ f, k ≤ f ↔ start ≤ f * 4096 ∧ reservedEnd ≤ f * 4096 := by
  have hlt : start < 0x8000000 := h
  have hreserved : reservedEnd = 2080 * 4096 := rfl
  have hup : alignUp start = roundUp start 4096 := alignUp_eq (by omega)
  have hle := le_roundUp (x := start) page_pos
  obtain ⟨n, hn⟩ := dvd_roundUp (x := start) (a := 4096)
  have hleast : ∀ f, start ≤ f * 4096 → n ≤ f := by
    intro f hf
    have hround := roundUp_le page_pos (Nat.dvd_mul_left 4096 f) hf
    omega
  rw [hup, hn, hreserved]
  split
  · rename_i hbelow
    refine ⟨2080, rfl, Nat.le_refl _, fun f => ⟨fun hf => ⟨by omega, by omega⟩, fun hf => by omega⟩⟩
  · rename_i hbelow
    refine ⟨n, Nat.mul_comm _ _, by omega, fun f => ⟨fun hf => ⟨by omega, by omega⟩, fun hf => hleast f hf.1⟩⟩

theorem last_frame (stop : Nat) :
    ∃ n, alignDown (if managedLimit < stop then managedLimit else stop) = 4096 * n ∧ 4096 * n ≤ managedLimit ∧
      ∀ f, (f + 1) * 4096 ≤ 4096 * n ↔ (f + 1) * 4096 ≤ stop ∧ (f + 1) * 4096 ≤ managedLimit := by
  have hlimit : managedLimit = 32768 * 4096 := rfl
  rw [hlimit]
  split
  · rename_i hbelow
    exact ⟨32768, rfl, Nat.le_refl _, fun f => ⟨fun hf => ⟨by omega, by omega⟩, fun hf => by omega⟩⟩
  · rename_i hbelow
    rw [alignDown_eq (by omega)]
    exact ⟨stop / 4096, Nat.mul_comm _ _, by omega, fun f => ⟨fun hf => ⟨by omega, by omega⟩, fun hf => by omega⟩⟩

/-- What `release_usable_range` makes available: the frames that lie wholly in the range. -/
theorem releaseUsableRange_spec (h : Counted p) (start stop : Nat) :
    Counted (p.releaseUsableRange start stop) ∧
      (∀ f, (p.releaseUsableRange start stop).isUsed f = false ↔
        p.isUsed f = false ∨ Managed f ∧ start ≤ f * 4096 ∧ (f + 1) * 4096 ≤ stop) ∧
      (p.releaseUsableRange start stop).allocatedFrames = p.allocatedFrames := by
  unfold releaseUsableRange
  split
  · rename_i hout
    refine ⟨h, fun f => ⟨.inl, ?_⟩, rfl⟩
    rintro (hf | ⟨hm, hstart, hstop⟩)
    · exact hf
    · have hbelow : (f + 1) * 4096 ≤ managedLimit := hm.below
      omega
  · rename_i hin
    rw [not_or, Nat.not_le, Nat.not_le] at hin
    obtain ⟨k, hk, hreserved, hfirst⟩ := first_frame hin.2
    obtain ⟨n, hn, hlimit, hlast⟩ := last_frame stop
    have hwhole : managedLimit ≤ (k + frameCount) * 4096 := by
      show 0x8000000 ≤ (k + 32768) * 4096
      omega
    dsimp only
    rw [hk, hn]
    obtain ⟨hcounted, hbits, hallocated⟩ := releaseFrom_spec h (Nat.dvd_mul_right 4096 n) hlimit hreserved
      (Nat.le_trans hlimit hwhole)
    refine ⟨hcounted, fun f => (hbits f).trans (or_congr_right ?_), hallocated⟩
    rw [hfirst, hlast]
    constructor
    · rintro ⟨⟨hstart, habove⟩, ⟨hstop, hbelow⟩, hout⟩
      exact ⟨⟨habove, hbelow, hout⟩, hstart, hstop⟩
    · rintro ⟨hm, hstart, hstop⟩
      exact ⟨⟨hstart, hm.above⟩, ⟨hstop, hm.below⟩, hm.outside⟩

end Pmm

/-- The region's first byte, in 64 bits. -/
def E820Entry.base (e : E820Entry) : Nat := e.baseLow.toNat + 2 ^ 32 * e.baseHigh.toNat

def E820Entry.length (e : E820Entry) : Nat := e.lengthLow.toNat + 2 ^ 32 * e.lengthHigh.toNat

/-- The frame lies wholly in the region, which is usable memory. -/
structure E820Entry.Holds (e : E820Entry) (f : Nat) : Prop where
  type : e.type = 1
  starts : e.base ≤ f * Pmm.pageSize
  ends : (f + 1) * Pmm.pageSize ≤ e.base + e.length

/-- The frame lies wholly in a region of usable memory, where frames may be handed out. -/
structure BootInfo.Usable (boot : BootInfo) (f : Nat) : Prop where
  managed : Pmm.Managed f
  magic : boot.magic = bootMagic
  region : ∃ e ∈ boot.entries, e.Holds f

namespace Pmm
variable {p : Pmm} {f : Nat}

/-- Where a region ends, as `init` computes it, is where it ends below the limit. -/
theorem region_end {e : E820Entry} (hm : Managed f) (hhigh : e.baseHigh = 0) :
    (f + 1) * 4096 ≤ (if e.lengthHigh = 0 then
      if e.baseLow + e.lengthLow < e.baseLow then managedLimit else (e.baseLow + e.lengthLow).toNat else managedLimit) ↔
      (f + 1) * 4096 ≤ e.base + e.length := by
  have hbelow : (f + 1) * 4096 ≤ managedLimit := hm.below
  have hlimit : managedLimit = 0x8000000 := rfl
  have hb := e.baseLow.toNat_lt
  have hl := e.lengthLow.toNat_lt
  have hzero : (0 : UInt32).toNat = 0 := rfl
  unfold E820Entry.base E820Entry.length
  rw [hhigh, hzero, hlimit] at *
  split
  · rename_i hlength
    rw [hlength, hzero]
    split
    · rename_i hwrap
      rw [UInt32.lt_iff_toNat_lt, UInt32.toNat_add] at hwrap
      constructor
      · intro _
        omega
      · intro _
        exact hbelow
    · rename_i hwrap
      rw [UInt32.lt_iff_toNat_lt, UInt32.toNat_add] at hwrap
      rw [UInt32.toNat_add, Nat.mod_eq_of_lt (by omega)]
      exact Iff.of_eq (by congr 1)
  · rename_i hlength
    have hpos : e.lengthHigh.toNat ≠ 0 := fun he => hlength (UInt32.toNat.inj he)
    constructor
    · intro _
      omega
    · intro _
      exact hbelow

theorem releaseEntry_spec (h : Counted p) (e : E820Entry) :
    Counted (p.releaseEntry e) ∧
      (∀ f, (p.releaseEntry e).isUsed f = false ↔ p.isUsed f = false ∨ Managed f ∧ e.Holds f) ∧
      (p.releaseEntry e).allocatedFrames = p.allocatedFrames := by
  unfold releaseEntry
  split
  · rename_i hskip
    refine ⟨h, fun f => ⟨.inl, ?_⟩, rfl⟩
    rintro (hf | ⟨hm, hholds⟩)
    · exact hf
    · exfalso
      rcases hskip with htype | hhigh
      · exact htype hholds.type
      · have hpos : e.baseHigh.toNat ≠ 0 := fun he => hhigh (UInt32.toNat.inj he)
        have hstarts : e.baseLow.toNat + 2 ^ 32 * e.baseHigh.toNat ≤ f * 4096 := hholds.starts
        have hbounds := hm.bounds
        omega
  · rename_i hread
    simp only [not_or, ne_eq, not_not] at hread
    dsimp only
    obtain ⟨hcounted, hbits, hallocated⟩ := releaseUsableRange_spec h e.baseLow.toNat (if e.lengthHigh = 0 then
      if e.baseLow + e.lengthLow < e.baseLow then managedLimit else (e.baseLow + e.lengthLow).toNat else managedLimit)
    refine ⟨hcounted, fun f => (hbits f).trans (or_congr_right ?_), hallocated⟩
    have hbase : e.base = e.baseLow.toNat := by
      unfold E820Entry.base
      rw [hread.2]
      rfl
    constructor
    · rintro ⟨hm, hstart, hstop⟩
      exact ⟨hm, hread.1, by rw [hbase]; exact hstart, (region_end hm hread.2).mp hstop⟩
    · rintro ⟨hm, hholds⟩
      exact ⟨hm, by rw [← hbase]; exact hholds.starts, (region_end hm hread.2).mpr hholds.ends⟩

theorem releaseEntries_spec (h : Counted p) (entries : List E820Entry) :
    Counted (entries.foldl releaseEntry p) ∧
      (∀ f, (entries.foldl releaseEntry p).isUsed f = false ↔
        p.isUsed f = false ∨ Managed f ∧ ∃ e ∈ entries, e.Holds f) ∧
      (entries.foldl releaseEntry p).allocatedFrames = p.allocatedFrames := by
  induction entries generalizing p with
  | nil => exact ⟨h, fun f => by simp, rfl⟩
  | cons e entries ih =>
    obtain ⟨hcounted, hbits, hallocated⟩ := releaseEntry_spec h e
    obtain ⟨hcounted', hbits', hallocated'⟩ := ih hcounted
    refine ⟨hcounted', fun f => ?_, hallocated'.trans hallocated⟩
    rw [List.foldl_cons, hbits', hbits, or_assoc, ← and_or_left]
    simp

theorem load_spec (boot : BootInfo) :
    Counted (load boot) ∧ (∀ f, (load boot).isUsed f = false ↔ boot.Usable f) ∧ (load boot).allocatedFrames = 0 ∧
      ((load boot).initialized = true ↔ (load boot).availableFrames ≠ 0) := by
  have hones : ∀ f, Pmm.isUsed ⟨fun _ => 0xFFFFFFFF, 0, 0, false⟩ f = true := fun f => test_of_allOnes (by decide) rfl
  have hnew : Counted ⟨fun _ => 0xFFFFFFFF, 0, 0, false⟩ := by
    refine ⟨(clearCount_eq_zero fun f _ => hones f).symm, fun f hf => ?_⟩
    rw [hones] at hf
    cases hf
  unfold load
  dsimp only
  split
  · rename_i hmagic
    obtain ⟨hcounted, hbits, hallocated⟩ := releaseEntries_spec hnew boot.entries
    refine ⟨⟨hcounted.available, hcounted.managed⟩, fun f => (hbits f).trans ?_, hallocated, decide_eq_true_iff⟩
    rw [hones]
    constructor
    · rintro (hf | ⟨hm, hregion⟩)
      · cases hf
      · exact ⟨hm, hmagic, hregion⟩
    · rintro ⟨hm, -, hregion⟩
      exact .inr ⟨hm, hregion⟩
  · rename_i hmagic
    refine ⟨⟨hnew.available, hnew.managed⟩, fun f => ?_, rfl, by simp⟩
    show Pmm.isUsed ⟨fun _ => 0xFFFFFFFF, 0, 0, false⟩ f = false ↔ _
    rw [hones]
    exact ⟨fun hf => (Bool.noConfusion hf : False).elim, fun hu => absurd hu.magic hmagic⟩

/-! ### One call -/

theorem allocateFrom_spec (p : Pmm) (left word : Nat) :
    (allocateFrom p left word = (p, 0) ∧
      ∀ f, word * 32 ≤ f → f < (word + left) * 32 → f < frameCount → p.isUsed f = true) ∨
    ∃ f, p.isUsed f = false ∧ word * 32 ≤ f ∧ allocateFrom p left word = (p.takeFrame f, f * pageSize) := by
  induction left generalizing word with
  | zero => exact .inl ⟨rfl, fun f hf hlt => by omega⟩
  | succ left ih =>
    -- if this word has no clear bit, the rest of the words decides
    have hskip : (∀ f, word * 32 ≤ f → f < (word + 1) * 32 → f < frameCount → p.isUsed f = true) →
        allocateFrom p (left + 1) word = allocateFrom p left (word + 1) →
        (allocateFrom p (left + 1) word = (p, 0) ∧
          ∀ f, word * 32 ≤ f → f < (word + (left + 1)) * 32 → f < frameCount → p.isUsed f = true) ∨
        ∃ f, p.isUsed f = false ∧ word * 32 ≤ f ∧ allocateFrom p (left + 1) word = (p.takeFrame f, f * pageSize) := by
      intro hword heq
      rw [heq]
      rcases ih (word + 1) with ⟨hnone, hused⟩ | ⟨f, hf, hle, hsome⟩
      · refine .inl ⟨hnone, fun f hf hlt hcount => ?_⟩
        rcases Nat.lt_or_ge f ((word + 1) * 32) with hin | hbehind
        · exact hword f hf hin hcount
        · exact hused f hbehind (by omega) hcount
      · exact .inr ⟨f, hf, by omega, hsome⟩
    by_cases hfull : p.frameBitmap word = 0xFFFFFFFF
    · refine hskip (fun f hf hlt _ => ?_) (if_pos hfull)
      have hdiv : f / 32 = word := by omega
      exact test_of_allOnes (by decide) (by rw [hdiv, hfull]; rfl)
    · cases hfind : (List.range 32).find? fun bit => !(frameCount ≤ word * 32 + bit || p.isUsed (word * 32 + bit)) with
      | none =>
        refine hskip (fun f hf hlt hcount => ?_) ?_
        · rw [List.find?_eq_none] at hfind
          have hbit := hfind (f - word * 32) (List.mem_range.mpr (by omega))
          rw [Nat.add_sub_cancel' hf, decide_eq_false (Nat.not_le.mpr hcount), Bool.false_or] at hbit
          simpa using hbit
        · rw [allocateFrom, if_neg hfull, hfind]
      | some bit =>
        have hbit := List.find?_some hfind
        simp only [Bool.not_or, Bool.and_eq_true, Bool.not_eq_true'] at hbit
        refine .inr ⟨word * 32 + bit, hbit.2, Nat.le_add_right _ _, ?_⟩
        rw [allocateFrom, if_neg hfull, hfind]

/-- What `allocate_frame` does: it hands out a clear frame, or there is none, or the allocator is off. -/
theorem allocateFrame_spec (h : Counted p) :
    (p.allocateFrame = (p, 0) ∧ (p.initialized = true → ∀ f, p.isUsed f = true)) ∨
    ∃ f, p.initialized = true ∧ p.isUsed f = false ∧ p.allocateFrame = (p.takeFrame f, f * pageSize) := by
  unfold allocateFrame
  cases hinit : p.initialized with
  | false => exact .inl ⟨rfl, fun hc => Bool.noConfusion hc⟩
  | true =>
    have hfirst : reservedEnd / pageSize / 32 = 65 := rfl
    have hwords : bitmapWords - 65 = 959 := rfl
    rw [if_neg (by decide)]
    dsimp only
    rw [hfirst, hwords]
    rcases allocateFrom_spec p 959 65 with ⟨hnone, hused⟩ | ⟨f, hf, -, hsome⟩
    · refine .inl ⟨hnone, fun _ f => ?_⟩
      by_contra hclear
      have hbounds := (h.managed f (Bool.eq_false_iff.mpr hclear)).bounds
      exact hclear (hused f hbounds.1 hbounds.2 hbounds.2)
    · exact .inr ⟨f, rfl, hf, hsome⟩

theorem and_page (address : Nat) : address &&& (pageSize - 1) = address % 4096 := Nat.and_two_pow_sub_one_eq_mod address 12

theorem freeFrame_eq (hinit : p.initialized = true) (hm : Managed f) (hf : p.isUsed f = true) :
    p.freeFrame (f * pageSize) = ({ p.openFrame f with allocatedFrames := p.allocatedFrames - 1 }, true) := by
  have hbelow : f * pageSize < managedLimit := Nat.lt_of_lt_of_le (Nat.mul_lt_mul_of_pos_right (Nat.lt_succ_self f) page_pos) hm.below
  have hframe : f * pageSize / pageSize = f := Nat.mul_div_cancel f page_pos
  unfold freeFrame
  rw [if_neg]
  · dsimp only
    rw [hframe, hf]
    rfl
  · rw [hinit, hm.outside, and_page, Nat.mul_mod_left]
    simp only [Bool.not_true, Bool.false_eq_true, false_or, not_or, Nat.not_lt, Nat.not_le, ne_eq, not_true_eq_false, not_false_eq_true,
      and_true]
    exact ⟨hm.above, hbelow⟩

theorem freeFrame_clear (hf : p.isUsed f = false) : p.freeFrame (f * pageSize) = (p, false) := by
  have hframe : f * pageSize / pageSize = f := Nat.mul_div_cancel f page_pos
  unfold freeFrame
  split
  · rfl
  · dsimp only
    rw [hframe, hf]
    rfl

theorem freeFrame_unaligned (p : Pmm) (f : Nat) : p.freeFrame (f * pageSize + 1) = (p, false) := by
  refine if_pos (.inr (.inr (.inr (.inr ?_))))
  rw [and_page, Nat.mul_add_mod_self_right]
  decide

theorem freeFrame_takeFrame (h : Counted p) (hinit : p.initialized = true) (hf : p.isUsed f = false) :
    (p.takeFrame f).freeFrame (f * pageSize) = (p, true) := by
  have hused : (p.takeFrame f).isUsed f = true := by rw [isUsed_takeFrame, decide_eq_true rfl, Bool.true_or]
  have hbitmap : clear (set p.frameBitmap f) f = p.frameBitmap := clear_set (by decide) hf
  have havailable : p.availableFrames - 1 + 1 = p.availableFrames := Nat.sub_add_cancel (h.pos hf)
  have hinit' : (p.takeFrame f).initialized = true := hinit
  rw [freeFrame_eq hinit' (h.managed f hf) hused]
  unfold openFrame takeFrame
  dsimp only
  rw [hbitmap, havailable, Nat.add_sub_cancel]

/-! ### The self-test -/

theorem freeFrames_append {a b : List Nat} {q r : Pmm} (ha : freeFrames a p = (q, true)) (hb : freeFrames b q = (r, true)) :
    freeFrames (a ++ b) p = (r, true) := by
  induction a generalizing p with
  | nil =>
    obtain rfl : p = q := congrArg Prod.fst ha
    exact hb
  | cons address a ih =>
    rw [freeFrames] at ha
    rw [List.cons_append, freeFrames]
    dsimp only at ha ⊢
    split at ha
    · rename_i hok
      rw [if_pos hok]
      exact ih ha
    · exact absurd (congrArg Prod.snd ha) Bool.false_ne_true

theorem takeFrames_spec {left : Nat} {frames : List Nat} (h : Counted p) (hinit : p.initialized = true)
    (hleft : left ≤ p.availableFrames) (hframes : ∀ a ∈ frames, ∃ f, a = f * pageSize ∧ p.isUsed f = true) :
    ∃ taken q, takeFrames left frames p = (q, some (frames ++ taken)) ∧ freeFrames taken.reverse q = (p, true) ∧
      q.availableFrames + left = p.availableFrames ∧ q.allocatedFrames = p.allocatedFrames + left ∧
      (0 < left → ∃ f rest, taken = f * pageSize :: rest ∧ p.isUsed f = false) := by
  induction left generalizing p frames with
  | zero => exact ⟨[], p, by rw [takeFrames, List.append_nil], rfl, rfl, rfl, fun hlt => absurd hlt (Nat.lt_irrefl 0)⟩
  | succ left ih =>
    rcases allocateFrame_spec h with ⟨-, hall⟩ | ⟨f, -, hf, hsome⟩
    · -- a counter above zero has a clear bit
      have hnone : clearCount p.frameBitmap frameCount = 0 := clearCount_eq_zero fun f _ => hall hinit f
      rw [h.available, hnone] at hleft
      exact absurd hleft (Nat.not_succ_le_zero left)
    · have hm := h.managed f hf
      have hbounds := hm.bounds
      have hne : f * pageSize ≠ 0 := Nat.mul_ne_zero (by omega) (by decide)
      have hnew : f * pageSize ∉ frames := by
        intro hmem
        obtain ⟨g, hg, hused⟩ := hframes _ hmem
        obtain rfl : f = g := Nat.mul_right_cancel page_pos hg
        rw [hf] at hused
        cases hused
      have hpos := h.pos hf
      have havailable : (p.takeFrame f).availableFrames = p.availableFrames - 1 := rfl
      have hallocated : (p.takeFrame f).allocatedFrames = p.allocatedFrames + 1 := rfl
      have hheld : ∀ a ∈ frames ++ [f * pageSize], ∃ g, a = g * pageSize ∧ (p.takeFrame f).isUsed g = true := by
        intro a ha
        rcases List.mem_append.mp ha with ha | ha
        · obtain ⟨g, rfl, hused⟩ := hframes a ha
          exact ⟨g, rfl, by rw [isUsed_takeFrame, hused, Bool.or_true]⟩
        · exact ⟨f, List.mem_singleton.mp ha, by rw [isUsed_takeFrame, decide_eq_true rfl, Bool.true_or]⟩
      obtain ⟨taken, q, htake, hfree, hq, hq', -⟩ := ih (counted_takeFrame h hf) hinit (by omega) hheld
      refine ⟨f * pageSize :: taken, q, ?_, ?_, by omega, by omega, fun _ => ⟨f, taken, rfl, hf⟩⟩
      · rw [takeFrames, hsome]
        dsimp only
        rw [if_neg, htake, List.append_assoc]
        · rfl
        · rw [and_page, Nat.mul_mod_left]
          simp [hne, hnew]
      · rw [List.reverse_cons]
        refine freeFrames_append hfree ?_
        rw [freeFrames, freeFrame_takeFrame h hinit hf]
        rfl

theorem stressTest_spec (h : Counted p) (hinit : p.initialized = true) :
    p.stressTest = (p, decide (selfTestFrames ≤ p.availableFrames)) := by
  unfold stressTest
  split
  · rename_i hfew
    rw [decide_eq_false (Nat.not_le.mpr hfew)]
  · rename_i henough
    have hle : 16 ≤ p.availableFrames := Nat.not_lt.mp henough
    obtain ⟨taken, q, htake, hfree, hq, hq', hhead⟩ := takeFrames_spec h hinit hle fun _ ha => absurd ha List.not_mem_nil
    obtain ⟨f, rest, rfl, hf⟩ := hhead (by decide)
    have hbytes : q.allocatedBytes = (p.allocatedFrames + 16) * pageSize % 2 ^ 32 := by rw [allocatedBytes, hq']
    have hbytes' : p.allocatedBytes = p.allocatedFrames * pageSize % 2 ^ 32 := rfl
    dsimp only
    rw [htake]
    dsimp only
    rw [if_neg (by simp [hq, hq', hbytes]), List.nil_append, List.getD_cons_zero, freeFrame_unaligned]
    dsimp only
    rw [if_neg Bool.false_ne_true, hfree]
    dsimp only
    rw [if_neg (by decide), freeFrame_clear hf]
    dsimp only
    rw [if_neg Bool.false_ne_true, hbytes', decide_eq_true hle]
    simp

/-- `init` leaves what the memory map gives; it is on if the self-test has the frames that it needs. -/
theorem init_eq (boot : BootInfo) :
    init boot = { load boot with initialized := decide (selfTestFrames ≤ (load boot).availableFrames) } := by
  obtain ⟨hcounted, -, -, hon⟩ := load_spec boot
  unfold init
  dsimp only
  cases hinit : (load boot).initialized with
  | false =>
    have hnone : (load boot).availableFrames = 0 := by
      by_contra hne
      rw [hon.mpr hne] at hinit
      cases hinit
    have hoff : decide (selfTestFrames ≤ (load boot).availableFrames) = false := by
      rw [hnone]
      rfl
    rw [if_pos (by decide), hoff]
    generalize load boot = p at hinit
    cases p
    cases hinit
    rfl
  | true =>
    rw [if_neg (by decide), stressTest_spec hcounted hinit]
    dsimp only
    split
    · rename_i hok
      rw [hok]
      generalize load boot = p at hinit
      cases p
      cases hinit
      rfl
    · rename_i hno
      rw [Bool.eq_false_iff.mpr hno]

/-! ### Every run -/

/-- Calls of `allocate_frame`, and of `free_frame` with frames that are outstanding, after `init`. -/
inductive Run (boot : BootInfo) : Pmm → List Nat → Prop
  | init : Run boot (init boot) []
  | refused {p : Pmm} {outstanding : List Nat} : Run boot p outstanding → p.allocateFrame.2 = 0 →
      Run boot p.allocateFrame.1 outstanding
  | allocated {p : Pmm} {outstanding : List Nat} : Run boot p outstanding → p.allocateFrame.2 ≠ 0 →
      Run boot p.allocateFrame.1 (p.allocateFrame.2 :: outstanding)
  | freed {p : Pmm} {outstanding : List Nat} {address : Nat} : Run boot p outstanding → address ∈ outstanding →
      Run boot (p.freeFrame address).1 (outstanding.erase address)

/-- The counters, the bits and the frames that are outstanding go together. -/
structure Books (boot : BootInfo) (p : Pmm) (outstanding : List Nat) : Prop where
  counted : Counted p
  bits : ∀ f, p.isUsed f = false ↔ boot.Usable f ∧ f * pageSize ∉ outstanding
  frames : ∀ address ∈ outstanding, ∃ f, address = f * pageSize ∧ boot.Usable f
  nodup : outstanding.Nodup
  allocated : p.allocatedFrames = outstanding.length
  initialized : p.initialized = decide (selfTestFrames ≤ (init boot).availableFrames)
  off : p.initialized = false → outstanding = []

theorem books_init (boot : BootInfo) : Books boot (init boot) [] := by
  obtain ⟨hcounted, hbits, hallocated, -⟩ := load_spec boot
  have havailable : (init boot).availableFrames = (load boot).availableFrames := by rw [init_eq]
  constructor
  · rw [init_eq]
    exact ⟨hcounted.available, hcounted.managed⟩
  · intro f
    rw [init_eq]
    exact (hbits f).trans (by simp)
  · exact fun _ ha => absurd ha List.not_mem_nil
  · exact List.nodup_nil
  · rw [init_eq]
    exact hallocated
  · rw [havailable, init_eq]
  · exact fun _ => rfl

variable {boot : BootInfo} {outstanding : List Nat}

theorem books_takeFrame (h : Books boot p outstanding) (hinit : p.initialized = true) (hf : p.isUsed f = false) :
    Books boot (p.takeFrame f) (f * pageSize :: outstanding) where
  counted := counted_takeFrame h.counted hf
  bits g := by
    have hpage : g = f ↔ g * pageSize = f * pageSize := ⟨fun he => by rw [he], Nat.mul_right_cancel page_pos⟩
    rw [isUsed_takeFrame, Bool.or_eq_false_iff, decide_eq_false_iff_not, h.bits, List.mem_cons, hpage, not_or]
    exact and_left_comm
  frames address ha := by
    rcases List.mem_cons.mp ha with rfl | ha
    · exact ⟨f, rfl, ((h.bits f).mp hf).1⟩
    · exact h.frames address ha
  nodup := List.nodup_cons.mpr ⟨((h.bits f).mp hf).2, h.nodup⟩
  allocated := congrArg (· + 1) h.allocated
  initialized := h.initialized
  off hoff := absurd (hinit.symm.trans hoff) (by decide)

theorem books_freeFrame (h : Books boot p outstanding) {address : Nat} (ha : address ∈ outstanding) :
    (p.freeFrame address).2 = true ∧ Books boot (p.freeFrame address).1 (outstanding.erase address) := by
  obtain ⟨f, rfl, husable⟩ := h.frames address ha
  have hinit : p.initialized = true := by
    by_contra hoff
    rw [h.off (Bool.eq_false_iff.mpr hoff)] at ha
    exact List.not_mem_nil ha
  have hused : p.isUsed f = true := by
    by_contra hclear
    exact ((h.bits f).mp (Bool.eq_false_iff.mpr hclear)).2 ha
  rw [freeFrame_eq hinit husable.managed hused]
  refine ⟨rfl, ⟨?_, ?_⟩, fun g => ?_, fun address ha => ?_, h.nodup.erase _, ?_, h.initialized, fun hoff => ?_⟩
  · exact (counted_openFrame h.counted hused husable.managed).available
  · exact (counted_openFrame h.counted hused husable.managed).managed
  · have hpage : g = f ↔ g * pageSize = f * pageSize := ⟨fun he => by rw [he], Nat.mul_right_cancel page_pos⟩
    show (p.openFrame f).isUsed g = false ↔ _
    rw [isUsed_openFrame, Bool.and_eq_false_iff, decide_eq_false_iff_not, not_not, h.bits, h.nodup.mem_erase_iff, hpage]
    constructor
    · rintro (he | ⟨hu, hnot⟩)
      · obtain rfl := hpage.mpr he
        exact ⟨husable, fun hmem => hmem.1 rfl⟩
      · exact ⟨hu, fun hmem => hnot hmem.2⟩
    · rintro ⟨hu, hnot⟩
      by_cases he : g * pageSize = f * pageSize
      · exact .inl he
      · exact .inr ⟨hu, fun hmem => hnot ⟨he, hmem⟩⟩
  · exact h.frames address (List.mem_of_mem_erase ha)
  · show p.allocatedFrames - 1 = _
    rw [h.allocated, List.length_erase_of_mem ha]
  · exact absurd (hinit.symm.trans hoff) (by decide)

theorem books_run (hr : Run boot p outstanding) : Books boot p outstanding := by
  induction hr with
  | init => exact books_init boot
  | refused _ hzero ih =>
    rcases allocateFrame_spec ih.counted with ⟨hnone, -⟩ | ⟨f, -, hf, hsome⟩
    · rw [hnone]
      exact ih
    · rw [hsome] at hzero
      have hbounds := (ih.counted.managed f hf).bounds
      exact absurd hzero (Nat.mul_ne_zero (by omega) (by decide))
  | allocated _ hne ih =>
    rcases allocateFrame_spec ih.counted with ⟨hnone, -⟩ | ⟨f, hinit, hf, hsome⟩
    · rw [hnone] at hne
      exact absurd rfl hne
    · rw [hsome]
      exact books_takeFrame ih hinit hf
  | freed _ ha ih => exact (books_freeFrame ih ha).2

end Pmm
end ZenovOS.Memory
