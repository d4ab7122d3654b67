import ZenovOS.Theorems.Tools.ForeignImport

/-! # A loaded ELF program

Where `load_elf32` succeeds, the checks have passed and every step has: so the window holds the image of the file. That
there are frames enough is not assumed; it follows. -/

namespace ZenovOS.Process
open Bytes Memory Memory.Paging Pmm Security Mach PageView

variable {p : Pmm} {s s' : Paging} {v : PageView} {file : Bytes} {bias entry : Nat} {h : ProgramHeader} {segments : List ProgramHeader}

/-! ### The steps of a loader that succeeds -/

theorem orFail_ok {σ α : Type} {m : Mach σ Bool} {rest : Mach σ (Option α)} {s s' : σ} {a : α} (h : orFail m rest s = (some (some a), s')) :
    ∃ s₁, m s = (some true, s₁) ∧ rest s₁ = (some (some a), s') := by
  obtain ⟨_ | _, s₁, hm, hrest⟩ := bind_ended h
  · cases hrest
  · exact ⟨s₁, hm, hrest⟩

theorem Shown.mapRange {offset length : Nat} (hs : Shown p s v) (hlength : 0 < length) (hrange : offset + length ≤ processWindowBytes)
    (hok : Process.mapRange offset length true s = (some true, s')) :
    Shown p s' (v.setPages (offset / pageSize) ((offset + length + pageSize - 1) / pageSize) true) := by
  obtain ⟨hresult, rfl⟩ := Prod.mk.inj hok
  exact hs.mapUser hlength hrange (Option.some.inj hresult)

theorem Shown.mapSegments (hs : Shown p s v) (hfits : ∀ h ∈ segments, h.loads = true → Fits file bias h)
    (hok : Process.mapSegments file bias segments s = (some true, s')) :
    Shown p s' ((pieces file bias segments).foldl (PageView.place pageSize) v) := by
  induction segments generalizing s v with
  | nil =>
    obtain rfl := congrArg Prod.snd hok
    exact hs
  | cons h segments ih =>
    have hrest : ∀ g ∈ segments, g.loads = true → Fits file bias g := fun g hg => hfits g (List.mem_cons_of_mem h hg)
    by_cases hloads : h.loads = true
    · have hfit := hfits h List.mem_cons_self hloads
      rw [pieces_cons_loads file bias segments hloads]
      rcases hmap : Process.mapRange (h.relative bias) h.memorySize true s with ⟨_ | _ | _, s₁⟩
      · cases hmap
      · rw [Process.mapSegments, if_neg (by simp [hloads])] at hok
        have hfail := (bind_run hmap).symm.trans hok
        cases hfail
      · have hshows := Shown.mapRange hs (loads_pos hloads) hfit.inWindow hmap
        rw [← hfit.length_piece] at hshows
        obtain ⟨s₂, hfilled, hrun⟩ := Shows.fillSegment hmap hshows hfit hloads
        rw [hrun segments] at hok
        exact ih hfilled.shown hrest hok
    · rw [pieces_cons_skips file bias segments hloads]
      rw [Process.mapSegments, if_pos (by simpa using hloads)] at hok
      exact ih hs hrest hok

theorem Shown.protectSegments (hs : Shown p s v) (hfits : ∀ h ∈ segments, h.loads = true → Fits file bias h)
    (hmapped : ∀ q ∈ pieces file bias segments, ∀ k, q.Covers pageSize k → v.page k ≠ none)
    (hok : Process.protectSegments bias segments s = (some true, s')) :
    Shown p s' ((pieces file bias segments).foldl (PageView.grant pageSize) v) := by
  obtain ⟨s₁, hrun, hshows⟩ := Shows.protectSegments hs hfits hmapped
  obtain rfl := congrArg Prod.snd (hrun.symm.trans hok)
  exact hshows.shown

theorem Shown.mapStack (hs : Shown p s v) (hok : Process.mapStack s = (some true, s')) : Shown p s' (v.place pageSize stackPiece) := by
  have hrange : stackBase + stackBytes ≤ processWindowBytes := Nat.le_of_eq rfl
  rcases hmap : Process.mapRange stackBase stackBytes true s with ⟨_ | _ | _, s₁⟩
  · cases hmap
  · have hfail := (bind_run hmap).symm.trans hok
    cases hfail
  · have hshows := Shown.mapRange hs (show 0 < stackBytes by decide) hrange hmap
    have hwrite : ∀ o, stackPiece.start ≤ o → o < stackPiece.start + stackPiece.content.length →
        (v.setPages (stackPiece.first pageSize) (stackPiece.stop pageSize) true).page (o / pageSize) = some true :=
      fun o hfirst hlt => page_of_piece hfirst hlt
    have hstack : v.setPages (stackBase / pageSize) ((stackBase + stackBytes + pageSize - 1) / pageSize) true =
        v.setPages (stackPiece.first pageSize) (stackPiece.stop pageSize) true := by
      unfold Piece.first Piece.stop
      rw [length_stackPiece]
      rfl
    rw [hstack] at hshows
    obtain ⟨s₂, hstore, hstored⟩ := hshows.storeUser hwrite
    have hrun : Process.mapStack s = (some true, s₂) := (bind_run hmap).trans (bind_run hstore)
    obtain rfl := congrArg Prod.snd (hrun.symm.trans hok)
    exact hstored.shown

theorem Placed.loads (hp : Placed file bias segments) {s₁ s₂ s₃ : Paging} (hs : Shown p s PageView.empty)
    (hmap : Process.mapSegments file bias segments s = (some true, s₁)) (hprotect : Process.protectSegments bias segments s₁ = (some true, s₂))
    (hstack : Process.mapStack s₂ = (some true, s₃)) : Shown p s₃ (image file bias segments) := by
  have hs₁ := Shown.mapSegments hs hp.fits hmap
  have hs₂ := Shown.protectSegments hs₁ hp.fits (fun q hq k hk => by
    rw [page_places, if_pos ⟨q, hq, hk⟩]
    exact Option.some_ne_none _) hprotect
  exact Shown.mapStack hs₂ hstack

/-! ### The mapped pages -/

theorem page_image_some (hp : Placed file bias segments) {k : Nat} (hk : k < processPageCount) :
    (image file bias segments).page k ≠ none ↔ (∃ q ∈ pieces file bias segments, q.Covers pageSize k) ∨ stackBase / pageSize ≤ k := by
  by_cases hcovered : ∃ q ∈ pieces file bias segments, q.Covers pageSize k
  · obtain ⟨q, hq, hqk⟩ := hcovered
    rw [(page_covered hp hq hqk).2]
    exact ⟨fun _ => .inl ⟨q, hq, hqk⟩, fun _ => Option.some_ne_none _⟩
  · have hnone : ∀ q ∈ pieces file bias segments, ¬q.Covers pageSize k := fun q hq hqk => hcovered ⟨q, hq, hqk⟩
    unfold image
    rw [page_place]
    by_cases hstack : stackBase / pageSize ≤ k
    · rw [if_pos (covers_stack.mpr ⟨hstack, hk⟩)]
      exact ⟨fun _ => .inr hstack, fun _ => Option.some_ne_none _⟩
    · rw [if_neg fun hcovers => hstack (covers_stack.mp hcovers).1, page_grants_out hnone, page_places, if_neg hcovered]
      refine ⟨fun h => absurd rfl h, ?_⟩
      rintro (h | h)
      · exact absurd h hcovered
      · exact absurd h hstack

/-- What a successful `load_elf32` leaves: the image; pages mapped for the segments and the stack, and no others; and the entry
    point in an executable segment, on a page that is mapped and cannot be written. -/
structure ElfLoaded (file : Bytes) (entry : Nat) (s : Paging) : Prop where
  header : entry = u32 file 24
  loaded : Loaded file 0 (programHeaders file) s
  mapped : ∀ k < processPageCount, isPresent (s.currentEntry k) = true ↔
    (∃ h ∈ programHeaders file, h.loads = true ∧ ∃ a, h.virtualAddress ≤ a ∧ a < h.virtualAddress + h.memorySize ∧ a / pageSize = k) ∨
      stackBase / pageSize ≤ k
  enters : EntersAt entry 0 (programHeaders file) s

theorem present_iff_pageState (k : Nat) : isPresent (s.currentEntry k) = true ↔ s.pageState k ≠ none := by
  unfold pageState
  by_cases hpresent : isPresent (s.currentEntry k) = true
  · rw [if_pos hpresent]
    exact ⟨fun _ => Option.some_ne_none _, fun _ => hpresent⟩
  · rw [if_neg hpresent]
    exact ⟨fun h => absurd h hpresent, fun h => absurd rfl h⟩

theorem Placed.mapped (hp : Placed file 0 segments) (hs : Shown p s (image file 0 segments)) {k : Nat} (hk : k < processPageCount) :
    isPresent (s.currentEntry k) = true ↔
      (∃ h ∈ segments, h.loads = true ∧ ∃ a, h.virtualAddress ≤ a ∧ a < h.virtualAddress + h.memorySize ∧ a / pageSize = k) ∨
        stackBase / pageSize ≤ k := by
  rw [present_iff_pageState, hs.page, page_image_some hp hk]
  refine or_congr_left ⟨?_, ?_⟩
  · rintro ⟨q, hq, hqk⟩
    obtain ⟨h, hh, hloads, rfl⟩ := mem_pieces.mp hq
    exact ⟨h, hh, hloads, (covers_piece (hp.fits h hh hloads) (loads_pos hloads)).mp hqk⟩
  · rintro ⟨h, hh, hloads, hk⟩
    exact ⟨piece file 0 h, mem_pieces.mpr ⟨h, hh, hloads, rfl⟩, (covers_piece (hp.fits h hh hloads) (loads_pos hloads)).mpr hk⟩

/-! ### The entry point -/

/-- The entry point is in this segment. -/
def EntersIn (entry : Nat) (h : ProgramHeader) : Prop :=
  h.loads = true ∧ h.executable = true ∧ h.virtualAddress ≤ entry ∧ entry < h.virtualAddress + h.memorySize

theorem checkSegment_found {earlier : List ProgramHeader} {scan next : ElfScan} (hround : checkSegment file earlier scan h = some next)
    (hnext : next.executableEntry = true) : scan.executableEntry = true ∨ EntersIn (u32 file 24) h := by
  unfold checkSegment at hround
  dsimp only at hround
  split at hround
  · obtain rfl := Option.some.inj hround
    exact .inl hnext
  · rename_i htype
    split at hround
    · split at hround
      · cases hround
      · obtain rfl := Option.some.inj hround
        exact .inl hnext
    · rename_i hzero
      split at hround
      · cases hround
      · split at hround
        · cases hround
        · obtain rfl := Option.some.inj hround
          simp only [Bool.or_eq_true, Bool.and_eq_true, decide_eq_true_eq] at hnext
          refine hnext.imp_right fun ⟨⟨hx, hle⟩, hlt⟩ => ⟨?_, hx, hle, Nat.lt_of_lt_of_le hlt (Nat.mod_le _ _)⟩
          simp [ProgramHeader.loads, not_not.mp htype, hzero]

theorem entersIn_of_scan {last : ElfScan} (hscan : scanHeaders (checkSegment file) [] (programHeaders file) ⟨false, false⟩ = some last)
    (hlast : last.executableEntry = true) : ∃ h ∈ programHeaders file, EntersIn (u32 file 24) h := by
  refine scanHeaders_keeps (I := fun scan => scan.executableEntry = true → ∃ h ∈ programHeaders file, EntersIn (u32 file 24) h)
    (fun earlier st h st' hh hround hst hst' => ?_) hscan nofun hlast
  rcases checkSegment_found hround hst' with hbefore | hnow
  · exact hst hbefore
  · exact ⟨h, hh, hnow⟩

/-! ### The loader -/

/-- Where `load_elf32` succeeds the program is loaded as its file says. -/
theorem loadElf32_loaded (file : Bytes) (entry : Nat) (s s' : Paging) (hs : Reached s) (hload : loadElf32 file s = (some (some entry), s')) :
    ElfLoaded file entry s' := by
  obtain ⟨p, own, hsound⟩ := hs.sound
  have hcleared := hsound.shown_clearUser
  unfold loadElf32 at hload
  split at hload
  · cases hload
  split at hload
  · cases hload
  cases hscan : scanHeaders (checkSegment file) [] (programHeaders file) ⟨false, false⟩ with
  | none =>
    rw [hscan] at hload
    cases hload
  | some scan =>
    rw [hscan] at hload
    dsimp only at hload
    split at hload
    · cases hload
    · rename_i hfound
      simp only [Bool.or_eq_true, Bool.not_eq_true', not_or, Bool.not_eq_false] at hfound
      have hplaced := placed_of_scan hscan
      obtain ⟨s₁, hmap, hload⟩ := orFail_ok hload
      obtain ⟨s₂, hprotect, hload⟩ := orFail_ok hload
      obtain ⟨s₃, hstack, hload⟩ := orFail_ok hload
      have hshown := hplaced.loads hcleared hmap hprotect hstack
      have hload : (if s₃.writableAt (u32 file 24) then pure none else pure (some (u32 file 24)) : Mach Paging (Option Nat)) s₃ =
          (some (some entry), s') := hload
      by_cases hwritable : s₃.writableAt (u32 file 24) = true
      · rw [if_pos hwritable] at hload
        cases hload
      · rw [if_neg hwritable] at hload
        cases hload
        have hloaded := hplaced.loaded hshown
        obtain ⟨h, hh, hloads, hx, hle, hlt⟩ := entersIn_of_scan hscan hfound.2
        refine ⟨rfl, hloaded, fun k hk => hplaced.mapped hshown hk, ⟨h, hh, hloads, hx, hle, hlt⟩, Nat.zero_le _, ?_, ?_⟩
        · have hbyte := hloaded.bytes h hh hloads (u32 file 24 - h.virtualAddress) (by omega)
          rw [Nat.sub_zero, Nat.add_sub_cancel' hle] at hbyte
          rw [Nat.sub_zero, hbyte]
          exact Option.some_ne_none _
        · rw [Nat.sub_zero]
          exact Bool.eq_false_iff.mpr hwritable

theorem loadElf32_loaded_sample : ∃ s', loadElf32 (ForeignImport.nativeElf 4) (fresh (Pmm.init Paging.sixteenFrames) fun _ _ => 0) = (some (some 0x1000), s') ∧
    ElfLoaded (ForeignImport.nativeElf 4) 0x1000 s' := by
  have hreached : Reached (fresh (Pmm.init Paging.sixteenFrames) fun _ _ => 0) := .fresh .init fun _ _ => 0
  obtain ⟨hvalid, hentry⟩ : ForeignImport.validateElf32I386Import (ForeignImport.nativeElf 4) = .ok () ∧
      u32 (ForeignImport.nativeElf 4) 24 = 0x1000 := by decide +kernel
  obtain ⟨p, own, hsound⟩ := hreached.sound
  obtain ⟨s', hload⟩ := (ForeignImport.goodElf hvalid).load hsound fun hactive => absurd rfl hactive
  rw [hentry] at hload
  exact ⟨s', hload, loadElf32_loaded _ _ _ s' hreached hload⟩

end ZenovOS.Process
