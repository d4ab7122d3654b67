import Mathlib.Data.List.Pairwise
import ZenovOS.Package.Compatibility
import ZenovOS.Process.Stack
import ZenovOS.Theorems.Memory.Access

/-! # What the loaders leave in the window

The segments of an image are pieces of a view of the window. Where the checks have passed, the loops of a loader place
the pieces, grant their rights and add the stack. -/

namespace ZenovOS.Process
open Bytes Memory Memory.Paging Pmm Security Mach PageView

variable {p : Pmm} {need : Nat → Bool} {s : Paging} {v : PageView}

/-! ### The steps of a loader -/

theorem orFail_run {σ α : Type} {m : Mach σ Bool} {rest : Mach σ (Option α)} {s s' : σ} (h : m s = (some true, s')) :
    orFail m rest s = rest s' := bind_run h

theorem Shows.mapRange {offset length : Nat} (h : Shows p need s v) (hlength : 0 < length) (hrange : offset + length ≤ processWindowBytes)
    (hneed : ∀ k, offset / pageSize ≤ k → k < (offset + length + pageSize - 1) / pageSize → need k = true) :
    ∃ s', mapRange offset length true s = (some true, s') ∧
      Shows p need s' (v.setPages (offset / pageSize) ((offset + length + pageSize - 1) / pageSize) true) := by
  obtain ⟨hok, hshows⟩ := h.mapUser hlength hrange hneed
  refine ⟨_, ?_, hshows⟩
  unfold Process.mapRange Paging.call
  dsimp only
  rw [hok]

theorem Shows.protectRange {offset length : Nat} (h : Shows p need s v) (write : Bool) (hlength : 0 < length)
    (hrange : offset + length ≤ processWindowBytes)
    (hmapped : ∀ k, offset / pageSize ≤ k → k < (offset + length + pageSize - 1) / pageSize → v.page k ≠ none) :
    ∃ s', protectRange offset length write s = (some true, s') ∧
      Shows p need s' (v.setPages (offset / pageSize) ((offset + length + pageSize - 1) / pageSize) write) := by
  obtain ⟨hok, hshows⟩ := h.protectUser write hlength hrange hmapped
  refine ⟨_, ?_, hshows⟩
  unfold Process.protectRange Paging.call
  dsimp only
  rw [hok]

/-- The pages of a piece are needed. -/
def Needs (need : Nat → Bool) (q : Piece) : Prop := ∀ k, q.Covers pageSize k → need k = true

theorem page_of_piece {q : Piece} {o : Nat} (hfirst : q.start ≤ o) (hlt : o < q.start + q.content.length) :
    (v.setPages (q.first pageSize) (q.stop pageSize) true).page (o / pageSize) = some true := by
  rw [page_setPages, if_pos]
  exact (Piece.covers_iff page_pos (by omega)).mpr ⟨o, hfirst, hlt, rfl⟩

theorem Shows.mapPiece {q : Piece} (h : Shows p need s v) (hne : 0 < q.content.length)
    (hrange : q.start + q.content.length ≤ processWindowBytes) (hneed : Needs need q) :
    ∃ s', Process.mapRange q.start q.content.length true s = (some true, s') ∧
      Shows p need s' (v.setPages (q.first pageSize) (q.stop pageSize) true) :=
  Shows.mapRange h hne hrange fun k hfirst hlt => hneed k ⟨hfirst, hlt⟩

/-- `map_stack`. -/
def stackPiece : Piece := ⟨stackBase, List.replicate stackBytes 0, true⟩

theorem length_stackPiece : stackPiece.content.length = stackBytes := List.length_replicate

theorem Shows.mapStack (h : Shows p need s v) (hneed : Needs need stackPiece) :
    ∃ s', mapStack s = (some true, s') ∧ Shows p need s' (v.place pageSize stackPiece) := by
  have hpos : 0 < stackPiece.content.length := by
    rw [length_stackPiece]
    decide
  have hrange : stackPiece.start + stackPiece.content.length ≤ processWindowBytes := by
    rw [length_stackPiece]
    exact Nat.le_of_eq rfl
  obtain ⟨s₁, hmap, hshows⟩ := Shows.mapPiece h hpos hrange hneed
  have hwrite : ∀ o, stackPiece.start ≤ o → o < stackPiece.start + stackPiece.content.length →
      (v.setPages (stackPiece.first pageSize) (stackPiece.stop pageSize) true).page (o / pageSize) = some true :=
    fun o hfirst hlt => page_of_piece hfirst hlt
  obtain ⟨s₂, hstore, hshows⟩ := hshows.storeUser hwrite
  rw [length_stackPiece] at hmap
  exact ⟨s₂, (bind_run hmap).trans (bind_run hstore), hshows⟩

/-! ### Segments -/

/-- The segment as a piece of the window: its bytes of the file, and zeros. -/
def piece (file : Bytes) (bias : Nat) (h : ProgramHeader) : Piece :=
  ⟨h.relative bias, slice file h.offset h.fileSize ++ List.replicate (h.memorySize - h.fileSize) 0, h.writable⟩

/-- The bytes of a segment are in the file, and it is in the window below the stack. -/
structure Fits (file : Bytes) (bias : Nat) (h : ProgramHeader) : Prop where
  filled : h.fileSize ≤ h.memorySize
  inFile : h.offset + h.fileSize ≤ file.length
  above : bias ≤ h.virtualAddress
  below : h.virtualAddress - bias + h.memorySize ≤ stackBase
  word : h.virtualAddress < 2 ^ 32

section Segments
variable {file : Bytes} {bias : Nat} {h : ProgramHeader} {segments : List ProgramHeader}

theorem Fits.relative_eq (hfits : Fits file bias h) : h.relative bias = h.virtualAddress - bias := by
  have habove := hfits.above
  have hword : h.virtualAddress < 4294967296 := hfits.word
  show (h.virtualAddress + 4294967296 - bias) % 4294967296 = _
  omega

theorem Fits.length_piece (hfits : Fits file bias h) : (piece file bias h).content.length = h.memorySize := by
  have hslice := length_slice hfits.inFile
  have hfilled := hfits.filled
  show (slice file h.offset h.fileSize ++ List.replicate (h.memorySize - h.fileSize) 0).length = _
  rw [List.length_append, hslice, List.length_replicate, Nat.add_sub_cancel' hfilled]

theorem Fits.inWindow (hfits : Fits file bias h) : h.relative bias + h.memorySize ≤ processWindowBytes := by
  rw [hfits.relative_eq]
  exact Nat.le_trans hfits.below (by decide)

theorem loads_pos (hloads : h.loads = true) : 0 < h.memorySize := by
  simp only [ProgramHeader.loads, Bool.and_eq_true, decide_eq_true_eq] at hloads
  exact Nat.pos_of_ne_zero hloads.2

theorem Shows.fillSegment {s₁ : Paging} (hmap : Process.mapRange (h.relative bias) h.memorySize true s = (some true, s₁))
    (hshows : Shows p need s₁ (v.setPages ((piece file bias h).first pageSize) ((piece file bias h).stop pageSize) true))
    (hfits : Fits file bias h) (hloads : h.loads = true) :
    ∃ s', Shows p need s' (v.place pageSize (piece file bias h)) ∧
      ∀ rest, mapSegments file bias (h :: rest) s = mapSegments file bias rest s' := by
  have hlength := hfits.length_piece
  have hwrite : ∀ o, h.relative bias ≤ o → o < h.relative bias + h.memorySize →
      (v.setPages ((piece file bias h).first pageSize) ((piece file bias h).stop pageSize) true).page (o / pageSize) = some true :=
    fun o hfirst hlt => page_of_piece hfirst (hlength ▸ hlt)
  have hslice := length_slice hfits.inFile
  have hfilled := hfits.filled
  have hwriteFile : ∀ o, h.relative bias ≤ o → o < h.relative bias + (slice file h.offset h.fileSize).length →
      (v.setPages ((piece file bias h).first pageSize) ((piece file bias h).stop pageSize) true).page (o / pageSize) = some true :=
    fun o hfirst hlt => hwrite o hfirst (by omega)
  obtain ⟨s₂, hstore, hshows⟩ := hshows.storeUser hwriteFile
  have hzero : ∃ s₃, (if h.fileSize < h.memorySize then zeroUser (h.relative bias + h.fileSize) (h.memorySize - h.fileSize)
      else pure () : Mach Paging Unit) s₂ = (some (), s₃) ∧ Shows p need s₃ (v.place pageSize (piece file bias h)) := by
    have happend := (v.setPages ((piece file bias h).first pageSize) ((piece file bias h).stop pageSize) true).store_append
      (h.relative bias) (slice file h.offset h.fileSize) (List.replicate (h.memorySize - h.fileSize) 0)
    rw [hslice] at happend
    by_cases hmore : h.fileSize < h.memorySize
    · rw [if_pos hmore]
      have hwriteZero : ∀ o, h.relative bias + h.fileSize ≤ o →
          o < h.relative bias + h.fileSize + (List.replicate (h.memorySize - h.fileSize) (0 : UInt8)).length →
          (v.setPages ((piece file bias h).first pageSize) ((piece file bias h).stop pageSize) true).page (o / pageSize) = some true := by
        intro o hfirst hlt
        rw [List.length_replicate] at hlt
        exact hwrite o (by omega) (by omega)
      obtain ⟨s₃, hzero, hshows⟩ := hshows.storeUser hwriteZero
      rw [happend] at hshows
      exact ⟨s₃, hzero, hshows⟩
    · have hnone : h.memorySize - h.fileSize = 0 := by omega
      rw [hnone, List.replicate_zero, store_nil] at happend
      rw [happend] at hshows
      refine ⟨s₂, by rw [if_neg hmore]; rfl, ?_⟩
      unfold PageView.place piece
      rw [hnone, List.replicate_zero]
      unfold piece at hshows
      rw [hnone, List.replicate_zero] at hshows
      exact hshows
  obtain ⟨s₃, hzero, hshows⟩ := hzero
  refine ⟨s₃, hshows, fun rest => ?_⟩
  rw [mapSegments, if_neg (by simp [hloads])]
  dsimp only
  refine (bind_run hmap).trans ?_
  refine (bind_run hstore).trans ?_
  by_cases hmore : h.fileSize < h.memorySize
  · rw [if_pos hmore] at hzero
    exact (congrFun (if_pos hmore) s₂).trans (bind_run hzero)
  · rw [if_neg hmore] at hzero
    obtain rfl : s₂ = s₃ := congrArg Prod.snd hzero
    exact congrFun (if_neg hmore) s₂

theorem Shows.mapSegment (hs : Shows p need s v) (hfits : Fits file bias h) (hloads : h.loads = true) (hneed : Needs need (piece file bias h)) :
    ∃ s', Shows p need s' (v.place pageSize (piece file bias h)) ∧
      ∀ rest, mapSegments file bias (h :: rest) s = mapSegments file bias rest s' := by
  have hlength := hfits.length_piece
  have hpos := loads_pos hloads
  obtain ⟨s₁, hmap, hshows⟩ := Shows.mapPiece hs (hlength ▸ hpos) (hlength ▸ hfits.inWindow) hneed
  rw [hlength] at hmap
  exact Shows.fillSegment hmap hshows hfits hloads

/-- The pieces of the segments that take memory. -/
def pieces (file : Bytes) (bias : Nat) (segments : List ProgramHeader) : List Piece := (segments.filter (·.loads)).map (piece file bias)

theorem pieces_cons_loads (file : Bytes) (bias : Nat) (segments : List ProgramHeader) (hloads : h.loads = true) :
    pieces file bias (h :: segments) = piece file bias h :: pieces file bias segments := by
  unfold pieces
  rw [List.filter_cons_of_pos hloads, List.map_cons]

theorem pieces_cons_skips (file : Bytes) (bias : Nat) (segments : List ProgramHeader) (hloads : ¬h.loads = true) :
    pieces file bias (h :: segments) = pieces file bias segments := by
  unfold pieces
  rw [List.filter_cons_of_neg hloads]

theorem mem_pieces {q : Piece} : q ∈ pieces file bias segments ↔ ∃ h ∈ segments, h.loads = true ∧ piece file bias h = q := by
  unfold pieces
  simp only [List.mem_map, List.mem_filter, and_assoc]

theorem Shows.mapSegments (hs : Shows p need s v) (hfits : ∀ h ∈ segments, h.loads = true → Fits file bias h)
    (hneed : ∀ q ∈ pieces file bias segments, Needs need q) :
    ∃ s', mapSegments file bias segments s = (some true, s') ∧
      Shows p need s' ((pieces file bias segments).foldl (PageView.place pageSize) v) := by
  induction segments generalizing s v with
  | nil => exact ⟨s, rfl, hs⟩
  | cons h segments ih =>
    have hrest : ∀ g ∈ segments, g.loads = true → Fits file bias g := fun g hg => hfits g (List.mem_cons_of_mem h hg)
    by_cases hloads : h.loads = true
    · rw [pieces_cons_loads file bias segments hloads] at hneed ⊢
      obtain ⟨s₁, hshows, hrun⟩ := Shows.mapSegment hs (hfits h List.mem_cons_self hloads) hloads (hneed _ List.mem_cons_self)
      rw [hrun]
      exact ih hshows hrest fun q hq => hneed q (List.mem_cons_of_mem _ hq)
    · rw [pieces_cons_skips file bias segments hloads] at hneed ⊢
      rw [Process.mapSegments, if_pos (by simpa using hloads)]
      exact ih hs hrest hneed

theorem Shows.protectSegments (hs : Shows p need s v) (hfits : ∀ h ∈ segments, h.loads = true → Fits file bias h)
    (hmapped : ∀ q ∈ pieces file bias segments, ∀ k, q.Covers pageSize k → v.page k ≠ none) :
    ∃ s', protectSegments bias segments s = (some true, s') ∧
      Shows p need s' ((pieces file bias segments).foldl (PageView.grant pageSize) v) := by
  induction segments generalizing s v with
  | nil => exact ⟨s, rfl, hs⟩
  | cons h segments ih =>
    have hrest : ∀ g ∈ segments, g.loads = true → Fits file bias g := fun g hg => hfits g (List.mem_cons_of_mem h hg)
    by_cases hloads : h.loads = true
    · rw [pieces_cons_loads file bias segments hloads] at hmapped ⊢
      have hfit := hfits h List.mem_cons_self hloads
      have hlength := hfit.length_piece
      have hpos := loads_pos hloads
      obtain ⟨s₁, hprotect, hshows⟩ := Shows.protectRange hs h.writable hpos hfit.inWindow fun k hfirst hlt =>
        hmapped _ List.mem_cons_self k ⟨hfirst, by rw [Piece.stop, hlength]; exact hlt⟩
      have hgrant : v.setPages (h.relative bias / pageSize) ((h.relative bias + h.memorySize + pageSize - 1) / pageSize) h.writable =
          v.grant pageSize (piece file bias h) := by
        rw [PageView.grant, Piece.stop, hlength]
        rfl
      rw [hgrant] at hshows
      rw [Process.protectSegments, if_neg (by simp [hloads])]
      obtain ⟨s₂, hrun, hshows⟩ := ih hshows hrest fun q hq k hk => by
        rw [page_grant]
        split
        · exact Option.some_ne_none _
        · exact hmapped q (List.mem_cons_of_mem _ hq) k hk
      exact ⟨s₂, (bind_run hprotect).trans hrun, hshows⟩
    · rw [pieces_cons_skips file bias segments hloads] at hmapped ⊢
      rw [Process.protectSegments, if_pos (by simpa using hloads)]
      exact ih hs hrest hmapped

/-- The two segments are apart, and on no page together if only one of them can be written. -/
def Apart (bias : Nat) (g h : ProgramHeader) : Prop :=
  (g.virtualAddress + g.memorySize ≤ h.virtualAddress ∨ h.virtualAddress + h.memorySize ≤ g.virtualAddress) ∧
  (g.writable ≠ h.writable → ∀ k, g.relative bias / pageSize ≤ k → k < (g.relative bias + g.memorySize + pageSize - 1) / pageSize →
    h.relative bias / pageSize ≤ k → (h.relative bias + h.memorySize + pageSize - 1) / pageSize ≤ k)

/-- What the checks of a loader promise of the headers. -/
structure Placed (file : Bytes) (bias : Nat) (segments : List ProgramHeader) : Prop where
  fits : ∀ h ∈ segments, h.loads = true → Fits file bias h
  apart : (segments.filter (·.loads)).Pairwise (Apart bias)

theorem Placed.fits_filter (hp : Placed file bias segments) : ∀ h ∈ segments.filter (·.loads), Fits file bias h := fun h hh =>
  hp.fits h (List.mem_filter.mp hh).1 (List.mem_filter.mp hh).2

theorem Placed.pieces_apart (hp : Placed file bias segments) : (pieces file bias segments).Pairwise Piece.Apart := by
  refine List.pairwise_map.mpr (hp.apart.imp_of_mem fun {g h} hg hh hapart => ?_)
  have hfitg := hp.fits_filter g hg
  have hfith := hp.fits_filter h hh
  have habove := hfitg.above
  have habove' := hfith.above
  unfold Piece.Apart
  rw [hfitg.length_piece, hfith.length_piece]
  show g.relative bias + _ ≤ h.relative bias ∨ h.relative bias + _ ≤ g.relative bias
  rw [hfitg.relative_eq, hfith.relative_eq]
  have hor := hapart.1
  omega

theorem Placed.same (hp : Placed file bias segments) {k : Nat} {q r : Piece} (hq : q ∈ pieces file bias segments)
    (hr : r ∈ pieces file bias segments) (hqk : q.Covers pageSize k) (hrk : r.Covers pageSize k) : q.write = r.write := by
  have hcovers : ∀ h ∈ segments.filter (·.loads), (piece file bias h).Covers pageSize k →
      h.relative bias / pageSize ≤ k ∧ k < (h.relative bias + h.memorySize + pageSize - 1) / pageSize := by
    intro h hh hk
    unfold Piece.Covers Piece.stop at hk
    rw [(hp.fits_filter h hh).length_piece] at hk
    exact hk
  have hall : (segments.filter (·.loads)).Pairwise fun g h =>
      (piece file bias g).Covers pageSize k → (piece file bias h).Covers pageSize k → g.writable = h.writable := by
    refine hp.apart.imp_of_mem fun {g h} hg hh hapart hgk hhk => ?_
    by_contra hne
    obtain ⟨hgfirst, hglt⟩ := hcovers g hg hgk
    obtain ⟨hhfirst, hhlt⟩ := hcovers h hh hhk
    exact Nat.not_lt.mpr (hapart.2 hne k hgfirst hglt hhfirst) hhlt
  obtain ⟨g, hg, rfl⟩ := List.mem_map.mp hq
  obtain ⟨h, hh, rfl⟩ := List.mem_map.mp hr
  have hsymm : Std.Symm fun g h => (piece file bias g).Covers pageSize k → (piece file bias h).Covers pageSize k → g.writable = h.writable :=
    ⟨fun _ _ hsame hk hk' => (hsame hk' hk).symm⟩
  exact List.Pairwise.forall_of_forall (fun _ _ _ _ => rfl) hall hg hh hqk hrk

/-! ### The image -/

/-- The pages of the segments and of the stack. -/
def needs (bias : Nat) (segments : List ProgramHeader) (k : Nat) : Bool :=
  stackBase / pageSize ≤ k || segments.any fun h => h.loads && h.relative bias / pageSize ≤ k &&
    k < (h.relative bias + h.memorySize + pageSize - 1) / pageSize

/-- The view that a loader leaves. -/
def image (file : Bytes) (bias : Nat) (segments : List ProgramHeader) : PageView :=
  ((pieces file bias segments).foldl (PageView.grant pageSize)
    ((pieces file bias segments).foldl (PageView.place pageSize) PageView.empty)).place pageSize stackPiece

theorem Placed.needs_piece (hp : Placed file bias segments) {q : Piece} (hq : q ∈ pieces file bias segments) :
    Needs (needs bias segments) q := by
  intro k hk
  obtain ⟨h, hh, hloads, rfl⟩ := mem_pieces.mp hq
  unfold Piece.Covers Piece.stop at hk
  rw [(hp.fits h hh hloads).length_piece] at hk
  unfold needs
  rw [Bool.or_eq_true]
  right
  rw [List.any_eq_true]
  refine ⟨h, hh, ?_⟩
  rw [hloads, Bool.true_and, Bool.and_eq_true, decide_eq_true_eq, decide_eq_true_eq]
  exact hk

theorem needs_stack (bias : Nat) (segments : List ProgramHeader) : Needs (needs bias segments) stackPiece := by
  intro k hk
  unfold needs
  rw [Bool.or_eq_true]
  exact .inl (decide_eq_true hk.1)

theorem Placed.load (hp : Placed file bias segments) (hs : Shows p (needs bias segments) s PageView.empty) :
    ∃ s₁ s₂ s₃, Process.mapSegments file bias segments s = (some true, s₁) ∧ Process.protectSegments bias segments s₁ = (some true, s₂) ∧
      Process.mapStack s₂ = (some true, s₃) ∧ Shows p (needs bias segments) s₃ (image file bias segments) := by
  obtain ⟨s₁, hmap, hs₁⟩ := Shows.mapSegments hs hp.fits fun q hq => hp.needs_piece hq
  obtain ⟨s₂, hprotect, hs₂⟩ := Shows.protectSegments hs₁ hp.fits fun q hq k hk => by
    rw [page_places, if_pos ⟨q, hq, hk⟩]
    exact Option.some_ne_none _
  obtain ⟨s₃, hstack, hs₃⟩ := Shows.mapStack hs₂ (needs_stack bias segments)
  exact ⟨s₁, s₂, s₃, hmap, hprotect, hstack, hs₃⟩

theorem Placed.below (hp : Placed file bias segments) {q : Piece} (hq : q ∈ pieces file bias segments) :
    q.start + q.content.length ≤ stackBase := by
  obtain ⟨h, hh, hloads, rfl⟩ := mem_pieces.mp hq
  have hfit := hp.fits h hh hloads
  rw [hfit.length_piece]
  show h.relative bias + _ ≤ _
  rw [hfit.relative_eq]
  exact hfit.below

theorem covers_stack {k : Nat} : stackPiece.Covers pageSize k ↔ stackBase / pageSize ≤ k ∧ k < processPageCount := by
  unfold Piece.Covers Piece.stop
  rw [length_stackPiece]
  exact Iff.rfl

theorem byte_image (hp : Placed file bias segments) {q : Piece} (hq : q ∈ pieces file bias segments) {i : Nat} (hi : i < q.content.length) :
    (image file bias segments).byte (q.start + i) = some q.content[i] := by
  have hbelow := hp.below hq
  have hout := ((pieces file bias segments).foldl (PageView.grant pageSize)
    ((pieces file bias segments).foldl (PageView.place pageSize) PageView.empty)).setPages
      (stackPiece.first pageSize) (stackPiece.stop pageSize) true |>.byte_store_out
        (show q.start + i < stackPiece.start ∨ stackPiece.start + stackPiece.content.length ≤ q.start + i from .inl (by
          show q.start + i < stackBase
          omega))
  refine hout.trans ?_
  rw [byte_setPages, byte_grants]
  exact byte_places hp.pieces_apart hq hi

theorem page_image (hp : Placed file bias segments) {k : Nat} (hk : k < processPageCount) :
    (image file bias segments).page k = some true ↔
      (∃ q ∈ pieces file bias segments, q.Covers pageSize k ∧ q.write = true) ∨ stackBase / pageSize ≤ k := by
  unfold image
  rw [page_place]
  by_cases hstack : stackBase / pageSize ≤ k
  · rw [if_pos (covers_stack.mpr ⟨hstack, hk⟩)]
    exact ⟨fun _ => .inr hstack, fun _ => rfl⟩
  · rw [if_neg fun hcovers => hstack (covers_stack.mp hcovers).1]
    by_cases hcovered : ∃ q ∈ pieces file bias segments, q.Covers pageSize k
    · obtain ⟨q, hq, hqk⟩ := hcovered
      rw [page_grants (fun r hr hrk => hp.same hr hq hrk hqk) hq hqk]
      constructor
      · intro h
        exact .inl ⟨q, hq, hqk, Option.some.inj h⟩
      · rintro (⟨r, hr, hrk, hwrite⟩ | h)
        · rw [hp.same hq hr hqk hrk, hwrite]
        · exact absurd h hstack
    · have hnone : ∀ q ∈ pieces file bias segments, ¬q.Covers pageSize k := fun q hq hqk => hcovered ⟨q, hq, hqk⟩
      rw [page_grants_out hnone, page_places, if_neg hcovered]
      constructor
      · intro h
        cases h
      · rintro (⟨r, hr, hrk, -⟩ | h)
        · exact absurd hrk (hnone r hr)
        · exact absurd h hstack

theorem page_covered (hp : Placed file bias segments) {q : Piece} {k : Nat} (hq : q ∈ pieces file bias segments) (hk : q.Covers pageSize k) :
    k < stackBase / pageSize ∧ (image file bias segments).page k = some q.write := by
  have hbelow : q.start + q.content.length ≤ 1032192 := hp.below hq
  have hlt : k < stackBase / pageSize := by
    have hstop : k < (q.start + q.content.length + 4096 - 1) / 4096 := hk.2
    show k < 252
    omega
  refine ⟨hlt, ?_⟩
  unfold image
  rw [page_place, if_neg fun hcovers => Nat.not_le.mpr hlt (covers_stack.mp hcovers).1]
  exact page_grants (fun r hr hrk => hp.same hr hq hrk hk) hq hk

/-! ### The checks -/

theorem scanHeaders_rounds {α : Type} {round : List ProgramHeader → α → ProgramHeader → Option α} {earlier : List ProgramHeader} {state last : α}
    (hscan : scanHeaders round earlier segments state = some last) :
    ∀ before after, segments = before ++ h :: after → ∃ st st', round (earlier ++ before) st h = some st' := by
  induction segments generalizing earlier state with
  | nil => exact fun before after he => absurd he.symm (by simp)
  | cons g segments ih =>
    rw [scanHeaders] at hscan
    cases hround : round earlier state g with
    | none =>
      rw [hround] at hscan
      cases hscan
    | some next =>
      rw [hround] at hscan
      intro before after he
      cases before with
      | nil =>
        obtain ⟨rfl, -⟩ := List.cons.inj he
        exact ⟨state, next, by rwa [List.append_nil]⟩
      | cons b before =>
        obtain ⟨rfl, hrest⟩ := List.cons.inj he
        have hlater := ih hscan before after hrest
        rwa [List.append_assoc] at hlater

theorem scanHeaders_keeps {α : Type} {round : List ProgramHeader → α → ProgramHeader → Option α} {I : α → Prop}
    {earlier : List ProgramHeader} {state last : α}
    (hround : ∀ earlier st h st', h ∈ segments → round earlier st h = some st' → I st → I st')
    (hscan : scanHeaders round earlier segments state = some last) (hstate : I state) : I last := by
  induction segments generalizing earlier state with
  | nil =>
    obtain rfl := Option.some.inj hscan
    exact hstate
  | cons g segments ih =>
    rw [scanHeaders] at hscan
    cases hnext : round earlier state g with
    | none =>
      rw [hnext] at hscan
      cases hscan
    | some next =>
      rw [hnext] at hscan
      exact ih (fun e st h st' hh => hround e st h st' (List.mem_cons_of_mem g hh)) hscan
        (hround earlier state g next List.mem_cons_self hnext hstate)

theorem pairwise_of_splits {R : ProgramHeader → ProgramHeader → Prop}
    (hR : ∀ before h after, segments = before ++ h :: after → ∀ g ∈ before, R g h) : segments.Pairwise R := by
  induction segments with
  | nil => exact List.Pairwise.nil
  | cons g segments ih =>
    refine List.pairwise_cons.mpr ⟨fun h hh => ?_, ih fun before h after he f hf => ?_⟩
    · obtain ⟨before, after, rfl⟩ := List.append_of_mem hh
      exact hR (g :: before) h after rfl g List.mem_cons_self
    · exact hR (g :: before) h after (congrArg (g :: ·) he) f (List.mem_cons_of_mem g hf)

theorem alignDown_eq {x : Nat} (hx : x < 2 ^ 32) : Pmm.alignDown x = x / 4096 * 4096 := Align.and_mask (k := 12) hx (by decide)

theorem alignUp_eq {x : Nat} (hx : x + 4095 < 4294967296) : Pmm.alignUp x = (x + 4095) / 4096 * 4096 := by
  have hmod : (x + pageSize - 1) % 2 ^ 32 = x + 4095 := Nat.mod_eq_of_lt (show x + 4096 - 1 < 4294967296 by omega)
  unfold Pmm.alignUp
  rw [hmod]
  exact Align.and_mask (k := 12) (show x + 4095 < 2 ^ 32 from hx) (by decide)

theorem apart_of {g : ProgramHeader} (hg : Fits file bias g) (hh : Fits file bias h)
    (hoverlap : rangesOverlap (h.virtualAddress - bias) h.memorySize (g.virtualAddress - bias) g.memorySize = false)
    (hpages : h.writable ≠ g.writable →
      pageRangesOverlap (h.virtualAddress - bias) h.memorySize (g.virtualAddress - bias) g.memorySize = false) : Apart bias g h := by
  have hgbelow : g.virtualAddress - bias + g.memorySize ≤ 1032192 := hg.below
  have hhbelow : h.virtualAddress - bias + h.memorySize ≤ 1032192 := hh.below
  have hgabove := hg.above
  have hhabove := hh.above
  constructor
  · have hgmod : (g.virtualAddress - bias + g.memorySize) % 2 ^ 32 = g.virtualAddress - bias + g.memorySize :=
      Nat.mod_eq_of_lt (show _ < 4294967296 by omega)
    have hhmod : (h.virtualAddress - bias + h.memorySize) % 2 ^ 32 = h.virtualAddress - bias + h.memorySize :=
      Nat.mod_eq_of_lt (show _ < 4294967296 by omega)
    unfold rangesOverlap at hoverlap
    rw [hgmod, hhmod, Bool.and_eq_false_iff, decide_eq_false_iff_not, decide_eq_false_iff_not] at hoverlap
    omega
  · intro hne k
    have hapart := hpages (Ne.symm hne)
    rw [hg.relative_eq, hh.relative_eq]
    unfold pageRangesOverlap at hapart
    rw [alignDown_eq (show _ < 4294967296 by omega), alignDown_eq (show _ < 4294967296 by omega), alignUp_eq (by omega), alignUp_eq (by omega),
      Bool.and_eq_false_iff, decide_eq_false_iff_not, decide_eq_false_iff_not] at hapart
    show _ / 4096 ≤ k → k < (_ + 4096 - 1) / 4096 → _ / 4096 ≤ k → (_ + 4096 - 1) / 4096 ≤ k
    omega

theorem u32_lt (b : Bytes) (off : Nat) : u32 b off < 2 ^ 32 := by
  have hlength : (slice b off 4).length ≤ 4 := List.length_take_le 4 _
  exact Nat.lt_of_lt_of_le (toNat_lt _) (Nat.pow_le_pow_right (show 0 < 256 by decide) hlength)

theorem mem_programHeaders (hh : h ∈ programHeaders file) : h.virtualAddress < 2 ^ 32 := by
  obtain ⟨i, -, rfl⟩ := List.mem_map.mp hh
  exact u32_lt file _

/-- The entry point is in an executable segment that cannot be written. -/
def Enters (entry : Nat) (segments : List ProgramHeader) : Prop :=
  ∃ h ∈ segments, h.loads = true ∧ h.executable = true ∧ h.writable = false ∧ h.virtualAddress ≤ entry ∧
    entry < h.virtualAddress + h.memorySize

theorem not_writable (hx : h.executable = true) (hw : h.flags % 4 ≠ 3) : h.writable = false := by
  unfold ProgramHeader.executable at hx
  unfold ProgramHeader.writable
  rw [decide_eq_true_eq] at hx
  rw [decide_eq_false_iff_not]
  omega

theorem placed_of_rounds (hrounds : ∀ before h after, segments = before ++ h :: after → h.loads = true → Fits file bias h ∧
      ∀ g ∈ before, g.loads = true →
        rangesOverlap (h.virtualAddress - bias) h.memorySize (g.virtualAddress - bias) g.memorySize = false ∧
        (h.writable ≠ g.writable →
          pageRangesOverlap (h.virtualAddress - bias) h.memorySize (g.virtualAddress - bias) g.memorySize = false)) :
    Placed file bias segments := by
  have hfits : ∀ h ∈ segments, h.loads = true → Fits file bias h := by
    intro h hh hloads
    obtain ⟨before, after, he⟩ := List.append_of_mem hh
    exact (hrounds before h after he hloads).1
  refine ⟨hfits, List.pairwise_filter.mpr (pairwise_of_splits fun before h after he g hg hgloads hhloads => ?_)⟩
  obtain ⟨hfit, hbefore⟩ := hrounds before h after he hhloads
  obtain ⟨hoverlap, hpages⟩ := hbefore g hg hgloads
  exact apart_of (hfits g (he ▸ List.mem_append_left (h :: after) hg) hgloads) hfit hoverlap hpages

/-! ### The rounds of `validate` -/

section Validate
open LinuxI386Elf

theorem addSegment_spec {earlier : List ProgramHeader} {extent next : Extent} (hround : addSegment file earlier extent h = some next) :
    next.lowest ≤ extent.lowest ∧ (h.loads = true → h.fileSize ≤ h.memorySize ∧ h.offset + h.fileSize ≤ file.length ∧
      h.flags % 4 ≠ 3 ∧ next.lowest ≤ h.virtualAddress) := by
  unfold addSegment at hround
  split at hround
  · cases hround
  · split at hround
    · rename_i htype
      obtain rfl := Option.some.inj hround
      exact ⟨Nat.le_refl _, fun hloads => absurd hloads (by simp [ProgramHeader.loads, htype])⟩
    · split at hround
      · rename_i hzero
        split at hround
        · cases hround
        · obtain rfl := Option.some.inj hround
          exact ⟨Nat.le_refl _, fun hloads => absurd hloads (by simp [ProgramHeader.loads, hzero])⟩
      · split at hround
        · cases hround
        · rename_i hgood
          simp only [not_or, Nat.not_lt] at hgood
          obtain rfl := Option.some.inj hround
          obtain ⟨hfile, hoffset, hin, -, hflags, -⟩ := hgood
          dsimp only
          split <;> exact ⟨by omega, fun _ => ⟨hfile, by omega, hflags, by omega⟩⟩

theorem addSegment_lowest {earlier : List ProgramHeader} {extent last : Extent}
    (hscan : scanHeaders (addSegment file) earlier segments extent = some last) :
    last.lowest ≤ extent.lowest ∧ ∀ h ∈ segments, h.loads = true → last.lowest ≤ h.virtualAddress := by
  induction segments generalizing earlier extent with
  | nil =>
    obtain rfl := Option.some.inj hscan
    exact ⟨Nat.le_refl _, fun h hh => nomatch hh⟩
  | cons g segments ih =>
    rw [scanHeaders] at hscan
    cases hnext : addSegment file earlier extent g with
    | none =>
      rw [hnext] at hscan
      cases hscan
    | some next =>
      rw [hnext] at hscan
      obtain ⟨hle, hloads⟩ := addSegment_spec hnext
      obtain ⟨hlast, hall⟩ := ih hscan
      refine ⟨Nat.le_trans hlast hle, fun h hh hload => ?_⟩
      rcases List.mem_cons.mp hh with rfl | hh
      · exact Nat.le_trans hlast (hloads hload).2.2.2
      · exact hall h hh hload

theorem checkPlace_spec {entry bias : Nat} {earlier : List ProgramHeader} {found next : Bool}
    (hround : checkPlace entry stackBase pageSize bias earlier found h = some next) (hloads : h.loads = true) (habove : bias ≤ h.virtualAddress) :
    h.virtualAddress - bias + h.memorySize ≤ stackBase ∧
    (∀ g ∈ earlier, g.loads = true → bias ≤ g.virtualAddress →
      rangesOverlap (h.virtualAddress - bias) h.memorySize (g.virtualAddress - bias) g.memorySize = false ∧
      (h.writable ≠ g.writable →
        pageRangesOverlap (h.virtualAddress - bias) h.memorySize (g.virtualAddress - bias) g.memorySize = false)) := by
  unfold checkPlace at hround
  dsimp only at hround
  have hkeep : ¬(h.type ≠ 1 ∨ h.memorySize = 0 ∨ h.virtualAddress < bias) := by
    simp only [ProgramHeader.loads, Bool.and_eq_true, decide_eq_true_eq] at hloads
    omega
  rw [if_neg hkeep] at hround
  split at hround
  · cases hround
  · rename_i hplace
    split at hround
    · cases hround
    · rename_i hany
      refine ⟨by omega, fun g hg hload hgbias => ?_⟩
      have hnone := Bool.eq_false_iff.mpr fun hsome => hany (List.any_eq_true.mpr ⟨g, hg, hsome⟩)
      rw [hload, decide_eq_true hgbias, Bool.true_and, Bool.true_and, Bool.or_eq_false_iff] at hnone
      refine ⟨hnone.1, fun hne => ?_⟩
      have hpages := hnone.2
      rw [Bool.and_assoc, bne_iff_ne.mpr hne, Bool.true_and] at hpages
      exact hpages

theorem checkPlace_found {entry bias : Nat} {earlier : List ProgramHeader} {found next : Bool}
    (hround : checkPlace entry stackBase pageSize bias earlier found h = some next) (hnext : next = true) :
    found = true ∨ h.loads = true ∧ h.executable = true ∧ h.virtualAddress ≤ entry ∧ entry < h.virtualAddress + h.memorySize := by
  unfold checkPlace at hround
  dsimp only at hround
  split at hround
  · exact .inl ((Option.some.inj hround).trans hnext)
  · rename_i hkeep
    split at hround
    · cases hround
    · split at hround
      · cases hround
      · have hor := (Option.some.inj hround).trans hnext
        simp only [Bool.or_eq_true, Bool.and_eq_true, decide_eq_true_eq] at hor
        refine hor.imp_right fun ⟨⟨hx, hle⟩, hlt⟩ => ⟨?_, hx, hle, by omega⟩
        simp only [not_or, not_not, Nat.not_lt] at hkeep
        simp [ProgramHeader.loads, hkeep]

/-- What `validate` promises of a file. -/
structure Runnable (file : Bytes) (layout : Layout) : Prop where
  placed : Placed file layout.imageBias (programHeaders file)
  enters : Enters (u32 file 24) (programHeaders file)
  above : layout.imageBias ≤ u32 file 24
  entry : layout.entryOffset = u32 file 24 - layout.imageBias
  inWindow : layout.entryOffset < stackBase

theorem runnable_of_validate {layout : Layout} (hvalid : validate file stackBase pageSize = some layout) : Runnable file layout := by
  unfold validate at hvalid
  dsimp only at hvalid
  split at hvalid
  · cases hvalid
  split at hvalid
  · cases hvalid
  split at hvalid
  · cases hvalid
  rename_i extent hmeasure
  split at hvalid
  · cases hvalid
  split at hvalid
  · cases hvalid
  rename_i hentry
  split at hvalid
  · rename_i hplaces
    obtain rfl := Option.some.inj hvalid
    obtain ⟨bias, hbias⟩ : ∃ bias, pageFloor pageSize extent.lowest = bias := ⟨_, rfl⟩
    rw [hbias] at hplaces hentry ⊢
    have hlow : bias ≤ extent.lowest := hbias ▸ Nat.and_le_left
    have hmeasured : ∀ h ∈ programHeaders file, h.loads = true → h.fileSize ≤ h.memorySize ∧ h.offset + h.fileSize ≤ file.length ∧
        h.flags % 4 ≠ 3 := by
      intro h hh hloads
      obtain ⟨before, after, he⟩ := List.append_of_mem hh
      obtain ⟨st, st', hround⟩ := scanHeaders_rounds hmeasure before after he
      obtain ⟨hfile, hin, hflags, -⟩ := (addSegment_spec hround).2 hloads
      exact ⟨hfile, hin, hflags⟩
    have habove : ∀ h ∈ programHeaders file, h.loads = true → bias ≤ h.virtualAddress := fun h hh hloads =>
      Nat.le_trans hlow ((addSegment_lowest hmeasure).2 h hh hloads)
    have hplaced : Placed file bias (programHeaders file) := by
      refine placed_of_rounds fun before h after he hloads => ?_
      have hh : h ∈ programHeaders file := he ▸ List.mem_append_right before List.mem_cons_self
      obtain ⟨hfile, hin, -⟩ := hmeasured h hh hloads
      obtain ⟨st, st', hround⟩ := scanHeaders_rounds hplaces before after he
      obtain ⟨hbelow, hbefore⟩ := checkPlace_spec hround hloads (habove h hh hloads)
      refine ⟨⟨hfile, hin, habove h hh hloads, hbelow, mem_programHeaders hh⟩, fun g hg hgloads => ?_⟩
      exact hbefore g hg hgloads (habove g (he ▸ List.mem_append_left (h :: after) hg) hgloads)
    have hfound : true = true → ∃ h ∈ programHeaders file, h.loads = true ∧ h.executable = true ∧ h.virtualAddress ≤ u32 file 24 ∧
        u32 file 24 < h.virtualAddress + h.memorySize := by
      refine scanHeaders_keeps (I := fun found => found = true → ∃ h ∈ programHeaders file, h.loads = true ∧ h.executable = true ∧
        h.virtualAddress ≤ u32 file 24 ∧ u32 file 24 < h.virtualAddress + h.memorySize) (fun earlier st h st' hh hround hst hst' => ?_) hplaces nofun
      rcases checkPlace_found hround hst' with hbefore | hnow
      · exact hst hbefore
      · exact ⟨h, hh, hnow⟩
    obtain ⟨h, hh, hloads, hx, hle, hlt⟩ := hfound rfl
    refine ⟨hplaced, ⟨h, hh, hloads, hx, ?_, hle, hlt⟩, ?_, rfl, ?_⟩
    · exact not_writable hx (hmeasured h hh hloads).2.2
    · show bias ≤ u32 file 24
      omega
    · show u32 file 24 - bias < stackBase
      omega
  · cases hvalid

end Validate

/-! ### The rounds of `load_elf32` -/

theorem checkSegment_spec {earlier : List ProgramHeader} {scan next : ElfScan} (hround : checkSegment file earlier scan h = some next)
    (hword : h.virtualAddress < 2 ^ 32) (hloads : h.loads = true) :
    Fits file 0 h ∧ ∀ g ∈ earlier, g.loads = true →
      rangesOverlap (h.virtualAddress - 0) h.memorySize (g.virtualAddress - 0) g.memorySize = false ∧
      (h.writable ≠ g.writable → pageRangesOverlap (h.virtualAddress - 0) h.memorySize (g.virtualAddress - 0) g.memorySize = false) := by
  have hkeep : h.type = 1 ∧ h.memorySize ≠ 0 := by
    simpa only [ProgramHeader.loads, Bool.and_eq_true, decide_eq_true_eq] using hloads
  unfold checkSegment at hround
  dsimp only at hround
  rw [if_neg (not_not.mpr hkeep.1), if_neg hkeep.2] at hround
  split at hround
  · cases hround
  · rename_i hgood
    simp only [not_or, Nat.not_lt, Nat.not_le] at hgood
    obtain ⟨hfile, hoffset, hin, habove, hbelow, -, -⟩ := hgood
    split at hround
    · cases hround
    · rename_i hany
      refine ⟨⟨hfile, by omega, Nat.zero_le _, ?_, hword⟩, fun g hg hload => ?_⟩
      · rw [Nat.sub_zero]
        omega
      · have hnone := Bool.eq_false_iff.mpr fun hsome => hany (List.any_eq_true.mpr ⟨g, hg, hsome⟩)
        rw [hload, Bool.true_and, Bool.or_eq_false_iff] at hnone
        refine ⟨hnone.1, fun hne => ?_⟩
        have hpages := hnone.2
        rw [bne_iff_ne.mpr hne, Bool.true_and] at hpages
        exact hpages

theorem placed_of_scan {scan last : ElfScan} (hscan : scanHeaders (checkSegment file) [] (programHeaders file) scan = some last) :
    Placed file 0 (programHeaders file) := by
  refine placed_of_rounds fun before h after he hloads => ?_
  obtain ⟨st, st', hround⟩ := scanHeaders_rounds hscan before after he
  exact checkSegment_spec hround (mem_programHeaders (he ▸ List.mem_append_right before List.mem_cons_self)) hloads

/-! ### The loaded image -/

/-- How many pages the segments and the stack take. -/
def framesNeeded (bias : Nat) (segments : List ProgramHeader) : Nat := (List.range processPageCount).countP (needs bias segments)

/-- The window holds an image: each segment lies below the stack at its address less the bias, with its bytes of the file
    and zeros behind them; no two overlap; and the pages that can be written are those of the stack and of the
    segments that can be. -/
structure Loaded (file : Bytes) (bias : Nat) (segments : List ProgramHeader) (s : Paging) : Prop where
  below : ∀ h ∈ segments, h.loads = true → bias ≤ h.virtualAddress ∧ h.virtualAddress - bias + h.memorySize ≤ stackBase
  inFile : ∀ h ∈ segments, h.loads = true → h.fileSize ≤ h.memorySize ∧ h.offset + h.fileSize ≤ file.length
  bytes : ∀ h ∈ segments, h.loads = true → ∀ i < h.memorySize,
    s.userByte (h.virtualAddress - bias + i) = some (if i < h.fileSize then file.getD (h.offset + i) 0 else 0)
  apart : (segments.filter (·.loads)).Pairwise fun g h =>
    g.virtualAddress + g.memorySize ≤ h.virtualAddress ∨ h.virtualAddress + h.memorySize ≤ g.virtualAddress
  writable : ∀ o < processWindowBytes, s.writableAt o = true ↔
    (∃ h ∈ segments, h.loads = true ∧ h.writable = true ∧ ∃ a, h.virtualAddress - bias ≤ a ∧
      a < h.virtualAddress - bias + h.memorySize ∧ a / pageSize = o / pageSize) ∨ stackBase ≤ o

/-- The entry point lies in an executable segment, on a page that is mapped and cannot be written. -/
structure EntersAt (entry bias : Nat) (segments : List ProgramHeader) (s : Paging) : Prop where
  segment : ∃ h ∈ segments, h.loads = true ∧ h.executable = true ∧ h.virtualAddress ≤ entry ∧ entry < h.virtualAddress + h.memorySize
  above : bias ≤ entry
  mapped : s.userByte (entry - bias) ≠ none
  readOnly : s.writableAt (entry - bias) = false

theorem getElem_piece (hfits : Fits file bias h) {i : Nat} (hi : i < h.memorySize) :
    (piece file bias h).content[i]? = some (if i < h.fileSize then file.getD (h.offset + i) 0 else 0) := by
  have hslice := length_slice hfits.inFile
  unfold piece
  dsimp only
  by_cases hfile : i < h.fileSize
  · rw [if_pos hfile, List.getElem?_append_left (by omega), List.getElem?_eq_getElem (by omega), List.getElem_eq_getD 0, getD_slice hfile]
  · rw [if_neg hfile, List.getElem?_append_right (by omega), List.getElem?_replicate, if_pos (by omega)]

theorem covers_piece (hfits : Fits file bias h) (hpos : 0 < h.memorySize) {k : Nat} :
    (piece file bias h).Covers pageSize k ↔ ∃ a, h.virtualAddress - bias ≤ a ∧ a < h.virtualAddress - bias + h.memorySize ∧ a / pageSize = k := by
  have hcovers := Piece.covers_iff (p := piece file bias h) (k := k) page_pos (hfits.length_piece ▸ hpos)
  rw [hfits.length_piece] at hcovers
  rw [hcovers, ← hfits.relative_eq]
  exact Iff.rfl

theorem Placed.loaded (hp : Placed file bias segments) (hs : Shows p need s (image file bias segments)) : Loaded file bias segments s := by
  obtain ⟨own, hsound⟩ := hs.sound
  refine ⟨fun h hh hloads => ⟨(hp.fits h hh hloads).above, (hp.fits h hh hloads).below⟩,
    fun h hh hloads => ⟨(hp.fits h hh hloads).filled, (hp.fits h hh hloads).inFile⟩, fun h hh hloads i hi => ?_,
    hp.apart.imp fun hapart => hapart.1, fun o ho => ?_⟩
  · have hfit := hp.fits h hh hloads
    have hi' : i < (piece file bias h).content.length := hfit.length_piece.symm ▸ hi
    have hbyte := hs.byte _ _ (byte_image hp (mem_pieces.mpr ⟨h, hh, hloads, rfl⟩) hi')
    rw [← List.getElem?_eq_getElem hi', getElem_piece hfit hi] at hbyte
    rw [← hfit.relative_eq]
    exact hbyte
  · have ho' : o < 1048576 := ho
    have hpage : o / pageSize < processPageCount := by
      show o / 4096 < 256
      omega
    rw [hsound.writableAt_iff ho, hs.page, page_image hp hpage]
    refine or_congr ⟨?_, ?_⟩ ?_
    · rintro ⟨q, hq, hk, hwrite⟩
      obtain ⟨h, hh, hloads, rfl⟩ := mem_pieces.mp hq
      exact ⟨h, hh, hloads, hwrite, (covers_piece (hp.fits h hh hloads) (loads_pos hloads)).mp hk⟩
    · rintro ⟨h, hh, hloads, hwrite, hk⟩
      exact ⟨piece file bias h, mem_pieces.mpr ⟨h, hh, hloads, rfl⟩, (covers_piece (hp.fits h hh hloads) (loads_pos hloads)).mpr hk, hwrite⟩
    · show 252 ≤ o / 4096 ↔ 1032192 ≤ o
      omega

theorem Placed.entersAt (hp : Placed file bias segments) (hs : Shows p need s (image file bias segments)) {entry : Nat}
    (henters : Enters entry segments) (habove : bias ≤ entry) : EntersAt entry bias segments s := by
  obtain ⟨own, hsound⟩ := hs.sound
  obtain ⟨h, hh, hloads, hx, hwrite, hle, hlt⟩ := henters
  have hfit := hp.fits h hh hloads
  have hfitAbove := hfit.above
  have hbelow : h.virtualAddress - bias + h.memorySize ≤ 1032192 := hfit.below
  have hcovers : (piece file bias h).Covers pageSize ((entry - bias) / pageSize) :=
    (covers_piece hfit (loads_pos hloads)).mpr ⟨entry - bias, by omega, by omega, rfl⟩
  have hpage := (page_covered hp (mem_pieces.mpr ⟨h, hh, hloads, rfl⟩) hcovers).2
  rw [← hs.page, show (piece file bias h).write = false from hwrite] at hpage
  refine ⟨⟨h, hh, hloads, hx, hle, hlt⟩, habove, ?_, ?_⟩
  · have hbyte := (hp.loaded hs).bytes h hh hloads (entry - h.virtualAddress) (by omega)
    rw [show h.virtualAddress - bias + (entry - h.virtualAddress) = entry - bias by omega] at hbyte
    rw [hbyte]
    exact Option.some_ne_none _
  · refine Bool.eq_false_iff.mpr fun hon => ?_
    have hwritten := (hsound.writableAt_iff (show entry - bias < processWindowBytes from show entry - bias < 1048576 by omega)).mp hon
    rw [hpage] at hwritten
    cases hwritten

theorem Placed.run (hp : Placed file bias segments) {own : Slot → Option Nat} (hsound : Sound p s own)
    (hframes : s.Enough (framesNeeded bias segments)) {entry : Nat} (henters : Enters entry segments) (habove : bias ≤ entry) {α : Type} (a : α) :
    ∃ s', (do
        Mach.modify clearUser
        orFail (Process.mapSegments file bias segments) <| orFail (Process.protectSegments bias segments) <| orFail Process.mapStack do
          let s ← Mach.get
          if s.writableAt (entry - bias) then pure none else pure (some a) : Mach Paging (Option α)) s = (some (some a), s') ∧
      Loaded file bias segments s' ∧ EntersAt entry bias segments s' := by
  have hcleared : Shows p (needs bias segments) s.clearUser PageView.empty := hsound.shows_clearUser hframes
  obtain ⟨s₁, s₂, s₃, hmap, hprotect, hstack, hshows⟩ := hp.load hcleared
  have henter := hp.entersAt hshows henters habove
  refine ⟨s₃, ?_, hp.loaded hshows, henter⟩
  have hclear : (Mach.modify clearUser : Mach Paging Unit) s = (some (), s.clearUser) := rfl
  refine (bind_run hclear).trans ?_
  rw [orFail_run hmap, orFail_run hprotect, orFail_run hstack]
  show (if s₃.writableAt (entry - bias) then pure none else pure (some a) : Mach Paging (Option α)) s₃ = _
  rw [henter.readOnly]
  rfl

theorem loadLinuxI386_runnable {layout : LinuxI386Elf.Layout} {own : Slot → Option Nat} (hsound : Sound p s own) (hrun : Runnable file layout)
    (hvalid : LinuxI386Elf.validate file stackBase pageSize = some layout)
    (hframes : s.Enough (framesNeeded layout.imageBias (programHeaders file))) :
    ∃ s', loadLinuxI386 file s = (some (some (u32 file 24 - layout.imageBias, layout.imageBias)), s') ∧
      Loaded file layout.imageBias (programHeaders file) s' ∧ EntersAt (u32 file 24) layout.imageBias (programHeaders file) s' := by
  obtain ⟨s', hload, hloaded, henters⟩ :=
    hrun.placed.run hsound hframes hrun.enters hrun.above (u32 file 24 - layout.imageBias, layout.imageBias)
  refine ⟨s', ?_, hloaded, henters⟩
  have hentry : (u32 file 24 + 2 ^ 32 - layout.imageBias) % 2 ^ 32 = u32 file 24 - layout.imageBias := by
    have hlt := u32_lt file 24
    have habove := hrun.above
    have hmod : u32 file 24 + 2 ^ 32 - layout.imageBias = u32 file 24 - layout.imageBias + 2 ^ 32 := by omega
    rw [hmod, Nat.add_mod_right]
    exact Nat.mod_eq_of_lt (by omega)
  unfold loadLinuxI386 linuxI386StaticLayout
  rw [hvalid]
  dsimp only [Option.map_some]
  rw [hentry]
  exact hload

end Segments

end ZenovOS.Process
