import ZenovOS.Theorems.Memory.Heap

/-! # Every run of the heap

Any calls of `allocate` and `release` keep the heap whole. What `allocate` hands out is sound as long as no
size wraps when it is rounded up: `align_up` of a size above `0xFFFFFFF0` is 0. -/

namespace ZenovOS.Memory.Heap
open Tiling Align

inductive Call
  | allocate (bytes alignment : UInt32)
  | release (pointer : UInt32)

def Call.apply (h : Heap) : Call → Heap
  | allocate bytes alignment => (h.allocate bytes alignment).1
  | release pointer => (h.release pointer).1

def run (h : Heap) (calls : List Call) : Heap := calls.foldl Call.apply h

variable {h h' : Heap} {chunks : List Chunk}

/-! ### The heap stays whole -/

theorem reset_laid (h : Heap) : Laid (reset h) [.free 131070] where
  first := rfl
  linked := ⟨set_block_self h startAddress initialBlock, trivial⟩
  span := rfl

theorem reset_shape (h : Heap) : Shape (reset h) [.free 131070] := ⟨reset_laid h, .singleton _, rfl⟩

theorem release_shape (hs : Shape h chunks) (pointer : UInt32) :
    ∃ chunks', Shape (release h pointer).1 chunks' ∧ ∀ u r, .used u r ∈ chunks' → .used u r ∈ chunks := by
  by_cases hp : pointer.toNat ∈ live h
  · obtain ⟨h', chunks', _, _, hrelease, hs', -, -, hused⟩ := release_live hs hp
    rw [hrelease]
    exact ⟨chunks', hs', hused⟩
  · rw [release_dead hs.toLaid hp]
    exact ⟨chunks, hs, fun _ _ hc => hc⟩

theorem apply_shape (hs : Shape h chunks) (call : Call) : ∃ chunks', Shape (call.apply h) chunks' := by
  cases call with
  | allocate bytes alignment =>
    show ∃ chunks', Shape (h.allocate bytes alignment).1 chunks'
    rcases allocate_shape hs bytes alignment with hnone | ⟨h', pre, u, post, left, v, right, hall, hresult⟩
    · rw [hnone]
      exact ⟨chunks, hs⟩
    · rw [hresult]
      exact ⟨_, hall.shape⟩
  | release pointer =>
    obtain ⟨chunks', hs', -⟩ := release_shape hs pointer
    exact ⟨chunks', hs'⟩

theorem run_shape (hs : Shape h chunks) (calls : List Call) : ∃ chunks', Shape (run h calls) chunks' := by
  induction calls generalizing h chunks with
  | nil => exact ⟨chunks, hs⟩
  | cons call calls ih =>
    obtain ⟨chunks', hs'⟩ := apply_shape hs call
    exact ih hs'

theorem single_of_unused (hs : Shape h chunks) (hnone : live h = []) : chunks = [.free 131070] := by
  rw [hs.live_eq] at hnone
  have hspan := hs.span
  have hapart := hs.apart
  cases chunks with
  | nil => exact absurd hspan (by decide)
  | cons c chunks =>
    cases c with
    | used u r => cases hnone
    | free u =>
      cases chunks with
      | nil =>
        have hwhole : Tiling.span Chunk.size [.free u] = 0x200000 := hspan
        rw [span_cons, span_nil, Chunk.size_free] at hwhole
        obtain rfl : u = 131070 := by omega
        rfl
      | cons d chunks =>
        cases d with
        | free v => exact absurd ⟨rfl, rfl⟩ (List.isChain_cons_cons.mp hapart).1
        | used v r => cases hnone

theorem releaseAll_shape (hs : Shape h chunks) {pointers : List UInt32} (hperm : (pointers.map UInt32.toNat).Perm (live h)) :
    ∃ chunks', Shape (pointers.foldl (fun h p => (release h p).1) h) chunks' ∧
      live (pointers.foldl (fun h p => (release h p).1) h) = [] := by
  induction pointers generalizing h chunks with
  | nil => exact ⟨chunks, hs, List.nil_perm.mp hperm⟩
  | cons p pointers ih =>
    have hmem : p.toNat ∈ live h := hperm.subset List.mem_cons_self
    obtain ⟨h', chunks', a, b, hrelease, hs', hlive, hlive', -⟩ := release_live hs hmem
    rw [List.foldl_cons, hrelease]
    refine ih hs' ?_
    rw [hlive, List.map_cons] at hperm
    rw [hlive']
    exact (hperm.trans List.perm_middle).cons_inv

theorem run_wellFormed (memory : Heap) (calls : List Call) :
    validate (run (reset memory) calls) = true ∧ NoFreePair (run (reset memory) calls) ∧
    (run (reset memory) calls).activeAllocations =
      ((blocks (run (reset memory) calls)).filter fun block => !isFree (run (reset memory) calls) block).length ∧
    (∀ pointer : UInt32, pointer.toNat ∉ live (run (reset memory) calls) →
      release (run (reset memory) calls) pointer = (run (reset memory) calls, false)) ∧
    ∀ pointers : List UInt32, (pointers.map UInt32.toNat).Perm (live (run (reset memory) calls)) →
      let released := pointers.foldl (fun h p => (release h p).1) (run (reset memory) calls)
      blocks released = [startAddress] ∧ released.block startAddress = initialBlock ∧ released.activeAllocations = 0 := by
  obtain ⟨chunks, hs⟩ := run_shape (reset_shape memory) calls
  generalize run (reset memory) calls = h at hs
  have hl := hs.toLaid
  refine ⟨hl.validate_eq, ?_, ?_, fun pointer hp => release_dead hl hp, fun pointers hperm => ?_⟩
  · have hwalk : Laid h ([] ++ chunks) := hl
    rw [NoFreePair, hl.blocks_eq, ← place_nil]
    exact chain_starts hwalk hs.apart
  · rw [hs.active, ← hl.live_eq, live, List.length_map]
  · obtain ⟨chunks', hs', hnone⟩ := releaseAll_shape hs hperm
    obtain rfl := single_of_unused hs' hnone
    refine ⟨hs'.blocks_eq, hs'.linked.1, ?_⟩
    rw [hs'.active]
    rfl

/-! ### What is handed out -/

/-- Every size that is in use fits into its block. -/
def Fits (chunks : List Chunk) : Prop := ∀ u r, .used u r ∈ chunks → r ≤ 16 * u

/-- The payload `p` that a call handed out, next to the payloads that were in use before it. -/
structure Sound (h h' : Heap) (p bytes alignment : Nat) : Prop where
  aligned : alignment ∣ p
  inHeap : startAddress ≤ p ∧ p + bytes ≤ limitAddress
  inBlock : ∃ block ∈ blocks h', payload block = p ∧ bytes ≤ (h'.block block).capacity
  apart : ∀ q ∈ live h, p + bytes ≤ q ∨ q + (h.block (q - blockBytes)).requested ≤ p

theorem le_alignUp {bytes : Nat} (hb : bytes ≤ 0xFFFFFFF0) : bytes ≤ alignUp bytes granularity := by
  have hroom : bytes + 2 ^ 4 ≤ 2 ^ 32 := by omega
  have hround : alignUp bytes granularity = roundUp bytes (2 ^ 4) := alignUp_pow hroom (by decide)
  rw [hround]
  exact le_roundUp (by decide)

theorem allocated_fits {bytes alignment u v : Nat} {pre post left right : List Chunk} (hb : bytes ≤ 0xFFFFFFF0)
    (hall : Allocated h chunks bytes alignment h' pre u post left v right) (hf : Fits chunks) :
    Fits (pre ++ (left ++ .used v bytes :: right) ++ post) := by
  intro w r hmem
  have hnot : ∀ {part : List Chunk}, (part = [] ∨ ∃ l, part = [.free l]) → .used w r ∉ part := by
    rintro part (rfl | ⟨l, rfl⟩)
    · exact List.not_mem_nil
    · simp
  simp only [List.mem_append, List.mem_cons] at hmem
  rcases hmem with (hmem | hmem | hmem | hmem) | hmem
  · exact hf w r (hall.place ▸ List.mem_append_left _ hmem)
  · exact absurd hmem (hnot hall.carved.before)
  · obtain ⟨rfl, rfl⟩ := Chunk.used.inj hmem
    exact Nat.le_trans (le_alignUp hb) hall.carved.wide
  · exact absurd hmem (hnot hall.carved.behind)
  · exact hf w r (hall.place ▸ List.mem_append_right _ (List.mem_cons_of_mem _ hmem))

theorem mem_live {address q : Nat} (hq : q ∈ liveFrom address chunks) :
    ∃ pre u r post, chunks = pre ++ .used u r :: post ∧ q = address + Tiling.span Chunk.size pre + 32 := by
  induction chunks generalizing address with
  | nil => cases hq
  | cons c chunks ih =>
    cases c with
    | free u =>
      obtain ⟨pre, v, r, post, rfl, rfl⟩ := ih hq
      exact ⟨.free u :: pre, v, r, post, rfl, by rw [span_cons, Nat.add_assoc address]⟩
    | used u r =>
      rcases List.mem_cons.mp hq with rfl | hq
      · exact ⟨[], u, r, chunks, rfl, rfl⟩
      · obtain ⟨pre, v, s, post, rfl, rfl⟩ := ih hq
        exact ⟨.used u r :: pre, v, s, post, rfl, by rw [span_cons, Nat.add_assoc address]⟩

theorem mem_live_laid (hl : Laid h chunks) {q : Nat} (hq : q ∈ live h) :
    ∃ pre u r post, chunks = pre ++ .used u r :: post ∧ q = place pre + 32 ∧ (h.block (q - blockBytes)).requested = r := by
  rw [hl.live_eq] at hq
  obtain ⟨pre, u, r, post, rfl, rfl⟩ := mem_live hq
  refine ⟨pre, u, r, post, rfl, rfl, ?_⟩
  show (h.block (place pre + 32 - 32)).requested = r
  rw [Nat.add_sub_cancel, hl.block_eq]
  rfl

theorem mem_starts (pre post : List Chunk) (c : Chunk) (address : Nat) :
    address + Tiling.span Chunk.size pre ∈ starts address (pre ++ c :: post) := by
  induction pre generalizing address with
  | nil => exact List.mem_cons_self
  | cons d pre ih =>
    rw [span_cons, ← Nat.add_assoc]
    exact List.mem_cons_of_mem _ (ih _)

theorem place_mem_blocks {pre post : List Chunk} {c : Chunk} (hl : Laid h (pre ++ c :: post)) : place pre ∈ blocks h := by
  rw [hl.blocks_eq]
  exact mem_starts pre post c startAddress

theorem allocated_sound {bytes alignment u v : Nat} {pre post left right : List Chunk} (hb : bytes ≤ 0xFFFFFFF0)
    (hs : Shape h chunks) (hf : Fits chunks) (hall : Allocated h chunks bytes alignment h' pre u post left v right) :
    Sound h h' (place (pre ++ left) + 32) bytes alignment := by
  have hlaid := hall.shape.toLaid
  rw [carve_eq] at hlaid
  have hbounds := hlaid.bounds
  rw [Chunk.size_used] at hbounds
  have hwide := Nat.le_trans (le_alignUp hb) hall.carved.wide
  have hwhole := hall.carved.whole
  rw [span_append, span_cons, Chunk.size_used, Chunk.size_free] at hwhole
  have hplace := place_append pre left
  refine ⟨hall.aligned, ⟨?_, ?_⟩, ⟨place (pre ++ left), place_mem_blocks hlaid, hlaid.payload_eq, ?_⟩, fun q hq => ?_⟩
  · show 0x100000 ≤ _
    omega
  · show _ ≤ 0x300000
    omega
  · rw [hlaid.capacity_eq]
    exact hwide
  · obtain ⟨pre', u', r', post', hsplit, rfl, hrequested⟩ := mem_live_laid hs.toLaid hq
    have hfit := hf u' r' (hsplit ▸ List.mem_append_right _ List.mem_cons_self)
    have htwo := hall.place.symm.trans hsplit
    have hne : Tiling.span Chunk.size pre ≠ Tiling.span Chunk.size pre' := by
      intro he
      cases eq_of_span_eq Chunk.size_pos htwo he
    rw [hrequested]
    have hpre : place pre = 0x100000 + Tiling.span Chunk.size pre := rfl
    have hpre' : place pre' = 0x100000 + Tiling.span Chunk.size pre' := rfl
    rcases disjoint_of_split htwo hne with hbefore | hbehind
    · rw [Chunk.size_free] at hbefore
      omega
    · rw [Chunk.size_used] at hbehind
      omega

/-- No size that was asked for wraps when it is rounded up. -/
def Modest (calls : List Call) : Prop := ∀ bytes alignment, .allocate bytes alignment ∈ calls → bytes ≤ 0xFFFFFFF0

theorem run_fits (hs : Shape h chunks) (hf : Fits chunks) {calls : List Call} (hc : Modest calls) :
    ∃ chunks', Shape (run h calls) chunks' ∧ Fits chunks' := by
  induction calls generalizing h chunks with
  | nil => exact ⟨chunks, hs, hf⟩
  | cons call calls ih =>
    have hrest : Modest calls := fun bytes alignment hmem => hc bytes alignment (List.mem_cons_of_mem _ hmem)
    cases call with
    | release pointer =>
      obtain ⟨chunks', hs', hused⟩ := release_shape hs pointer
      exact ih hs' (fun u r hmem => hf u r (hused u r hmem)) hrest
    | allocate bytes alignment =>
      have hb : bytes.toNat ≤ 0xFFFFFFF0 := UInt32.le_iff_toNat_le.mp (hc bytes alignment List.mem_cons_self)
      show ∃ chunks', Shape (run (h.allocate bytes alignment).1 calls) chunks' ∧ Fits chunks'
      rcases allocate_shape hs bytes alignment with hnone | ⟨h', pre, u, post, left, v, right, hall, hresult⟩
      · rw [hnone]
        exact ih hs hf hrest
      · rw [hresult]
        exact ih hall.shape (allocated_fits hb hall hf) hrest

/-- After any calls whose sizes do not wrap, what is handed out is sound exactly if its size does not wrap. -/
theorem allocate_sound_iff (memory : Heap) (calls : List Call) (hc : Modest calls) (bytes alignment : UInt32)
    (hp : (allocate (run (reset memory) calls) bytes alignment).2 ≠ 0) :
    Sound (run (reset memory) calls) (allocate (run (reset memory) calls) bytes alignment).1
      (allocate (run (reset memory) calls) bytes alignment).2 bytes.toNat alignment.toNat ↔ bytes ≤ 0xFFFFFFF0 := by
  have hfits : Fits [.free 131070] := by
    intro u r hmem
    cases List.mem_singleton.mp hmem
  obtain ⟨chunks, hs, hf⟩ := run_fits (reset_shape memory) hfits hc
  generalize run (reset memory) calls = h at hs hp ⊢
  rcases allocate_shape hs bytes alignment with hnone | ⟨h', pre, u, post, left, v, right, hall, hresult⟩
  · rw [hnone] at hp
    exact absurd rfl hp
  · rw [hresult]
    constructor
    · intro hsound
      have hend : place (pre ++ left) + 32 + bytes.toNat ≤ 0x300000 := hsound.inHeap.2
      rw [UInt32.le_iff_toNat_le]
      show bytes.toNat ≤ 0xFFFFFFF0
      omega
    · intro hb
      exact allocated_sound (UInt32.le_iff_toNat_le.mp hb) hs hf hall

/-- A heap that is still whole. -/
def sampleHeap : Heap := reset ⟨fun _ => ⟨0, 0, 0, 0, 0, 0⟩, 0, 0, 0⟩

theorem allocate_sound_iff_sample :
    Sound (run sampleHeap [.allocate 100 16]) (allocate (run sampleHeap [.allocate 100 16]) 300 4096).1
      (allocate (run sampleHeap [.allocate 100 16]) 300 4096).2 300 4096 ↔ (300 : UInt32) ≤ 0xFFFFFFF0 :=
  allocate_sound_iff _ [.allocate 100 16] (by
    intro bytes alignment hmem
    cases List.mem_singleton.mp hmem
    decide) 300 4096 (by decide +kernel)

/-- A size that wraps is handed out of a whole heap, and runs out of it. -/
theorem allocate_unsound : (allocate (run sampleHeap []) 0xFFFFFFFF 16).2 ≠ 0 ∧
    ¬Sound (run sampleHeap []) (allocate (run sampleHeap []) 0xFFFFFFFF 16).1
      (allocate (run sampleHeap []) 0xFFFFFFFF 16).2 0xFFFFFFFF 16 := by
  refine ⟨by decide +kernel, fun hsound => ?_⟩
  exact absurd hsound.inHeap.2 (by decide +kernel)

end ZenovOS.Memory.Heap
