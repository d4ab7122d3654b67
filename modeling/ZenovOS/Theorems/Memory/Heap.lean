import Mathlib.Data.List.Chain
import ZenovOS.Theorems.Memory.HeapLayout

/-! # Runs of the heap

What `allocate` and `release` do to the list of chunks, and what every run of them keeps. -/

namespace ZenovOS.Memory.Heap
open Tiling Align

/-! ### What the heap holds -/

/-- The blocks in the order of the list, from `block` on. -/
def blocksFrom (h : Heap) : Nat → Nat → List Nat
  | 0, _ => []
  | fuel + 1, block => if validBlock h block then block :: blocksFrom h fuel (h.block block).next else []

def blocks (h : Heap) : List Nat := blocksFrom h (maxBlocks + 1) h.first

/-- The payloads that are handed out. -/
def live (h : Heap) : List Nat := ((blocks h).filter fun block => !isFree h block).map payload

/-- No free block is followed by a free block. -/
def NoFreePair (h : Heap) : Prop := (blocks h).IsChain fun a b => ¬(isFree h a = true ∧ isFree h b = true)

/-! ### The list of chunks -/

def Apart (chunks : List Chunk) : Prop := chunks.IsChain fun a b => ¬(a.isFree = true ∧ b.isFree = true)

/-- The payloads of the chunks in use, from `address` on. -/
def liveFrom : Nat → List Chunk → List Nat
  | _, [] => []
  | address, .free u :: chunks => liveFrom (address + (Chunk.free u).size) chunks
  | address, .used u r :: chunks => (address + 32) :: liveFrom (address + (Chunk.used u r).size) chunks

variable {h h' : Heap} {chunks pre post : List Chunk} {c : Chunk} {u v r address : Nat}

theorem liveFrom_append (a b : List Chunk) :
    liveFrom address (a ++ b) = liveFrom address a ++ liveFrom (address + Tiling.span Chunk.size a) b := by
  induction a generalizing address with
  | nil => rfl
  | cons c a ih =>
    cases c with
    | free u => rw [List.cons_append, liveFrom, ih, liveFrom, span_cons, Nat.add_assoc]
    | used u r => rw [List.cons_append, liveFrom, ih, liveFrom, span_cons, Nat.add_assoc, List.cons_append]

theorem live_split (pre post : List Chunk) :
    liveFrom startAddress (pre ++ post) = liveFrom startAddress pre ++ liveFrom (place pre) post := liveFrom_append _ _

theorem live_join (pre post : List Chunk) (u v : Nat) :
    liveFrom startAddress (pre ++ .free (u + 2 + v) :: post) = liveFrom startAddress (pre ++ .free u :: .free v :: post) := by
  rw [live_split, live_split, liveFrom, liveFrom, liveFrom]
  congr 2
  simp
  omega

theorem apart_used : Apart (pre ++ .used v r :: post) ↔ Apart pre ∧ Apart post := by
  unfold Apart
  rw [List.isChain_append, List.isChain_cons]
  simp [Chunk.isFree]

theorem apart_free : Apart (pre ++ .free u :: post) ↔
    Apart pre ∧ Apart post ∧ (∀ c ∈ pre.getLast?, c.isFree = false) ∧ ∀ c ∈ post.head?, c.isFree = false := by
  unfold Apart
  rw [List.isChain_append, List.isChain_cons]
  simp [Chunk.isFree]
  tauto

/-! ### Walks -/

/-- The addresses of the chunks from `address` on. -/
def starts : Nat → List Chunk → List Nat
  | _, [] => []
  | address, c :: chunks => address :: starts (address + c.size) chunks

theorem place_snoc (pre : List Chunk) (c : Chunk) : place (pre ++ [c]) = place pre + c.size := by simp

theorem Laid.shift {suf : List Chunk} (hl : Laid h (pre ++ c :: suf)) : Laid h ((pre ++ [c]) ++ suf) := by
  rw [List.append_assoc]
  exact hl

theorem Laid.next_eq (hl : Laid h (pre ++ c :: post)) : (h.block (place pre)).next = behind 0 (place (pre ++ [c])) post := by
  rw [hl.block_eq, place_snoc]
  rfl

theorem Laid.capacity_eq (hl : Laid h (pre ++ c :: post)) : (h.block (place pre)).capacity = c.capacity := by
  rw [hl.block_eq]
  rfl

theorem blocksFrom_laid {suf : List Chunk} {fuel : Nat} (hl : Laid h (pre ++ suf)) (hfuel : suf.length < fuel) :
    blocksFrom h fuel (behind 0 (place pre) suf) = starts (place pre) suf := by
  induction suf generalizing pre fuel with
  | nil =>
    obtain ⟨fuel, rfl⟩ := Nat.exists_eq_succ_of_ne_zero (Nat.ne_zero_of_lt hfuel)
    exact if_neg (by rw [behind_nil, not_valid_zero]; decide)
  | cons c suf ih =>
    obtain ⟨fuel, rfl⟩ := Nat.exists_eq_succ_of_ne_zero (Nat.ne_zero_of_lt hfuel)
    rw [behind_cons, blocksFrom, if_pos hl.valid, hl.next_eq, ih hl.shift (Nat.lt_of_succ_lt_succ hfuel), starts, place_snoc]

theorem Laid.start_eq (hl : Laid h chunks) : h.first = behind 0 (place []) chunks := by
  have hne : chunks ≠ [] := by
    rintro rfl
    exact absurd hl.span (by decide)
  rw [hl.first]
  cases chunks with
  | nil => exact absurd rfl hne
  | cons c chunks => rfl

theorem Laid.blocks_eq (hl : Laid h chunks) : blocks h = starts startAddress chunks := by
  rw [blocks, hl.start_eq, ← place_nil]
  exact blocksFrom_laid hl (Nat.lt_succ_of_le hl.length_le)

theorem live_starts {suf : List Chunk} (hl : Laid h (pre ++ suf)) :
    ((starts (place pre) suf).filter fun block => !isFree h block).map payload = liveFrom (place pre) suf := by
  induction suf generalizing pre with
  | nil => rfl
  | cons c suf ih =>
    have hrest := ih hl.shift
    rw [place_snoc] at hrest
    have hfree := hl.isFree_eq
    cases c with
    | free u =>
      rw [starts, List.filter_cons_of_neg (by rw [hfree]; exact Bool.false_ne_true), hrest]
      rfl
    | used u r =>
      rw [starts, List.filter_cons_of_pos (by rw [hfree]; rfl), List.map_cons, hrest, hl.payload_eq]
      rfl

theorem Laid.live_eq (hl : Laid h chunks) : live h = liveFrom startAddress chunks := by
  rw [live, hl.blocks_eq, ← place_nil]
  exact live_starts hl

theorem chain_starts {suf : List Chunk} (hl : Laid h (pre ++ suf)) (hapart : Apart suf) :
    (starts (place pre) suf).IsChain fun a b => ¬(isFree h a = true ∧ isFree h b = true) := by
  induction suf generalizing pre with
  | nil => exact .nil
  | cons c suf ih =>
    have hrest := ih hl.shift hapart.tail
    rw [place_snoc] at hrest
    cases suf with
    | nil => exact .singleton _
    | cons d suf =>
      refine .cons_cons ?_ hrest
      have hshift := hl.shift.isFree_eq
      rw [place_snoc] at hshift
      rw [hl.isFree_eq, hshift]
      exact (List.isChain_cons_cons.mp hapart).1

theorem validateFrom_laid {suf : List Chunk} {fuel : Nat} (hl : Laid h (pre ++ suf)) (hfuel : suf.length < fuel) :
    validateFrom h fuel (behind 0 (place pre) suf) (place pre) (last Chunk.size 0 startAddress pre) = true := by
  induction suf generalizing pre fuel with
  | nil =>
    obtain ⟨fuel, rfl⟩ := Nat.exists_eq_succ_of_ne_zero (Nat.ne_zero_of_lt hfuel)
    have hspan := hl.span
    rw [List.append_nil] at hspan
    rw [behind_nil, validateFrom, if_pos rfl, decide_eq_true_eq, place, hspan]
    rfl
  | cons c suf ih =>
    obtain ⟨fuel, rfl⟩ := Nat.exists_eq_succ_of_ne_zero (Nat.ne_zero_of_lt hfuel)
    have hbounds := hl.bounds
    have hprevious : (h.block (place pre)).previous = last Chunk.size 0 startAddress pre := by
      rw [hl.block_eq]
      rfl
    have hrest := ih hl.shift (Nat.lt_of_succ_lt_succ hfuel)
    rw [last_snoc, place_snoc] at hrest
    have hplace : place pre + blockBytes + c.capacity = place pre + c.size := Nat.add_assoc _ _ _
    rw [behind_cons, validateFrom, if_neg (by omega), if_neg (by rw [hl.valid, hprevious]; simp), hl.next_eq, hl.capacity_eq,
      hplace, place_snoc]
    exact hrest

theorem Laid.validate_eq (hl : Laid h chunks) : validate h = true := by
  rw [validate, hl.start_eq]
  exact validateFrom_laid hl (Nat.lt_succ_of_le hl.length_le)

theorem le_of_mem_live {p : Nat} (hp : p ∈ liveFrom address chunks) : address + 32 ≤ p := by
  induction chunks generalizing address with
  | nil => cases hp
  | cons c chunks ih =>
    cases c with
    | free u =>
      have := ih hp
      omega
    | used u r =>
      rcases List.mem_cons.mp hp with rfl | hp
      · exact Nat.le_refl _
      · have := ih hp
        omega

/-- The walk of `release` stops at the block in use that has the payload, or there is none. -/
theorem findFrom_laid {suf : List Chunk} {fuel pointer : Nat} (hl : Laid h (pre ++ suf)) (hfuel : suf.length < fuel) :
    (∃ mid u r post, suf = mid ++ .used u r :: post ∧ pointer = place (pre ++ mid) + 32 ∧
      findFrom h pointer fuel (behind 0 (place pre) suf) = place (pre ++ mid)) ∨
    pointer ∉ liveFrom (place pre) suf ∧
      (validBlock h (findFrom h pointer fuel (behind 0 (place pre) suf)) = false ∨
        isFree h (findFrom h pointer fuel (behind 0 (place pre) suf)) = true) := by
  induction suf generalizing pre fuel with
  | nil =>
    obtain ⟨fuel, rfl⟩ := Nat.exists_eq_succ_of_ne_zero (Nat.ne_zero_of_lt hfuel)
    refine .inr ⟨List.not_mem_nil, .inl ?_⟩
    rw [behind_nil, findFrom, if_neg (by rw [not_valid_zero]; simp), not_valid_zero]
  | cons c suf ih =>
    obtain ⟨fuel, rfl⟩ := Nat.exists_eq_succ_of_ne_zero (Nat.ne_zero_of_lt hfuel)
    rw [behind_cons, findFrom, hl.valid, hl.payload_eq]
    by_cases hpointer : place pre + 32 = pointer
    · rw [if_neg (fun hne => hne.2 hpointer)]
      cases c with
      | free u =>
        refine .inr ⟨fun hp => ?_, .inr hl.isFree_eq⟩
        have hle := le_of_mem_live (show pointer ∈ liveFrom (place pre + (Chunk.free u).size) suf from hp)
        rw [Chunk.size_free] at hle
        omega
      | used u r => exact .inl ⟨[], u, r, suf, rfl, by rw [List.append_nil, hpointer], by rw [List.append_nil]⟩
    · rw [if_pos ⟨rfl, hpointer⟩, hl.next_eq]
      rcases ih hl.shift (Nat.lt_of_succ_lt_succ hfuel) with ⟨mid, u, r, post, rfl, hfound, hfind⟩ | ⟨hnot, hstop⟩
      · rw [List.append_assoc] at hfound hfind
        exact .inl ⟨c :: mid, u, r, post, rfl, hfound, hfind⟩
      · refine .inr ⟨?_, hstop⟩
        rw [place_snoc] at hnot
        cases c with
        | free u => exact hnot
        | used u r => exact List.not_mem_cons_of_ne_of_not_mem (Ne.symm hpointer) hnot

/-! ### Release -/

/-- A heap, its list, and the counter. -/
structure Shape (h : Heap) (chunks : List Chunk) : Prop extends Laid h chunks where
  apart : Apart chunks
  active : h.activeAllocations = (liveFrom startAddress chunks).length

theorem Laid.find_eq (hl : Laid h chunks) (pointer : Nat) :
    (∃ pre u r post, chunks = pre ++ .used u r :: post ∧ pointer = place pre + 32 ∧
      findFrom h pointer (maxBlocks + 1) h.first = place pre) ∨
    pointer ∉ live h ∧ (validBlock h (findFrom h pointer (maxBlocks + 1) h.first) = false ∨
      isFree h (findFrom h pointer (maxBlocks + 1) h.first) = true) := by
  have hwalk : Laid h ([] ++ chunks) := hl
  rw [hl.live_eq, hl.start_eq, ← place_nil]
  exact findFrom_laid hwalk (Nat.lt_succ_of_le hl.length_le)

theorem release_dead {pointer : UInt32} (hl : Laid h chunks) (hp : pointer.toNat ∉ live h) : release h pointer = (h, false) := by
  unfold release
  split
  · rfl
  · rcases hl.find_eq pointer.toNat with ⟨pre, u, r, post, rfl, hfound, -⟩ | ⟨-, hstop⟩
    · refine absurd ?_ hp
      rw [hl.live_eq, live_split, liveFrom, hfound]
      exact List.mem_append_right _ List.mem_cons_self
    · refine if_pos ?_
      rcases hstop with hstop | hstop
      · exact .inl (by rw [hstop]; rfl)
      · exact .inr hstop

/-- What a join of neighbours leaves: the same in use, and no new free pair. -/
structure Joined (chunks chunks' : List Chunk) : Prop where
  live : liveFrom startAddress chunks' = liveFrom startAddress chunks
  used : ∀ u r, .used u r ∈ chunks' → .used u r ∈ chunks

theorem Joined.refl (chunks : List Chunk) : Joined chunks chunks := ⟨rfl, fun _ _ hc => hc⟩

theorem Joined.trans {a b d : List Chunk} (hab : Joined a b) (hbd : Joined b d) : Joined a d :=
  ⟨hbd.live.trans hab.live, fun u r hc => hab.used u r (hbd.used u r hc)⟩

theorem joined_free (pre post : List Chunk) (u v : Nat) :
    Joined (pre ++ .free u :: .free v :: post) (pre ++ .free (u + 2 + v) :: post) := by
  refine ⟨live_join pre post u v, fun w r hc => ?_⟩
  simp only [List.mem_append, List.mem_cons, reduceCtorEq, false_or] at hc ⊢
  exact hc

theorem mergeNext_laid (hl : Laid h (pre ++ .free u :: post)) (hapart : Apart post) :
    ∃ v post', Laid (mergeNext h (place pre)) (pre ++ .free v :: post') ∧
      (mergeNext h (place pre)).activeAllocations = h.activeAllocations ∧
      Joined (pre ++ .free u :: post) (pre ++ .free v :: post') ∧ Apart post' ∧ ∀ c ∈ post'.head?, c.isFree = false := by
  unfold mergeNext
  dsimp only
  rw [hl.next_eq]
  cases post with
  | nil =>
    rw [behind_nil, if_neg (by simp)]
    exact ⟨u, [], hl, rfl, Joined.refl _, hapart, by simp⟩
  | cons c post =>
    have hvalid := hl.shift.valid
    have hfree := hl.shift.isFree_eq
    rw [behind_cons]
    cases c with
    | free v =>
      have hrest : Apart ([] ++ .free v :: post) := hapart
      rw [apart_free] at hrest
      have hbounds := hl.shift.bounds
      rw [if_pos ⟨by omega, hvalid, hfree⟩]
      exact ⟨u + 2 + v, post, absorb_laid hl, by simp [absorb], joined_free _ _ _ _, hrest.2.1, hrest.2.2.2⟩
    | used v r =>
      rw [if_neg (fun hc => by rw [hfree] at hc; exact Bool.false_ne_true hc.2.2)]
      exact ⟨u, _, hl, rfl, Joined.refl _, hapart, by simp [Chunk.isFree]⟩

theorem mergePrevious_laid (hl : Laid h (pre ++ .free u :: post)) (hapart : Apart pre) :
    ∃ pre' v, Laid (mergePrevious h (place pre)) (pre' ++ .free v :: post) ∧
      (mergePrevious h (place pre)).activeAllocations = h.activeAllocations ∧
      Joined (pre ++ .free u :: post) (pre' ++ .free v :: post) ∧ Apart pre' ∧ ∀ c ∈ pre'.getLast?, c.isFree = false := by
  have hprevious : (h.block (place pre)).previous = last Chunk.size 0 startAddress pre := by
    rw [hl.block_eq]
    rfl
  unfold mergePrevious
  dsimp only
  rw [hprevious]
  rcases List.eq_nil_or_concat' pre with rfl | ⟨pre, c, rfl⟩
  · rw [if_neg (by simp [last])]
    exact ⟨[], u, hl, rfl, Joined.refl _, hapart, by simp⟩
  · have hleft : Laid h (pre ++ c :: .free u :: post) := by simpa using hl
    have hvalid := hleft.valid
    have hfree := hleft.isFree_eq
    have hbounds := hleft.bounds
    have hlast : last Chunk.size 0 startAddress (pre ++ [c]) = place pre := last_snoc pre c
    rw [hlast]
    cases c with
    | free v =>
      have hrest := apart_free.mp hapart
      rw [if_pos ⟨by omega, hvalid, hfree⟩]
      refine ⟨pre, v + 2 + u, absorb_laid hleft, by simp [absorb], ?_, hrest.1, hrest.2.2.1⟩
      have hjoin := joined_free pre post v u
      simpa using hjoin
    | used v r =>
      rw [if_neg (fun hc => by rw [hfree] at hc; exact Bool.false_ne_true hc.2.2)]
      exact ⟨_, u, hl, rfl, Joined.refl _, hapart, by simp [Chunk.isFree]⟩

/-- The block is free again, and its neighbours are as they were. -/
def freed (h : Heap) (block : Nat) : Heap :=
  { h.set block { h.block block with flags := freeFlag, requested := 0 } with
    activeAllocations := h.activeAllocations - 1 }

theorem freed_laid (hl : Laid h (pre ++ .used u r :: post)) : Laid (freed h (place pre)) (pre ++ .free u :: post) := by
  refine hl.modify rfl rfl (fun previous next hblock => ?_) fun x hx => set_block_ne hx
  show (h.set (place pre) _).block (place pre) = _
  rw [set_block_self, hblock]
  rfl

theorem release_live {pointer : UInt32} (hs : Shape h chunks) (hp : pointer.toNat ∈ live h) :
    ∃ h' chunks' a b, release h pointer = (h', true) ∧ Shape h' chunks' ∧ live h = a ++ pointer.toNat :: b ∧
      live h' = a ++ b ∧ ∀ u r, .used u r ∈ chunks' → .used u r ∈ chunks := by
  have hl := hs.toLaid
  obtain ⟨pre, u, r, post, rfl, hpointer, hfind⟩ := (hl.find_eq pointer.toNat).resolve_right fun hnot => hnot.1 hp
  have hapart := apart_used.mp hs.apart
  have hzero : pointer ≠ 0 := by
    rintro rfl
    have : (0 : UInt32).toNat = 0 := rfl
    omega
  have hlive : live h = liveFrom startAddress pre ++ pointer.toNat :: liveFrom (place pre + (Chunk.free u).size) post := by
    rw [hl.live_eq, live_split, liveFrom, hpointer]
    rfl
  have hrest : liveFrom startAddress (pre ++ .free u :: post) =
      liveFrom startAddress pre ++ liveFrom (place pre + (Chunk.free u).size) post := by rw [live_split, liveFrom]
  obtain ⟨v, post', hnext, hactive, hjoin, hapart', hhead⟩ := mergeNext_laid (freed_laid hl) hapart.2
  obtain ⟨pre', w, hprevious, hactive', hjoin', hapart'', hlast⟩ := mergePrevious_laid hnext hapart.1
  have hjoined := hjoin.trans hjoin'
  refine ⟨mergePrevious (mergeNext (freed h (place pre)) (place pre)) (place pre), pre' ++ .free w :: post',
    liveFrom startAddress pre, liveFrom (place pre + (Chunk.free u).size) post, ?_, ?_, hlive, ?_, fun w' r' hc => ?_⟩
  · unfold release
    rw [if_neg hzero]
    dsimp only
    rw [hfind, if_neg (by rw [hl.valid, hl.isFree_eq]; simp [Chunk.isFree])]
    show (_, validate (mergePrevious (mergeNext (freed h (place pre)) (place pre)) (place pre))) = _
    rw [hprevious.validate_eq]
    rfl
  · refine ⟨hprevious, apart_free.mpr ⟨hapart'', hapart', hlast, hhead⟩, ?_⟩
    rw [hactive', hactive, hjoined.live, hrest]
    show h.activeAllocations - 1 = _
    rw [hs.active, ← hl.live_eq, hlive]
    simp
  · rw [hprevious.live_eq, hjoined.live, hrest]
  · have hmem := hjoined.used w' r' hc
    simp only [List.mem_append, List.mem_cons, reduceCtorEq, false_or] at hmem
    exact List.mem_append.mpr (hmem.imp_right (List.mem_cons_of_mem _))

/-! ### Padding -/

theorem padding_spec {a : Nat} (ha : 0 < a) {fuel pad : Nat} (hfuel : 48 ≤ fuel + pad ∨ pad = 0) :
    ∃ i, padding a fuel pad = pad + i * a ∧ (pad + i * a = 0 ∨ 48 ≤ pad + i * a) := by
  induction fuel generalizing pad with
  | zero => exact ⟨0, by rw [padding, Nat.zero_mul, Nat.add_zero], by omega⟩
  | succ fuel ih =>
    have hmin : blockBytes + granularity = 48 := rfl
    rw [padding, hmin]
    split
    · rename_i hshort
      obtain ⟨i, hi, hwide⟩ := ih (by omega : 48 ≤ fuel + (pad + a) ∨ pad + a = 0)
      have hstep : pad + a + i * a = pad + (i + 1) * a := by rw [Nat.succ_mul, Nat.add_assoc, Nat.add_comm a]
      rw [hstep] at hi hwide
      exact ⟨i + 1, hi, hwide⟩
    · exact ⟨0, by rw [Nat.zero_mul, Nat.add_zero], by omega⟩

theorem alignUp_pow {v k : Nat} (hv : v + 2 ^ k ≤ 2 ^ 32) (hk : k ≤ 32) : alignUp v (2 ^ k) = roundUp v (2 ^ k) := by
  have hpos : 0 < 2 ^ k := Nat.two_pow_pos k
  have hlt : v + 2 ^ k - 1 < 2 ^ 32 := by omega
  rw [alignUp, Nat.mod_eq_of_lt hlt, and_mask hlt hk, roundUp]

theorem prefixOf_spec {k : Nat} (hk : k ≤ 12) (hl : Laid h (pre ++ c :: post)) :
    ∃ m, prefixOf (place pre) (2 ^ k) = 16 * m ∧ (m = 0 ∨ 3 ≤ m) ∧ 2 ^ k ∣ place pre + 32 + 16 * m := by
  have hbounds := hl.bounds
  have hpos : 0 < 2 ^ k := Nat.two_pow_pos k
  have hpow : 2 ^ k ≤ 2 ^ 12 := Nat.pow_le_pow_right (by decide) hk
  have h16 : 16 ∣ place pre + 32 := Nat.dvd_add (dvd_place pre) (by decide)
  have hround : alignUp (place pre + 32) (2 ^ k) = roundUp (place pre + 32) (2 ^ k) := alignUp_pow (by omega) (by omega)
  have hle := le_roundUp (x := place pre + 32) hpos
  unfold prefixOf
  rw [hl.payload_eq, hround]
  rcases Nat.lt_or_ge k 4 with hsmall | hlarge
  · -- every payload is aligned already
    have hdvd : 2 ^ k ∣ place pre + 32 := dvd_of_pow (Nat.le_of_lt hsmall) h16
    rw [roundUp_of_dvd hpos hdvd, Nat.sub_self]
    exact ⟨0, rfl, .inl rfl, hdvd⟩
  · have hdvd : 16 ∣ 2 ^ k := Nat.pow_dvd_pow 2 hlarge
    have hfuel : 48 ≤ 48 + (roundUp (place pre + 32) (2 ^ k) - (place pre + 32)) ∨
        roundUp (place pre + 32) (2 ^ k) - (place pre + 32) = 0 := .inl (Nat.le_add_right _ _)
    obtain ⟨i, hi, hwide⟩ := padding_spec hpos hfuel
    have hlead : 16 ∣ roundUp (place pre + 32) (2 ^ k) - (place pre + 32) + i * 2 ^ k :=
      Nat.dvd_add (Nat.dvd_sub (Nat.dvd_trans hdvd dvd_roundUp) h16) (Nat.dvd_trans hdvd (Nat.dvd_mul_left _ _))
    obtain ⟨m, hm⟩ := hlead
    rw [hm] at hi hwide
    refine ⟨m, hi, by omega, ?_⟩
    rw [← hm, ← Nat.add_assoc, Nat.add_sub_cancel' hle]
    exact Nat.dvd_add dvd_roundUp (Nat.dvd_mul_left _ _)

theorem pow_of_alignment {alignment : UInt32} (hne : alignment ≠ 0) (hpow : alignment &&& (alignment - 1) = 0)
    (hle : alignment ≤ 4096) : ∃ k, k ≤ 12 ∧ alignment.toNat = 2 ^ k := by
  have hne' : alignment.toNat ≠ 0 := fun hzero => hne (UInt32.toNat.inj hzero)
  have hone : (1 : UInt32) ≤ alignment := by
    rw [UInt32.le_iff_toNat_le]
    exact Nat.one_le_iff_ne_zero.mpr hne'
  have hand := congrArg UInt32.toNat hpow
  rw [UInt32.toNat_and, UInt32.toNat_sub_of_le _ _ hone] at hand
  obtain ⟨k, hk⟩ := (Nat.and_sub_one_eq_zero_iff_isPowerOfTwo hne').mp hand
  rw [UInt32.le_iff_toNat_le, hk] at hle
  exact ⟨k, (Nat.pow_le_pow_iff_right (by decide)).mp hle, hk⟩

theorem alignUp_units (v : Nat) : ∃ w, alignUp v granularity = 16 * w := by
  have hmask := and_mask (x := (v + 16 - 1) % 2 ^ 32) (k := 4) (w := 32) (Nat.mod_lt _ (by decide)) (by decide)
  exact ⟨_, hmask.trans (Nat.mul_comm _ _)⟩

theorem alignUp_unit {w : Nat} (hw : 16 * w + 16 ≤ 2 ^ 32) : alignUp (16 * w) granularity = 16 * w := by
  have hround : alignUp (16 * w) granularity = roundUp (16 * w) 16 := alignUp_pow (k := 4) hw (by decide)
  rw [roundUp_of_dvd (by decide) (Nat.dvd_mul_right 16 w)] at hround
  exact hround

/-! ### Allocation -/

theorem take_laid (bytes : Nat) (hl : Laid h (pre ++ .free u :: post)) :
    Laid (take h (place pre) bytes) (pre ++ .used u bytes :: post) := by
  refine hl.modify rfl rfl (fun previous next hblock => ?_) fun x hx => set_block_ne hx
  show (h.set (place pre) _).block (place pre) = _
  rw [set_block_self, hblock]
  rfl

theorem take_active (h : Heap) (block bytes : Nat) :
    (take h block bytes).activeAllocations = (h.activeAllocations + 1) % 2 ^ 32 := rfl

/-- What a free chunk of `u` units becomes: a free one before the payload, the one in use, and a free one behind. -/
structure Carved (u bytes wanted : Nat) (left : List Chunk) (v : Nat) (right : List Chunk) : Prop where
  before : left = [] ∨ ∃ l, left = [.free l]
  behind : right = [] ∨ ∃ r, right = [.free r]
  whole : Tiling.span Chunk.size (left ++ .used v bytes :: right) = (Chunk.free u).size
  wide : wanted ≤ 16 * v

theorem cut_laid {w : Nat} (hl : Laid h (pre ++ .free u :: post)) (hw : w ≤ u) (bytes : Nat) :
    ∃ v right, Laid (take (splitAfter h (place pre) (16 * w)).1 (place pre) bytes) (pre ++ (.used v bytes :: right) ++ post) ∧
      (splitAfter h (place pre) (16 * w)).1.activeAllocations = h.activeAllocations ∧
      Carved u bytes (16 * w) [] v right := by
  have hbounds := hl.bounds
  rw [Chunk.size_free] at hbounds
  rcases splitAfter_laid hl (alignUp_unit (w := w) (by omega)) with ⟨-, hsplit⟩ | ⟨hroom, hsplit⟩
  · rw [hsplit]
    exact ⟨u, [], by simpa using take_laid bytes hl, rfl, .inl rfl, .inl rfl, by simp, Nat.mul_le_mul_left 16 hw⟩
  · rw [hsplit]
    refine ⟨w, [.free (u - w - 2)], ?_, ?_, .inl rfl, .inr ⟨_, rfl⟩, ?_, Nat.le_refl _⟩
    · have htaken := take_laid bytes (splitBlocks_laid hl hroom)
      simpa using htaken
    · simp [splitBlocks]
    · simp
      omega

/-- How `allocate` ends from `pre` on: nothing fits, or a free chunk behind it is carved. -/
def Handed (h : Heap) (pre suf : List Chunk) (bytes k w : Nat) (result : Heap × Nat) : Prop :=
  result = (h, 0) ∨
  ∃ mid u post left v right h', suf = mid ++ .free u :: post ∧ Carved u bytes (16 * w) left v right ∧
    Laid h' (pre ++ mid ++ (left ++ .used v bytes :: right) ++ post) ∧
    h'.activeAllocations = (h.activeAllocations + 1) % 2 ^ 32 ∧ 2 ^ k ∣ place (pre ++ mid ++ left) + 32 ∧
    result = (h', place (pre ++ mid ++ left) + 32)

theorem Handed.skip {suf : List Chunk} {bytes k w : Nat} {result : Heap × Nat} (hh : Handed h (pre ++ [c]) suf bytes k w result) :
    Handed h pre (c :: suf) bytes k w result := by
  rcases hh with hnone | ⟨mid, u, post, left, v, right, h', rfl, hcarved, hl, hactive, hdvd, hresult⟩
  · exact .inl hnone
  · rw [List.append_assoc pre] at hl hdvd hresult
    exact .inr ⟨c :: mid, u, post, left, v, right, h', rfl, hcarved, hl, hactive, hdvd, hresult⟩

theorem allocateFrom_laid {suf : List Chunk} {k : Nat} (fuel bytes w : Nat) (hl : Laid h (pre ++ suf)) (hk : k ≤ 12) :
    Handed h pre suf bytes k w (allocateFrom bytes (2 ^ k) (16 * w) fuel (behind 0 (place pre) suf) h) := by
  induction suf generalizing pre fuel with
  | nil =>
    cases fuel with
    | zero => exact .inl rfl
    | succ fuel => exact .inl (if_pos (by rw [behind_nil, not_valid_zero]; rfl))
  | cons c suf ih =>
    cases fuel with
    | zero => exact .inl rfl
    | succ fuel =>
      have hskip := (ih fuel hl.shift).skip
      rw [behind_cons, allocateFrom, hl.valid, hl.next_eq, hl.isFree_eq, hl.capacity_eq]
      cases c with
      | used u r => exact hskip
      | free u =>
        obtain ⟨m, hlead, hm, hdvd⟩ := prefixOf_spec hk hl
        rw [hlead]
        dsimp only [Chunk.isFree, Chunk.capacity_free]
        simp only [Bool.not_true, Bool.false_eq_true, if_false]
        split
        · exact hskip
        rename_i hfits
        split
        · -- the payload is aligned: the block is cut from its start
          rename_i hnone
          obtain ⟨v, right, hcut, hactive, hcarved⟩ := cut_laid hl (by omega : w ≤ u) bytes
          refine .inr ⟨[], u, suf, [], v, right, take (splitAfter h (place pre) (16 * w)).1 (place pre) bytes, rfl, hcarved, ?_, ?_,
            ?_, ?_⟩
          · simpa using hcut
          · rw [take_active, hactive]
          · rw [hnone] at hdvd
            simpa using hdvd
          · rw [hl.payload_eq]
            simp
        · have hleft : 16 * m - blockBytes = 16 * (m - 2) := by
            show 16 * m - 32 = _
            omega
          have hbounds := hl.bounds
          rw [Chunk.size_free] at hbounds
          rw [hleft]
          rcases splitAfter_laid hl (alignUp_unit (w := m - 2) (by omega)) with ⟨-, hsplit⟩ | ⟨hroom, hsplit⟩
          · rw [hsplit, if_pos rfl]
            exact hskip
          · have hlaid := (splitBlocks_laid hl hroom).shift
            have hplace : place (pre ++ [.free (m - 2)]) = place pre + 16 * m := by
              simp
              omega
            obtain ⟨v, right, hcut, hactive, hcarved⟩ := cut_laid hlaid (by omega : w ≤ u - (m - 2) - 2) bytes
            have hsame : (splitBlocks h (place pre) (place (pre ++ [.free (m - 2)])) (16 * (m - 2))).activeAllocations =
                h.activeAllocations := by simp [splitBlocks]
            rw [hsplit, if_neg (by omega)]
            refine .inr ⟨[], u, suf, [.free (m - 2)], v, right,
              take (splitAfter (splitBlocks h (place pre) (place (pre ++ [.free (m - 2)])) (16 * (m - 2)))
                (place (pre ++ [.free (m - 2)])) (16 * w)).1 (place (pre ++ [.free (m - 2)])) bytes,
              rfl, ⟨.inr ⟨_, rfl⟩, hcarved.behind, ?_, hcarved.wide⟩, ?_, ?_, ?_, ?_⟩
            · have hwhole := hcarved.whole
              rw [List.nil_append, Chunk.size_free] at hwhole
              rw [List.singleton_append, span_cons, hwhole, Chunk.size_free, Chunk.size_free]
              omega
            · simpa using hcut
            · rw [take_active, hactive, hsame]
            · rw [List.append_nil, hplace, Nat.add_right_comm]
              exact hdvd
            · rw [hlaid.payload_eq, List.append_nil]

theorem length_live_le (address : Nat) (chunks : List Chunk) : (liveFrom address chunks).length ≤ chunks.length := by
  induction chunks generalizing address with
  | nil => exact Nat.le_refl 0
  | cons c chunks ih =>
    cases c with
    | free u => exact Nat.le_succ_of_le (ih _)
    | used u r => exact Nat.succ_le_succ (ih _)

theorem live_of_free {part : List Chunk} (hpart : part = [] ∨ ∃ l, part = [.free l]) (address : Nat) :
    liveFrom address part = [] := by
  rcases hpart with rfl | ⟨l, rfl⟩
  · rfl
  · rfl

section Carve
variable {bytes wanted : Nat} {left right : List Chunk}

theorem carve_eq (pre left right post : List Chunk) (v bytes : Nat) :
    pre ++ (left ++ .used v bytes :: right) ++ post = (pre ++ left) ++ .used v bytes :: (right ++ post) := by simp

theorem Carved.live (hc : Carved u bytes wanted left v right) (pre post : List Chunk) :
    liveFrom startAddress (pre ++ (left ++ .used v bytes :: right) ++ post) =
      liveFrom startAddress pre ++ (place (pre ++ left) + 32) :: liveFrom (place pre + (Chunk.free u).size) post := by
  have hwhole := hc.whole
  have hend : place (pre ++ left) + (Chunk.used v bytes).size + Tiling.span Chunk.size right =
      place pre + (Chunk.free u).size := by
    rw [span_append, span_cons] at hwhole
    rw [place_append]
    omega
  rw [carve_eq, live_split, live_split, live_of_free hc.before, List.append_nil, liveFrom, liveFrom_append,
    live_of_free hc.behind, List.nil_append, hend]

theorem Carved.apart (hc : Carved u bytes wanted left v right) (ha : Apart (pre ++ .free u :: post)) :
    Apart (pre ++ (left ++ .used v bytes :: right) ++ post) := by
  obtain ⟨hpre, hpost, hlast, hhead⟩ := apart_free.mp ha
  rw [carve_eq, apart_used]
  constructor
  · rcases hc.before with rfl | ⟨l, rfl⟩
    · rwa [List.append_nil]
    · exact apart_free.mpr ⟨hpre, .nil, hlast, by simp⟩
  · rcases hc.behind with rfl | ⟨r, rfl⟩
    · exact hpost
    · show Apart ([] ++ .free r :: post)
      exact apart_free.mpr ⟨.nil, hpost, by simp, hhead⟩

end Carve

/-- What a call of `allocate` that hands a payload out does. -/
structure Allocated (h : Heap) (chunks : List Chunk) (bytes alignment : Nat) (h' : Heap) (pre : List Chunk) (u : Nat)
    (post left : List Chunk) (v : Nat) (right : List Chunk) : Prop where
  place : chunks = pre ++ .free u :: post
  carved : Carved u bytes (alignUp bytes granularity) left v right
  shape : Shape h' (pre ++ (left ++ .used v bytes :: right) ++ post)
  aligned : alignment ∣ Heap.place (pre ++ left) + 32

theorem allocate_shape (hs : Shape h chunks) (bytes alignment : UInt32) :
    allocate h bytes alignment = (h, 0) ∨
    ∃ h' pre u post left v right, Allocated h chunks bytes.toNat alignment.toNat h' pre u post left v right ∧
      allocate h bytes alignment = (h', place (pre ++ left) + 32) := by
  unfold allocate
  split
  · exact .inl rfl
  · rename_i hargs
    simp only [not_or, ne_eq, not_not, UInt32.not_lt] at hargs
    obtain ⟨-, hne, hpow, hle⟩ := hargs
    obtain ⟨k, hk, halignment⟩ := pow_of_alignment hne hpow hle
    obtain ⟨w, hw⟩ := alignUp_units bytes.toNat
    have hl : Laid h ([] ++ chunks) := hs.toLaid
    rw [hs.start_eq, halignment, hw]
    rcases allocateFrom_laid (maxBlocks + 1) bytes.toNat w hl hk with
      hnone | ⟨pre, u, post, left, v, right, h', rfl, hcarved, hlaid, hactive, hdvd, hresult⟩
    · exact .inl hnone
    · refine .inr ⟨h', pre, u, post, left, v, right, ⟨rfl, by rw [hw]; exact hcarved, ⟨hlaid, hcarved.apart hs.apart, ?_⟩, hdvd⟩,
        hresult⟩
      have hlength := length_live_le startAddress (pre ++ (left ++ .used v bytes.toNat :: right) ++ post)
      have hmax := hlaid.length_le
      have hold := hs.active
      rw [hcarved.live] at hlength ⊢
      rw [live_split, liveFrom] at hold
      rw [hactive, hold]
      simp only [List.length_append, List.length_cons] at hlength ⊢
      have hbound : maxBlocks = 65536 := rfl
      have hmax' : (pre ++ (left ++ .used v bytes.toNat :: right) ++ post).length ≤ 65536 := hmax
      simp only [List.length_append, List.length_cons] at hmax'
      omega

end ZenovOS.Memory.Heap
