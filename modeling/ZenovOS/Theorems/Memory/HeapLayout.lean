import ZenovOS.Lib.Align
import ZenovOS.Memory.Heap

/-! # The blocks of the heap as a list

The heap is a list of chunks, free or in use, that fill it without gaps. `Laid` ties the list to the headers
in memory; what `split_after`, `release` and `validate` do to the headers is said here of the list. -/

namespace ZenovOS.Memory.Heap
open Tiling Align

/-- A block's payload is a number of units of 16 bytes. -/
inductive Chunk
  | free (units : Nat)
  | used (units requested : Nat)
  deriving DecidableEq

namespace Chunk

def units : Chunk → Nat
  | free units => units
  | used units _ => units

def isFree : Chunk → Bool
  | free _ => true
  | used _ _ => false

def requested : Chunk → Nat
  | free _ => 0
  | used _ requested => requested

def capacity (c : Chunk) : Nat := granularity * c.units

/-- The header and the payload. -/
def size (c : Chunk) : Nat := blockBytes + c.capacity

theorem size_pos (c : Chunk) : 0 < c.size := Nat.lt_of_lt_of_le (by decide) (Nat.le_add_right blockBytes c.capacity)

@[simp] theorem size_free (u : Nat) : (free u).size = 32 + 16 * u := rfl

@[simp] theorem size_used (u r : Nat) : (used u r).size = 32 + 16 * u := rfl

@[simp] theorem capacity_free (u : Nat) : (free u).capacity = 16 * u := rfl

@[simp] theorem capacity_used (u r : Nat) : (used u r).capacity = 16 * u := rfl

theorem size_eq (c : Chunk) : c.size = 32 + 16 * c.units := rfl

theorem dvd_size (c : Chunk) : 16 ∣ c.size := ⟨2 + c.units, by rw [size_eq]; omega⟩

theorem le_size (c : Chunk) : 32 ≤ c.size := Nat.le_add_right _ _

end Chunk

def header (previous next : Nat) (c : Chunk) : Block :=
  ⟨magic, c.capacity, c.requested, if c.isFree then freeFlag else 0, previous, next⟩

/-- The address behind some chunks. -/
def place (pre : List Chunk) : Nat := startAddress + span Chunk.size pre

/-- The chunks fill the heap, and memory holds their headers. -/
structure Laid (h : Heap) (chunks : List Chunk) : Prop where
  first : h.first = startAddress
  linked : Linked Chunk.size header h.block 0 0 startAddress chunks
  span : span Chunk.size chunks = limitAddress - startAddress

variable {h h' : Heap} {chunks pre post : List Chunk} {c : Chunk}

@[simp] theorem place_nil : place [] = startAddress := rfl

@[simp] theorem place_append (a b : List Chunk) : place (a ++ b) = place a + Tiling.span Chunk.size b := by
  simp [place, Nat.add_assoc]

theorem dvd_span (chunks : List Chunk) : 16 ∣ Tiling.span Chunk.size chunks := by
  induction chunks with
  | nil => exact Nat.dvd_zero 16
  | cons c chunks ih =>
    rw [span_cons]
    exact Nat.dvd_add c.dvd_size ih

theorem dvd_place (pre : List Chunk) : 16 ∣ place pre := Nat.dvd_add (by decide) (dvd_span pre)

theorem length_le_span (chunks : List Chunk) : 32 * chunks.length ≤ Tiling.span Chunk.size chunks := by
  induction chunks with
  | nil => exact Nat.le_refl 0
  | cons c chunks ih =>
    have := c.le_size
    rw [span_cons, List.length_cons]
    omega

/-! ### Reading a block -/

theorem Laid.length_le (hl : Laid h chunks) : chunks.length ≤ maxBlocks := by
  have hlen := length_le_span chunks
  have hmax : maxBlocks = 65536 := rfl
  have hspan : limitAddress - startAddress = 2097152 := rfl
  rw [hl.span] at hlen
  omega

theorem Laid.block_eq (hl : Laid h (pre ++ c :: post)) :
    h.block (place pre) = header (last Chunk.size 0 startAddress pre) (behind 0 (place pre + c.size) post) c :=
  (linked_append.mp hl.linked).2.1

theorem Laid.bounds (hl : Laid h (pre ++ c :: post)) :
    0x100000 ≤ place pre ∧ place pre + c.size + Tiling.span Chunk.size post = 0x300000 := by
  have hspan : Tiling.span Chunk.size (pre ++ c :: post) = 0x200000 := hl.span
  have hplace : place pre = 0x100000 + Tiling.span Chunk.size pre := rfl
  rw [span_append, span_cons] at hspan
  omega

theorem Laid.payload_eq (hl : Laid h (pre ++ c :: post)) : payload (place pre) = place pre + 32 := by
  have hb := hl.bounds
  have hc := c.le_size
  have hpayload : payload (place pre) = (place pre + 32) % 2 ^ 32 := rfl
  omega

theorem Laid.valid (hl : Laid h (pre ++ c :: post)) : validBlock h (place pre) = true := by
  have hb := hl.bounds
  have hsize := c.size_eq
  have hblock := hl.block_eq
  have hcapacity : (h.block (place pre)).capacity = 16 * c.units := by rw [hblock]; rfl
  have hsignature : (h.block (place pre)).signature = magic := by rw [hblock]; rfl
  unfold validBlock
  rw [hl.payload_eq, hcapacity, hsignature]
  simp only [Bool.and_eq_true, decide_eq_true_eq]
  refine ⟨⟨⟨⟨?_, hb.1⟩, ?_⟩, trivial⟩, ?_⟩
  · omega
  · show place pre + 32 ≤ 0x300000
    omega
  · show 16 * c.units ≤ 0x300000 - (place pre + 32)
    omega

theorem not_valid_zero (h : Heap) : validBlock h 0 = false := by simp [validBlock]

theorem Laid.isFree_eq (hl : Laid h (pre ++ c :: post)) : Heap.isFree h (place pre) = c.isFree := by
  have hflags : (h.block (place pre)).flags = if c.isFree then 1 else 0 := by rw [hl.block_eq]; rfl
  unfold Heap.isFree
  rw [hflags]
  cases c.isFree with
  | true => rfl
  | false => rfl

/-! ### Writing a block -/

@[simp] theorem set_block_self (h : Heap) (address : Nat) (b : Block) : (h.set address b).block address = b := if_pos rfl

theorem set_block_ne {address x : Nat} {b : Block} (hx : x ≠ address) : (h.set address b).block x = h.block x := if_neg hx

@[simp] theorem set_first (h : Heap) (address : Nat) (b : Block) : (h.set address b).first = h.first := rfl

@[simp] theorem set_active (h : Heap) (address : Nat) (b : Block) :
    (h.set address b).activeAllocations = h.activeAllocations := rfl

theorem linkBack_block_ne {block before x : Nat} (hx : x ≠ block) : (linkBack h block before).block x = h.block x := by
  unfold linkBack
  split
  · exact set_block_ne hx
  · rfl

theorem linkBack_behind {address before x : Nat} (hx : x < address) :
    (linkBack h (behind 0 address post) before).block x = h.block x := by
  cases post with
  | nil => rfl
  | cons c post => exact linkBack_block_ne (Nat.ne_of_lt hx)

@[simp] theorem linkBack_first (h : Heap) (block before : Nat) : (linkBack h block before).first = h.first := by
  unfold linkBack
  split
  · rfl
  · rfl

@[simp] theorem linkBack_active (h : Heap) (block before : Nat) :
    (linkBack h block before).activeAllocations = h.activeAllocations := by
  unfold linkBack
  split
  · rfl
  · rfl

theorem linked_set {previous address x : Nat} {b : Block} (hx : x < address)
    (hlinked : Linked Chunk.size header h.block 0 previous address post) :
    Linked Chunk.size header (h.set x b).block 0 previous address post :=
  hlinked.congr Chunk.size_pos fun y hy _ => set_block_ne (by omega)

theorem linked_linkBack {previous address before : Nat} (haddress : address ≠ 0)
    (hlinked : Linked Chunk.size header h.block 0 previous address post) :
    Linked Chunk.size header (linkBack h (behind 0 address post) before).block 0 before address post := by
  cases post with
  | nil => trivial
  | cons c post =>
    have hlink : linkBack h address before = h.set address { h.block address with previous := before } := if_pos haddress
    rw [behind_cons, hlink]
    apply hlinked.relink Chunk.size_pos
    · intro x hx _
      exact set_block_ne (Nat.ne_of_gt hx)
    · intro c next hblock
      rw [set_block_self, hblock]
      rfl

theorem Laid.replace {mid new : List Chunk} (hl : Laid h (pre ++ (mid ++ post))) (hmid : mid ≠ []) (hnew : new ≠ [])
    (hspan : Tiling.span Chunk.size new = Tiling.span Chunk.size mid) (hfirst : h'.first = h.first)
    (hpre : ∀ x, x < place pre → h'.block x = h.block x)
    (hfill : Linked Chunk.size header h'.block (behind 0 (place (pre ++ mid)) post) (last Chunk.size 0 startAddress pre)
      (place pre) new)
    (hpost : Linked Chunk.size header h'.block 0
      (last Chunk.size (last Chunk.size 0 startAddress pre) (place pre) new) (place (pre ++ mid)) post) :
    Laid h' (pre ++ (new ++ post)) where
  first := hfirst.trans hl.first
  linked := by
    rw [place_append] at hfill hpost
    exact hl.linked.replace Chunk.size_pos hnew hmid hspan (fun x _ hx => hpre x hx) hfill hpost
  span := by
    have hwhole := hl.span
    simp only [span_append, hspan] at hwhole ⊢
    exact hwhole

theorem Laid.behind_linked {mid : List Chunk} (hl : Laid h (pre ++ (mid ++ post))) :
    Linked Chunk.size header h.block 0 (last Chunk.size (last Chunk.size 0 startAddress pre) (place pre) mid)
      (place (pre ++ mid)) post := by
  have hlinked := (linked_append.mp (linked_append.mp hl.linked).2).2
  rw [place_append]
  exact hlinked

theorem Laid.modify {c' : Chunk} (hl : Laid h (pre ++ c :: post)) (hsize : c'.size = c.size) (hfirst : h'.first = h.first)
    (hself : ∀ previous next, h.block (place pre) = header previous next c → h'.block (place pre) = header previous next c')
    (hother : ∀ x, x ≠ place pre → h'.block x = h.block x) : Laid h' (pre ++ c' :: post) := by
  have hmid : Laid h (pre ++ ([c] ++ post)) := hl
  have hplace : place (pre ++ [c]) = place pre + c.size := by simp
  show Laid h' (pre ++ ([c'] ++ post))
  refine hmid.replace (List.cons_ne_nil _ _) (List.cons_ne_nil _ _) (by simp [hsize]) hfirst
    (fun x hx => hother x (Nat.ne_of_lt hx)) ⟨?_, trivial⟩ ?_
  · rw [hplace]
    exact hself _ _ hl.block_eq
  · refine hmid.behind_linked.congr Chunk.size_pos fun x hx _ => hother x ?_
    have := c.size_pos
    omega

/-! ### Splitting and joining -/

/-- The three headers that `split_after` writes. -/
def splitBlocks (h : Heap) (block tail left : Nat) : Heap :=
  let b := h.block block
  let h := linkBack (h.set tail ⟨magic, b.capacity - left - blockBytes, 0, freeFlag, block, b.next⟩) b.next tail
  h.set block { h.block block with next := tail, capacity := left }

theorem splitBlocks_laid {u l : Nat} (hl : Laid h (pre ++ .free u :: post)) (hroom : l + 3 ≤ u) :
    Laid (splitBlocks h (place pre) (place (pre ++ [.free l])) (16 * l)) (pre ++ (.free l :: .free (u - l - 2) :: post)) := by
  have hmid : Laid h (pre ++ ([.free u] ++ post)) := hl
  have hblock := hl.block_eq
  have hcapacity : (h.block (place pre)).capacity = 16 * u := by rw [hblock]; rfl
  have hnext : (h.block (place pre)).next = behind 0 (place (pre ++ [.free u])) post := by rw [hblock, place_append]; simp [header]
  have htail : place (pre ++ [.free l]) = place pre + (32 + 16 * l) := by simp
  have hend : place (pre ++ [.free u]) = place pre + (32 + 16 * u) := by simp
  have hother : ∀ x, x ≠ place pre → x < place (pre ++ [.free u]) → x ≠ place (pre ++ [.free l]) →
      (splitBlocks h (place pre) (place (pre ++ [.free l])) (16 * l)).block x = h.block x := by
    intro x hx hlt hne
    unfold splitBlocks
    rw [set_block_ne hx, hnext, linkBack_behind hlt, set_block_ne hne]
  have hself : (splitBlocks h (place pre) (place (pre ++ [.free l])) (16 * l)).block (place pre) =
      header (last Chunk.size 0 startAddress pre) (place (pre ++ [.free l])) (.free l) := by
    unfold splitBlocks
    rw [set_block_self, hnext, linkBack_behind (by omega), set_block_ne (by omega), hblock]
    rfl
  have hrest : (splitBlocks h (place pre) (place (pre ++ [.free l])) (16 * l)).block (place (pre ++ [.free l])) =
      header (place pre) (behind 0 (place (pre ++ [.free u])) post) (.free (u - l - 2)) := by
    have hcap : 16 * u - 16 * l - blockBytes = 16 * (u - l - 2) := by
      show 16 * u - 16 * l - 32 = _
      omega
    unfold splitBlocks
    rw [set_block_ne (by omega), hnext, linkBack_behind (by omega), set_block_self, hcapacity, hcap]
    rfl
  show Laid _ (pre ++ ([.free l, .free (u - l - 2)] ++ post))
  refine hmid.replace (List.cons_ne_nil _ _) (List.cons_ne_nil _ _) ?_ ?_ (fun x hx => ?_) ⟨?_, ?_, trivial⟩ ?_
  · simp
    omega
  · unfold splitBlocks
    rw [set_first, linkBack_first, set_first]
  · exact hother x (by omega) (by omega) (by omega)
  · rw [hself, htail]
    rfl
  · rw [Chunk.size_free, ← htail]
    exact hrest
  · have hbefore : last Chunk.size (last Chunk.size 0 startAddress pre) (place pre) [.free l, .free (u - l - 2)] =
        place (pre ++ [.free l]) := by
      rw [htail]
      rfl
    unfold splitBlocks
    dsimp only
    rw [hbefore, hnext]
    exact linked_set (by omega) (linked_linkBack (by omega) (linked_set (by omega) hmid.behind_linked))

theorem splitAfter_laid {u l v : Nat} (hl : Laid h (pre ++ .free u :: post)) (hv : alignUp v granularity = 16 * l) :
    (u < l + 3 ∧ splitAfter h (place pre) v = (h, 0)) ∨
    (l + 3 ≤ u ∧ splitAfter h (place pre) v =
      (splitBlocks h (place pre) (place (pre ++ [.free l])) (16 * l), place (pre ++ [.free l]))) := by
  have hcapacity : (h.block (place pre)).capacity = 16 * u := by rw [hl.block_eq]; rfl
  have htail : place pre + 32 + 16 * l = place (pre ++ [.free l]) := by simp [Nat.add_assoc]
  have hmin : blockBytes + granularity = 48 := rfl
  unfold splitAfter
  dsimp only
  rw [hv, hcapacity, hl.valid, hl.payload_eq, htail, hmin]
  by_cases hroom : l + 3 ≤ u
  · refine .inr ⟨hroom, ?_⟩
    rw [if_neg (by simp only [Bool.not_true, Bool.false_eq_true, false_or]; omega)]
    unfold splitBlocks
    dsimp only
    rw [hcapacity]
  · exact .inl ⟨Nat.lt_of_not_le hroom, if_pos (.inr (by omega))⟩

theorem absorb_laid {u v : Nat} (hl : Laid h (pre ++ .free u :: .free v :: post)) :
    Laid (absorb h (place pre) (place (pre ++ [.free u]))) (pre ++ .free (u + 2 + v) :: post) := by
  have hmid : Laid h (pre ++ ([.free u, .free v] ++ post)) := hl
  have hsecond : Laid h ((pre ++ [.free u]) ++ .free v :: post) := by simpa using hl
  have hnext : (h.block (place (pre ++ [.free u]))).next = behind 0 (place (pre ++ [.free u, .free v])) post := by
    rw [hsecond.block_eq]
    simp [header, Nat.add_assoc]
  have hright : (h.block (place (pre ++ [.free u]))).capacity = 16 * v := by rw [hsecond.block_eq]; rfl
  have hleft : (h.block (place pre)).capacity = 16 * u := by rw [hl.block_eq]; rfl
  have hcap : 16 * u + blockBytes + 16 * v = 16 * (u + 2 + v) := by
    show 16 * u + 32 + 16 * v = _
    omega
  have hend : place (pre ++ [.free u, .free v]) = place pre + (32 + 16 * u + (32 + 16 * v)) := by simp
  show Laid _ (pre ++ ([.free (u + 2 + v)] ++ post))
  unfold absorb
  dsimp only
  rw [hnext, hright, hleft, hcap]
  refine hmid.replace (List.cons_ne_nil _ _) (List.cons_ne_nil _ _) ?_ ?_ (fun x hx => ?_) ⟨?_, trivial⟩ ?_
  · simp
    omega
  · rw [linkBack_first, set_first]
  · rw [linkBack_behind (by omega), set_block_ne (by omega)]
  · rw [linkBack_behind (by omega), set_block_self, hl.block_eq]
    rfl
  · exact linked_linkBack (by omega) (linked_set (by omega) hmid.behind_linked)

end ZenovOS.Memory.Heap
