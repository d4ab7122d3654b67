import ZenovOS.Lib.Tiling

/-! # The kernel heap

`heap` of `memory.inc`. Memory gives the header that stands at an address; a pointer is the address, and the
null pointer is 0. A walk along the list is given as many steps as there is room for headers. -/

namespace ZenovOS.Memory.Heap

abbrev startAddress : Nat := 0x00100000
abbrev limitAddress : Nat := 0x00300000
abbrev magic : Nat := 0x48454150
abbrev freeFlag : Nat := 1
abbrev granularity : Nat := 16

/-- `sizeof(Block)`. -/
abbrev blockBytes : Nat := 32

structure Block where
  signature : Nat
  capacity : Nat
  requested : Nat
  flags : Nat
  previous : Nat
  next : Nat
  deriving DecidableEq

end Heap

/-- The globals of `heap`, and the headers in memory. -/
structure Heap where
  block : Nat → Heap.Block
  first : Nat
  peakUsed : Nat
  activeAllocations : Nat

namespace Heap

/-- A header is stored. -/
def set (h : Heap) (address : Nat) (b : Block) : Heap :=
  { h with block := fun x => if x = address then b else h.block x }

/-- In 32 bits, where `~(alignment - 1)` is `2 ^ 32 - alignment`. -/
def alignUp (value alignment : Nat) : Nat := ((value + alignment - 1) % 2 ^ 32) &&& (2 ^ 32 - alignment)

def payload (block : Nat) : Nat := (block + blockBytes) % 2 ^ 32

def validBlock (h : Heap) (block : Nat) : Bool :=
  block ≠ 0 && startAddress ≤ block && payload block ≤ limitAddress && (h.block block).signature = magic &&
    (h.block block).capacity ≤ limitAddress - payload block

def isFree (h : Heap) (block : Nat) : Bool := (h.block block).flags &&& freeFlag ≠ 0

/-- The one block of a new heap. -/
def initialBlock : Block := ⟨magic, limitAddress - startAddress - blockBytes, 0, freeFlag, 0, 0⟩

def reset (h : Heap) : Heap :=
  { h.set startAddress initialBlock with first := startAddress, peakUsed := 0, activeAllocations := 0 }

/-- `if (block->next) block->next->previous = before`. -/
def linkBack (h : Heap) (block before : Nat) : Heap :=
  if block ≠ 0 then h.set block { h.block block with previous := before } else h

/-- The tail's address, or 0 if the block is not split. -/
def splitAfter (h : Heap) (block leftCapacity : Nat) : Heap × Nat :=
  let left := alignUp leftCapacity granularity
  let b := h.block block
  if !validBlock h block ∨ b.capacity < left ∨ b.capacity - left < blockBytes + granularity then (h, 0)
  else
    let tail := payload block + left
    let h := h.set tail ⟨magic, b.capacity - left - blockBytes, 0, freeFlag, block, b.next⟩
    let h := linkBack h b.next tail
    (h.set block { h.block block with next := tail, capacity := left }, tail)

/-- As many headers as the heap has room for. -/
abbrev maxBlocks : Nat := (limitAddress - startAddress) / blockBytes

/-- `used_bytes` from `block` on; `used` is the sum so far. -/
def usedFrom (h : Heap) : Nat → Nat → Nat → Nat
  | 0, _, used => used
  | fuel + 1, block, used =>
    if !validBlock h block then used
    else usedFrom h fuel (h.block block).next (if isFree h block then used else (used + (h.block block).requested) % 2 ^ 32)

def usedBytes (h : Heap) : Nat := usedFrom h (maxBlocks + 1) h.first 0

def validateFrom (h : Heap) : Nat → Nat → Nat → Nat → Bool
  | 0, _, _, _ => false
  | fuel + 1, block, expected, previous =>
    if block = 0 then expected = limitAddress
    else if !validBlock h block ∨ block ≠ expected ∨ (h.block block).previous ≠ previous then false
    else validateFrom h fuel (h.block block).next (expected + blockBytes + (h.block block).capacity) block

def validate (h : Heap) : Bool := validateFrom h (maxBlocks + 1) h.first startAddress 0

/-- The `while` loop of `allocate`: the padding before the payload is nothing, or has room for a block. -/
def padding (alignment : Nat) : Nat → Nat → Nat
  | 0, pad => pad
  | fuel + 1, pad =>
    if pad ≠ 0 ∧ pad < blockBytes + granularity then padding alignment fuel (pad + alignment) else pad

/-- `prefix`: what is to be left before the payload that is handed out. -/
def prefixOf (block alignment : Nat) : Nat :=
  padding alignment (blockBytes + granularity) (alignUp (payload block) alignment - payload block)

/-- The block is handed out. -/
def take (h : Heap) (block bytes : Nat) : Heap :=
  let h := h.set block { h.block block with flags := 0, requested := bytes }
  let h := { h with activeAllocations := (h.activeAllocations + 1) % 2 ^ 32 }
  { h with peakUsed := if h.peakUsed < usedBytes h then usedBytes h else h.peakUsed }

/-- The loop of `allocate` from `block` on. -/
def allocateFrom (bytes alignment wanted : Nat) : Nat → Nat → Heap → Heap × Nat
  | 0, _, h => (h, 0)
  | fuel + 1, block, h =>
    if !validBlock h block then (h, 0)
    else
      let next := (h.block block).next
      if !isFree h block then allocateFrom bytes alignment wanted fuel next h
      else
        let lead := prefixOf block alignment
        let capacity := (h.block block).capacity
        if capacity < lead ∨ capacity - lead < wanted then allocateFrom bytes alignment wanted fuel next h
        else if lead = 0 then
          let h := (splitAfter h block wanted).1
          (take h block bytes, payload block)
        else
          let (split, aligned) := splitAfter h block (lead - blockBytes)
          if aligned = 0 then allocateFrom bytes alignment wanted fuel next h
          else
            let h := (splitAfter split aligned wanted).1
            (take h aligned bytes, payload aligned)

/-- The payload's address, or 0. -/
def allocate (h : Heap) (bytes alignment : UInt32) : Heap × Nat :=
  if bytes = 0 ∨ alignment = 0 ∨ alignment &&& (alignment - 1) ≠ 0 ∨ 4096 < alignment then (h, 0)
  else
    let wanted := alignUp bytes.toNat granularity
    allocateFrom bytes.toNat alignment.toNat wanted (maxBlocks + 1) h.first h

/-- The first block of the list, from `block` on, that is not valid or has the payload `pointer`. -/
def findFrom (h : Heap) (pointer : Nat) : Nat → Nat → Nat
  | 0, block => block
  | fuel + 1, block =>
    if validBlock h block ∧ payload block ≠ pointer then findFrom h pointer fuel (h.block block).next else block

/-- `left->capacity += sizeof(Block) + right->capacity`, and `right` leaves the list. -/
def absorb (h : Heap) (left right : Nat) : Heap :=
  let r := h.block right
  let h := h.set left { h.block left with capacity := (h.block left).capacity + blockBytes + r.capacity, next := r.next }
  linkBack h r.next left

/-- `block` is followed by a free block, which becomes part of it. -/
def mergeNext (h : Heap) (block : Nat) : Heap :=
  let next := (h.block block).next
  if next ≠ 0 ∧ validBlock h next ∧ isFree h next then absorb h block next else h

/-- `block` becomes part of a free block before it. -/
def mergePrevious (h : Heap) (block : Nat) : Heap :=
  let previous := (h.block block).previous
  if previous ≠ 0 ∧ validBlock h previous ∧ isFree h previous then absorb h previous block else h

def release (h : Heap) (pointer : UInt32) : Heap × Bool :=
  if pointer = 0 then (h, false)
  else
    let block := findFrom h pointer.toNat (maxBlocks + 1) h.first
    if !validBlock h block ∨ isFree h block then (h, false)
    else
      let h := h.set block { h.block block with flags := freeFlag, requested := 0 }
      let h := { h with activeAllocations := h.activeAllocations - 1 }
      let h := mergePrevious (mergeNext h block) block
      (h, validate h)

end ZenovOS.Memory.Heap
