import ZenovOS.Lib.Bitmap

/-! # The physical frame allocator

`pmm` of `memory.inc`, and what it reads of the boot information. -/

namespace ZenovOS.Memory
open Bitmap

/-- A region of the memory map, without the attributes that nothing reads. -/
structure E820Entry where
  baseLow : UInt32
  baseHigh : UInt32
  lengthLow : UInt32
  lengthHigh : UInt32
  type : UInt32
  deriving DecidableEq

/-- `BootInfo`, and the `e820_count` entries that stand in memory. -/
structure BootInfo where
  magic : UInt32
  entries : List E820Entry

abbrev bootMagic : UInt32 := 0x5A4F5331

/-- The globals of `pmm`. -/
structure Pmm where
  frameBitmap : Nat → BitVec 32
  availableFrames : Nat
  allocatedFrames : Nat
  initialized : Bool

namespace Pmm

abbrev pageSize : Nat := 4096
abbrev managedLimit : Nat := 0x08000000
abbrev frameCount : Nat := managedLimit / pageSize
abbrev bitmapWords : Nat := frameCount / 32
abbrev reservedEnd : Nat := 0x00820000
abbrev identityHoleStart : Nat := 0x00800000
abbrev identityHoleEnd : Nat := 0x00C00000
abbrev selfTestFrames : Nat := 16

def isUsed (p : Pmm) (frame : Nat) : Bool := test p.frameBitmap frame

/-- `mark_used`, with the counters that change with it. -/
def takeFrame (p : Pmm) (frame : Nat) : Pmm :=
  { p with
    frameBitmap := set p.frameBitmap frame
    availableFrames := p.availableFrames - 1
    allocatedFrames := p.allocatedFrames + 1 }

/-- `mark_free` of a frame that has become available. -/
def openFrame (p : Pmm) (frame : Nat) : Pmm :=
  { p with frameBitmap := clear p.frameBitmap frame, availableFrames := p.availableFrames + 1 }

/-- In 32 bits, where `~(page_size - 1)` is `2 ^ 32 - page_size`. -/
def alignUp (value : Nat) : Nat := (value + pageSize - 1) % 2 ^ 32 &&& (2 ^ 32 - pageSize)

def alignDown (value : Nat) : Nat := value &&& (2 ^ 32 - pageSize)

def allocatedBytes (p : Pmm) : Nat := p.allocatedFrames * pageSize % 2 ^ 32

def inHole (address : Nat) : Bool := identityHoleStart ≤ address && address < identityHoleEnd

/-- The loop of `release_usable_range`, for `left` more addresses at most. -/
def releaseFrom (stop : Nat) : Nat → Nat → Pmm → Pmm
  | 0, _, p => p
  | left + 1, address, p =>
    if address < stop then
      if inHole address then releaseFrom stop left (address + pageSize) p
      else
        let frame := address / pageSize
        releaseFrom stop left (address + pageSize) (if p.isUsed frame then p.openFrame frame else p)
    else p

def releaseUsableRange (p : Pmm) (start stop : Nat) : Pmm :=
  if stop ≤ start ∨ managedLimit ≤ start then p
  else
    let stop := if managedLimit < stop then managedLimit else stop
    let start := alignUp start
    let stop := alignDown stop
    let start := if start < reservedEnd then reservedEnd else start
    releaseFrom stop frameCount start p

/-- The loop of `allocate_frame` from `word` on, for `left` more words. -/
def allocateFrom (p : Pmm) : Nat → Nat → Pmm × Nat
  | 0, _ => (p, 0)
  | left + 1, word =>
    if p.frameBitmap word = 0xFFFFFFFF then allocateFrom p left (word + 1)
    else
      match (List.range 32).find? fun bit => !(frameCount ≤ word * 32 + bit || p.isUsed (word * 32 + bit)) with
      | some bit => (p.takeFrame (word * 32 + bit), (word * 32 + bit) * pageSize)
      | none => allocateFrom p left (word + 1)

/-- The frame's address, or 0. -/
def allocateFrame (p : Pmm) : Pmm × Nat :=
  if !p.initialized then (p, 0)
  else
    let first := reservedEnd / pageSize / 32
    allocateFrom p (bitmapWords - first) first

def freeFrame (p : Pmm) (address : Nat) : Pmm × Bool :=
  if !p.initialized ∨ address < reservedEnd ∨ managedLimit ≤ address ∨ inHole address ∨ address &&& (pageSize - 1) ≠ 0 then
    (p, false)
  else
    let frame := address / pageSize
    if !p.isUsed frame then (p, false)
    else ({ p.openFrame frame with allocatedFrames := p.allocatedFrames - 1 }, true)

/-- The first loop of `stress_test`: `left` more frames, behind those that are held already. -/
def takeFrames : Nat → List Nat → Pmm → Pmm × Option (List Nat)
  | 0, frames, p => (p, some frames)
  | left + 1, frames, p =>
    let (p, frame) := p.allocateFrame
    if frame = 0 ∨ frame &&& (pageSize - 1) ≠ 0 ∨ frame ∈ frames then (p, none) else takeFrames left (frames ++ [frame]) p

/-- The frames are given back in the order of the list, until one is refused. -/
def freeFrames : List Nat → Pmm → Pmm × Bool
  | [], p => (p, true)
  | frame :: frames, p =>
    let (p, ok) := p.freeFrame frame
    if ok then freeFrames frames p else (p, false)

def stressTest (p : Pmm) : Pmm × Bool :=
  if p.availableFrames < selfTestFrames then (p, false)
  else
    let freeBefore := p.availableFrames
    let allocatedBefore := p.allocatedFrames
    match takeFrames selfTestFrames [] p with
    | (p, none) => (p, false)
    | (p, some frames) =>
      if p.availableFrames + selfTestFrames ≠ freeBefore ∨ p.allocatedFrames ≠ allocatedBefore + selfTestFrames ∨
          p.allocatedBytes ≠ (allocatedBefore + selfTestFrames) * pageSize % 2 ^ 32 then (p, false)
      else
        let (p, unaligned) := p.freeFrame (frames.getD 0 0 + 1)
        if unaligned then (p, false)
        else
          let (p, freed) := freeFrames frames.reverse p
          if !freed then (p, false)
          else
            let (p, again) := p.freeFrame (frames.getD 0 0)
            if again then (p, false)
            else (p, p.availableFrames = freeBefore && p.allocatedFrames = allocatedBefore &&
              p.allocatedBytes = allocatedBefore * pageSize % 2 ^ 32)

/-- A round of the loop of `init`. -/
def releaseEntry (p : Pmm) (entry : E820Entry) : Pmm :=
  if entry.type ≠ 1 ∨ entry.baseHigh ≠ 0 then p
  else
    let stop :=
      if entry.lengthHigh = 0 then
        let candidate := entry.baseLow + entry.lengthLow
        if candidate < entry.baseLow then managedLimit else candidate.toNat
      else managedLimit
    p.releaseUsableRange entry.baseLow.toNat stop

/-- The frames of the memory map, before the self-test. -/
def load (boot : BootInfo) : Pmm :=
  let p : Pmm := ⟨fun _ => 0xFFFFFFFF, 0, 0, false⟩
  let p := if boot.magic = bootMagic then boot.entries.foldl releaseEntry p else p
  { p with initialized := p.availableFrames ≠ 0 }

def init (boot : BootInfo) : Pmm :=
  let p := load boot
  if !p.initialized then p
  else
    let (p, ok) := p.stressTest
    if ok then p else { p with initialized := false }

end Pmm
end ZenovOS.Memory
