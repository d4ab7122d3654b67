import ZenovOS.Lib.Bytes
import ZenovOS.Lib.Mach
import ZenovOS.Memory.Frames

/-! # Address spaces

The address spaces of `paging` in `memory.inc`, over the frame allocator. A pointer to an `AddressSpace` is a
number, and memory gives the words of the frame at an address. The page directory and the reloads, which
nothing here reads, are left out; so are the kernel's own tables. -/

namespace ZenovOS.Memory
open Pmm

structure AddressSpace where
  tablePhysical : Nat
  mappedPages : Nat
  deriving DecidableEq

structure Paging where
  pmm : Pmm
  word : Nat → Nat → Nat
  legacyUserTable : Nat → Nat
  space : Nat → AddressSpace
  activeAddressSpace : Option Nat

namespace Paging

abbrev present : Nat := 1
abbrev writable : Nat := 2
abbrev user : Nat := 4
abbrev processWindowBytes : Nat := 0x00100000
abbrev processPageCount : Nat := processWindowBytes / pageSize
abbrev legacyUserPhysicalBase : Nat := 0x00600000

/-- The frame's address in an entry. -/
def entryFrame (entry : Nat) : Nat := entry &&& (2 ^ 32 - pageSize)

def isPresent (entry : Nat) : Bool := entry &&& present ≠ 0

/-- `memset` of a whole frame to zero. -/
def zeroFrame (s : Paging) (address : Nat) : Paging :=
  { s with word := fun a k => if a = address then 0 else s.word a k }

/-- `table[page] = entry`, in a table of an address space. -/
def storeEntry (s : Paging) (table page entry : Nat) : Paging :=
  { s with word := fun a k => if a = table ∧ k = page then entry else s.word a k }

def setSpace (s : Paging) (pointer : Nat) (space : AddressSpace) : Paging :=
  { s with space := fun p => if p = pointer then space else s.space p }

def create (s : Paging) (pointer : Nat) : Paging × Bool :=
  if (s.space pointer).tablePhysical ≠ 0 ∨ !s.pmm.initialized then (s, false)
  else
    let (pmm, frame) := s.pmm.allocateFrame
    let s := { s with pmm }
    if frame = 0 then (s, false) else ((s.setSpace pointer ⟨frame, 0⟩).zeroFrame frame, true)

/-- A round of the loop of `address_space_clear`. -/
def clearPage (table : Nat) (s : Paging) (page : Nat) : Paging :=
  let entry := s.word table page
  if !isPresent entry then s
  else
    let frame := entryFrame entry
    let s := (s.storeEntry table page 0).zeroFrame frame
    { s with pmm := (s.pmm.freeFrame frame).1 }

def clear (s : Paging) (pointer : Nat) : Paging :=
  let table := (s.space pointer).tablePhysical
  if table = 0 then s
  else
    let s := (List.range processPageCount).foldl (clearPage table) s
    s.setSpace pointer { s.space pointer with mappedPages := 0 }

def destroy (s : Paging) (pointer : Nat) : Paging :=
  if (s.space pointer).tablePhysical = 0 then s
  else
    let s := if s.activeAddressSpace = some pointer then { s with activeAddressSpace := none } else s
    let s := s.clear pointer
    let table := (s.space pointer).tablePhysical
    let s := (s.zeroFrame table).setSpace pointer ⟨0, 0⟩
    { s with pmm := (s.pmm.freeFrame table).1 }

def activate (s : Paging) (pointer : Option Nat) : Paging × Bool :=
  match pointer with
  | some p => if (s.space p).tablePhysical = 0 then (s, false) else ({ s with activeAddressSpace := some p }, true)
  | none => ({ s with activeAddressSpace := none }, true)

def clearUser (s : Paging) : Paging :=
  match s.activeAddressSpace with
  | some p => s.clear p
  | none => { s with legacyUserTable := fun _ => 0 }

/-- The first page of a range and the page behind it; none if the range is refused. -/
def pageRange (offset length : UInt32) : Option (Nat × Nat) :=
  if length = 0 ∨ processWindowBytes ≤ offset.toNat ∨ processWindowBytes - offset.toNat < length.toNat then none
  else
    let first := entryFrame offset.toNat / pageSize
    let stop := ((offset + length).toNat + pageSize - 1) % 2 ^ 32 &&& (2 ^ 32 - pageSize)
    some (first, stop / pageSize)

/-- The loop of `map_user` in the active address space, for `left` pages from `page` on. -/
def mapPages (pointer : Nat) (write : Bool) : Nat → Nat → Paging → Paging × Bool
  | 0, _, s => (s, true)
  | left + 1, page, s =>
    let table := (s.space pointer).tablePhysical
    let finish (s : Paging) := mapPages pointer write left (page + 1)
      (if write then s.storeEntry table page (s.word table page ||| writable) else s)
    if isPresent (s.word table page) then finish s
    else
      let (pmm, frame) := s.pmm.allocateFrame
      let s := { s with pmm }
      if frame = 0 then (s, false)
      else
        let s := s.zeroFrame frame
        let space := s.space pointer
        let s := s.setSpace pointer { space with mappedPages := space.mappedPages + 1 }
        finish (s.storeEntry table page (frame ||| present ||| user))

/-- A page of the legacy table is mapped. -/
def mapLegacy (write : Bool) (table : Nat → Nat) (page : Nat) : Nat → Nat := fun k =>
  if k = page then
    let entry := if isPresent (table page) then table page else legacyUserPhysicalBase + page * pageSize ||| present ||| user
    if write then entry ||| writable else entry
  else table k

def mapUser (s : Paging) (offset length : UInt32) (write : Bool) : Paging × Bool :=
  match pageRange offset length with
  | none => (s, false)
  | some (first, stop) =>
    match s.activeAddressSpace with
    | some p => if (s.space p).tablePhysical = 0 then (s, false) else mapPages p write (stop - first) first s
    | none => ({ s with legacyUserTable := (List.range' first (stop - first)).foldl (mapLegacy write) s.legacyUserTable }, true)

/-- The entry with its `writable` bit set or cleared. -/
def protectEntry (write : Bool) (entry : Nat) : Nat := if write then entry ||| writable else entry &&& (2 ^ 32 - 1 - writable)

/-- The loop of `protect_user` in an address space. -/
def protectPages (table : Nat) (write : Bool) : Nat → Nat → Paging → Paging × Bool
  | 0, _, s => (s, true)
  | left + 1, page, s =>
    let entry := s.word table page
    if !isPresent entry then (s, false)
    else protectPages table write left (page + 1) (s.storeEntry table page (protectEntry write entry))

/-- The loop of `protect_user` in the legacy table. -/
def protectLegacy (write : Bool) : Nat → Nat → (Nat → Nat) → (Nat → Nat) × Bool
  | 0, _, table => (table, true)
  | left + 1, page, table =>
    if !isPresent (table page) then (table, false)
    else protectLegacy write left (page + 1) fun k => if k = page then protectEntry write (table page) else table k

def protectUser (s : Paging) (offset length : UInt32) (write : Bool) : Paging × Bool :=
  match pageRange offset length with
  | none => (s, false)
  | some (first, stop) =>
    match s.activeAddressSpace with
    | some p =>
      let table := (s.space p).tablePhysical
      if table = 0 then (s, false) else protectPages table write (stop - first) first s
    | none =>
      let (legacyUserTable, ok) := protectLegacy write (stop - first) first s.legacyUserTable
      ({ s with legacyUserTable }, ok)

end Paging
end ZenovOS.Memory

/-! ## User memory

The pages of the current table as the kernel and the processor see them: `writable_at` of `memory.inc`, and the bytes
behind a user address. Write protection holds for the kernel too, so a store of `memcpy` or `memset` to a page that is
not mapped, or not for writing, faults, and the machine stops there. -/

namespace ZenovOS.Memory.Paging
open Pmm

def currentUserTable (s : Paging) : Option (Nat → Nat) :=
  match s.activeAddressSpace with
  | some p => if (s.space p).tablePhysical = 0 then none else some (s.word (s.space p).tablePhysical)
  | none => some s.legacyUserTable

def writableAt (s : Paging) (offset : Nat) : Bool :=
  match s.currentUserTable with
  | none => false
  | some table => offset < processWindowBytes &&
      table (offset / pageSize) &&& (present ||| writable ||| user) = present ||| writable ||| user

/-- The entry by which the processor finds a page. -/
def currentEntry (s : Paging) (page : Nat) : Nat :=
  match s.currentUserTable with
  | none => 0
  | some table => table page

/-- Byte `i` of a word, and the word with another byte there. -/
def wordByte (word i : Nat) : Nat := word / 256 ^ i % 256
def setWordByte (word i b : Nat) : Nat := word / 256 ^ (i + 1) * 256 ^ (i + 1) + b * 256 ^ i + word % 256 ^ i

/-- The byte at an offset of the window, where a page is mapped. -/
def userByte (s : Paging) (offset : Nat) : Option UInt8 :=
  let entry := s.currentEntry (offset / pageSize)
  if isPresent entry then some (UInt8.ofNat (wordByte (s.word (entryFrame entry) (offset % pageSize / 4)) (offset % 4))) else none

/-- The processor lets the kernel store at an offset. -/
def canStore (s : Paging) (offset : Nat) : Bool :=
  s.currentEntry (offset / pageSize) &&& (present ||| writable) = present ||| writable

def storeByte (s : Paging) (offset : Nat) (b : UInt8) : Paging :=
  let frame := entryFrame (s.currentEntry (offset / pageSize))
  let k := offset % pageSize / 4
  { s with word := fun a m => if a = frame ∧ m = k then setWordByte (s.word a m) (offset % 4) b.toNat else s.word a m }

/-- `memcpy` of `data` to an offset of the window. -/
def storeUser : Nat → Bytes → Mach Paging Unit
  | _, [] => pure ()
  | offset, b :: rest => do
    let s ← Mach.get
    if s.canStore offset then
      Mach.modify fun s => s.storeByte offset b
      storeUser (offset + 1) rest
    else Mach.stop

/-- `memset` to zero. -/
def zeroUser (offset length : Nat) : Mach Paging Unit := storeUser offset (List.replicate length 0)

/-- A call on the address spaces, which always ends. -/
def call (f : Paging → Paging × Bool) : Mach Paging Bool := fun s => (some (f s).2, (f s).1)

end ZenovOS.Memory.Paging
