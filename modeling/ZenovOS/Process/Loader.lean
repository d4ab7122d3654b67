import ZenovOS.Memory.Paging
import ZenovOS.Security.Guard

/-! # The program loaders

`load_zex` and `load_elf32` of `process.inc`, `linux_i386_elf.inc` and `load_linux_i386` of `process_linux_i386.inc`,
and the compatibility check that comes before a Linux program is loaded. Fields of a file are natural numbers below
2^32; sums that the code forms in 32 bits are taken modulo 2^32. -/

namespace ZenovOS.Process
open Bytes Memory Memory.Paging Security

/-- `if (!m) return false;` before the rest. -/
def orFail {σ α : Type} (m : Mach σ Bool) (rest : Mach σ (Option α)) : Mach σ (Option α) := do
  let ok ← m
  if ok then rest else pure none

def mapRange (offset length : Nat) (write : Bool) : Mach Paging Bool :=
  call fun s => s.mapUser (UInt32.ofNat offset) (UInt32.ofNat length) write

def protectRange (offset length : Nat) (write : Bool) : Mach Paging Bool :=
  call fun s => s.protectUser (UInt32.ofNat offset) (UInt32.ofNat length) write

def mapStack : Mach Paging Bool := do
  let ok ← mapRange stackBase stackBytes true
  if ok then
    zeroUser stackBase stackBytes
    pure true
  else pure false

def rangesOverlap (left leftSize right rightSize : Nat) : Bool :=
  left < (right + rightSize) % 2 ^ 32 && right < (left + leftSize) % 2 ^ 32

def pageRangesOverlap (left leftSize right rightSize : Nat) : Bool :=
  Pmm.alignDown left < Pmm.alignUp (right + rightSize) && Pmm.alignDown right < Pmm.alignUp (left + leftSize)

/-! ### ZEX -/

def loadZex (file : Bytes) : Mach Paging (Option Nat) :=
  let imageSize := u32 file 12
  let entryOffset := u32 file 16
  let bssSize := u32 file 20
  if file.length < 32 then pure none
  else if slice file 0 4 ≠ ascii "ZEX1" ∨ u32 file 4 ≠ 1 ∨ u32 file 8 ≠ 32 ∨ file.length - 32 < imageSize ∨
      stackBase < (imageSize + bssSize) % 2 ^ 32 ∨ imageSize = 0 ∨ imageSize ≤ entryOffset ∨ stackBytes < u32 file 24 ∨
      (Storage.fnv1a (slice file 32 imageSize)).toNat ≠ u32 file 28 then pure none
  else if bssSize ≠ 0 ∧ imageSize &&& (Pmm.pageSize - 1) ≠ 0 then pure none
  else do
    Mach.modify clearUser
    orFail (mapRange 0 imageSize true) <| orFail mapStack <|
      orFail (if bssSize ≠ 0 then mapRange imageSize bssSize true else pure true) do
        storeUser 0 (slice file 32 imageSize)
        if bssSize ≠ 0 then zeroUser imageSize bssSize else pure ()
        orFail (protectRange 0 imageSize false) (pure (some entryOffset))

/-! ### ELF -/

/-- The fields of a program header that are read. -/
structure ProgramHeader where
  type : Nat
  offset : Nat
  virtualAddress : Nat
  fileSize : Nat
  memorySize : Nat
  flags : Nat
  alignment : Nat
  deriving DecidableEq

/-- The program header at an offset. -/
def programHeader (file : Bytes) (off : Nat) : ProgramHeader :=
  ⟨u32 file off, u32 file (off + 4), u32 file (off + 8), u32 file (off + 16), u32 file (off + 20), u32 file (off + 24), u32 file (off + 28)⟩

/-- The `program_count` headers from `program_offset` on. -/
def programHeaders (file : Bytes) : List ProgramHeader :=
  (List.range (u16 file 44)).map fun i => programHeader file (u32 file 28 + i * 32)

namespace ProgramHeader
variable (h : ProgramHeader)

/-- A `PT_LOAD` segment that takes memory. -/
def loads : Bool := h.type = 1 && h.memorySize ≠ 0

def executable : Bool := h.flags % 2 = 1
def writable : Bool := h.flags / 2 % 2 = 1

/-- The alignment is no power of two, or the file and the memory do not agree in it. -/
def misaligned : Bool :=
  1 < h.alignment && (h.alignment &&& (h.alignment - 1) ≠ 0 ||
    h.virtualAddress &&& (h.alignment - 1) ≠ h.offset &&& (h.alignment - 1))

/-- The offset in the window of a segment of an image with this bias. -/
def relative (bias : Nat) : Nat := (h.virtualAddress + 2 ^ 32 - bias) % 2 ^ 32

end ProgramHeader

/-- A loop over the headers, where each round sees the headers before its own, and may give up. -/
def scanHeaders {α : Type} (round : List ProgramHeader → α → ProgramHeader → Option α) :
    List ProgramHeader → List ProgramHeader → α → Option α
  | _, [], state => some state
  | earlier, segment :: rest, state =>
    match round earlier state segment with
    | none => none
    | some state => scanHeaders round (earlier ++ [segment]) rest state

/-- The loop that maps the segments, fills them from the file and clears the rest. -/
def mapSegments (file : Bytes) (bias : Nat) : List ProgramHeader → Mach Paging Bool
  | [] => pure true
  | segment :: rest =>
    if !segment.loads then mapSegments file bias rest
    else do
      let relative := segment.relative bias
      let ok ← mapRange relative segment.memorySize true
      if ok then
        storeUser relative (slice file segment.offset segment.fileSize)
        if segment.fileSize < segment.memorySize then
          zeroUser (relative + segment.fileSize) (segment.memorySize - segment.fileSize)
        else pure ()
        mapSegments file bias rest
      else pure false

/-- The loop that gives the pages of the segments their rights. -/
def protectSegments (bias : Nat) : List ProgramHeader → Mach Paging Bool
  | [] => pure true
  | segment :: rest =>
    if !segment.loads then protectSegments bias rest
    else do
      let ok ← protectRange (segment.relative bias) segment.memorySize segment.writable
      if ok then protectSegments bias rest else pure false

/-- What the loop of `load_elf32` keeps: `loaded` and `executable_entry`. -/
structure ElfScan where
  loaded : Bool
  executableEntry : Bool

def checkSegment (file : Bytes) (earlier : List ProgramHeader) (scan : ElfScan) (segment : ProgramHeader) : Option ElfScan :=
  let entry := u32 file 24
  if segment.type ≠ 1 then some scan
  else if segment.memorySize = 0 then if segment.fileSize ≠ 0 then none else some scan
  else if segment.memorySize < segment.fileSize ∨ file.length < segment.offset ∨ file.length - segment.offset < segment.fileSize ∨
      stackBase ≤ segment.virtualAddress ∨ stackBase - segment.virtualAddress < segment.memorySize ∨ 8 ≤ segment.flags ∨
      segment.misaligned then none
  else if earlier.any fun other => other.loads &&
      (rangesOverlap segment.virtualAddress segment.memorySize other.virtualAddress other.memorySize ||
        segment.writable != other.writable &&
          pageRangesOverlap segment.virtualAddress segment.memorySize other.virtualAddress other.memorySize) then none
  else some ⟨true, scan.executableEntry || segment.executable && segment.virtualAddress ≤ entry &&
    entry < (segment.virtualAddress + segment.memorySize) % 2 ^ 32⟩

def loadElf32 (file : Bytes) : Mach Paging (Option Nat) :=
  let programOffset := u32 file 28
  let programCount := u16 file 44
  let entry := u32 file 24
  if file.length < 52 then pure none
  else if slice file 0 6 ≠ [0x7F, 69, 76, 70, 1, 1] ∨ u16 file 16 ≠ 2 ∨ u16 file 18 ≠ 3 ∨ u32 file 20 ≠ 1 ∨ u16 file 40 ≠ 52 ∨
      u16 file 42 ≠ 32 ∨ file.length < programOffset ∨ programCount = 0 ∨ (file.length - programOffset) / 32 < programCount ∨
      stackBase ≤ entry then pure none
  else
    match scanHeaders (checkSegment file) [] (programHeaders file) ⟨false, false⟩ with
    | none => pure none
    | some scan =>
      if !scan.loaded || !scan.executableEntry then pure none
      else do
        Mach.modify clearUser
        orFail (mapSegments file 0 (programHeaders file)) <| orFail (protectSegments 0 (programHeaders file)) <| orFail mapStack do
          let s ← Mach.get
          if s.writableAt entry then pure none else pure (some entry)

/-! ### Linux programs -/

namespace LinuxI386Elf

structure Layout where
  imageBias : Nat
  entryOffset : Nat
  loadCount : Nat

def overlaps (left leftSize right rightSize : Nat) : Bool :=
  left < (right + rightSize) % 2 ^ 32 && right < (left + leftSize) % 2 ^ 32

/-- What the first loop of `validate` keeps: `lowest` and `load_count`. -/
structure Extent where
  lowest : Nat
  loadCount : Nat

def addSegment (file : Bytes) (_earlier : List ProgramHeader) (extent : Extent) (segment : ProgramHeader) : Option Extent :=
  if segment.type = 3 ∨ segment.type = 2 then none
  else if segment.type ≠ 1 then some extent
  else if segment.memorySize = 0 then if segment.fileSize ≠ 0 then none else some extent
  else if segment.memorySize < segment.fileSize ∨ file.length < segment.offset ∨ file.length - segment.offset < segment.fileSize ∨
      8 ≤ segment.flags ∨ segment.flags % 4 = 3 ∨ segment.misaligned then none
  else some ⟨if segment.virtualAddress < extent.lowest then segment.virtualAddress else extent.lowest, extent.loadCount + 1⟩

/-- `~(page_size - 1)` clears the low bits. -/
def pageFloor (pageSize x : Nat) : Nat := x &&& (2 ^ 32 - pageSize)
def pageCeiling (pageSize x : Nat) : Nat := (x + pageSize - 1) % 2 ^ 32 &&& (2 ^ 32 - pageSize)

/-- A round of the second loop of `validate`, which keeps `executable_entry`. -/
def checkPlace (entry windowLimit pageSize imageBias : Nat) (earlier : List ProgramHeader) (executableEntry : Bool)
    (segment : ProgramHeader) : Option Bool :=
  if segment.type ≠ 1 ∨ segment.memorySize = 0 ∨ segment.virtualAddress < imageBias then some executableEntry
  else
    let relative := segment.virtualAddress - imageBias
    if windowLimit ≤ relative ∨ windowLimit - relative < segment.memorySize then none
    else if earlier.any fun other => other.loads && imageBias ≤ other.virtualAddress &&
        (overlaps relative segment.memorySize (other.virtualAddress - imageBias) other.memorySize ||
          segment.writable != other.writable &&
            pageFloor pageSize relative < pageCeiling pageSize (other.virtualAddress - imageBias + other.memorySize) &&
            pageFloor pageSize (other.virtualAddress - imageBias) < pageCeiling pageSize (relative + segment.memorySize)) then none
    else some (executableEntry || segment.executable && segment.virtualAddress ≤ entry && entry - segment.virtualAddress < segment.memorySize)

def validate (file : Bytes) (windowLimit pageSize : Nat) : Option Layout :=
  let entry := u32 file 24
  let programOffset := u32 file 28
  let programCount := u16 file 44
  if file.length < 52 ∨ windowLimit = 0 ∨ pageSize = 0 ∨ pageSize &&& (pageSize - 1) ≠ 0 then none
  else if slice file 0 7 ≠ [0x7F, 69, 76, 70, 1, 1, 1] ∨ (file.getD 7 0 ≠ 0 ∧ file.getD 7 0 ≠ 3) ∨ file.getD 8 0 ≠ 0 ∨
      u16 file 16 ≠ 2 ∨ u16 file 18 ≠ 3 ∨ u32 file 20 ≠ 1 ∨ u16 file 40 ≠ 52 ∨ u16 file 42 ≠ 32 ∨ file.length < programOffset ∨
      programCount = 0 ∨ (file.length - programOffset) / 32 < programCount then none
  else
    match scanHeaders (addSegment file) [] (programHeaders file) ⟨0xFFFFFFFF, 0⟩ with
    | none => none
    | some extent =>
      if extent.loadCount = 0 ∨ extent.lowest = 0 ∨ extent.lowest = 0xFFFFFFFF then none
      else
        let imageBias := pageFloor pageSize extent.lowest
        if 0xFFFFFFFF - windowLimit < imageBias ∨ entry < imageBias ∨ windowLimit ≤ entry - imageBias then none
        else
          match scanHeaders (checkPlace entry windowLimit pageSize imageBias) [] (programHeaders file) false with
          | some true => some ⟨imageBias, entry - imageBias, extent.loadCount⟩
          | _ => none

end LinuxI386Elf

/-- The bias of the image. -/
def linuxI386StaticLayout (file : Bytes) : Option Nat := (LinuxI386Elf.validate file stackBase Pmm.pageSize).map (·.imageBias)

/-- The entry point and the bias of the image. -/
def loadLinuxI386 (file : Bytes) : Mach Paging (Option (Nat × Nat)) :=
  match linuxI386StaticLayout file with
  | none => pure none
  | some imageBias => do
    let entry := (u32 file 24 + 2 ^ 32 - imageBias) % 2 ^ 32
    Mach.modify clearUser
    orFail (mapSegments file imageBias (programHeaders file)) <| orFail (protectSegments imageBias (programHeaders file)) <|
      orFail mapStack do
        let s ← Mach.get
        if s.writableAt entry then pure none else pure (some (entry, imageBias))

end ZenovOS.Process
