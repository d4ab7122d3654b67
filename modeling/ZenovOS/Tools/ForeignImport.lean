import ZenovOS.Lib.Refuse
import ZenovOS.Security.Guard

/-! # Imports of native executables

`foreign_import.hpp` of `zenpkg`: what the host asks of a ZEX or ELF executable before it is packed. -/

namespace ZenovOS.ForeignImport
open Bytes Security

abbrev zenovUserLimit : Nat := 0x00100000
abbrev zenovStackBytes : Nat := 16 * 1024
abbrev zenovStackBase : Nat := zenovUserLimit - zenovStackBytes
abbrev zenovPageSize : Nat := 4096

def foreignU16 (input : Bytes) (offset : Nat) : Except String Nat :=
  if input.length < offset ∨ input.length - offset < 2 then .error "truncated executable header" else .ok (u16 input offset)

def foreignU32 (input : Bytes) (offset : Nat) : Except String Nat :=
  if input.length < offset ∨ input.length - offset < 4 then .error "truncated executable header" else .ok (u32 input offset)

/-- `zex_checksum`, over bytes that are there. -/
def zexChecksum (data : Bytes) : Nat := data.foldl (fun hash b => (hash ^^^ b.toNat) * 16777619 &&& 0xffffffff) 2166136261

def validateZex1Import (bytes : Bytes) : Except String Unit := do
  refuse (bytes.length < 32 ∨ slice bytes 0 4 ≠ ascii "ZEX1") "input is not a complete ZEX1 executable"
  let version ← foreignU32 bytes 4
  let declaredHeader ← foreignU32 bytes 8
  let imageSize ← foreignU32 bytes 12
  let entryOffset ← foreignU32 bytes 16
  let bssSize ← foreignU32 bytes 20
  let stackSize ← foreignU32 bytes 24
  let expectedChecksum ← foreignU32 bytes 28
  refuse (version ≠ 1 ∨ declaredHeader ≠ 32 ∨ imageSize = 0 ∨ bytes.length - 32 < imageSize ∨ bytes.length ≠ (32 + imageSize) % 2 ^ 32 ∨
      imageSize ≤ entryOffset ∨ zenovStackBase < imageSize ∨ zenovStackBase - imageSize < bssSize ∨ zenovStackBytes < stackSize ∨
      (bssSize ≠ 0 ∧ imageSize &&& (zenovPageSize - 1) ≠ 0))
    "ZEX1 executable is incompatible with the ZenovOS 0.1.1 loader"
  refuse (zexChecksum (slice bytes 32 imageSize) ≠ expectedChecksum) "ZEX1 image checksum mismatch"

structure ForeignElfSegment where
  type : Nat
  offset : Nat
  virtualAddress : Nat
  fileSize : Nat
  memorySize : Nat
  flags : Nat
  alignment : Nat
  deriving DecidableEq

def foreignRangesOverlap (left leftSize right rightSize : Nat) : Bool :=
  left < (right + rightSize) % 2 ^ 32 && right < (left + leftSize) % 2 ^ 32

def pageFloor (x : Nat) : Nat := x &&& (2 ^ 32 - zenovPageSize)
def pageCeiling (x : Nat) : Nat := (x + zenovPageSize - 1) % 2 ^ 32 &&& (2 ^ 32 - zenovPageSize)

def foreignPageRangesOverlap (left leftSize right rightSize : Nat) : Bool :=
  pageFloor left < pageCeiling (right + rightSize) && pageFloor right < pageCeiling (left + leftSize)

def readSegment (bytes : Bytes) (base : Nat) : Except String ForeignElfSegment := do
  let type ← foreignU32 bytes base
  let offset ← foreignU32 bytes (base + 4)
  let virtualAddress ← foreignU32 bytes (base + 8)
  let fileSize ← foreignU32 bytes (base + 16)
  let memorySize ← foreignU32 bytes (base + 20)
  let flags ← foreignU32 bytes (base + 24)
  let alignment ← foreignU32 bytes (base + 28)
  pure ⟨type, offset, virtualAddress, fileSize, memorySize, flags, alignment⟩

/-- What the loop of `validate_elf32_i386_import` keeps. -/
structure Loaded where
  loaded : List ForeignElfSegment
  executableEntry : Bool

/-- A round of the loop. -/
def checkSegment (bytes : Bytes) (entry base : Nat) (state : Loaded) : Except String Loaded := do
  let segment ← readSegment bytes base
  refuse (segment.type = 2 ∨ segment.type = 3) "dynamic ELF and PT_INTERP executables cannot be imported"
  if segment.type ≠ 1 then pure state
  else if segment.memorySize = 0 then do
    refuse (segment.fileSize ≠ 0) "ELF has a zero-memory load segment with file data"
    pure state
  else do
    refuse (segment.memorySize < segment.fileSize ∨ bytes.length < segment.offset ∨
        bytes.length - segment.offset < segment.fileSize ∨ zenovStackBase ≤ segment.virtualAddress ∨
        zenovStackBase - segment.virtualAddress < segment.memorySize ∨ 8 ≤ segment.flags ∨ segment.flags % 4 = 3 ∨
        (1 < segment.alignment ∧ (segment.alignment &&& (segment.alignment - 1) ≠ 0 ∨
          segment.virtualAddress &&& (segment.alignment - 1) ≠ segment.offset &&& (segment.alignment - 1))))
      "ELF load segment violates the ZenovOS loader contract"
    refuse (state.loaded.any fun other =>
        foreignRangesOverlap segment.virtualAddress segment.memorySize other.virtualAddress other.memorySize ||
        segment.flags / 2 % 2 != other.flags / 2 % 2 &&
          foreignPageRangesOverlap segment.virtualAddress segment.memorySize other.virtualAddress other.memorySize)
      "ELF load segments overlap or require conflicting page permissions"
    pure ⟨state.loaded ++ [segment], state.executableEntry || (segment.flags % 2 = 1 && segment.flags / 2 % 2 = 0 &&
      segment.virtualAddress ≤ entry && entry < (segment.virtualAddress + segment.memorySize) % 2 ^ 32)⟩

def validateElf32I386Import (bytes : Bytes) : Except String Unit := do
  refuse (bytes.length < 52 ∨ slice bytes 0 7 ≠ [0x7f, 69, 76, 70, 1, 1, 1]) "input is not a little-endian ELF32 executable"
  let type ← foreignU16 bytes 16
  let machine ← foreignU16 bytes 18
  let version ← foreignU32 bytes 20
  let entry ← foreignU32 bytes 24
  let programOffset ← foreignU32 bytes 28
  let headerSize ← foreignU16 bytes 40
  let programEntrySize ← foreignU16 bytes 42
  let programCount ← foreignU16 bytes 44
  refuse (type ≠ 2 ∨ machine ≠ 3 ∨ version ≠ 1 ∨ headerSize ≠ 52 ∨ programEntrySize ≠ 32 ∨ programCount = 0 ∨
      zenovStackBase ≤ entry ∨ bytes.length < programOffset ∨ (bytes.length - programOffset) / 32 < programCount)
    "ELF is not an ET_EXEC ELF32/i386 image accepted by ZenovOS 0.1.1"
  let state ← (List.range programCount).foldlM (fun state i => checkSegment bytes entry (programOffset + i * 32) state) ⟨[], false⟩
  refuse (state.loaded = [] ∨ state.executableEntry = false) "ELF has no loadable executable segment containing its entrypoint"

end ZenovOS.ForeignImport
