import ZenovOS.Lib.Bytes
import ZenovOS.Lib.Refuse

/-! # The builder of the boot image

`fat12_builder.cpp`: a boot sector and a kernel become a floppy image with two copies of a file allocation table and one file. A loop that
copies bytes is `overwrite`. -/

namespace ZenovOS.Fat12Builder
open Bytes

def kSectorSize : Nat := 512
def kTotalSectors : Nat := 2880
def kFatSectors : Nat := 9
def kFatCount : Nat := 2
def kRootEntries : Nat := 224
def kRootSectors : Nat := (kRootEntries * 32 + kSectorSize - 1) / kSectorSize
def kRootStart : Nat := 1 + kFatCount * kFatSectors
def kDataStart : Nat := kRootStart + kRootSectors
def kImageSize : Nat := kSectorSize * kTotalSectors

/-- What the program throws. -/
inductive Failure where
  | runtimeError (text : Bytes)
  | outOfRange
  deriving DecidableEq

/-! ### Vectors -/

/-- `data.at(offset)` -/
def byteAt (data : Bytes) (offset : Nat) : Except Failure UInt8 :=
  match data[offset]? with
  | some value => .ok value
  | none => .error .outOfRange

/-- `data.at(offset) = value` -/
def setAt (data : Bytes) (offset : Nat) (value : UInt8) : Except Failure Bytes :=
  if offset < data.length then .ok (data.set offset value) else .error .outOfRange

def put16 (data : Bytes) (offset : Nat) (value : UInt16) : Except Failure Bytes := do
  let data ← setAt data offset value.toUInt8
  setAt data (offset + 1) (value >>> 8).toUInt8

def put32 (data : Bytes) (offset : Nat) (value : UInt32) : Except Failure Bytes := do
  let data ← put16 data offset value.toUInt16
  put16 data (offset + 2) (value >>> 16).toUInt16

def fat12Set (fat : Bytes) (cluster value : UInt16) : Except Failure Bytes := do
  let offset := cluster.toNat + cluster.toNat / 2
  let low ← byteAt fat offset
  let high ← byteAt fat (offset + 1)
  let current : UInt16 := low.toUInt16 ||| high.toUInt16 <<< 8
  let shifted : UInt16 := (value &&& 0x0FFF) <<< 4
  let current : UInt16 := if cluster &&& 1 ≠ 0 then (current &&& 0x000F) ||| shifted else (current &&& 0xF000) ||| (value &&& 0x0FFF)
  let fat ← setAt fat offset current.toUInt8
  setAt fat (offset + 1) (current >>> 8).toUInt8

def copyName : Bytes → Nat → Bytes → Except Failure Bytes
  | image, _, [] => .ok image
  | image, offset, c :: text => do
    let image ← setAt image offset c
    copyName image (offset + 1) text

/-! ### The image -/

/-- The loop over the clusters, of which `i` are done. -/
def fatLoop (clusters : Nat) : Nat → Nat → Bytes → Except Failure Bytes
  | 0, _, fat => .ok fat
  | left + 1, i, fat => do
    let cluster := UInt16.ofNat (2 + i)
    let fat ← fat12Set fat cluster (if i + 1 = clusters then 0x0FFF else cluster + 1)
    fatLoop clusters left (i + 1) fat

/-- The table before the clusters are chained. -/
def emptyFat : Bytes := (((List.replicate (kFatSectors * kSectorSize) 0).set 0 0xF0).set 1 0xFF).set 2 0xFF

def clustersOf (kernel : Bytes) : Nat := (kernel.length + kSectorSize - 1) / kSectorSize

/-- `main` behind the reading of the files: the image that is written. -/
def build (boot kernel : Bytes) : Except Failure Bytes := do
  refuse (boot.length ≠ kSectorSize) (.runtimeError (ascii "boot sector must be exactly 512 bytes"))
  refuse (boot[510]? ≠ some 0x55 ∨ boot[511]? ≠ some 0xAA) (.runtimeError (ascii "boot signature 0xAA55 missing"))
  refuse (kernel = []) (.runtimeError (ascii "kernel is empty"))
  let clusters := clustersOf kernel
  refuse (kTotalSectors - kDataStart < clusters) (.runtimeError (ascii "kernel does not fit FAT12 image"))
  let image := overwrite (List.replicate kImageSize 0) 0 boot
  let fat ← fatLoop clusters clusters 0 emptyFat
  let fat1 := kSectorSize
  let fat2 := fat1 + fat.length
  -- one loop writes both copies
  let image := overwrite (overwrite image fat1 fat) fat2 fat
  let root := kRootStart * kSectorSize
  let image ← copyName image root (ascii "ZENOVOS    ")
  let image := image.set (root + 11) 0x08
  let entry := root + 32
  let image ← copyName image entry (ascii "KERNEL  BIN")
  let image := image.set (entry + 11) 0x20
  let image ← put16 image (entry + 26) 2
  let image ← put32 image (entry + 28) (UInt32.ofNat kernel.length)
  pure (overwrite image (kDataStart * kSectorSize) kernel)

end ZenovOS.Fat12Builder
