import ZenovOS.Lib.Lzss
import ZenovOS.Storage.Layout
import ZenovOS.Storage.Result

/-! # The live image

`storage_live_image.inc`: the disk image that the kernel carries, sparse and compressed, and the RAM device over
it, where sectors that are written go to an overlay. -/

namespace ZenovOS.Storage
open Bytes

/-- The constants that the build generates from an image. -/
structure LiveImage where
  packBytes : Nat
  packChecksum : UInt32
  logicalSectors : Nat
  chunkCount : Nat
  compressed : Bytes

namespace LiveImage

abbrev overlayEmpty : UInt16 := 0xFFFF
abbrev overlayCapacitySectors : Nat := 1024
abbrev packHeaderBytes : Nat := 20
abbrev packChunkBytes : Nat := 8
abbrev lzMinMatch : Nat := 3
abbrev workspaceBytes : Nat := 0x10000
abbrev overlayMapBytes : Nat := 0x10000

/-- The static assertions about the constants; a product has 32 bits. -/
def Asserted (image : LiveImage) : Prop :=
  image.compressed.length < 32768 ∧ image.packBytes ≤ workspaceBytes ∧ image.logicalSectors * 2 % 2 ^ 32 ≤ overlayMapBytes

/-! ### Decompression -/

/-- The loop over the bits of a flag byte: what is left of the input, and what is written. -/
def decompressBits (capacity : Nat) (flags : UInt8) : Nat → Nat → Bytes → Bytes → Option (Bytes × Bytes)
  | 0, _, input, output => some (input, output)
  | left + 1, bit, input, output =>
    if capacity ≤ output.length then some (input, output)
    else if flags.toNat &&& 2 ^ bit ≠ 0 then
      match input with
      | [] => none
      | b :: input => decompressBits capacity flags left (bit + 1) input (output ++ [b])
    else
      match input with
      | a :: b :: input =>
        let code := a.toNat ||| b.toNat <<< 8
        let distance := (code >>> 4) + 1
        let length := (code &&& 0x0F) + lzMinMatch
        if output.length < distance ∨ capacity < output.length + length then none
        else decompressBits capacity flags left (bit + 1) input (Lzss.copyBack distance length output)
      | _ => none

/-- The loop of `live_decompress_pack`; each round takes a byte of the input. -/
def decompressFrom (capacity : Nat) : Nat → Bytes → Bytes → Option (Bytes × Bytes)
  | left, input, output =>
    if output.length < capacity then
      match left, input with
      | left + 1, flags :: input =>
        match decompressBits capacity flags 8 0 input output with
        | none => none
        | some (input, output) => decompressFrom capacity left input output
      | _, _ => none
    else some (input, output)

/-- The output, if it is written as a whole. -/
def liveDecompressPack (image : LiveImage) (capacity : Nat) : Option Bytes :=
  if capacity ≠ image.packBytes then none
  else
    match decompressFrom capacity image.compressed.length image.compressed [] with
    | some ([], output) => some output
    | _ => none

/-! ### The pack -/

structure ChunkRow where
  offset : Nat
  length : Nat
  reserved : Nat
  deriving DecidableEq

def liveChunkRow (pack : Bytes) (index : Nat) : ChunkRow :=
  let row := packHeaderBytes + index * packChunkBytes
  ⟨toNat (slice pack row 4), toNat (slice pack (row + 4) 2), toNat (slice pack (row + 6) 2)⟩

def chunkRows (image : LiveImage) (pack : Bytes) : List ChunkRow := (List.range image.chunkCount).map (liveChunkRow pack)

/-- The loop of `live_pack_valid` over the rows. -/
def validRows (sectors dataBytes : Nat) : List ChunkRow → Nat → Nat → Bool
  | [], _, accumulatedData => accumulatedData = dataBytes
  | row :: rows, previousEnd, accumulatedData =>
    if row.length = 0 ∨ row.reserved ≠ 0 ∨ row.offset < previousEnd ∨ sectors * sectorSize < row.offset + row.length ∨
        dataBytes < accumulatedData + row.length then false
    else validRows sectors dataBytes rows ((row.offset + row.length) % 2 ^ 32) (accumulatedData + row.length)

def livePackValid (image : LiveImage) (pack : Bytes) : Bool :=
  let sectors := toNat (slice pack 8 4)
  let chunks := toNat (slice pack 12 4)
  let dataBytes := toNat (slice pack 16 4)
  let tableEnd := packHeaderBytes + chunks * packChunkBytes
  packHeaderBytes ≤ image.packBytes && slice pack 0 8 = ascii "ZLIVE002" &&
    fnv1a (slice pack 0 image.packBytes) = image.packChecksum && sectors = image.logicalSectors &&
    chunks = image.chunkCount && sectors ≠ 0 && chunks ≠ 0 && tableEnd ≤ image.packBytes &&
    tableEnd + dataBytes = image.packBytes && validRows sectors dataBytes (image.chunkRows pack) 0 0

/-! ### A sector of the image -/

/-- The binary search of `live_read_base_sector`, for `left` rounds at most. -/
def firstRow (rows : List ChunkRow) (sectorBegin : Nat) : Nat → Nat → Nat → Nat
  | 0, low, _ => low
  | left + 1, low, high =>
    if low < high then
      let middle := low + (high - low) / 2
      let row := rows.getD middle ⟨0, 0, 0⟩
      if (row.offset + row.length) % 2 ^ 32 ≤ sectorBegin then firstRow rows sectorBegin left (middle + 1) high
      else firstRow rows sectorBegin left low middle
    else low

/-- The loop that copies what chunks have of the sector. -/
def copyRows (pack : Bytes) (dataStart sectorBegin sectorEnd : Nat) : List ChunkRow → Nat → Sector → Sector
  | [], _, output => output
  | row :: rows, dataOffset, output =>
    if sectorEnd ≤ row.offset then output
    else
      let copyBegin := if sectorBegin < row.offset then row.offset else sectorBegin
      let chunkEnd := (row.offset + row.length) % 2 ^ 32
      let copyEnd := if chunkEnd < sectorEnd then chunkEnd else sectorEnd
      let output :=
        if copyBegin < copyEnd then
          output.patch (copyBegin - sectorBegin) (slice pack (dataStart + dataOffset + copyBegin - row.offset) (copyEnd - copyBegin))
        else output
      copyRows pack dataStart sectorBegin sectorEnd rows (dataOffset + row.length) output

def liveReadBaseSector (image : LiveImage) (pack : Bytes) (lba : Nat) : Sector :=
  let sectorBegin := lba * sectorSize % 2 ^ 32
  let sectorEnd := (sectorBegin + sectorSize) % 2 ^ 32
  let rows := image.chunkRows pack
  let low := firstRow rows sectorBegin image.chunkCount 0 image.chunkCount
  let dataOffset := ((rows.take low).map ChunkRow.length).sum
  let dataStart := packHeaderBytes + image.chunkCount * packChunkBytes
  copyRows pack dataStart sectorBegin sectorEnd (rows.drop low) dataOffset (Block.of [])

/-! ### The device -/

/-- The globals of the device. A slot of the overlay is a sector. -/
structure LiveDevice where
  packDecoded : Bytes
  overlayMap : Nat → UInt16
  overlaySectors : Nat → Sector
  overlayUsed : Nat
  storageActive : Bool

/-- A read, into a buffer or through a null pointer, and what it leaves in the buffer. -/
def liveReadSector (image : LiveImage) (d : LiveDevice) (lba : Nat) (output : Bool) : BlockResult × Option Sector :=
  if !d.storageActive ∨ !output then (blockResult .read .noDevice lba, none)
  else if image.logicalSectors ≤ lba then (blockResult .read .outOfRange lba, none)
  else
    let overlay := d.overlayMap lba
    if overlay ≠ overlayEmpty then (blockSuccess .read lba, some (d.overlaySectors overlay.toNat))
    else (blockSuccess .read lba, some (liveReadBaseSector image d.packDecoded lba))

/-- `memcpy` into a slot of the overlay. -/
def LiveDevice.store (d : LiveDevice) (overlay : UInt16) (data : Sector) : LiveDevice :=
  { d with overlaySectors := fun slot => if slot = overlay.toNat then data else d.overlaySectors slot }

def liveWriteSector (image : LiveImage) (d : LiveDevice) (lba : Nat) (input : Option Sector) : LiveDevice × BlockResult :=
  match input with
  | none => (d, blockResult .write .noDevice lba)
  | some data =>
    if !d.storageActive then (d, blockResult .write .noDevice lba)
    else if image.logicalSectors ≤ lba then (d, blockResult .write .outOfRange lba)
    else
      let overlay := d.overlayMap lba
      if overlay = overlayEmpty then
        if overlayCapacitySectors ≤ d.overlayUsed then (d, ⟨.write, .deviceError, lba, 1, 0, 0⟩)
        else
          let overlay := UInt16.ofNat d.overlayUsed
          let d := { d with
            overlayUsed := d.overlayUsed + 1
            overlayMap := fun sector => if sector = lba then overlay else d.overlayMap sector }
          (d.store overlay data, blockSuccess .write lba)
      else (d.store overlay data, blockSuccess .write lba)

end LiveImage
end ZenovOS.Storage
