import Mathlib.Logic.Function.Iterate
import ZenovOS.Lib.Bytes

/-! # Raw DEFLATE

`zmid_content_deflate.inc`: the bit reader, canonical Huffman tables, `inflate_raw` with its limits on blocks
and operations, and `crc32`. The input and the output of `inflate_raw` never overlap, so both are byte
strings here. -/

namespace ZenovOS.Security.Inflate
open Bytes

abbrev maxDeflateBlocks : Nat := 128

/-! ### The bit reader -/

structure BitReader where
  offset : Nat
  held : Nat
  bitCount : Nat

/-- The loop of `BitReader::read`, which fetches two bytes at most. -/
def BitReader.fill (data : Bytes) (bits : Nat) : Nat → BitReader → Option BitReader
  | 0, r => some r
  | left + 1, r =>
    if bits ≤ r.bitCount then some r
    else if data.length ≤ r.offset then none
    else fill data bits left ⟨r.offset + 1, r.held ||| ((data.getD r.offset 0).toNat <<< r.bitCount), r.bitCount + 8⟩

def BitReader.read (data : Bytes) (bits : Nat) (r : BitReader) : Option (Nat × BitReader) :=
  if bits = 0 ∨ 16 < bits then none
  else do
    let r ← r.fill data bits 2
    some (r.held % 2 ^ bits, ⟨r.offset, r.held >>> bits, r.bitCount - bits⟩)

def BitReader.alignByte (r : BitReader) : BitReader := ⟨r.offset, 0, 0⟩

/-! ### Huffman tables -/

/-- `count` by code length, and the symbols in the order of their codes. -/
structure HuffmanTable where
  count : List Nat
  symbols : List Nat

/-- The loop over the code lengths from 1 on; `remaining` are the codes not yet used. -/
def oversubscribed : List Nat → Nat → Bool
  | [], _ => false
  | count :: rest, remaining => if 2 * remaining < count then true else oversubscribed rest (2 * remaining - count)

def buildHuffman (lengths : List Nat) (allowEmpty : Bool) : Option HuffmanTable :=
  if 288 < lengths.length ∨ lengths.any (15 < ·) then none
  else
    let count := (List.range 16).map fun length => lengths.count length
    if count.getD 0 0 = lengths.length then (if allowEmpty then some ⟨count, []⟩ else none)
    else if oversubscribed count.tail 1 then none
    else
      let symbols := (List.range 15).flatMap fun length =>
        (List.range lengths.length).filter fun symbol => lengths.getD symbol 0 = length + 1
      some ⟨count, symbols⟩

/-- The loop of `decode_symbol` over the counts of the code lengths from 1 to 15. -/
def decodeCodes (data : Bytes) (symbols : List Nat) : List Nat → Nat → Nat → Nat → BitReader → Option (Nat × BitReader)
  | [], _, _, _, _ => none
  | count :: rest, code, first, index, r => do
    let (bit, r) ← r.read data 1
    let code := code ||| bit
    if first ≤ code ∧ code - first < count then some (symbols.getD (index + code - first) 0, r)
    else decodeCodes data symbols rest (code <<< 1) ((first + count) <<< 1) (index + count) r

def decodeSymbol (data : Bytes) (table : HuffmanTable) (r : BitReader) : Option (Nat × BitReader) :=
  decodeCodes data table.symbols table.count.tail 0 0 0 r

def lengthBase : List Nat :=
  [3, 4, 5, 6, 7, 8, 9, 10, 11, 13, 15, 17, 19, 23, 27, 31, 35, 43, 51, 59, 67, 83, 99, 115, 131, 163, 195, 227, 258]

def lengthExtra : List Nat :=
  [0, 0, 0, 0, 0, 0, 0, 0, 1, 1, 1, 1, 2, 2, 2, 2, 3, 3, 3, 3, 4, 4, 4, 4, 5, 5, 5, 5, 0]

def distanceBase : List Nat :=
  [1, 2, 3, 4, 5, 7, 9, 13, 17, 25, 33, 49, 65, 97, 129, 193, 257, 385, 513, 769, 1025, 1537, 2049, 3073, 4097, 6145,
   8193, 12289, 16385, 24577]

def distanceExtra : List Nat :=
  [0, 0, 0, 0, 1, 1, 2, 2, 3, 3, 4, 4, 5, 5, 6, 6, 7, 7, 8, 8, 9, 9, 10, 10, 11, 11, 12, 12, 13, 13]

def buildFixedTables : Option (HuffmanTable × HuffmanTable) := do
  let literals ← buildHuffman (List.replicate 144 8 ++ List.replicate 112 9 ++ List.replicate 24 7 ++ List.replicate 8 8)
    false
  let distances ← buildHuffman (List.replicate 32 5) false
  some (literals, distances)

def codeOrder : List Nat := [16, 17, 18, 0, 8, 7, 9, 6, 10, 5, 11, 4, 12, 3, 13, 2, 14, 1, 15]

/-- The lengths of the code-length code, read in the order `codeOrder`. -/
def readCodeLengths (data : Bytes) : List Nat → List Nat → BitReader → Option (List Nat × BitReader)
  | [], lengths, r => some (lengths, r)
  | code :: rest, lengths, r => do
    let (value, r) ← r.read data 3
    readCodeLengths data rest (lengths.set code value) r

/-- The repetition that a symbol above 15 stands for: how often, and which length. -/
def readRepeat (data : Bytes) (symbol : Nat) (lengths : List Nat) (r : BitReader) : Option (Nat × Nat × BitReader) :=
  if symbol = 16 then
    match lengths.getLast? with
    | none => none
    | some value => do
      let (bits, r) ← r.read data 2
      some (bits + 3, value, r)
  else if symbol = 17 then do
    let (bits, r) ← r.read data 3
    some (bits + 3, 0, r)
  else if symbol = 18 then do
    let (bits, r) ← r.read data 7
    some (bits + 11, 0, r)
  else none

/-- The loop of `build_dynamic_tables` that fills `lengths` up to `total`; every turn adds to it. -/
def readLengths (data : Bytes) (table : HuffmanTable) (total : Nat) : Nat → List Nat → BitReader →
    Option (List Nat × BitReader)
  | 0, lengths, r => some (lengths, r)
  | left + 1, lengths, r =>
    if total ≤ lengths.length then some (lengths, r)
    else do
      let (symbol, r) ← decodeSymbol data table r
      if symbol ≤ 15 then readLengths data table total left (lengths ++ [symbol]) r
      else do
        let (times, value, r) ← readRepeat data symbol lengths r
        if total - lengths.length < times then none
        else readLengths data table total left (lengths ++ List.replicate times value) r

def buildDynamicTables (data : Bytes) (r : BitReader) : Option (HuffmanTable × HuffmanTable × BitReader) := do
  let (literalBits, r) ← r.read data 5
  let (distanceBits, r) ← r.read data 5
  let (codeBits, r) ← r.read data 4
  let literalCount := literalBits + 257
  let distanceCount := distanceBits + 1
  let codeCount := codeBits + 4
  if 286 < literalCount ∨ 32 < distanceCount ∨ 19 < codeCount then none
  else do
    let (codeLengths, r) ← readCodeLengths data (codeOrder.take codeCount) (List.replicate 19 0) r
    let codeTable ← buildHuffman codeLengths false
    let total := literalCount + distanceCount
    let (lengths, r) ← readLengths data codeTable total total [] r
    if lengths.getD 256 0 = 0 then none
    else do
      let literals ← buildHuffman (lengths.take literalCount) false
      let distances ← buildHuffman (lengths.drop literalCount) true
      some (literals, distances, r)

/-! ### Blocks -/

/-- Copy `length` bytes from `distance` bytes back, one by one. -/
def copyBack (distance : Nat) : Nat → Bytes → Bytes
  | 0, output => output
  | length + 1, output => copyBack distance length (output ++ [output.getD (output.length - distance) 0])

/-- The extra bits of a length or a distance, if it has any. -/
def readExtra (data : Bytes) (bits : Nat) (r : BitReader) : Option (Nat × BitReader) :=
  if bits = 0 then some (0, r) else r.read data bits

/-- A length and distance pair, for a symbol above 256. -/
def readMatch (data : Bytes) (distances : HuffmanTable) (capacity symbol : Nat) (output : Bytes) (r : BitReader) :
    Option (Bytes × BitReader) :=
  if 285 < symbol then none
  else do
    let (extra, r) ← readExtra data (lengthExtra.getD (symbol - 257) 0) r
    let length := lengthBase.getD (symbol - 257) 0 + extra
    let (distanceSymbol, r) ← decodeSymbol data distances r
    if 29 < distanceSymbol then none
    else do
      let (extra, r) ← readExtra data (distanceExtra.getD distanceSymbol 0) r
      let distance := distanceBase.getD distanceSymbol 0 + extra
      if distance = 0 ∨ output.length < distance ∨ capacity - output.length < length then none
      else some (copyBack distance length output, r)

/-- The operations of a compressed block; their number is limited. -/
def inflateSymbols (data : Bytes) (literals distances : HuffmanTable) (capacity : Nat) : Nat → Bytes → BitReader →
    Option (Bytes × BitReader)
  | 0, _, _ => none
  | left + 1, output, r => do
    let (symbol, r) ← decodeSymbol data literals r
    if symbol < 256 then
      if capacity ≤ output.length then none
      else inflateSymbols data literals distances capacity left (output ++ [UInt8.ofNat symbol]) r
    else if symbol = 256 then some (output, r)
    else do
      let (output, r) ← readMatch data distances capacity symbol output r
      inflateSymbols data literals distances capacity left output r

def inflateStored (data : Bytes) (capacity : Nat) (output : Bytes) (r : BitReader) : Option (Bytes × BitReader) :=
  let r := r.alignByte
  if data.length < r.offset + 4 then none
  else
    let length := toNat (slice data r.offset 2)
    let inverse := toNat (slice data (r.offset + 2) 2)
    let offset := r.offset + 4
    if length ^^^ 0xFFFF ≠ inverse ∨ data.length - offset < length ∨ capacity - output.length < length then none
    else some (output ++ slice data offset length, ⟨offset + length, 0, 0⟩)

/-- The body of a block, by its type. -/
def inflateBlock (data : Bytes) (capacity blockType : Nat) (output : Bytes) (r : BitReader) : Option (Bytes × BitReader) :=
  if blockType = 0 then inflateStored data capacity output r
  else if blockType = 3 then none
  else if blockType = 1 then do
    let (literals, distances) ← buildFixedTables
    inflateSymbols data literals distances capacity (capacity * 2 + 1024) output r
  else do
    let (literals, distances, r) ← buildDynamicTables data r
    inflateSymbols data literals distances capacity (capacity * 2 + 1024) output r

/-- The blocks up to the final one; their number is limited. -/
def inflateBlocks (data : Bytes) (capacity : Nat) : Nat → Bytes → BitReader → Option (Bytes × BitReader)
  | 0, _, _ => none
  | left + 1, output, r => do
    let (finalValue, r) ← r.read data 1
    let (blockType, r) ← r.read data 2
    let (output, r) ← inflateBlock data capacity blockType output r
    if finalValue ≠ 0 then some (output, r) else inflateBlocks data capacity left output r

def inflateRaw (input : Bytes) (capacity : Nat) : Option Bytes :=
  if capacity = 0 then none
  else do
    let (output, r) ← inflateBlocks input capacity maxDeflateBlocks [] ⟨0, 0, 0⟩
    if r.offset = input.length then some output else none

/-- The vector of the source's self-test. -/
example : inflateRaw [0x8B, 0x72, 0xF5, 0xF3, 0x0F, 0x8B, 0x0F, 0x72, 0xF4, 0x0B, 0xF6, 0xF7, 0x0D, 0x77, 0x0C, 0x72,
    0x8D, 0x0F, 0x71, 0x0D, 0x0E, 0x89, 0x0F, 0x33, 0x04, 0x00] 65536 = some (ascii "ZENOV_RANSOMWARE_TEST_V1") := by
  decide +kernel

/-! ### Checksum -/

def crc32Bit (crc : UInt32) : UInt32 := (crc >>> 1) ^^^ (if crc &&& 1 ≠ 0 then 0xEDB88320 else 0)

def crc32Byte (crc : UInt32) (b : UInt8) : UInt32 := crc32Bit^[8] (crc ^^^ b.toUInt32)

def crc32 (data : Bytes) : UInt32 := data.foldl crc32Byte 0xFFFFFFFF ^^^ 0xFFFFFFFF

end ZenovOS.Security.Inflate
