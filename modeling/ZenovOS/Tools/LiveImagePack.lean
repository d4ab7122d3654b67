import Mathlib.Logic.Function.Basic
import ZenovOS.Storage.LiveImage

/-! # The packer of the live image

`live_image_pack.cpp`: a disk image becomes a sparse pack, and that is compressed. What the program throws is
`none`; a position in a text is a natural number where the source casts it to `int32_t`. -/

namespace ZenovOS.LiveImagePack
open Bytes Storage

abbrev zeroGap : Nat := 8
abbrev maxChunkBytes : Nat := 0xFFFF
abbrev lzWindow : Nat := 4096
abbrev lzMinMatch : Nat := 3
abbrev lzMaxMatch : Nat := 18
abbrev lzChainLimit : Nat := 128
abbrev u32Max : Nat := 0xFFFFFFFF

/-! ### Chunks -/

structure Chunk where
  offset : Nat
  bytes : Bytes
  deriving DecidableEq

/-- The inner loop over the image: `last_nonzero` when it ends. The bytes from position `i` on are given. -/
def scanChunk : Bytes → Nat → Nat → Nat
  | [], _, lastNonzero => lastNonzero
  | b :: rest, i, lastNonzero =>
    if b ≠ 0 then scanChunk rest (i + 1) i
    else if zeroGap < i - lastNonzero then lastNonzero
    else scanChunk rest (i + 1) lastNonzero

/-- The loop over the image, of which the bytes from position `i` on are left; each round takes one of them. -/
def findChunks : Nat → Bytes → Nat → Option (List Chunk)
  | 0, _, _ => some []
  | left + 1, rest, i =>
    let start := i + (rest.takeWhile (· = 0)).length
    let rest := rest.dropWhile (· = 0)
    if rest = [] then some []
    else
      let stop := scanChunk rest.tail (start + 1) start + 1
      let length := stop - start
      if maxChunkBytes < length then none
      else do
        let chunks ← findChunks left (rest.drop length) stop
        some (⟨start % 2 ^ 32, rest.take length⟩ :: chunks)

def encodeRow (chunk : Chunk) : Bytes := le 4 chunk.offset ++ le 2 chunk.bytes.length ++ le 2 0

def dataBytes (chunks : List Chunk) : Nat := (chunks.map fun chunk => chunk.bytes.length).sum

/-- The sparse pack. -/
def encodeSparse (sectors : Nat) (chunks : List Chunk) : Bytes :=
  ascii "ZLIVE002" ++ le 4 sectors ++ le 4 chunks.length ++ le 4 (dataBytes chunks) ++ chunks.flatMap encodeRow ++ chunks.flatMap Chunk.bytes

/-! ### Compression -/

/-- For each hash the last position with it, and for each position the one before it. -/
structure Tables where
  head : Nat → Option Nat
  previous : Nat → Option Nat

def lzHash (input : Bytes) (position : Nat) : Nat :=
  let a := (input.getD position 0).toNat
  let b := (input.getD (position + 1) 0).toNat
  let c := (input.getD (position + 2) 0).toNat
  (a * 251 + b) * 251 + c &&& 0xFFFF

def insertPosition (input : Bytes) (t : Tables) (position : Nat) : Tables :=
  if input.length < position + lzMinMatch then t
  else
    let hash := lzHash input position
    ⟨Function.update t.head hash (some position), Function.update t.previous position (t.head hash)⟩

/-- The loop that compares, for `left` bytes at most. -/
def matchLength (input : Bytes) (source position : Nat) : Nat → Nat → Nat
  | 0, length => length
  | left + 1, length =>
    if input.getD (source + length) 0 = input.getD (position + length) 0 then matchLength input source position left (length + 1)
    else length

structure Match where
  length : Nat
  distance : Nat
  deriving DecidableEq

/-- The loop over the candidates, of which `left` are visited at most. -/
def bestMatch (input : Bytes) (t : Tables) (position : Nat) : Nat → Option Nat → Match → Match
  | 0, _, best => best
  | _, none, best => best
  | left + 1, some source, best =>
    let distance := position - source
    if lzWindow < distance then best
    else
      let limit := if input.length - position < lzMaxMatch then input.length - position else lzMaxMatch
      let length := matchLength input source position limit 0
      if best.length < length ∧ lzMinMatch ≤ length then
        if length = lzMaxMatch then ⟨length, distance⟩ else bestMatch input t position left (t.previous source) ⟨length, distance⟩
      else bestMatch input t position left (t.previous source) best

def findMatch (input : Bytes) (t : Tables) (position : Nat) : Match :=
  if position + lzMinMatch ≤ input.length then bestMatch input t position lzChainLimit (t.head (lzHash input position)) ⟨0, 0⟩
  else ⟨0, 0⟩

/-- The loop over the bits of a flag byte: the flags, what follows them, and where the input goes on. -/
def compressBits (input : Bytes) : Nat → Nat → Nat → Tables → Nat → Bytes → Nat × Bytes × Nat × Tables
  | 0, _, position, t, flags, output => (flags, output, position, t)
  | left + 1, bit, position, t, flags, output =>
    if input.length ≤ position then (flags, output, position, t)
    else
      let best := findMatch input t position
      if lzMinMatch ≤ best.length then
        let code := (best.distance - 1) <<< 4 ||| (best.length - lzMinMatch)
        let t := (List.range best.length).foldl (fun t consumed => insertPosition input t (position + consumed)) t
        compressBits input left (bit + 1) (position + best.length) t flags (output ++ le 2 code)
      else
        compressBits input left (bit + 1) (position + 1) (insertPosition input t position) (flags ||| 2 ^ bit)
          (output ++ [input.getD position 0])

/-- The loop of `lzss_compress`; each round takes a byte of the input. -/
def compressFrom (input : Bytes) : Nat → Nat → Tables → Bytes → Bytes
  | 0, _, _, output => output
  | left + 1, position, t, output =>
    if input.length ≤ position then output
    else
      let (flags, group, position, t) := compressBits input 8 0 position t 0 []
      compressFrom input left position t (output ++ UInt8.ofNat flags :: group)

def lzssCompress (input : Bytes) : Bytes := compressFrom input input.length 0 ⟨fun _ => none, fun _ => none⟩ []

/-! ### The program -/

/-- The sparse pack of an image, and the constants that are generated. -/
def packImage (image : Bytes) : Option (Bytes × LiveImage) :=
  let sectors := image.length / sectorSize
  if image = [] ∨ image.length % sectorSize ≠ 0 ∨ u32Max < sectors then none
  else do
    let chunks ← findChunks image.length image 0
    if chunks = [] ∨ u32Max < chunks.length ∨ u32Max < dataBytes chunks then none
    else
      let sparse := encodeSparse sectors chunks
      let compressed := lzssCompress sparse
      if compressed = [] ∨ sparse.length ≤ compressed.length then none
      else some (sparse, ⟨sparse.length, fnv1a sparse, sectors, chunks.length, compressed⟩)

end ZenovOS.LiveImagePack
