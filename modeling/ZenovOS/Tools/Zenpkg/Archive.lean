import ZenovOS.Lib.BlockHash
import ZenovOS.Tools.Zenpkg.Manifest

/-! # SHA-256 of the package tools

`sha256.hpp` of `zenpkg`. Sums are taken in 64 bits and cut to 32, and the input is copied into the block piece by
piece. -/

namespace ZenovOS.Zenpkg
open Bytes Security

def shaConstants : List UInt32 :=
  [0x428a2f98, 0x71374491, 0xb5c0fbcf, 0xe9b5dba5, 0x3956c25b, 0x59f111f1, 0x923f82a4, 0xab1c5ed5,
   0xd807aa98, 0x12835b01, 0x243185be, 0x550c7dc3, 0x72be5d74, 0x80deb1fe, 0x9bdc06a7, 0xc19bf174,
   0xe49b69c1, 0xefbe4786, 0x0fc19dc6, 0x240ca1cc, 0x2de92c6f, 0x4a7484aa, 0x5cb0a9dc, 0x76f988da,
   0x983e5152, 0xa831c66d, 0xb00327c8, 0xbf597fc7, 0xc6e00bf3, 0xd5a79147, 0x06ca6351, 0x14292967,
   0x27b70a85, 0x2e1b2138, 0x4d2c6dfc, 0x53380d13, 0x650a7354, 0x766a0abb, 0x81c2c92e, 0x92722c85,
   0xa2bfe8a1, 0xa81a664b, 0xc24b8b70, 0xc76c51a3, 0xd192e819, 0xd6990624, 0xf40e3585, 0x106aa070,
   0x19a4c116, 0x1e376c08, 0x2748774c, 0x34b0bcb5, 0x391c0cb3, 0x4ed8aa4a, 0x5b9cca4f, 0x682e6ff3,
   0x748f82ee, 0x78a5636f, 0x84c87814, 0x8cc70208, 0x90befffa, 0xa4506ceb, 0xbef9a3f7, 0xc67178f2]

/-- `add_mod32`: at most five summands, so that the 64-bit sum is exact. -/
def addMod32 (values : List UInt32) : UInt32 := UInt32.ofNat ((values.map UInt32.toNat).sum &&& 0xffffffff)

/-- The second loop of `transform`. -/
def shaSchedule : Nat → List UInt32 → List UInt32
  | 0, words => words
  | left + 1, words =>
    let i := words.length
    let w15 := words.getD (i - 15) 0
    let w2 := words.getD (i - 2) 0
    let s0 := rotateRight w15 7 ^^^ rotateRight w15 18 ^^^ (w15 >>> 3)
    let s1 := rotateRight w2 17 ^^^ rotateRight w2 19 ^^^ (w2 >>> 10)
    shaSchedule left (words ++ [addMod32 [words.getD (i - 16) 0, s0, words.getD (i - 7) 0, s1]])

/-- A round of the third loop. -/
def shaStep (s : ShaState) (constant word : UInt32) : ShaState :=
  let s1 := rotateRight s.e 6 ^^^ rotateRight s.e 11 ^^^ rotateRight s.e 25
  let choose := (s.e &&& s.f) ^^^ (~~~s.e &&& s.g)
  let temp1 := addMod32 [s.h, s1, choose, constant, word]
  let s0 := rotateRight s.a 2 ^^^ rotateRight s.a 13 ^^^ rotateRight s.a 22
  let majority := (s.a &&& s.b) ^^^ (s.a &&& s.c) ^^^ (s.b &&& s.c)
  let temp2 := addMod32 [s0, majority]
  { h := s.g, g := s.f, f := s.e, e := addMod32 [s.d, temp1], d := s.c, c := s.b, b := s.a, a := addMod32 [temp1, temp2] }

def transform (state : ShaState) (block : Bytes) : ShaState :=
  let words := shaSchedule 48 ((List.range 16).map fun i => loadBe32 block (i * 4))
  let s := (List.range 64).foldl (fun s i => shaStep s (shaConstants.getD i 0) (words.getD i 0)) state
  ⟨addMod32 [state.a, s.a], addMod32 [state.b, s.b], addMod32 [state.c, s.c], addMod32 [state.d, s.d],
    addMod32 [state.e, s.e], addMod32 [state.f, s.f], addMod32 [state.g, s.g], addMod32 [state.h, s.h]⟩

/-- `Sha256`; `block` holds the first `block_size_` bytes of its block. -/
structure Sha256 where
  state : ShaState
  block : Bytes
  totalBytes : Nat

def Sha256.reset : Sha256 :=
  ⟨⟨0x6a09e667, 0xbb67ae85, 0x3c6ef372, 0xa54ff53a, 0x510e527f, 0x9b05688c, 0x1f83d9ab, 0x5be0cd19⟩, [], 0⟩

def Sha256.update (context : Sha256) (data : Bytes) : Except Bytes Sha256 := do
  refuse (2 ^ 64 - 1 - context.totalBytes < data.length) (ascii "SHA-256 input length overflow")
  let (state, block) := BlockHash.absorb 64 transform data.length (context.state, context.block) data
  pure ⟨state, block, context.totalBytes + data.length⟩

def Sha256.final (context : Sha256) : Except Bytes Bytes := do
  refuse ((2 ^ 64 - 1) / 8 < context.totalBytes) (ascii "SHA-256 input is too large to encode its bit length")
  let totalBits := context.totalBytes * 8
  let block := context.block ++ [0x80]
  let (state, block) :=
    if 56 < block.length then (transform context.state (block ++ List.replicate (64 - block.length) 0), [])
    else (context.state, block)
  let length := (List.range 8).map fun i => UInt8.ofNat (totalBits >>> (56 - i * 8))
  let block := block ++ List.replicate (56 - block.length) 0 ++ length
  let s := transform state block
  pure (storeBe32 s.a ++ storeBe32 s.b ++ storeBe32 s.c ++ storeBe32 s.d ++ storeBe32 s.e ++ storeBe32 s.f ++
    storeBe32 s.g ++ storeBe32 s.h)

/-- `Sha256::hash`. -/
def sha256Hash (data : Bytes) : Except Bytes Bytes := do
  let context ← Sha256.reset.update data
  context.final

/-- A digit of `hex_encode`. -/
def hexDigit (value : UInt8) : UInt8 := if value < 10 then 48 + value else 87 + value

def hexEncode (data : Bytes) : Bytes := data.flatMap fun value => [hexDigit (value / 16), hexDigit (value % 16)]

def sha256Hex (data : Bytes) : Except Bytes Bytes := do
  let digest ← sha256Hash data
  pure (hexEncode digest)

end ZenovOS.Zenpkg

/-! ## Packages of the package tools

`archive.hpp` of `zenpkg`: the container of a manifest and a payload, built and read. -/

namespace ZenovOS.Zenpkg
open Bytes

abbrev packageHeaderSize : Nat := 128
abbrev maxManifestSize : Nat := 64 * 1024
abbrev maxPayloadSize : Nat := 4 * 1024 * 1024 * 1024
/-- `std::numeric_limits<std::size_t>::max()` of the host. -/
abbrev sizeMax : Nat := 2 ^ 64 - 1

def packageMagic : Bytes := ascii "ZENPKG1" ++ [0]

structure Package where
  manifest : Manifest
  manifestText : Bytes
  payload : Bytes
  manifestDigest : Bytes
  payloadDigest : Bytes
  packageDigestHex : Bytes
  deriving DecidableEq

def readU32Le (input : Bytes) (offset : Nat) : Except Bytes Nat := do
  refuse (input.length < offset ∨ input.length - offset < 4) (ascii "truncated package header")
  pure (toNat (slice input offset 4))

def readU64Le (input : Bytes) (offset : Nat) : Except Bytes Nat := do
  refuse (input.length < offset ∨ input.length - offset < 8) (ascii "truncated package header")
  pure (toNat (slice input offset 8))

def buildPackageBytes (manifest : Manifest) (payload : Bytes) : Except Bytes Bytes := do
  validateManifest manifest payload.length
  let canonical := canonicalManifest manifest
  refuse (maxManifestSize < canonical.length) (ascii "manifest exceeds package limit")
  refuse (maxPayloadSize < payload.length) (ascii "payload exceeds package limit")
  let manifestDigest ← sha256Hash canonical
  let payloadDigest ← sha256Hash payload
  let output := packageMagic ++ le 4 1 ++ le 4 0 ++ le 8 canonical.length ++ le 8 payload.length ++ manifestDigest ++ payloadDigest
  let headerDigest ← sha256Hash output
  let output := output ++ headerDigest
  refuse (output.length ≠ packageHeaderSize) (ascii "internal package header size mismatch")
  pure (output ++ canonical ++ payload)

def parsePackageBytes (bytes : Bytes) : Except Bytes Package := do
  refuse (bytes.length < packageHeaderSize) (ascii "package is smaller than the fixed header")
  refuse (slice bytes 0 8 ≠ packageMagic) (ascii "invalid package magic")
  let version ← readU32Le bytes 8
  let flags ← readU32Le bytes 12
  let manifestSize ← readU64Le bytes 16
  let payloadSize ← readU64Le bytes 24
  refuse (version ≠ 1) (ascii "unsupported package version: " ++ ascii (toString version))
  refuse (flags ≠ 0) (ascii "unsupported package flags")
  refuse (maxManifestSize < manifestSize) (ascii "manifest size exceeds package limit")
  refuse (maxPayloadSize < payloadSize) (ascii "payload size exceeds package limit")
  refuse (sizeMax < manifestSize ∨ sizeMax < payloadSize) (ascii "package sizes exceed host address space")
  let expectedSize := packageHeaderSize + manifestSize + payloadSize
  refuse (expectedSize ≠ bytes.length) (ascii "package length does not match header sizes")
  let expectedManifest := slice bytes 32 32
  let expectedPayload := slice bytes 64 32
  let expectedHeader := slice bytes 96 32
  let actualHeader ← sha256Hash (slice bytes 0 96)
  refuse (actualHeader ≠ expectedHeader) (ascii "package header checksum mismatch")
  let manifestText := slice bytes packageHeaderSize manifestSize
  let payload := bytes.drop (packageHeaderSize + manifestSize)
  let actualManifest ← sha256Hash manifestText
  let actualPayload ← sha256Hash payload
  refuse (actualManifest ≠ expectedManifest) (ascii "manifest SHA-256 mismatch")
  refuse (actualPayload ≠ expectedPayload) (ascii "payload SHA-256 mismatch")
  let manifest ← parseAndValidateManifest manifestText payload.length
  refuse (canonicalManifest manifest ≠ manifestText) (ascii "manifest is not in canonical form")
  let packageDigestHex ← sha256Hex bytes
  pure ⟨manifest, manifestText, payload, actualManifest, actualPayload, packageDigestHex⟩

end ZenovOS.Zenpkg
