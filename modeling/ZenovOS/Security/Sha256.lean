import ZenovOS.Lib.Bytes

/-! # SHA-256

`sha256_init`, `sha256_update`, `sha256_final` and `sha256` of `security_guard.inc`. -/

namespace ZenovOS.Security

def sha256Constants : List UInt32 :=
  [0x428a2f98, 0x71374491, 0xb5c0fbcf, 0xe9b5dba5, 0x3956c25b, 0x59f111f1, 0x923f82a4, 0xab1c5ed5,
   0xd807aa98, 0x12835b01, 0x243185be, 0x550c7dc3, 0x72be5d74, 0x80deb1fe, 0x9bdc06a7, 0xc19bf174,
   0xe49b69c1, 0xefbe4786, 0x0fc19dc6, 0x240ca1cc, 0x2de92c6f, 0x4a7484aa, 0x5cb0a9dc, 0x76f988da,
   0x983e5152, 0xa831c66d, 0xb00327c8, 0xbf597fc7, 0xc6e00bf3, 0xd5a79147, 0x06ca6351, 0x14292967,
   0x27b70a85, 0x2e1b2138, 0x4d2c6dfc, 0x53380d13, 0x650a7354, 0x766a0abb, 0x81c2c92e, 0x92722c85,
   0xa2bfe8a1, 0xa81a664b, 0xc24b8b70, 0xc76c51a3, 0xd192e819, 0xd6990624, 0xf40e3585, 0x106aa070,
   0x19a4c116, 0x1e376c08, 0x2748774c, 0x34b0bcb5, 0x391c0cb3, 0x4ed8aa4a, 0x5b9cca4f, 0x682e6ff3,
   0x748f82ee, 0x78a5636f, 0x84c87814, 0x8cc70208, 0x90befffa, 0xa4506ceb, 0xbef9a3f7, 0xc67178f2]

def rotateRight (value count : UInt32) : UInt32 := (value >>> count) ||| (value <<< (32 - count))

def loadBe32 (b : Bytes) (off : Nat) : UInt32 :=
  ((b.getD off 0).toUInt32 <<< 24) ||| ((b.getD (off + 1) 0).toUInt32 <<< 16) |||
    ((b.getD (off + 2) 0).toUInt32 <<< 8) ||| (b.getD (off + 3) 0).toUInt32

def storeBe32 (value : UInt32) : Bytes :=
  [(value >>> 24).toUInt8, (value >>> 16).toUInt8, (value >>> 8).toUInt8, value.toUInt8]

/-- The eight state words. -/
structure ShaState where
  a : UInt32
  b : UInt32
  c : UInt32
  d : UInt32
  e : UInt32
  f : UInt32
  g : UInt32
  h : UInt32

/-- Append schedule words until there are 64; `words` holds the last ones first. -/
def extendWords : Nat → List UInt32 → List UInt32
  | 0, words => words
  | left + 1, words =>
    let w15 := words.getD 14 0
    let w2 := words.getD 1 0
    let s0 := rotateRight w15 7 ^^^ rotateRight w15 18 ^^^ (w15 >>> 3)
    let s1 := rotateRight w2 17 ^^^ rotateRight w2 19 ^^^ (w2 >>> 10)
    extendWords left ((words.getD 15 0 + s0 + words.getD 6 0 + s1) :: words)

def shaRound (s : ShaState) (constant word : UInt32) : ShaState :=
  let sum1 := rotateRight s.e 6 ^^^ rotateRight s.e 11 ^^^ rotateRight s.e 25
  let choice := (s.e &&& s.f) ^^^ (~~~s.e &&& s.g)
  let temp1 := s.h + sum1 + choice + constant + word
  let sum0 := rotateRight s.a 2 ^^^ rotateRight s.a 13 ^^^ rotateRight s.a 22
  let majority := (s.a &&& s.b) ^^^ (s.a &&& s.c) ^^^ (s.b &&& s.c)
  let temp2 := sum0 + majority
  ⟨temp1 + temp2, s.a, s.b, s.c, s.d + temp1, s.e, s.f, s.g⟩

def sha256Transform (state : ShaState) (block : Bytes) : ShaState :=
  let first := ((List.range 16).map fun i => loadBe32 block (i * 4)).reverse
  let words := (extendWords 48 first).reverse
  let s := (sha256Constants.zip words).foldl (fun s (constant, word) => shaRound s constant word) state
  ⟨state.a + s.a, state.b + s.b, state.c + s.c, state.d + s.d, state.e + s.e, state.f + s.f, state.g + s.g,
    state.h + s.h⟩

/-- `Sha256Context`; `block` holds the `used` bytes of the open block. -/
structure Sha256Context where
  state : ShaState
  totalBytes : Nat
  block : Bytes

def sha256Init : Sha256Context :=
  ⟨⟨0x6a09e667, 0xbb67ae85, 0x3c6ef372, 0xa54ff53a, 0x510e527f, 0x9b05688c, 0x1f83d9ab, 0x5be0cd19⟩, 0, []⟩

/-- One byte of `sha256_update`. -/
def sha256Byte (context : Sha256Context) (byte : UInt8) : Sha256Context :=
  let block := context.block ++ [byte]
  if block.length = 64 then { context with state := sha256Transform context.state block, block := [] }
  else { context with block }

def sha256Update (context : Sha256Context) (data : Bytes) : Sha256Context :=
  data.foldl sha256Byte { context with totalBytes := context.totalBytes + data.length }

def sha256Final (context : Sha256Context) : Bytes :=
  let bitLength := context.totalBytes * 8 % 2 ^ 64
  let block := context.block ++ [0x80]
  let (state, block) :=
    if 56 < block.length then
      (sha256Transform context.state (block ++ List.replicate (64 - block.length) 0), [])
    else (context.state, block)
  let block := block ++ List.replicate (56 - block.length) 0 ++ (Bytes.le 8 bitLength).reverse
  let s := sha256Transform state block
  storeBe32 s.a ++ storeBe32 s.b ++ storeBe32 s.c ++ storeBe32 s.d ++ storeBe32 s.e ++ storeBe32 s.f ++
    storeBe32 s.g ++ storeBe32 s.h

def sha256 (data : Bytes) : Bytes := sha256Final (sha256Update sha256Init data)

theorem length_sha256Final (context : Sha256Context) : (sha256Final context).length = 32 := by
  simp [sha256Final, storeBe32]

@[simp] theorem length_sha256 (data : Bytes) : (sha256 data).length = 32 := length_sha256Final _

example : (sha256 (ascii "abc")).take 4 = [0xba, 0x78, 0x16, 0xbf] := by decide +kernel

end ZenovOS.Security
