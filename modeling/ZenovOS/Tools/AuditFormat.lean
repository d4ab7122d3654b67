import ZenovOS.Security.AuditImage

/-! # The audit verifier of the host

`zenov_audit_format.hpp`: SHA-256 and the check of a journal as the tools on the host have them. Its
packed structures have the fields of the kernel's, in the same places. -/

namespace ZenovOS.AuditHost
open Bytes Storage Security Audit

abbrev kCapacity : UInt16 := 64

def kSha256Constants : List UInt32 :=
  [0x428a2f98, 0x71374491, 0xb5c0fbcf, 0xe9b5dba5, 0x3956c25b, 0x59f111f1, 0x923f82a4, 0xab1c5ed5,
   0xd807aa98, 0x12835b01, 0x243185be, 0x550c7dc3, 0x72be5d74, 0x80deb1fe, 0x9bdc06a7, 0xc19bf174,
   0xe49b69c1, 0xefbe4786, 0x0fc19dc6, 0x240ca1cc, 0x2de92c6f, 0x4a7484aa, 0x5cb0a9dc, 0x76f988da,
   0x983e5152, 0xa831c66d, 0xb00327c8, 0xbf597fc7, 0xc6e00bf3, 0xd5a79147, 0x06ca6351, 0x14292967,
   0x27b70a85, 0x2e1b2138, 0x4d2c6dfc, 0x53380d13, 0x650a7354, 0x766a0abb, 0x81c2c92e, 0x92722c85,
   0xa2bfe8a1, 0xa81a664b, 0xc24b8b70, 0xc76c51a3, 0xd192e819, 0xd6990624, 0xf40e3585, 0x106aa070,
   0x19a4c116, 0x1e376c08, 0x2748774c, 0x34b0bcb5, 0x391c0cb3, 0x4ed8aa4a, 0x5b9cca4f, 0x682e6ff3,
   0x748f82ee, 0x78a5636f, 0x84c87814, 0x8cc70208, 0x90befffa, 0xa4506ceb, 0xbef9a3f7, 0xc67178f2]

/-- `Sha256`: the block is an array of 64 bytes, of which the first `used` wait to be hashed. -/
structure Sha256 where
  state : ShaState
  total : Nat
  block : Bytes
  used : Nat

/-- The second loop of `transform`: the words that are there already, and those still to come. -/
def schedule : Nat → List UInt32 → List UInt32
  | 0, words => words
  | left + 1, words =>
    let i := words.length
    let w15 := words.getD (i - 15) 0
    let w2 := words.getD (i - 2) 0
    let s0 := rotateRight w15 7 ^^^ rotateRight w15 18 ^^^ (w15 >>> 3)
    let s1 := rotateRight w2 17 ^^^ rotateRight w2 19 ^^^ (w2 >>> 10)
    schedule left (words ++ [words.getD (i - 16) 0 + s0 + words.getD (i - 7) 0 + s1])

/-- A round of the third loop. -/
def round (s : ShaState) (constant word : UInt32) : ShaState :=
  let s1 := rotateRight s.e 6 ^^^ rotateRight s.e 11 ^^^ rotateRight s.e 25
  let choice := (s.e &&& s.f) ^^^ (~~~s.e &&& s.g)
  let temp1 := s.h + s1 + choice + constant + word
  let s0 := rotateRight s.a 2 ^^^ rotateRight s.a 13 ^^^ rotateRight s.a 22
  let majority := (s.a &&& s.b) ^^^ (s.a &&& s.c) ^^^ (s.b &&& s.c)
  let temp2 := s0 + majority
  { h := s.g, g := s.f, f := s.e, e := s.d + temp1, d := s.c, c := s.b, b := s.a, a := temp1 + temp2 }

def transform (state : ShaState) (block : Bytes) : ShaState :=
  let words := schedule 48 ((List.range 16).map fun i => loadBe32 block (i * 4))
  let s := (List.range 64).foldl (fun s i => round s (kSha256Constants.getD i 0) (words.getD i 0)) state
  ⟨state.a + s.a, state.b + s.b, state.c + s.c, state.d + s.d, state.e + s.e, state.f + s.f, state.g + s.g,
    state.h + s.h⟩

def shaInit : Sha256 :=
  ⟨⟨0x6a09e667, 0xbb67ae85, 0x3c6ef372, 0xa54ff53a, 0x510e527f, 0x9b05688c, 0x1f83d9ab, 0x5be0cd19⟩, 0,
    List.replicate 64 0, 0⟩

/-- `context.block[context.used++] = byte`. -/
def Sha256.put (context : Sha256) (byte : UInt8) : Sha256 :=
  { context with block := context.block.set context.used byte, used := context.used + 1 }

/-- A new block is begun. -/
def Sha256.restart (context : Sha256) (state : ShaState) : Sha256 := { context with state, used := 0 }

/-- `transform` of the context's block; `used` starts again. -/
def Sha256.flush (context : Sha256) : Sha256 := context.restart (transform context.state context.block)

@[simp] theorem Sha256.restart_state (context : Sha256) (state : ShaState) : (context.restart state).state = state := rfl

@[simp] theorem Sha256.restart_block (context : Sha256) (state : ShaState) : (context.restart state).block = context.block := rfl

@[simp] theorem Sha256.restart_used (context : Sha256) (state : ShaState) : (context.restart state).used = 0 := rfl

/-- One byte of `sha_update`. -/
def shaByte (context : Sha256) (byte : UInt8) : Sha256 :=
  let context := context.put byte
  if context.used = 64 then context.flush else context

def shaUpdate (context : Sha256) (data : Bytes) : Sha256 :=
  data.foldl shaByte { context with total := context.total + data.length }

/-- Zeros up to `used = stop`, in `left` steps at most. -/
def Sha256.pad (stop : Nat) : Nat → Sha256 → Sha256
  | 0, context => context
  | left + 1, context => if context.used < stop then pad stop left (context.put 0) else context

def shaFinal (context : Sha256) : Bytes :=
  let bits := context.total * 8 % 2 ^ 64
  let context := context.put 0x80
  let context := if 56 < context.used then (context.pad 64 64).flush else context
  let context := context.pad 56 64
  let block := (List.range 8).foldl (fun block i => block.set (63 - i) (UInt8.ofNat (bits >>> (i * 8)))) context.block
  let s := transform context.state block
  storeBe32 s.a ++ storeBe32 s.b ++ storeBe32 s.c ++ storeBe32 s.d ++ storeBe32 s.e ++ storeBe32 s.f ++
    storeBe32 s.g ++ storeBe32 s.h

def sha256 (data : Bytes) : Block 32 := Block.of (shaFinal (shaUpdate shaInit data))

def allZero (data : Bytes) : Bool := data.foldl (fun value byte => value ||| byte) 0 = 0

def recordHash (record : DiskRecord) (previous : Block 32) : Block 32 :=
  let domain := ascii "ZENOV-AUDIT-V1" ++ [0, 0]
  let metadata := le 4 record.sequence.toNat ++ le 4 record.tick.toNat ++ [record.action, record.verdict] ++
    le 2 record.pathLength.toNat
  Block.of (shaFinal
    (shaUpdate (shaUpdate (shaUpdate (shaUpdate (shaUpdate shaInit domain) previous.bytes) metadata) record.path.bytes)
      record.digest.bytes))

/-- The checks that `verify` makes of a record by itself. -/
def recordRefused (record : DiskRecord) (sequence : UInt32) : Bool :=
  record.sequence ≠ sequence || 9 < record.action || 5 < record.verdict || record.pathLength = 0 ||
    48 ≤ record.pathLength.toNat || record.path.bytes.getD record.pathLength.toNat 0 ≠ 0 ||
    !allZero record.reserved.bytes

/-- The loop of `verify` from record `i` on, for `left` more records: the hash that it ends with. -/
def verifyRecords (journal : Image) (first : Nat) (firstSequence : UInt32) : Nat → Nat → Block 32 → Option (Block 32)
  | 0, _, previous => some previous
  | left + 1, i, previous =>
    let record := journal.record (first + i)
    if recordRefused record (firstSequence + UInt32.ofNat i) then none
    else if (record.path.bytes.drop (record.pathLength.toNat + 1)).any (· ≠ 0) then none
    else
      let computed := recordHash record previous
      if computed ≠ record.recordHash then none else verifyRecords journal first firstSequence left (i + 1) computed

def verify (journal : Image) (requireNonempty : Bool) : Bool :=
  let h := journal.header
  if h.magic ≠ Block.of (ascii "ZGAL") ∨ h.schema ≠ 1 ∨ h.headerSize ≠ 96 ∨ h.recordSize ≠ 128 ∨ h.capacity ≠ kCapacity ∨
      kCapacity.toUInt32 < h.count ∨ kCapacity.toUInt32 ≤ h.nextIndex ∨ h.nextSequence = 0 ∨
      !allZero h.reserved.bytes then false
  else if requireNonempty ∧ h.count = 0 then false
  else if h.count = 0 then h.nextIndex = 0 && h.nextSequence = 1 && allZero h.anchorHash.bytes && allZero h.headHash.bytes
  else if h.nextSequence ≤ h.count then false
  else if h.count < kCapacity.toUInt32 ∧ (h.nextIndex ≠ h.count ∨ !allZero h.anchorHash.bytes) then false
  else
    let first := if h.count = kCapacity.toUInt32 then h.nextIndex.toNat else 0
    let firstSequence := h.nextSequence - h.count
    match verifyRecords journal first firstSequence h.count.toNat 0 h.anchorHash with
    | none => false
    | some previous => previous = h.headHash

end ZenovOS.AuditHost

/-! ## The verifier of protected files

`zenovfs_zvrt_verify.cpp`: the Merkle root as the host computes it. What the program throws is `none`; a size is at
least one, so that its sum with the size of a chunk cannot overflow and pass. -/

namespace ZenovOS.ZvrtVerify
open Bytes Storage AuditHost

abbrev kChunkSize : Nat := 4096
abbrev kMaxLeaves : Nat := 16
abbrev Digest := Block 32

def leafDigest (path : Bytes) (fileSize index : Nat) (data : Bytes) : Digest :=
  sha256 ([0] ++ [UInt8.ofNat path.length] ++ path ++ le 4 fileSize ++ le 4 index ++ le 4 data.length ++ data)

def parentDigest (left right : Digest) : Digest :=
  let encoded := (List.replicate 65 0).set 0 1
  sha256 (overwrite (overwrite encoded 1 left.bytes) 33 right.bytes)

/-- The loop over the leaves. -/
def leafNodes (path data : Bytes) (leaves : Nat) : List Digest :=
  (List.range leaves).foldl (fun nodes index =>
    let offset := index * kChunkSize
    let remaining := data.length - offset
    let length := if remaining < kChunkSize then remaining else kChunkSize
    nodes.set index (leafDigest path data.length index (slice data offset length))) (List.replicate kMaxLeaves (Block.of []))

/-- One round of the loop over `count` nodes. -/
def mergeLevel (count : Nat) (nodes : List Digest) : List Digest :=
  (List.range ((count + 1) / 2)).foldl (fun nodes i =>
    let left := i * 2
    let right := if left + 1 < count then left + 1 else left
    nodes.set i (parentDigest (nodes.getD left (Block.of [])) (nodes.getD right (Block.of [])))) nodes

/-- The rounds until one node is left; `rounds` bounds them. -/
def mergeLevels : Nat → Nat → List Digest → List Digest
  | 0, _, nodes => nodes
  | rounds + 1, count, nodes =>
    if count ≤ 1 then nodes else mergeLevels rounds ((count + 1) / 2) (mergeLevel count nodes)

def merkleRoot (path data : Bytes) (leaves : Nat) : Option Digest :=
  if data = [] ∨ leaves = 0 ∨ kMaxLeaves < leaves ∨ leaves ≠ (data.length + kChunkSize - 1) / kChunkSize then none
  else (mergeLevels kMaxLeaves leaves (leafNodes path data leaves)).head?

end ZenovOS.ZvrtVerify
