import ZenovOS.Lib.HashChain
import ZenovOS.Lib.Ring
import ZenovOS.Security.Audit
import ZenovOS.Storage.Layout

/-! # The audit journal as it is stored

`Header`, `Record`, `Journal` and `verify` of `security_audit.inc`: the packed bytes of the journal and the
check that they pass before the kernel goes on from them. -/

namespace ZenovOS.Security.Audit
open Bytes Storage

abbrev schemaVersion : UInt16 := 1
abbrev headerBytes : Nat := 96
abbrev recordBytes : Nat := 128
abbrev journalBytes : Nat := headerBytes + diskCapacity * recordBytes

structure DiskHeader where
  magic : Block 4
  schema : UInt16
  headerSize : UInt16
  recordSize : UInt16
  capacity : UInt16
  count : UInt32
  nextIndex : UInt32
  nextSequence : UInt32
  anchorHash : Block 32
  headHash : Block 32
  reserved : Block 8

structure DiskRecord where
  sequence : UInt32
  tick : UInt32
  action : UInt8
  verdict : UInt8
  pathLength : UInt16
  path : Block 48
  digest : Block 32
  recordHash : Block 32
  reserved : Block 4

/-- `Journal`. -/
structure Image where
  header : DiskHeader
  records : Fin diskCapacity → DiskRecord

def DiskHeader.decode (b : Bytes) : DiskHeader where
  magic := Block.of (slice b 0 4)
  schema := UInt16.ofNat (toNat (slice b 4 2))
  headerSize := UInt16.ofNat (toNat (slice b 6 2))
  recordSize := UInt16.ofNat (toNat (slice b 8 2))
  capacity := UInt16.ofNat (toNat (slice b 10 2))
  count := UInt32.ofNat (toNat (slice b 12 4))
  nextIndex := UInt32.ofNat (toNat (slice b 16 4))
  nextSequence := UInt32.ofNat (toNat (slice b 20 4))
  anchorHash := Block.of (slice b 24 32)
  headHash := Block.of (slice b 56 32)
  reserved := Block.of (slice b 88 8)

def DiskRecord.decode (b : Bytes) : DiskRecord where
  sequence := UInt32.ofNat (toNat (slice b 0 4))
  tick := UInt32.ofNat (toNat (slice b 4 4))
  action := UInt8.ofNat (toNat (slice b 8 1))
  verdict := UInt8.ofNat (toNat (slice b 9 1))
  pathLength := UInt16.ofNat (toNat (slice b 10 2))
  path := Block.of (slice b 12 48)
  digest := Block.of (slice b 60 32)
  recordHash := Block.of (slice b 92 32)
  reserved := Block.of (slice b 124 4)

def Image.decode (b : Bytes) : Image where
  header := DiskHeader.decode (slice b 0 headerBytes)
  records i := DiskRecord.decode (slice b (headerBytes + i * recordBytes) recordBytes)

def zeroBytes (data : Bytes) : Bool := data.foldl (fun combined byte => combined ||| byte) 0 = 0

/-- What `hash_record` feeds to SHA-256, piece by piece. -/
def DiskRecord.pieces (r : DiskRecord) (previousHash : Block 32) : List Bytes :=
  let domain := ascii "ZENOV-AUDIT-V1" ++ [0, 0]
  let metadata := le 4 r.sequence.toNat ++ le 4 r.tick.toNat ++ [r.action, r.verdict] ++ le 2 r.pathLength.toNat
  [domain, previousHash.bytes, metadata, r.path.bytes, r.digest.bytes]

/-- `hash_record` of a stored record. -/
def DiskRecord.hash (r : DiskRecord) (previousHash : Block 32) : Block 32 :=
  Block.of (sha256Final ((r.pieces previousHash).foldl sha256Update sha256Init))

/-- The bytes that `hash_record` hashes. -/
def DiskRecord.input (r : DiskRecord) (previousHash : Block 32) : Bytes := (r.pieces previousHash).flatten

/-- The fields of a record that its hash covers. -/
structure HashedFields where
  sequence : UInt32
  tick : UInt32
  action : UInt8
  verdict : UInt8
  pathLength : UInt16
  path : Block 48
  digest : Block 32
  deriving DecidableEq

def DiskRecord.hashed (r : DiskRecord) : HashedFields :=
  ⟨r.sequence, r.tick, r.action, r.verdict, r.pathLength, r.path, r.digest⟩

def recordValid (r : DiskRecord) : Bool :=
  let length := r.pathLength.toNat
  if AuditAction.readAudit.code < r.action ∨ Verdict.error.code < r.verdict ∨ r.pathLength = 0 ∨ 48 ≤ length ∨
      r.path.bytes.getD length 0 ≠ 0 ∨ !zeroBytes r.reserved.bytes then false
  else (r.path.bytes.drop (length + 1)).all (· = 0)

/-- `candidate.records[index % disk_capacity]`. -/
def Image.record (j : Image) (index : Nat) : DiskRecord := j.records (Fin.ofNat diskCapacity index)

/-- The loop of `verify` from record `i` on, for `left` more records: the hash that it ends with. -/
def Image.verifyRecords (j : Image) (first : Nat) (firstSequence : UInt32) : Nat → Nat → Block 32 → Option (Block 32)
  | 0, _, previous => some previous
  | left + 1, i, previous =>
    let record := j.record (first + i)
    if !recordValid record ∨ record.sequence ≠ firstSequence + UInt32.ofNat i then none
    else if record.hash previous ≠ record.recordHash then none
    else verifyRecords j first firstSequence left (i + 1) record.recordHash

/-- The first slot of the valid records. -/
def Image.first (j : Image) : Nat := if j.header.count = 64 then j.header.nextIndex.toNat else 0

/-- The valid records, the oldest first. -/
def Image.window (j : Image) : List DiskRecord := (List.range j.header.count.toNat).map fun i => j.record (j.first + i)

/-- The hash that the valid record `n` is chained to. -/
def Image.previous (j : Image) : Nat → Block 32
  | 0 => j.header.anchorHash
  | n + 1 => (j.record (j.first + n)).recordHash

def verify (candidate : Image) : Bool :=
  let header := candidate.header
  if header.magic ≠ Block.of (ascii "ZGAL") ∨ header.schema ≠ schemaVersion ∨ header.headerSize ≠ 96 ∨
      header.recordSize ≠ 128 ∨ header.capacity ≠ 64 ∨ 64 < header.count ∨ 64 ≤ header.nextIndex ∨
      header.nextSequence = 0 ∨ !zeroBytes header.reserved.bytes then false
  else if header.count = 0 then
    header.nextIndex = 0 && header.nextSequence = 1 && zeroBytes header.anchorHash.bytes && zeroBytes header.headHash.bytes
  else if header.nextSequence ≤ header.count then false
  else if header.count < 64 ∧ (header.nextIndex ≠ header.count ∨ !zeroBytes header.anchorHash.bytes) then false
  else
    let firstSequence := header.nextSequence - header.count
    candidate.verifyRecords candidate.first firstSequence header.count.toNat 0 header.anchorHash = some header.headHash

end ZenovOS.Security.Audit
