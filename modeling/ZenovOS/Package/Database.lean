import ZenovOS.Package.Format
import Mathlib.Data.Fintype.Pi

/-! # The package database

`PackageReference`, `PackageRecord` and `Database` of `package_manager/state.inc` with their packed encoding,
and the checks on them. -/

namespace ZenovOS.Package
open Bytes Security Storage

abbrev maximumPackages : Nat := 8

structure PackageReference where
  valid : UInt8
  payloadType : UInt8
  reserved : UInt16
  version : Block 16
  entrypoint : Block 48
  packageDigest : Block 32
  payloadDigest : Block 32
  deriving DecidableEq

namespace PackageReference

/-- `PackageReference{}`. -/
def empty : PackageReference := ⟨0, 0, 0, Block.of [], Block.of [], Block.of [], Block.of []⟩

def encode (reference : PackageReference) : Bytes :=
  [reference.valid, reference.payloadType] ++ le 2 reference.reserved.toNat ++ reference.version.bytes ++
    reference.entrypoint.bytes ++ reference.packageDigest.bytes ++ reference.payloadDigest.bytes

def decode (b : Bytes) : PackageReference where
  valid := b.getD 0 0
  payloadType := b.getD 1 0
  reserved := UInt16.ofNat (toNat (slice b 2 2))
  version := Block.of (slice b 4 16)
  entrypoint := Block.of (slice b 20 48)
  packageDigest := Block.of (slice b 68 32)
  payloadDigest := Block.of (slice b 100 32)

theorem length_encode (reference : PackageReference) : reference.encode.length = 132 := by
  simp [encode]

theorem decode_encode (reference : PackageReference) : decode reference.encode = reference := by
  have hreserved : slice reference.encode 2 2 = le 2 reference.reserved.toNat :=
    slice_field [reference.valid, reference.payloadType] _ rfl (by simp) (by simp only [encode, List.append_assoc]; rfl)
  have hversion : slice reference.encode 4 16 = reference.version.bytes :=
    slice_field ([reference.valid, reference.payloadType] ++ le 2 reference.reserved.toNat) _ (by simp)
      reference.version.length_eq (by simp only [encode, List.append_assoc]; rfl)
  have hentrypoint : slice reference.encode 20 48 = reference.entrypoint.bytes :=
    slice_field ([reference.valid, reference.payloadType] ++ le 2 reference.reserved.toNat ++ reference.version.bytes) _
      (by simp) reference.entrypoint.length_eq (by simp only [encode, List.append_assoc]; rfl)
  have hpackage : slice reference.encode 68 32 = reference.packageDigest.bytes :=
    slice_field ([reference.valid, reference.payloadType] ++ le 2 reference.reserved.toNat ++ reference.version.bytes ++
      reference.entrypoint.bytes) _ (by simp) reference.packageDigest.length_eq (by simp only [encode, List.append_assoc]; rfl)
  have hpayload : slice reference.encode 100 32 = reference.payloadDigest.bytes :=
    slice_field ([reference.valid, reference.payloadType] ++ le 2 reference.reserved.toNat ++ reference.version.bytes ++
      reference.entrypoint.bytes ++ reference.packageDigest.bytes) _ (by simp) reference.payloadDigest.length_eq
      (by rw [List.append_nil, encode])
  unfold decode
  rw [hreserved, hversion, hentrypoint, hpackage, hpayload, ofNat_toNat_le16]
  simp only [Block.of_bytes, encode, List.append_assoc, List.cons_append, List.getD_cons_zero, List.getD_cons_succ]

end PackageReference

abbrev packageReferenceSize : Nat := 132

structure PackageRecord where
  used : UInt8
  reserved : Block 3
  name : Block 32
  active : PackageReference
  previous : PackageReference
  deriving DecidableEq

namespace PackageRecord

def empty : PackageRecord := ⟨0, Block.of [], Block.of [], .empty, .empty⟩

def encode (record : PackageRecord) : Bytes :=
  [record.used] ++ record.reserved.bytes ++ record.name.bytes ++ record.active.encode ++ record.previous.encode

def decode (b : Bytes) : PackageRecord where
  used := b.getD 0 0
  reserved := Block.of (slice b 1 3)
  name := Block.of (slice b 4 32)
  active := PackageReference.decode (slice b 36 packageReferenceSize)
  previous := PackageReference.decode (slice b (36 + packageReferenceSize) packageReferenceSize)

theorem length_encode (record : PackageRecord) : record.encode.length = 300 := by
  simp [encode, PackageReference.length_encode]

theorem decode_encode (record : PackageRecord) : decode record.encode = record := by
  have hreserved : slice record.encode 1 3 = record.reserved.bytes :=
    slice_field [record.used] _ rfl record.reserved.length_eq (by simp only [encode, List.append_assoc]; rfl)
  have hname : slice record.encode 4 32 = record.name.bytes :=
    slice_field ([record.used] ++ record.reserved.bytes) _ (by simp) record.name.length_eq
      (by simp only [encode, List.append_assoc]; rfl)
  have hactive : slice record.encode 36 packageReferenceSize = record.active.encode :=
    slice_field ([record.used] ++ record.reserved.bytes ++ record.name.bytes) _ (by simp)
      record.active.length_encode (by simp only [encode, List.append_assoc]; rfl)
  have hprevious : slice record.encode (36 + packageReferenceSize) packageReferenceSize = record.previous.encode :=
    slice_field ([record.used] ++ record.reserved.bytes ++ record.name.bytes ++ record.active.encode) _
      (by simp [PackageReference.length_encode, packageReferenceSize]) record.previous.length_encode (by rw [List.append_nil, encode])
  unfold decode
  rw [hreserved, hname, hactive, hprevious, PackageReference.decode_encode, PackageReference.decode_encode]
  simp only [Block.of_bytes, encode, List.append_assoc, List.cons_append, List.getD_cons_zero]

end PackageRecord

abbrev packageRecordSize : Nat := 300

structure Database where
  magic : Block 8
  version : UInt32
  generation : UInt32
  count : UInt32
  checksum : UInt32
  records : Fin maximumPackages → PackageRecord
  deriving DecidableEq

abbrev databaseSize : Nat := 2424

namespace Database

/-- The encoded fields, with the checksum field as given. -/
def encodeWith (db : Database) (checksum : UInt32) : Bytes :=
  db.magic.bytes ++ le 4 db.version.toNat ++ le 4 db.generation.toNat ++ le 4 db.count.toNat ++ le 4 checksum.toNat ++
    (List.finRange maximumPackages).flatMap fun i => (db.records i).encode

def encode (db : Database) : Bytes := db.encodeWith db.checksum

def decode (b : Bytes) : Database where
  magic := Block.of (slice b 0 8)
  version := UInt32.ofNat (toNat (slice b 8 4))
  generation := UInt32.ofNat (toNat (slice b 12 4))
  count := UInt32.ofNat (toNat (slice b 16 4))
  checksum := UInt32.ofNat (toNat (slice b 20 4))
  records i := PackageRecord.decode (slice b (24 + packageRecordSize * i) packageRecordSize)

theorem length_encode (db : Database) : db.encode.length = databaseSize := by
  simp [encode, encodeWith, List.length_flatMap, PackageRecord.length_encode, maximumPackages, databaseSize]

theorem decode_encode (db : Database) : decode db.encode = db := by
  have hmagic : slice db.encode 0 8 = db.magic.bytes :=
    slice_field [] _ rfl db.magic.length_eq (by simp only [encode, encodeWith, List.append_assoc]; rfl)
  have hversion : slice db.encode 8 4 = le 4 db.version.toNat :=
    slice_field db.magic.bytes _ db.magic.length_eq (by simp) (by simp only [encode, encodeWith, List.append_assoc]; rfl)
  have hgeneration : slice db.encode 12 4 = le 4 db.generation.toNat :=
    slice_field (db.magic.bytes ++ le 4 db.version.toNat) _ (by simp) (by simp)
      (by simp only [encode, encodeWith, List.append_assoc]; rfl)
  have hcount : slice db.encode 16 4 = le 4 db.count.toNat :=
    slice_field (db.magic.bytes ++ le 4 db.version.toNat ++ le 4 db.generation.toNat) _ (by simp) (by simp)
      (by simp only [encode, encodeWith, List.append_assoc]; rfl)
  have hchecksum : slice db.encode 20 4 = le 4 db.checksum.toNat :=
    slice_field (db.magic.bytes ++ le 4 db.version.toNat ++ le 4 db.generation.toNat ++ le 4 db.count.toNat) _ (by simp)
      (by simp) (by simp only [encode, encodeWith, List.append_assoc]; rfl)
  have hrecords : ∀ i : Fin maximumPackages,
      slice db.encode (24 + packageRecordSize * i) packageRecordSize = (db.records i).encode := by
    intro i
    have hindex : (List.finRange maximumPackages)[(i : Nat)]? = some i := by
      rw [List.getElem?_eq_getElem (by simp), List.getElem_finRange]
      rfl
    have hhead : (db.magic.bytes ++ le 4 db.version.toNat ++ le 4 db.generation.toNat ++ le 4 db.count.toNat ++
        le 4 db.checksum.toNat).length = 24 := by simp
    unfold encode encodeWith
    rw [slice_append_right (by rw [hhead]; omega), hhead, Nat.add_sub_cancel_left, Nat.mul_comm]
    exact slice_flatMap (fun j => (db.records j).length_encode) hindex
  unfold decode
  simp only [hmagic, hversion, hgeneration, hcount, hchecksum, hrecords, PackageRecord.decode_encode, ofNat_toNat_le32,
    Block.of_bytes]

end Database

def databaseChecksum (db : Database) : UInt32 := fnv1a (db.encodeWith 0)

def recordCount (db : Database) : Nat := (List.finRange maximumPackages).countP fun i => (db.records i).used ≠ 0

def referenceValid (reference : PackageReference) : Bool :=
  if reference.valid = 0 then
    reference.payloadType = 0 && cstr reference.version.bytes = [] && cstr reference.entrypoint.bytes = []
  else
    (reference.payloadType = payloadZex1 || reference.payloadType = payloadElf32) &&
      cstr reference.version.bytes ≠ [] && cstr reference.entrypoint.bytes ≠ [] &&
      (ascii "/data/apps/pkg-").isPrefixOf (cstr reference.entrypoint.bytes)

def databaseMagic : Bytes := ascii "ZPKDB1" ++ [0, 0]

/-- What `database_valid` asks of one record. -/
def recordValid (db : Database) (i : Fin maximumPackages) : Bool :=
  let record := db.records i
  record.used = 0 ||
    (cstr record.name.bytes ≠ [] && referenceValid record.active && record.active.valid ≠ 0 &&
      referenceValid record.previous &&
      !((List.finRange maximumPackages).any fun other =>
        i < other && (db.records other).used ≠ 0 && cstr record.name.bytes = cstr (db.records other).name.bytes))

def databaseValid (db : Database) : Bool :=
  db.magic.bytes = databaseMagic && db.version = 1 && db.count.toNat = recordCount db &&
    db.checksum = databaseChecksum db && (List.finRange maximumPackages).all (recordValid db)

/-- `initialize_empty_database`. -/
def initializeEmptyDatabase : Database :=
  let output : Database := ⟨Block.of databaseMagic, 1, 0, 0, 0, fun _ => .empty⟩
  { output with checksum := databaseChecksum output }

def findRecord (db : Database) (name : Bytes) : Option (Fin maximumPackages) :=
  if name = [] then none
  else (List.finRange maximumPackages).find? fun i => (db.records i).used ≠ 0 && cstr (db.records i).name.bytes = name

def freeRecord (db : Database) : Option (Fin maximumPackages) :=
  (List.finRange maximumPackages).find? fun i => (db.records i).used = 0

/-- `copy_text_exact` into a zeroed field: what is copied, if there is room for the terminator. -/
def copyTextExact (capacity : Nat) (input : Bytes) : Option Bytes :=
  if capacity = 0 ∨ capacity < input.length + 1 then none else some input

end ZenovOS.Package
