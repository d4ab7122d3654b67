import ZenovOS.Lib.Bytes

/-! # On-disk layout of ZenovFS1

`ZfsSuperblock` and `ZfsEntry` of `storage_zenovfs_core.inc` with their packed little-endian encoding,
and the geometry of a volume: the superblock in sector 0, eight entries in each table sector, one
fixed-size data slot for each entry. -/

namespace ZenovOS.Storage
open Bytes

def sectorSize : Nat := 512
def zfsMaxEntries : Nat := 128
abbrev transactionNone : UInt32 := 0xFFFFFFFF
abbrev zfsTypeFile : UInt8 := 1
abbrev zfsTypeDirectory : UInt8 := 2
abbrev zfsTypeTransaction : UInt8 := 3
abbrev zfsFlagCommitted : UInt16 := 1

/-- A buffer of exactly `n` bytes. -/
structure Block (n : Nat) where
  bytes : Bytes
  length_eq : bytes.length = n
  deriving DecidableEq

attribute [simp] Block.length_eq

namespace Block
variable {n : Nat}

/-- The first `n` bytes, padded with zeros. -/
def of (b : Bytes) : Block n := ⟨(b ++ List.replicate n 0).take n, by simp⟩

theorem ext_bytes {a b : Block n} (h : a.bytes = b.bytes) : a = b := by
  cases a
  cases b
  cases h
  rfl

theorem bytes_of {b : Bytes} (h : b.length ≤ n) : (of b : Block n).bytes = b ++ List.replicate (n - b.length) 0 := by
  show (b ++ List.replicate n 0).take n = _
  rw [List.take_append, List.take_of_length_le h, List.take_replicate, Nat.min_eq_left (Nat.sub_le _ _)]

theorem of_bytes (a : Block n) : of a.bytes = a := by
  apply ext_bytes
  rw [bytes_of (Nat.le_of_eq a.length_eq), a.length_eq]
  simp

/-- Copy `src` into the buffer at offset `off`. -/
def patch (a : Block n) (off : Nat) (src : Bytes) : Block n := of (overwrite a.bytes off src)

theorem bytes_patch {a : Block n} {off : Nat} {src : Bytes} (h : off + src.length ≤ n) :
    (a.patch off src).bytes = overwrite a.bytes off src := by
  have hlen : (overwrite a.bytes off src).length = n := by rw [length_overwrite (by rw [a.length_eq]; exact h), a.length_eq]
  unfold patch
  rw [bytes_of (Nat.le_of_eq hlen), hlen]
  simp

end Block

abbrev Sector := Block sectorSize

/-! ### Entries -/

structure ZfsEntry where
  used : UInt8
  type : UInt8
  flags : UInt16
  path : Block 48
  size : UInt32
  checksum : UInt32
  reserved : UInt32
  deriving DecidableEq

namespace ZfsEntry

/-- `ZfsEntry{}`. -/
def empty : ZfsEntry := ⟨0, 0, 0, Block.of [], 0, 0, 0⟩

/-- The stored path as a C string. -/
def name (e : ZfsEntry) : Bytes := cstr e.path.bytes

/-- `path[k]`; behind the 48 path bytes lies the size. -/
def charAt (e : ZfsEntry) (k : Nat) : UInt8 := (e.path.bytes ++ le 4 e.size.toNat).getD k 0

def encode (e : ZfsEntry) : Bytes :=
  [e.used, e.type] ++ le 2 e.flags.toNat ++ e.path.bytes ++ le 4 e.size.toNat ++ le 4 e.checksum.toNat ++
    le 4 e.reserved.toNat

def decode (b : Bytes) : ZfsEntry where
  used := b.getD 0 0
  type := b.getD 1 0
  flags := UInt16.ofNat (toNat (slice b 2 2))
  path := Block.of (slice b 4 48)
  size := UInt32.ofNat (toNat (slice b 52 4))
  checksum := UInt32.ofNat (toNat (slice b 56 4))
  reserved := UInt32.ofNat (toNat (slice b 60 4))

@[simp] theorem length_encode (e : ZfsEntry) : e.encode.length = 64 := by
  simp [encode, e.path.length_eq]

theorem decode_encode (e : ZfsEntry) : decode e.encode = e := by
  have hlen := e.path.length_eq
  have hflags : slice e.encode 2 2 = le 2 e.flags.toNat :=
    slice_field [e.used, e.type] _ rfl (by simp) (by simp only [encode, List.append_assoc]; rfl)
  have hpath : slice e.encode 4 48 = e.path.bytes :=
    slice_field ([e.used, e.type] ++ le 2 e.flags.toNat) _ (by simp) hlen
      (by simp only [encode, List.append_assoc]; rfl)
  have hsize : slice e.encode 52 4 = le 4 e.size.toNat :=
    slice_field ([e.used, e.type] ++ le 2 e.flags.toNat ++ e.path.bytes) _ (by simp [hlen]) (by simp)
      (by simp only [encode, List.append_assoc]; rfl)
  have hchecksum : slice e.encode 56 4 = le 4 e.checksum.toNat :=
    slice_field ([e.used, e.type] ++ le 2 e.flags.toNat ++ e.path.bytes ++ le 4 e.size.toNat) _ (by simp [hlen])
      (by simp) (by simp only [encode, List.append_assoc]; rfl)
  have hreserved : slice e.encode 60 4 = le 4 e.reserved.toNat :=
    slice_field ([e.used, e.type] ++ le 2 e.flags.toNat ++ e.path.bytes ++ le 4 e.size.toNat ++
      le 4 e.checksum.toNat) _ (by simp [hlen]) (by simp) (by rw [List.append_nil, encode])
  unfold decode
  rw [hflags, hpath, hsize, hchecksum, hreserved, toNat_le_of_lt (by simpa using e.flags.toNat_lt),
    toNat_le_of_lt (by simpa using e.size.toNat_lt), toNat_le_of_lt (by simpa using e.checksum.toNat_lt),
    toNat_le_of_lt (by simpa using e.reserved.toNat_lt), Block.of_bytes]
  simp [encode]

end ZfsEntry

/-! ### The superblock -/

structure ZfsSuperblock where
  magic : Block 8
  version : UInt32
  totalSectors : UInt32
  entryCount : UInt32
  entrySectors : UInt32
  dataStart : UInt32
  slotSectors : UInt32
  generation : UInt32
  label : Block 16
  reserved : Block 460
  deriving DecidableEq

namespace ZfsSuperblock

def encode (s : ZfsSuperblock) : Bytes :=
  s.magic.bytes ++ le 4 s.version.toNat ++ le 4 s.totalSectors.toNat ++ le 4 s.entryCount.toNat ++
    le 4 s.entrySectors.toNat ++ le 4 s.dataStart.toNat ++ le 4 s.slotSectors.toNat ++ le 4 s.generation.toNat ++
    s.label.bytes ++ s.reserved.bytes

/-- The number of entries. -/
def entries (s : ZfsSuperblock) : Nat := s.entryCount.toNat

def dataSector (s : ZfsSuperblock) (index : Nat) : Nat :=
  (s.dataStart.toNat + index * s.slotSectors.toNat) % 2 ^ 32

def maxFileBytes (s : ZfsSuperblock) : Nat := s.slotSectors.toNat * sectorSize % 2 ^ 32

end ZfsSuperblock

def entrySector (index : Nat) : Nat := 1 + index / 8

def entrySlotOffset (index : Nat) : Nat := index % 8 * 64

/-- `mount_layout_valid`; the device has `sectors` sectors. -/
def mountLayoutValid (s : ZfsSuperblock) (sectors : Nat) : Bool :=
  s.totalSectors ≠ 0 && s.entryCount ≠ 0 && s.entries ≤ zfsMaxEntries && s.slotSectors ≠ 0 &&
    s.entrySectors.toNat = (s.entries + 7) / 8 && 1 + s.entrySectors.toNat ≤ s.dataStart.toNat &&
    s.totalSectors.toNat ≤ sectors &&
    s.dataStart.toNat + s.entries * s.slotSectors.toNat ≤ s.totalSectors.toNat

def fnv1a (data : Bytes) : UInt32 := data.foldl (fun hash b => (hash ^^^ b.toUInt32) * 16777619) 2166136261

end ZenovOS.Storage
