import ZenovOS.Storage.Io

/-! # Queries and the integrity check

`query_result`, `sync_metadata_result`, `valid_stored_path` and `check_integrity_result` of
`storage_tools.inc`. -/

namespace ZenovOS.Storage
open Bytes

structure FileInfo where
  type : UInt8
  size : UInt32
  checksum : UInt32
  deriving DecidableEq

def queryResult (input : Bytes) : Mach Volume (FsResult × Option FileInfo) := do
  let v ← Mach.get
  if !v.zfsMounted then pure (fsFailure .query .notMounted, none)
  else if cstr input = [] then pure (fsFailure .query .invalidArgument, none)
  else
    match normalizePath v.currentDirectory input with
    | none => pure (fsFailure .query .invalidPath, none)
    | some path =>
      if path = root then pure (fsSuccess .query, some ⟨zfsTypeDirectory, 0, 0⟩)
      else
        match v.findEntry path with
        | none => pure (fsFailure .query .notFound, none)
        | some index => do
          let entry := v.zfsEntries index
          Mach.modify (·.record entry)
          if entry.type ≠ zfsTypeFile ∧ entry.type ≠ zfsTypeDirectory then
            pure (fsFailure .query .metadataCorrupt, none)
          else pure (fsSuccess .query, some ⟨entry.type, entry.size, entry.checksum⟩)

/-- The table sector `sector` of the memory table. -/
def tableSector (v : Volume) (sector : Nat) : Sector :=
  Block.of ((List.range 8).flatMap fun k => (v.zfsEntries (8 * sector + k)).encode)

def syncSectors : Nat → Nat → Mach Volume (Option BlockResult)
  | 0, _ => pure none
  | left + 1, sector => do
    let v ← Mach.get
    let write ← zfsWriteSector (1 + sector) (tableSector v sector)
    if write.ok then syncSectors left (sector + 1) else pure (some write)

def syncMetadataResult : Mach Volume FsResult := do
  let v ← Mach.get
  if !v.zfsMounted then pure (fsFailure .sync .notMounted)
  else do
    let recovered ← recoverTransactionsResult
    if !recovered.ok then pure recovered
    else if v.zfsSuper.generation = 0xFFFFFFFF then pure (fsFailure .sync .metadataCorrupt)
    else
      match ← syncSectors v.zfsSuper.entrySectors.toNat 0 with
      | some write => zfsBlockFailure .sync write
      | none => do
        let committed := { v.zfsSuper with generation := v.zfsSuper.generation + 1 }
        let superWrite ← zfsWriteSector 0 (Block.of committed.encode)
        if !superWrite.ok then zfsBlockFailure .sync superWrite
        else do
          Mach.modify fun v => { v with zfsSuper := committed }
          pure (fsSuccess .sync committed.generation.toNat)

/-- The characters `valid_stored_path` accepts; `char` is signed. -/
def printable (value : UInt8) : Bool := 32 ≤ value && value ≤ 126

/-- No two separators in a row. -/
def noDoubleSlash : Bytes → Bool
  | a :: b :: rest => !(a = slash && b = slash) && noDoubleSlash (b :: rest)
  | _ => true

/-- `valid_stored_path` of the string in a 48-byte path field. -/
def validStoredPath (path : Bytes) : Bool :=
  path.head? = some slash && 2 ≤ path.length && path.length < 48 && path.getLast? ≠ some slash &&
    path.all printable && noDoubleSlash path

/-- A later visible entry has the path of entry `i`. -/
def duplicated (v : Volume) (i : Nat) : Bool :=
  (List.range v.zfsSuper.entries).any fun other =>
    i < other && (v.zfsEntries other).visible && (v.zfsEntries i).name = (v.zfsEntries other).name

/-- The check of one entry in use, up to the reading of a file's data. -/
def entryValid (v : Volume) (i : Nat) : Bool :=
  let entry := v.zfsEntries i
  (entry.type = zfsTypeFile || entry.type = zfsTypeDirectory) && entry.flags = 0 && validStoredPath entry.name &&
    !duplicated v i && v.parentExists entry.name &&
    (if entry.type = zfsTypeDirectory then entry.size = 0 && entry.checksum = 0
      else entry.size.toNat ≤ v.zfsSuper.maxFileBytes)

def checkEntries : Nat → Nat → Nat → Mach Volume FsResult
  | 0, _, checked => pure (fsSuccess .query checked)
  | left + 1, i, checked => do
    let v ← Mach.get
    let entry := v.zfsEntries i
    if entry.used = 0 then checkEntries left (i + 1) checked
    else if !entryValid v i then pure (fsFailure .query .metadataCorrupt)
    else if entry.type = zfsTypeDirectory then checkEntries left (i + 1) (checked + 1)
    else do
      let read ← readFileResult entry.name v.zfsSuper.maxFileBytes
      if !read.1.ok ∨ read.2.length ≠ entry.size.toNat then
        pure (fsResult .query read.1.status read.1.bytes read.1.block)
      else checkEntries left (i + 1) (checked + 1)

def checkIntegrityResult : Mach Volume FsResult := do
  let v ← Mach.get
  if !v.zfsMounted ∨ !v.fileBuffer then pure (fsFailure .query .notMounted)
  else do
    let recovered ← recoverTransactionsResult
    if !recovered.ok then pure recovered else checkEntries v.zfsSuper.entries 0 0

end ZenovOS.Storage
