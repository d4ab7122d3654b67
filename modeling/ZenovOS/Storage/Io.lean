import ZenovOS.Storage.Volume

/-! # ZenovFS operations

The functions of `storage_zenovfs_io.inc`. Their counted loops recurse on the number of rounds left. -/

namespace ZenovOS.Storage
open Bytes

/-! ### Entries on disk -/

def zfsBlockFailure (operation : FsOperation) (block : BlockResult) (bytes : Nat := 0) : Mach Volume FsResult := do
  Mach.modify fun v => { v with zfsMounted := false }
  pure (fsFromBlock operation block bytes)

def flushEntryResult (index : Nat) (operation : FsOperation) : Mach Volume FsResult := do
  let v ← Mach.get
  if v.zfsSuper.entries ≤ index then pure (fsFailure operation .invalidArgument)
  else
    match ← zfsReadSector (entrySector index) with
    | .error read => zfsBlockFailure operation read
    | .ok sectorBuffer => do
      let write ← zfsWriteSector (entrySector index)
        (sectorBuffer.patch (entrySlotOffset index) (v.zfsEntries index).encode)
      if write.ok then pure (fsSuccess operation) else zfsBlockFailure operation write

def replaceEntryResult (index : Nat) (replacement : ZfsEntry) (operation : FsOperation) : Mach Volume FsResult := do
  let v ← Mach.get
  if v.zfsSuper.entries ≤ index then pure (fsFailure operation .invalidArgument)
  else do
    let previous := v.zfsEntries index
    Mach.modify fun v => ((v.record previous).record replacement).setEntry index replacement
    let result ← flushEntryResult index operation
    if result.ok then pure result
    else do
      Mach.modify (·.setEntry index previous)
      pure result

/-! ### Mounting -/

/-- The eight entries of a table sector. -/
def loadSector (v : Volume) (sector : Nat) (s : Sector) : Volume :=
  { v with zfsEntries := fun i =>
      if i / 8 = sector then ZfsEntry.decode (slice s.bytes (entrySlotOffset i) 64) else v.zfsEntries i }

def loadSectors : Nat → Nat → Mach Volume FsResult
  | 0, _ => pure (fsSuccess .mount)
  | left + 1, sector => do
    match ← zfsReadSector (1 + sector) with
    | .error read => zfsBlockFailure .mount read
    | .ok s => do
      Mach.modify (loadSector · sector s)
      loadSectors left (sector + 1)

def loadEntriesResult : Mach Volume FsResult := do
  Mach.modify fun v => { v with zfsEntries := fun _ => .empty }
  let v ← Mach.get
  loadSectors v.zfsSuper.entrySectors.toNat 0

/-- The first loop of `recover_transactions_result`; `recovered` counts. -/
def clearTransactions : Nat → Nat → Nat → Mach Volume (Except FsResult Nat)
  | 0, _, recovered => pure (.ok recovered)
  | left + 1, i, recovered => do
    let v ← Mach.get
    if (v.zfsEntries i).used = 0 ∨ (v.zfsEntries i).type ≠ zfsTypeTransaction then
      clearTransactions left (i + 1) recovered
    else do
      let cleared ← replaceEntryResult i .empty .recover
      if cleared.ok then clearTransactions left (i + 1) (recovered + 1) else pure (.error cleared)

/-- An entry whose replacement of an older one has been committed and not finalised. -/
def ZfsEntry.isCommitted (e : ZfsEntry) : Bool :=
  e.used ≠ 0 && e.type = zfsTypeFile && e.flags &&& zfsFlagCommitted ≠ 0

/-- Clear the entry that the committed entry `i` replaces, if it is still there. -/
def clearOld (i old : Nat) : Mach Volume FsResult := do
  let v ← Mach.get
  if old < v.zfsSuper.entries ∧ old ≠ i ∧ (v.zfsEntries old).used ≠ 0 then replaceEntryResult old .empty .recover
  else pure (fsSuccess .recover)

/-- The second loop of `recover_transactions_result`. -/
def finalizeCommitted : Nat → Nat → Nat → Mach Volume (Except FsResult Nat)
  | 0, _, recovered => pure (.ok recovered)
  | left + 1, i, recovered => do
    let v ← Mach.get
    let committed := v.zfsEntries i
    if !committed.isCommitted then finalizeCommitted left (i + 1) recovered
    else do
      let clearedOld ← clearOld i committed.reserved.toNat
      if !clearedOld.ok then pure (.error clearedOld)
      else do
        let finalized ← replaceEntryResult i
          { committed with flags := committed.flags &&& ~~~zfsFlagCommitted, reserved := 0 } .recover
        if finalized.ok then finalizeCommitted left (i + 1) (recovered + 1) else pure (.error finalized)

def recoverTransactionsResult : Mach Volume FsResult := do
  let v ← Mach.get
  match ← clearTransactions v.zfsSuper.entries 0 0 with
  | .error cleared => pure cleared
  | .ok recovered =>
    match ← finalizeCommitted v.zfsSuper.entries 0 recovered with
    | .error failed => pure failed
    | .ok recovered => pure (fsSuccess .recover recovered)

/-! ### Reading -/

/-- The sectors that hold `size` bytes. -/
def sectorsFor (size : Nat) : Nat := (size + (sectorSize - 1)) / sectorSize

/-- The read loop: the next sector, and what has been copied. A failed read tells how much that was. -/
def readSectors (size : Nat) : Nat → Nat → Bytes → Mach Volume (Except (BlockResult × Nat) Bytes)
  | 0, _, copied => pure (.ok copied)
  | left + 1, lba, copied => do
    match ← zfsReadSector lba with
    | .error read => pure (.error (read, copied.length))
    | .ok s => readSectors size left (lba + 1) (copied ++ s.bytes.take (size - copied.length))

/-- `read_file_result`: the result, and the first `actual_size` bytes of the output buffer. -/
def readFileResult (input : Bytes) (capacity : Nat) : Mach Volume (FsResult × Bytes) := do
  let v ← Mach.get
  if !v.zfsMounted then pure (fsFailure .read .notMounted, [])
  else
    match normalizePath v.currentDirectory input with
    | none => pure (fsFailure .read .invalidPath, [])
    | some path =>
      match v.findEntry path with
      | none => pure (fsFailure .read .notFound, [])
      | some found => do
        let entry := v.zfsEntries found
        Mach.modify (·.record entry)
        if entry.type ≠ zfsTypeFile then pure (fsFailure .read .wrongType, [])
        else if v.zfsSuper.maxFileBytes < entry.size.toNat then pure (fsFailure .read .metadataCorrupt, [])
        else if capacity < entry.size.toNat then pure (fsFailure .read .bufferTooSmall, [])
        else
          match ← readSectors entry.size.toNat (sectorsFor entry.size.toNat) (v.zfsSuper.dataSector found) [] with
          | .error (read, copied) => do
            let result ← zfsBlockFailure .read read copied
            pure (result, [])
          | .ok output =>
            if fnv1a output ≠ entry.checksum then pure (fsFailure .read .checksumMismatch, [])
            else pure (fsSuccess .read entry.size.toNat, output)

/-! ### Writing -/

/-- Write the file's bytes into the staging slot, a sector at a time, from sector `lba` on. -/
def stageSectors : Nat → Nat → Nat → Bytes → Mach Volume (Except (BlockResult × Nat) Unit)
  | 0, _, _, _ => pure (.ok ())
  | left + 1, lba, written, data => do
    let write ← zfsWriteSector lba (Block.of (data.take sectorSize))
    if write.ok then stageSectors left (lba + 1) (written + min data.length sectorSize) (data.drop sectorSize)
    else pure (.error (write, written))

/-- The content that an append keeps; `existing` is its size. -/
def readExisting (path : Bytes) (append : Bool) (existing : Nat) : Mach Volume (FsResult × Bytes) := do
  let v ← Mach.get
  if append && existing ≠ 0 then readFileResult path v.zfsSuper.maxFileBytes
  else pure (fsSuccess .read, [])

/-- The entry of a staged write. -/
def stageEntry (path content : Bytes) (oldIndex : Option Nat) : ZfsEntry where
  used := 1
  type := zfsTypeTransaction
  flags := 0
  path := Block.of path
  size := UInt32.ofNat content.length
  checksum := fnv1a content
  reserved := oldIndex.elim transactionNone UInt32.ofNat

/-- The staged entry once its data is committed. -/
def ZfsEntry.commit (stage : ZfsEntry) : ZfsEntry := { stage with type := zfsTypeFile, flags := zfsFlagCommitted }

/-- The committed entry once the entry it replaces is gone. -/
def ZfsEntry.finalize (stage : ZfsEntry) : ZfsEntry := { stage with type := zfsTypeFile, flags := 0, reserved := 0 }

def clearReplaced : Option Nat → Mach Volume FsResult
  | none => pure (fsSuccess .write)
  | some oldIndex => replaceEntryResult oldIndex .empty .write

/-- The metadata writes of `write_file_result`: stage, commit, clear the old entry, finalise. -/
def commitStage (stagingIndex : Nat) (stage : ZfsEntry) (oldIndex : Option Nat) (total : Nat) :
    Mach Volume FsResult := do
  let metadata ← replaceEntryResult stagingIndex stage .write
  if !metadata.ok then pure metadata
  else do
    let metadata ← replaceEntryResult stagingIndex stage.commit .write
    if !metadata.ok then pure metadata
    else do
      let clearedOld ← clearReplaced oldIndex
      if !clearedOld.ok then pure (fsRecoveryPending .write total clearedOld.block)
      else do
        let finalized ← replaceEntryResult stagingIndex stage.finalize .write
        if !finalized.ok then pure (fsRecoveryPending .write total finalized.block)
        else pure (fsSuccess .write total)

/-- `write_file_result` once the new content of the file is in the file buffer. -/
def writeContent (path : Bytes) (oldIndex : Option Nat) (content : Bytes) : Mach Volume FsResult := do
  let v ← Mach.get
  match v.freeEntry oldIndex with
  | none => pure (fsFailure .write .noSpace)
  | some stagingIndex =>
    match ← stageSectors (sectorsFor content.length) (v.zfsSuper.dataSector stagingIndex) 0 content with
    | .error (write, written) => zfsBlockFailure .write write written
    | .ok () =>
      match pathCopy path pathBytes with
      | none => pure (fsFailure .write .invalidPath)
      | some path => commitStage stagingIndex (stageEntry path content oldIndex) oldIndex content.length

/-- The size of the content that a write keeps. -/
def existingSize (v : Volume) (oldIndex : Option Nat) (append : Bool) : Nat :=
  if append then oldIndex.elim 0 fun i => (v.zfsEntries i).size.toNat else 0

def writeFileResult (input data : Bytes) (append : Bool) : Mach Volume FsResult := do
  let v ← Mach.get
  if !v.zfsMounted then pure (fsFailure .write .notMounted)
  else
    match normalizePath v.currentDirectory input with
    | none => pure (fsFailure .write .invalidPath)
    | some path =>
      if path = root then pure (fsFailure .write .invalidPath)
      else if !v.parentExists path then pure (fsFailure .write .parentMissing)
      else
        let oldIndex := v.findEntry path
        let existing := existingSize v oldIndex append
        if oldIndex.any fun i => (v.zfsEntries i).type ≠ zfsTypeFile then pure (fsFailure .write .wrongType)
        else if v.zfsSuper.maxFileBytes < existing ∨ v.zfsSuper.maxFileBytes - existing < data.length then
          pure (fsFailure .write .noSpace)
        else do
          let read ← readExisting path append existing
          if !read.1.ok ∨ read.2.length ≠ existing then pure (fsResult .write read.1.status 0 read.1.block)
          else writeContent path oldIndex (read.2 ++ data)

/-! ### The other operations -/

def makeDirectoryResult (input : Bytes) : Mach Volume FsResult := do
  let v ← Mach.get
  if !v.zfsMounted then pure (fsFailure .create .notMounted)
  else
    match normalizePath v.currentDirectory input with
    | none => pure (fsFailure .create .invalidPath)
    | some path =>
      if path = root then pure (fsFailure .create .invalidPath)
      else if (v.findEntry path).isSome then pure (fsFailure .create .alreadyExists)
      else if !v.parentExists path then pure (fsFailure .create .parentMissing)
      else
        match v.freeEntry none, pathCopy path pathBytes with
        | none, _ => pure (fsFailure .create .noSpace)
        | some _, none => pure (fsFailure .create .invalidPath)
        | some index, some path =>
          replaceEntryResult index
            { ZfsEntry.empty with used := 1, type := zfsTypeDirectory, path := Block.of path } .create

def touchResult (input : Bytes) : Mach Volume FsResult := do
  let v ← Mach.get
  match normalizePath v.currentDirectory input with
  | none => pure (fsFailure .create .invalidPath)
  | some path =>
    match v.findEntry path with
    | some found =>
      if (v.zfsEntries found).type = zfsTypeFile then pure (fsSuccess .create)
      else pure (fsFailure .create .wrongType)
    | none => do
      let written ← writeFileResult path [] false
      pure (fsResult .create written.status written.bytes written.block)

def removeResult (input : Bytes) : Mach Volume FsResult := do
  let v ← Mach.get
  if !v.zfsMounted then pure (fsFailure .remove .notMounted)
  else
    match normalizePath v.currentDirectory input with
    | none => pure (fsFailure .remove .invalidPath)
    | some path =>
      if path = root then pure (fsFailure .remove .invalidPath)
      else
        match v.findEntry path with
        | none => pure (fsFailure .remove .notFound)
        | some index =>
          if (v.zfsEntries index).type = zfsTypeDirectory && v.hasChildren path then
            pure (fsFailure .remove .directoryNotEmpty)
          else replaceEntryResult index .empty .remove

/-- Why a path is no directory to change to. -/
def directoryError (v : Volume) (path : Bytes) : Option FsStatus :=
  if path = root then none
  else
    match v.findEntry path with
    | none => some .notFound
    | some index => if (v.zfsEntries index).type ≠ zfsTypeDirectory then some .wrongType else none

def changeDirectoryResult (input : Bytes) : Mach Volume FsResult := do
  let v ← Mach.get
  if !v.zfsMounted then pure (fsFailure .query .notMounted)
  else
    match normalizePath v.currentDirectory input with
    | none => pure (fsFailure .query .invalidPath)
    | some path =>
      match directoryError v path, pathCopy path pathBytes with
      | some status, _ => pure (fsFailure .query status)
      | none, none => pure (fsFailure .query .invalidPath)
      | none, some currentDirectory => do
        Mach.modify fun v => { v with currentDirectory }
        pure (fsSuccess .query)

def renameEntryResult (sourceInput destinationInput : Bytes) : Mach Volume FsResult := do
  let v ← Mach.get
  if !v.zfsMounted then pure (fsFailure .rename .notMounted)
  else
    match normalizePath v.currentDirectory sourceInput, normalizePath v.currentDirectory destinationInput with
    | some source, some destination =>
      if source = root then pure (fsFailure .rename .invalidPath)
      else if (v.findEntry destination).isSome then pure (fsFailure .rename .alreadyExists)
      else if !v.parentExists destination then pure (fsFailure .rename .parentMissing)
      else
        match v.findEntry source with
        | none => pure (fsFailure .rename .notFound)
        | some index =>
          if (v.zfsEntries index).type = zfsTypeDirectory && v.hasChildren source then
            pure (fsFailure .rename .directoryNotEmpty)
          else
            match pathCopy destination pathBytes with
            | none => pure (fsFailure .rename .invalidPath)
            | some destination =>
              let entry := v.zfsEntries index
              replaceEntryResult index { entry with path := entry.path.patch 0 (destination ++ [0]) } .rename
    | _, _ => pure (fsFailure .rename .invalidPath)

def copyFileResult (source destination : Bytes) : Mach Volume FsResult := do
  let v ← Mach.get
  if !v.fileBuffer then pure (fsFailure .copy .notMounted)
  else do
    let read ← readFileResult source v.zfsSuper.maxFileBytes
    if !read.1.ok then pure (fsResult .copy read.1.status 0 read.1.block)
    else do
      let write ← writeFileResult destination read.2 false
      pure (fsResult .copy write.status write.bytes write.block)

end ZenovOS.Storage
