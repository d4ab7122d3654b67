import ZenovOS.Package.Database
import ZenovOS.Package.Repository
import ZenovOS.Security.Guard

/-! # Installing packages

`install` of `package_manager/transactions.inc` with what it calls: `verify_file` of `package_format.inc`,
`authorization.inc`, `policy.inc`, `persist_database` of `state.inc`, and the package services' requests of
`security_paths.inc`. A package is parsed in place: its payload is a part of the package buffer, and is read
there each time. -/

namespace ZenovOS.Package
open Bytes Security Storage

/-- The file system under the guard, the repository's targets and the globals of the package manager. -/
structure ManagerState where
  guard : GuardState
  repositoryReady : Bool
  activeTargets : List Repository.Target
  database : Database
  packageBuffer : Option Bytes
  initialized : Bool

def onGuard {α : Type} (m : Mach GuardState α) : Mach ManagerState α :=
  Mach.zoom ManagerState.guard (fun s guard => { s with guard }) m

/-! ### Requests -/

def packageWriteFile (path data : Bytes) : Mach GuardState Bool := do
  let s ← Mach.get
  if !(normalizePath s.volume.currentDirectory path).any packageManagedName then pure false
  else if !(← allowPersistentWrite path data false) then pure false
  else do
    let written ← onVolume (writeFileResult path data false)
    pure written.ok

def packageRemove (path : Bytes) : Mach GuardState Bool := do
  let s ← Mach.get
  if !(normalizePath s.volume.currentDirectory path).any packagePayloadName then pure false
  else do
    let removed ← onVolume (removeResult path)
    pure removed.ok

def syncMetadata : Mach GuardState Bool := do
  let synced ← onVolume syncMetadataResult
  pure synced.ok

/-! ### Reading a package -/

/-- A `VerifiedPackage`: `payload` is where its bytes start in the buffer. -/
structure PackageView where
  manifest : Manifest
  payload : Nat
  payloadSize : Nat
  packageDigest : Bytes
  deriving DecidableEq

/-- `verify_bytes` of the buffer's first bytes. -/
def viewBytes (bytes : Bytes) : Except Error PackageView := do
  let package ← verifyBytes bytes
  pure ⟨package.manifest, headerSize + toNat (slice bytes 16 8), package.payload.length, package.packageDigest⟩

/-- What `verify_file` makes of a file of `size` bytes once it has been read. -/
def viewRead (size : Nat) (read : FsResult × Bytes) : Except Error (PackageView × Nat) :=
  if !read.1.ok ∨ read.2.length ≠ size then .error .io
  else
    match viewBytes read.2 with
    | .error error => .error error
    | .ok package => .ok (package, read.2.length)

def verifyFile (path : Bytes) : Mach ManagerState (Except Error (PackageView × Nat)) := do
  let s ← Mach.get
  let volume := s.guard.volume
  let capacity := if volume.zfsMounted then volume.zfsSuper.maxFileBytes else 0
  match s.packageBuffer with
  | none => pure (.error .io)
  | some buffer =>
    if capacity < headerSize then pure (.error .io)
    else do
      let queried ← onGuard (onVolume (queryResult path))
      match queried.2 with
      | none => pure (.error .io)
      | some info =>
        if info.type ≠ zfsTypeFile then pure (.error .io)
        else if capacity < info.size.toNat then pure (.error .tooLarge)
        else do
          let read ← onGuard (onVolume (readFileResult path capacity))
          Mach.modify fun s => { s with packageBuffer := some (overwrite buffer 0 read.2) }
          pure (viewRead info.size.toNat read)

/-- The payload of a package as the buffer holds it now. -/
def payloadBytes (s : ManagerState) (package : PackageView) : Bytes :=
  slice (s.packageBuffer.getD []) package.payload package.payloadSize

/-! ### Policy -/

def findAuthorized (s : ManagerState) (name version entrypoint : Bytes) (payloadType : UInt8) : Option Repository.Target :=
  if s.repositoryReady then Repository.findTarget s.activeTargets name version entrypoint payloadType else none

def authorizedPackage (s : ManagerState) (package : PackageView) (packageSize : Nat) : Bool :=
  let m := package.manifest
  match findAuthorized s m.name m.version m.entrypoint m.payloadType with
  | none => false
  | some trusted =>
    trusted.packageLength = packageSize && package.packageDigest = trusted.packageDigest &&
      sha256 (payloadBytes s package) = trusted.payloadDigest

def parseDependency (requirement : Bytes) : Option (Bytes × Bytes) :=
  let name := requirement.takeWhile (· ≠ 64)
  let version := requirement.drop (name.length + 1)
  if name.length = requirement.length ∨ name = [] ∨ version = [] ∨ 32 ≤ name.length ∨ 16 ≤ version.length then none
  else some (name, version)

/-- The record of the dependency, in that version. -/
def dependencySatisfied (db : Database) (requirement : Bytes) : Bool :=
  match parseDependency requirement with
  | none => false
  | some (name, version) => (findRecord db name).any fun i => cstr (db.records i).active.version.bytes = version

def requirementsSatisfied (db : Database) (manifest : Manifest) : Bool :=
  manifest.dependencies.all (dependencySatisfied db) && manifest.conflicts.all fun name => (findRecord db name).isNone

/-- The query that `payload_committed` ends with. -/
def payloadPresent (payload : Bytes) (info : FileInfo) : Bool :=
  info.type = zfsTypeFile && info.size.toNat = payload.length && info.checksum = fnv1a payload

def payloadCommitted (entrypoint payload : Bytes) : Mach GuardState Bool := do
  let queried ← onVolume (queryResult entrypoint)
  match queried.2 with
  | some info => pure (payloadPresent payload info)
  | none =>
    if !(← packageWriteFile entrypoint payload) then pure false
    else do
      let again ← onVolume (queryResult entrypoint)
      pure (again.2.any (payloadPresent payload))

/-! ### Transactions -/

def setReference (package : PackageView) (payload : Bytes) : PackageReference where
  valid := 1
  payloadType := package.manifest.payloadType
  reserved := 0
  version := Block.of ((copyTextExact 16 package.manifest.version).getD [])
  entrypoint := Block.of ((copyTextExact 48 package.manifest.entrypoint).getD [])
  packageDigest := Block.of package.packageDigest
  payloadDigest := Block.of (sha256 payload)

/-- The record that a package goes to: `.error` ends the installation. An installed version is not replaced
    by itself or by an earlier one. -/
def chooseRecord (db : Database) (package : PackageView) : Except Bool (Fin maximumPackages) :=
  match findRecord db package.manifest.name with
  | some index =>
    let active := (db.records index).active
    let order := versionCompare package.manifest.version (cstr active.version.bytes)
    if order = 0 then .error (active.packageDigest.bytes = package.packageDigest)
    else if order < 0 then .error false
    else .ok index
  | none =>
    match freeRecord db with
    | none => .error false
    | some index => .ok index

/-- The record with the package as the active one. -/
def nextRecord (old : PackageRecord) (package : PackageView) (payload : Bytes) : Option PackageRecord :=
  if old.used ≠ 0 then some { old with previous := old.active, active := setReference package payload }
  else
    (copyTextExact 32 package.manifest.name).map fun name =>
      { PackageRecord.empty with used := 1, name := Block.of name, active := setReference package payload }

/-- What the new record no longer refers to. -/
def obsoleteReference (old : PackageRecord) : PackageReference := if old.used ≠ 0 then old.previous else .empty

/-- The database that `persist_database` writes. -/
def sealDatabase (current next : Database) : Database :=
  let next := { next with count := UInt32.ofNat (recordCount next), generation := current.generation + 1 }
  { next with checksum := databaseChecksum next }

def statePath : Bytes := ascii "/var/lib/zenpkg/state.v1"

/-- What `persist_database` takes over after a failed synchronisation: a whole database that is in order. -/
def recoveredDatabase (read : FsResult × Bytes) : Option Database :=
  if read.1.ok && read.2.length = databaseSize && databaseValid (Database.decode read.2) then some (Database.decode read.2)
  else none

def setDatabase (database : Database) : Mach ManagerState Unit := Mach.modify fun s => { s with database }

/-- The synchronisation of `persist_database` and what follows it. -/
def settleDatabase (next : Database) : Mach ManagerState Bool := do
  if ← onGuard syncMetadata then do
    setDatabase next
    pure true
  else do
    let read ← onGuard (onVolume (readFileResult statePath databaseSize))
    match recoveredDatabase read with
    | none => pure false
    | some recovered => do
      setDatabase recovered
      pure (recovered.generation = next.generation && recovered.checksum = next.checksum)

def persistDatabase (next : Database) : Mach ManagerState Bool := do
  let s ← Mach.get
  let next := sealDatabase s.database next
  if !databaseValid next then pure false
  else if !(← onGuard (packageWriteFile statePath next.encode)) then pure false
  else settleDatabase next

/-- The end of `install`: the payload that nothing refers to any more is removed. -/
def dropObsolete (obsolete : PackageReference) (record : PackageRecord) : Mach ManagerState Unit := do
  let entrypoint := cstr obsolete.entrypoint.bytes
  if obsolete.valid ≠ 0 ∧ entrypoint ≠ cstr record.active.entrypoint.bytes ∧
      entrypoint ≠ cstr record.previous.entrypoint.bytes then do
    let _ ← onGuard (packageRemove entrypoint)
    let _ ← onGuard syncMetadata
    pure ()
  else pure ()

/-- `install` once the payload is in its file. -/
def commitRecord (package : PackageView) (index : Fin maximumPackages) : Mach ManagerState Bool := do
  let s ← Mach.get
  let old := s.database.records index
  match nextRecord old package (payloadBytes s package) with
  | none => pure false
  | some record =>
    if !(← persistDatabase { s.database with records := Function.update s.database.records index record }) then pure false
    else do
      dropObsolete (obsoleteReference old) record
      pure true

/-- `install` once the record is chosen. -/
def installAt (package : PackageView) (index : Fin maximumPackages) : Mach ManagerState Bool := do
  let s ← Mach.get
  let payload := payloadBytes s package
  if (scanMemory s.guard package.manifest.entrypoint payload).verdict ≠ .clean then pure false
  else if !(← onGuard (payloadCommitted package.manifest.entrypoint payload)) then pure false
  else commitRecord package index

/-- `install` once the package is verified. -/
def installVerified (package : PackageView) (packageSize : Nat) : Mach ManagerState Bool := do
  let s ← Mach.get
  if !authorizedPackage s package packageSize then pure false
  else if !requirementsSatisfied s.database package.manifest then pure false
  else
    match chooseRecord s.database package with
    | .error result => pure result
    | .ok index => installAt package index

def install (path : Bytes) : Mach ManagerState Bool := do
  let s ← Mach.get
  if !s.initialized then pure false
  else
    match ← verifyFile path with
    | .error _ => pure false
    | .ok (package, packageSize) => installVerified package packageSize

end ZenovOS.Package
