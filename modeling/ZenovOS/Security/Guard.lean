import ZenovOS.Security.Audit
import ZenovOS.Security.Ransomware
import ZenovOS.Storage.Tools

/-! # The write guard

`security_guard.inc`, `security_paths.inc` and `security_result_paths.inc`: what is checked before a file
is written, removed, renamed or copied on behalf of the shell or of a program. -/

namespace ZenovOS.Security
open Bytes Storage

abbrev scanBufferBytes : Nat := 64 * 1024

/-- A policy was asked about a path. -/
inductive Check
  | policyPath (path : Bytes)
  | malware (path data : Bytes)
  | ransomware (path : Bytes)
  deriving DecidableEq

/-- The path that was asked about. -/
def Check.path : Check → Bytes
  | policyPath path => path
  | malware path _ => path
  | ransomware path => path

/-- The file system and the globals of the guard. `classify` is the verdict of the malware database on a
    path and a content, if it has one, and `actor` the program that runs and its digest. `checks` is a record
    for the specification only: what the policies were asked. -/
structure GuardState where
  volume : Volume
  audit : AuditState
  classify : Bytes → Bytes → Option Verdict
  zmidReady : Bool
  zrwp : Ransomware.State
  actor : Option (Bytes × Bytes)
  timerTicks : Nat
  checks : List Check

def onVolume {α : Type} (m : Mach Volume α) : Mach GuardState α :=
  Mach.zoom GuardState.volume (fun s volume => { s with volume }) m

def note (check : Check) : Mach GuardState Unit := Mach.modify fun s => { s with checks := s.checks ++ [check] }

/-! ### Scanning -/

abbrev stackBytes : Nat := 16 * 1024
abbrev stackBase : Nat := 1024 * 1024 - stackBytes

/-- A 16-bit or 32-bit field. -/
def u16 (b : Bytes) (off : Nat) : Nat := toNat (slice b off 2)
def u32 (b : Bytes) (off : Nat) : Nat := toNat (slice b off 4)

def zexValid (data : Bytes) : Bool :=
  let imageSize := u32 data 12
  32 ≤ data.length && slice data 0 4 = ascii "ZEX1" && u32 data 4 = 1 && u32 data 8 = 32 && imageSize ≠ 0 &&
    imageSize ≤ data.length - 32 && (imageSize + u32 data 20) % 2 ^ 32 ≤ stackBase && u32 data 16 < imageSize &&
    u32 data 24 ≤ stackBytes && (fnv1a (slice data 32 imageSize)).toNat = u32 data 28

/-- What the loop of `elf_valid` makes of one program header at `off`: whether it is in order, and what it
    loads: (a segment, the entry point in an executable one). -/
def elfSegment (data : Bytes) (off : Nat) : Option (Bool × Bool) :=
  let flags := u32 data (off + 24)
  let fileSize := u32 data (off + 16)
  let memorySize := u32 data (off + 20)
  let offset := u32 data (off + 4)
  let address := u32 data (off + 8)
  let entry := u32 data 24
  if u32 data off ≠ 1 then some (false, false)
  else if flags % 4 = 3 ∨ 8 ≤ flags then none
  else if memorySize = 0 then if fileSize ≠ 0 then none else some (false, false)
  else if memorySize < fileSize ∨ data.length < offset ∨ data.length - offset < fileSize ∨ stackBase ≤ address ∨
      stackBase - address < memorySize then none
  else some (true, flags % 2 = 1 && address ≤ entry && entry < address + memorySize)

def elfValid (data : Bytes) : Bool :=
  let programOffset := u32 data 28
  let programCount := u16 data 44
  if data.length < 52 ∨ slice data 0 6 ≠ [0x7F, 69, 76, 70, 1, 1] ∨ u16 data 16 ≠ 2 ∨ u16 data 18 ≠ 3 ∨
      u32 data 20 ≠ 1 ∨ u16 data 40 ≠ 52 ∨ u16 data 42 ≠ 32 ∨ programCount = 0 ∨ data.length < programOffset ∨
      (data.length - programOffset) / 32 < programCount then false
  else
    match (List.range programCount).mapM fun i => elfSegment data (programOffset + i * 32) with
    | none => false
    | some segments => segments.any (·.1) && segments.any (·.2)

/-- The fields of `ScanResult` that decisions and audit records use. -/
structure ScanResult where
  verdict : Verdict
  path : Bytes
  digest : Bytes

/-- The path a scan goes by: the given one is normalised, once more if it was normal already. -/
def scanPath (currentDirectory path : Bytes) : Bytes :=
  if path = [] then ascii "<memory>"
  else
    match normalizePath currentDirectory path with
    | some normalized => normalized
    | none => path.take 47

/-- `scan_memory` without the appraisal of executables. -/
def scanMemory (s : GuardState) (path data : Bytes) : ScanResult :=
  let name := scanPath s.volume.currentDirectory path
  let malformed := ((ascii "ZEX1").isPrefixOf data && !zexValid data) ||
    (([0x7F, 69, 76, 70] : Bytes).isPrefixOf data && !elfValid data)
  { verdict := (s.classify name data).getD (if malformed then .suspicious else .clean)
    path := name
    digest := sha256 data }

/-- A request of the guard for itself, which the record of the entries accessed for a program leaves out. -/
def onJournal {α : Type} (m : Mach Volume α) : Mach GuardState α :=
  Mach.zoom GuardState.volume (fun s volume => { s with volume := { volume with accessed := s.volume.accessed } }) m

/-- `storage::write_file` as the audit journal uses it. -/
def writeVolumeFile (path data : Bytes) : Mach GuardState Bool := do
  let result ← onJournal (writeFileResult path data false)
  pure result.ok

/-- `record`. -/
def recordEvent (action : AuditAction) (result : ScanResult) : Mach GuardState Bool := do
  let s ← Mach.get
  Audit.record GuardState.audit (fun s audit => { s with audit }) writeVolumeFile s.timerTicks action result.verdict
    result.path result.digest

/-- The content that a write is to give the file, as the guard reads it. -/
def scanCandidate (normalized data : Bytes) (append : Bool) : Mach GuardState (Option Bytes) := do
  if !append then pure (some data)
  else
    let s ← Mach.get
    match s.volume.findEntry normalized with
    | none => pure (if scanBufferBytes < data.length then none else some data)
    | some index =>
      if (s.volume.zfsEntries index).type ≠ zfsTypeFile then pure none
      else do
        let read ← onVolume (readFileResult normalized scanBufferBytes)
        if !read.1.ok ∨ scanBufferBytes - read.2.length < data.length then pure none
        else pure (some (read.2 ++ data))

/-- The scan of `allow_persistent_write` and what follows from its verdict. -/
def inspectCandidate (normalized candidate : Bytes) : Mach GuardState Bool := do
  let result := scanMemory (← Mach.get) normalized candidate
  note (.malware result.path candidate)
  if result.verdict = .infected then do
    let _ ← recordEvent .writeBlock result
    pure false
  else if result.verdict = .suspicious then recordEvent .scan result
  else pure true

def allowPersistentWrite (path data : Bytes) (append : Bool) : Mach GuardState Bool := do
  let s ← Mach.get
  match normalizePath s.volume.currentDirectory path with
  | none => pure false
  | some normalized =>
    if !s.audit.enforcementReady || !s.zmidReady || (ascii "/quarantine/").isPrefixOf normalized then pure false
    else
      match ← scanCandidate normalized data append with
      | none => pure false
      | some candidate => inspectCandidate normalized candidate

def allowPersistentTransfer (source destination : Bytes) : Mach GuardState Bool := do
  let read ← onVolume (readFileResult source scanBufferBytes)
  if !read.1.ok then pure false else allowPersistentWrite destination read.2 false

/-! ### The ransomware policy -/

def setWindow (window : Ransomware.MutationWindow) : Mach GuardState Unit :=
  Mach.modify fun s => { s with zrwp := { s.zrwp with mutationWindow := window } }

/-- The end of `authorize`, once the window is the running program's. -/
def chargeActor (normalized actor digest : Bytes) (operation : Ransomware.Operation) (bytes : Nat) :
    Mach GuardState Bool := do
  let s ← Mach.get
  let window := s.zrwp.mutationWindow
  match Ransomware.reason s.zrwp.active window actor digest operation bytes with
  | none => do
    setWindow (Ransomware.charge window operation bytes)
    pure true
  | some _ => do
    let deny := s.zrwp.active.block
    if !(← recordEvent .ransomware ⟨if deny then .untrusted else .suspicious, normalized, digest⟩) then pure false
    else if deny then do
      setWindow { window with locked := true }
      pure false
    else do
      setWindow (Ransomware.charge window operation bytes)
      pure true

def authorize (target : Bytes) (operation : Ransomware.Operation) (bytes : Nat) : Mach GuardState Bool := do
  let s ← Mach.get
  if !s.zrwp.ready then pure false
  else
    match normalizePath s.volume.currentDirectory target with
    | none => pure false
    | some normalized => do
      note (.ransomware normalized)
      if !Ransomware.protectedOperation s.zrwp.active normalized operation then pure true
      else
        match s.actor with
        | none => pure true
        | some (actor, digest) => do
          setWindow (Ransomware.ensureWindow s.zrwp.active s.zrwp.mutationWindow s.timerTicks actor digest)
          chargeActor normalized actor digest operation bytes

def authorizeWrite (path : Bytes) (bytes : Nat) : Mach GuardState Bool := authorize path .write bytes
def authorizeCopy (destination : Bytes) (bytes : Nat) : Mach GuardState Bool := authorize destination .write bytes
def authorizeRemove (path : Bytes) : Mach GuardState Bool := authorize path .remove 0

/-- One path of a rename, which is authorised only if it is protected. -/
def authorizeRenamed (normalized : Bytes) : Mach GuardState Bool := do
  let s ← Mach.get
  if Ransomware.protectedOperation s.zrwp.active normalized .rename then authorize normalized .rename 0 else pure true

def authorizeRename (source destination : Bytes) : Mach GuardState Bool := do
  let s ← Mach.get
  match normalizePath s.volume.currentDirectory source, normalizePath s.volume.currentDirectory destination with
  | some normalizedSource, some normalizedDestination => do
    if !(← authorizeRenamed normalizedSource) then pure false else authorizeRenamed normalizedDestination
  | _, _ => pure false

/-! ### Protected paths -/

def protectedPaths : List Bytes :=
  [ascii "/apps/hello.zex", ascii "/apps/fileio.elf", ascii "/apps/args.elf", ascii "/apps/console.elf",
    ascii "/apps/protect.elf", ascii "/apps/kaccess.elf", ascii "/apps/zenovapp.zex",
    ascii "/security/zenovguard.zgdb", ascii "/security/zenovguard.version",
    ascii "/security/syscall-capabilities.zcap", ascii "/security/syscall-capabilities.version",
    ascii "/security/zenovguard-intelligence.zmid", ascii "/security/zenovguard-intelligence.version",
    ascii "/security/ransomware-policy.zrwp", ascii "/security/ransomware-policy.version",
    ascii "/security/verified-reads.zvrt", ascii "/security/verified-reads.version",
    ascii "/security/zenovguard.audit", ascii "/security/policy-transaction.journal"]

/-- The test of `protected_path` on a normalised path. -/
def protectedName (normalized : Bytes) : Bool :=
  (ascii "/apps/pkg-").isPrefixOf normalized || (ascii "/repo/").isPrefixOf normalized ||
    normalized = ascii "/var/lib/zenpkg/state.v1" || normalized = ascii "/var/lib/zenpkg/repo.v1" ||
    normalized = ascii "/var/lib/zenpkg/transport.v1" || normalized = ascii "/var/cache/zp" ||
    (ascii "/var/cache/zp/").isPrefixOf normalized || normalized = ascii "/quarantine" ||
    (ascii "/quarantine/").isPrefixOf normalized || protectedPaths.contains normalized

def protectedPath (currentDirectory input : Bytes) : Bool := (normalizePath currentDirectory input).any protectedName

/-- `protected_path` as a guarded operation calls it. -/
def askProtectedPath (input : Bytes) : Mach GuardState Bool := do
  let s ← Mach.get
  match normalizePath s.volume.currentDirectory input with
  | none => pure false
  | some normalized => do
    note (.policyPath normalized)
    pure (protectedName normalized)

/-! ### Guarded operations -/

def guardedWriteFileResult (path data : Bytes) (append : Bool) : Mach GuardState FsResult := do
  if ← askProtectedPath path then pure (fsFailure .write .permissionDenied)
  else if !(← allowPersistentWrite path data append) then pure (fsFailure .write .permissionDenied)
  else if !(← authorizeWrite path data.length) then pure (fsFailure .write .permissionDenied)
  else onVolume (writeFileResult path data append)

def guardedRemoveResult (path : Bytes) : Mach GuardState FsResult := do
  if cstr path = [] then pure (fsFailure .remove .invalidArgument)
  else if ← askProtectedPath path then pure (fsFailure .remove .permissionDenied)
  else if !(← authorizeRemove path) then pure (fsFailure .remove .permissionDenied)
  else onVolume (removeResult path)

def guardedRenameEntryResult (source destination : Bytes) : Mach GuardState FsResult := do
  if cstr source = [] ∨ cstr destination = [] then pure (fsFailure .rename .invalidArgument)
  else if ← askProtectedPath source then pure (fsFailure .rename .permissionDenied)
  else if ← askProtectedPath destination then pure (fsFailure .rename .permissionDenied)
  else if !(← allowPersistentTransfer source destination) then pure (fsFailure .rename .permissionDenied)
  else if !(← authorizeRename source destination) then pure (fsFailure .rename .permissionDenied)
  else onVolume (renameEntryResult source destination)

def guardedCopyFileResult (source destination : Bytes) : Mach GuardState FsResult := do
  if cstr source = [] ∨ cstr destination = [] then pure (fsFailure .copy .invalidArgument)
  else if ← askProtectedPath destination then pure (fsFailure .copy .permissionDenied)
  else if !(← allowPersistentTransfer source destination) then pure (fsFailure .copy .permissionDenied)
  else do
    let queried ← onVolume (queryResult source)
    match queried.2 with
    | none => pure (fsResult .copy queried.1.status 0 queried.1.block)
    | some info =>
      if info.type ≠ zfsTypeFile then pure (fsFailure .copy .wrongType)
      else if !(← authorizeCopy destination info.size.toNat) then pure (fsFailure .copy .permissionDenied)
      else onVolume (copyFileResult source destination)

end ZenovOS.Security
