import ZenovOS.Security.Audit
import ZenovOS.Security.PolicyFormat
import ZenovOS.Storage.Layout

/-! # Policy transactions

`security_policy_transaction.inc`: before a policy manager replaces its files it stores them in a journal,
and clears the journal when the new ones are in place. At start-up a journal that is not empty is put back. -/

namespace ZenovOS.Security
open Bytes Storage

abbrev workspaceBytes : Nat := 16 * 1024
abbrev versionBackupBytes : Nat := 16
abbrev applicationBufferBytes : Nat := 64 * 1024

def journalPath : Bytes := ascii "/security/policy-transaction.journal"

inductive Domain
  | none
  | zgdb
  | zcap
  | zmid
  deriving DecidableEq

def Domain.code (d : Domain) : UInt8 := UInt8.ofNat d.ctorIdx

structure Descriptor where
  domain : Domain
  livePath : Bytes
  versionPath : Bytes
  auxiliaryPath : Option Bytes
  policyCapacity : Nat
  auxiliaryCapacity : Nat
  deriving DecidableEq

def zgdbDescriptor : Descriptor where
  domain := .zgdb
  livePath := ascii "/security/zenovguard.zgdb"
  versionPath := ascii "/security/zenovguard.version"
  auxiliaryPath := none
  policyCapacity := 16 * 1024
  auxiliaryCapacity := 0

def zcapDescriptor : Descriptor where
  domain := .zcap
  livePath := ascii "/security/syscall-capabilities.zcap"
  versionPath := ascii "/security/syscall-capabilities.version"
  auxiliaryPath := none
  policyCapacity := 8 * 1024
  auxiliaryCapacity := 0

def zmidDescriptor : Descriptor where
  domain := .zmid
  livePath := ascii "/security/zenovguard-intelligence.zmid"
  versionPath := ascii "/security/zenovguard-intelligence.version"
  auxiliaryPath := some (ascii "/security/zenovguard.audit")
  policyCapacity := 16 * 1024
  auxiliaryCapacity := 16 * 1024

def descriptors : List Descriptor := [zgdbDescriptor, zcapDescriptor, zmidDescriptor]

def descriptorForLive (livePath : Bytes) : Option Descriptor := descriptors.find? (·.livePath = livePath)

def descriptorForDomain (domain : UInt8) : Option Descriptor := descriptors.find? (·.domain.code = domain)

/-! ### The journal record -/

structure JournalHeader where
  magic : Block 4
  schema : UInt16
  headerSize : UInt16
  state : UInt8
  domain : UInt8
  flags : UInt16
  policySize : UInt32
  versionSize : UInt32
  auxiliarySize : UInt32
  previousVersion : UInt32
  payloadSize : UInt32
  digest : Block 32
  livePath : Block 48
  versionPath : Block 48
  auxiliaryPath : Block 48
  reserved : Block 16

namespace JournalHeader

def encode (h : JournalHeader) : Bytes :=
  h.magic.bytes ++ (le 2 h.schema.toNat ++ (le 2 h.headerSize.toNat ++ ([h.state] ++ ([h.domain] ++ (le 2 h.flags.toNat ++
    (le 4 h.policySize.toNat ++ (le 4 h.versionSize.toNat ++ (le 4 h.auxiliarySize.toNat ++ (le 4 h.previousVersion.toNat ++
    (le 4 h.payloadSize.toNat ++ (h.digest.bytes ++ (h.livePath.bytes ++ (h.versionPath.bytes ++ (h.auxiliaryPath.bytes ++
    h.reserved.bytes))))))))))))))

def decode (b : Bytes) : JournalHeader where
  magic := Block.of (slice b 0 4)
  schema := UInt16.ofNat (toNat (slice b 4 2))
  headerSize := UInt16.ofNat (toNat (slice b 6 2))
  state := UInt8.ofNat (toNat (slice b 8 1))
  domain := UInt8.ofNat (toNat (slice b 9 1))
  flags := UInt16.ofNat (toNat (slice b 10 2))
  policySize := UInt32.ofNat (toNat (slice b 12 4))
  versionSize := UInt32.ofNat (toNat (slice b 16 4))
  auxiliarySize := UInt32.ofNat (toNat (slice b 20 4))
  previousVersion := UInt32.ofNat (toNat (slice b 24 4))
  payloadSize := UInt32.ofNat (toNat (slice b 28 4))
  digest := Block.of (slice b 32 32)
  livePath := Block.of (slice b 64 48)
  versionPath := Block.of (slice b 112 48)
  auxiliaryPath := Block.of (slice b 160 48)
  reserved := Block.of (slice b 208 16)

end JournalHeader

abbrev journalHeaderBytes : Nat := 224

def fixedTextEqual {n : Nat} (encoded : Block n) : Option Bytes → Bool
  | none => encoded = Block.of []
  | some expected => expected.length < n && encoded = Block.of expected

def copyText {n : Nat} : Option Bytes → Option (Block n)
  | none => some (Block.of [])
  | some input => if input.length < n then some (Block.of input) else none

def digestValid (journal : Bytes) : Bool :=
  sha256 (overwrite journal 32 (List.replicate 32 0)) = slice journal 32 32

/-- What `validate_journal` returns through its reference arguments. -/
structure Prepared where
  descriptor : Descriptor
  policy : Bytes
  version : Bytes
  auxiliary : Bytes
  previousVersion : Nat

def auxiliarySizeValid (descriptor : Descriptor) (size : Nat) : Bool :=
  match descriptor.auxiliaryPath with
  | some _ => size ≠ 0 && size ≤ descriptor.auxiliaryCapacity
  | none => size = 0

def validateJournal (journal : Bytes) : Option Prepared :=
  if journal.length < journalHeaderBytes then none
  else
    let header := JournalHeader.decode journal
    if header.magic ≠ Block.of (ascii "ZPTJ") ∨ header.schema ≠ 1 ∨ header.headerSize ≠ 224 ∨ header.state ≠ 1 ∨
        header.flags ≠ 0 ∨ header.reserved ≠ Block.of [] then none
    else do
      let descriptor ← descriptorForDomain header.domain
      let policySize := header.policySize.toNat
      let versionSize := header.versionSize.toNat
      let auxiliarySize := header.auxiliarySize.toNat
      let payload := (policySize + versionSize + auxiliarySize) % 2 ^ 32
      if !fixedTextEqual header.livePath (some descriptor.livePath) ||
          !fixedTextEqual header.versionPath (some descriptor.versionPath) ||
          !fixedTextEqual header.auxiliaryPath descriptor.auxiliaryPath then none
      else if policySize = 0 ∨ descriptor.policyCapacity < policySize ∨ versionSize < 2 ∨ 11 < versionSize ∨
          header.previousVersion = 0 then none
      else if !auxiliarySizeValid descriptor auxiliarySize then none
      else if header.payloadSize.toNat ≠ payload ∨ applicationBufferBytes - journalHeaderBytes < payload ∨
          journal.length ≠ journalHeaderBytes + payload ∨ !digestValid journal then none
      else
        let policy := slice journal journalHeaderBytes policySize
        let version := slice journal (journalHeaderBytes + policySize) versionSize
        let auxiliary := slice journal (journalHeaderBytes + policySize + versionSize) auxiliarySize
        let parsed ← parseNonzeroDecimal version
        if parsed ≠ header.previousVersion.toNat then none
        else some ⟨descriptor, policy, version, auxiliary, parsed⟩

/-- The record that `persist_journal` builds: the header with the digest of the whole, and the payload. -/
def journalRecord (header : JournalHeader) (payload : Bytes) : Bytes :=
  let zeroed := { header with digest := Block.of [] }
  { header with digest := Block.of (sha256 (zeroed.encode ++ payload)) }.encode ++ payload

/-! ### The globals -/

/-- The globals of one policy manager. -/
structure ManagerState where
  ready : Bool
  activeVersion : Nat
  persistentVersion : Nat

/-- The files, the globals of the transaction, of the policy managers and of the audit journal. -/
structure PolicyState where
  store : FileStore Bytes
  currentDirectory : Bytes
  busy : Bool
  recoveredDomain : Domain
  rollbackData : Bytes
  versionBackup : Bytes
  managers : Domain → ManagerState
  audit : AuditState

namespace PolicyState

def files (s : PolicyState) : Bytes → Option Bytes := s.store.files

def setReady (s : PolicyState) (d : Domain) (ready : Bool) : PolicyState :=
  { s with managers := Function.update s.managers d { s.managers d with ready } }

def setPersistentVersion (s : PolicyState) (d : Domain) (persistentVersion : Nat) : PolicyState :=
  { s with managers := Function.update s.managers d { s.managers d with persistentVersion } }

end PolicyState

/-- A request to the file system. -/
def onStore {α : Type} (m : Mach (FileStore Bytes) α) : Mach PolicyState α :=
  Mach.zoom PolicyState.store (fun s store => { s with store }) m

def readFile (input : Bytes) (capacity : Nat) : Mach PolicyState (Option Bytes) := do
  match normalizePath (← Mach.get).currentDirectory input with
  | none => pure none
  | some path => onStore (FileStore.read path capacity)

def writeFile (input data : Bytes) : Mach PolicyState Bool := do
  match normalizePath (← Mach.get).currentDirectory input with
  | none => pure false
  | some path => onStore (FileStore.write path data)

def syncMetadata : Mach PolicyState Bool := onStore FileStore.sync

/-! ### The transaction -/

def wipe : Mach PolicyState Unit := Mach.modify fun s => { s with rollbackData := [], versionBackup := [] }

def setBusy (busy : Bool) : Mach PolicyState Unit := Mach.modify fun s => { s with busy }

def versionMatches (versionPath : Bytes) (expected : Nat) : Mach PolicyState Bool := do
  if versionPath = [] ∨ expected = 0 then pure false
  else
    match ← readFile versionPath versionBackupBytes with
    | none => pure false
    | some data => pure (parseNonzeroDecimal data = some expected)

def readJournal : Mach PolicyState (Option Bytes) := readFile journalPath applicationBufferBytes

def clearJournal : Mach PolicyState Bool := do
  if !(← writeFile journalPath []) then pure false
  else
    match ← readJournal with
    | some [] => syncMetadata
    | _ => pure false

/-- The auxiliary file of a domain that has one; it must not be empty. -/
def readAuxiliary (descriptor : Descriptor) : Mach PolicyState (Option Bytes) :=
  match descriptor.auxiliaryPath with
  | none => pure (some [])
  | some path => do
    match ← readFile path descriptor.auxiliaryCapacity with
    | some (b :: rest) => pure (some (b :: rest))
    | _ => pure none

/-- The record of the files as they are, when it fits the buffer. -/
def buildJournal (descriptor : Descriptor) (policy version auxiliary : Bytes) (previousVersion : Nat) :
    Option Bytes := do
  let payload := policy ++ version ++ auxiliary
  if applicationBufferBytes < journalHeaderBytes + payload.length then none
  else
    let livePath ← copyText (some descriptor.livePath)
    let versionPath ← copyText (some descriptor.versionPath)
    let auxiliaryPath ← copyText descriptor.auxiliaryPath
    some (journalRecord {
      magic := Block.of (ascii "ZPTJ")
      schema := 1
      headerSize := 224
      state := 1
      domain := descriptor.domain.code
      flags := 0
      policySize := UInt32.ofNat policy.length
      versionSize := UInt32.ofNat version.length
      auxiliarySize := UInt32.ofNat auxiliary.length
      previousVersion := UInt32.ofNat previousVersion
      payloadSize := UInt32.ofNat payload.length
      digest := Block.of []
      livePath
      versionPath
      auxiliaryPath
      reserved := Block.of [] } payload)

def persistJournal (descriptor : Descriptor) (policySize previousVersion : Nat) : Mach PolicyState Bool := do
  let s ← Mach.get
  if policySize = 0 ∨ s.versionBackup = [] then pure false
  else
    match ← readAuxiliary descriptor with
    | none => pure false
    | some auxiliary =>
      match buildJournal descriptor (s.rollbackData.take policySize) s.versionBackup auxiliary previousVersion with
      | none => pure false
      | some journal => do
        if !(← writeFile journalPath journal) then pure false
        else
          match ← readJournal with
          | none => pure false
          | some readback =>
            if readback.length ≠ journal.length then pure false
            else
              match validateJournal readback with
              | none => pure false
              | some checked =>
                if checked.descriptor ≠ descriptor ∨ checked.previousVersion ≠ previousVersion ∨
                    slice readback 32 32 ≠ slice journal 32 32 then pure false
                else syncMetadata

/-- The exit of `acquire` when the journal could not be written: it is cleared again. -/
def abandonJournal : Mach PolicyState (Option Nat) := do
  if ← clearJournal then do
    wipe
    setBusy false
    pure none
  else pure none

/-- The size of the policy that was backed up. -/
def acquire (livePath : Bytes) (capacity : Nat) : Mach PolicyState (Option Nat) := do
  let s ← Mach.get
  if s.busy ∨ livePath = [] ∨ capacity = 0 ∨ workspaceBytes < capacity then pure none
  else
    match descriptorForLive livePath with
    | none => pure none
    | some descriptor =>
      if descriptor.policyCapacity < capacity then pure none
      else do
        Mach.modify fun s => { s with busy := true, recoveredDomain := .none }
        match ← readFile livePath capacity with
        | none | some [] => do
          wipe
          setBusy false
          pure none
        | some policy => do
          Mach.modify fun s => { s with rollbackData := policy }
          match ← readFile descriptor.versionPath versionBackupBytes with
          | none => do
            wipe
            setBusy false
            pure none
          | some version => do
            Mach.modify fun s => { s with versionBackup := version }
            match parseNonzeroDecimal version with
            | none => abandonJournal
            | some previousVersion => do
              if ← persistJournal descriptor policy.length previousVersion then pure (some policy.length)
              else abandonJournal

/-- Write a file and read it back; the bytes read stand in the buffer that `keep` names. -/
def restoreFile (path data : Bytes) (capacity : Nat) (keep : PolicyState → Bytes → PolicyState) :
    Mach PolicyState Bool := do
  if !(← writeFile path data) then pure false
  else
    match ← readFile path capacity with
    | none => pure false
    | some readback => do
      Mach.modify fun s => keep s readback
      pure (readback = data)

def restoreAuxiliary (descriptor : Descriptor) (auxiliary : Bytes) : Mach PolicyState Bool :=
  match descriptor.auxiliaryPath with
  | none => pure true
  | some path => restoreFile path auxiliary descriptor.auxiliaryCapacity fun s b => { s with rollbackData := b }

/-- The end of `restore_hot_journal`, when the files are back. -/
def finishRestore (descriptor : Descriptor) : Mach PolicyState Bool := do
  if !(← syncMetadata) then pure false
  else do
    Mach.modify fun s => { s with recoveredDomain := descriptor.domain }
    if !(← clearJournal) then pure false
    else do
      wipe
      setBusy false
      pure true

/-- `restore_hot_journal` from the validated journal on. -/
def restorePrepared (prepared : Prepared) : Mach PolicyState Bool := do
  let descriptor := prepared.descriptor
  if !(← restoreFile descriptor.livePath prepared.policy descriptor.policyCapacity
      fun s b => { s with rollbackData := b }) then pure false
  else if !(← restoreFile descriptor.versionPath prepared.version versionBackupBytes
      fun s b => { s with versionBackup := b }) then pure false
  else if !(← versionMatches descriptor.versionPath prepared.previousVersion) then pure false
  else if !(← restoreAuxiliary descriptor prepared.auxiliary) then pure false
  else finishRestore descriptor

def restoreHotJournal : Mach PolicyState Bool := do
  match ← readJournal with
  | none | some [] => pure false
  | some journal =>
    match validateJournal journal with
    | none => pure false
    | some prepared => restorePrepared prepared

def recoverPending : Mach PolicyState Bool := do
  if (← Mach.get).busy then pure false
  else do
    Mach.modify fun s => { s with recoveredDomain := .none }
    match ← readJournal with
    | none => pure false
    | some [] => pure true
    | some _ => restoreHotJournal

def rollback : Mach PolicyState Bool := do
  if !(← Mach.get).busy then pure false else restoreHotJournal

def commit : Mach PolicyState Bool := do
  if !(← Mach.get).busy then pure false
  else if !(← clearJournal) then pure false
  else do
    wipe
    setBusy false
    pure true

def discard : Mach PolicyState Bool := commit

/-! ### The policy managers

`zgdb::update`, `zcap::update` and `zmid::update`, which differ in their files, in what a valid policy is
and in that the last one also records the update in the audit journal, its auxiliary file. -/

/-- A policy manager: its files, and what `validate` checks behind the size of a candidate, which yields
    the version and the number of records. -/
structure PolicyManager where
  descriptor : Descriptor
  verify : Bytes → Nat → Option (Nat × Nat)
  audits : Bool

def zgdb (verify : Bytes → Nat → Option (Nat × Nat)) : PolicyManager := ⟨zgdbDescriptor, verify, false⟩
def zcap (verify : Bytes → Nat → Option (Nat × Nat)) : PolicyManager := ⟨zcapDescriptor, verify, false⟩
def zmid (verify : Bytes → Nat → Option (Nat × Nat)) : PolicyManager := ⟨zmidDescriptor, verify, true⟩

namespace PolicyManager

/-- `validate`: header and signature take 320 bytes. -/
def validate (m : PolicyManager) (data : Bytes) (minimum : Nat) : Option (Nat × Nat) :=
  if data.length < 320 ∨ m.descriptor.policyCapacity < data.length then none else m.verify data minimum

/-- `read_database`, `read_policy`. -/
def readDatabase (m : PolicyManager) (path : Bytes) (minimum : Nat) : Mach PolicyState (Option (Nat × Nat)) := do
  match ← readFile path m.descriptor.policyCapacity with
  | none => pure none
  | some data => pure (m.validate data minimum)

def setReady (m : PolicyManager) (ready : Bool) : Mach PolicyState Unit :=
  Mach.modify fun s => s.setReady m.descriptor.domain ready

def restoreUpdate (m : PolicyManager) (previousVersion : Nat) : Mach PolicyState Unit := do
  if ← rollback then
    Mach.modify fun s => s.setPersistentVersion m.descriptor.domain previousVersion
    m.setReady true
  else m.setReady false

def discardPrepared (m : PolicyManager) : Mach PolicyState Unit := do
  if ← discard then pure () else m.setReady false

def writeVersion (m : PolicyManager) (value : Nat) : Mach PolicyState Bool :=
  match formatNonzeroDecimal value 12 with
  | none => pure false
  | some text => writeFile m.descriptor.versionPath text

/-- The event that `zmid::update` records. -/
def recordUpdate (m : PolicyManager) (tick : Nat) (policy : Bytes) : Mach PolicyState Bool :=
  if m.audits then
    Audit.record PolicyState.audit (fun s audit => { s with audit }) writeFile tick .intelligenceUpdate .trusted
      m.descriptor.livePath (sha256 policy)
  else pure true

/-- A step of an update; when it fails, the update is taken back. -/
def attempt (m : PolicyManager) (previousVersion : Nat) (step : Mach PolicyState Bool)
    (rest : Mach PolicyState (Option Nat)) : Mach PolicyState (Option Nat) := do
  if ← step then rest
  else do
    m.restoreUpdate previousVersion
    pure none

/-- The policy as it stands in its file after it was written. -/
def readBack (m : PolicyManager) (policy : Bytes) (version count : Nat) : Mach PolicyState (Option Bytes) := do
  match ← readFile m.descriptor.livePath m.descriptor.policyCapacity with
  | none => pure none
  | some committed =>
    pure (if committed.length = policy.length ∧ m.validate committed version = some (version, count) then some committed
      else none)

/-- What `update` does between `acquire` and `commit`. -/
def install (m : PolicyManager) (candidatePath : Bytes) (tick version count previousVersion : Nat) :
    Mach PolicyState (Option Nat) := do
  match ← readFile candidatePath m.descriptor.policyCapacity with
  | none => do
    m.discardPrepared
    pure none
  | some policy =>
    if m.validate policy version ≠ some (version, count) then do
      m.discardPrepared
      pure none
    else
      m.attempt previousVersion (writeFile m.descriptor.livePath policy) do
        match ← m.readBack policy version count with
        | none => do
          m.restoreUpdate previousVersion
          pure none
        | some committed =>
          m.attempt previousVersion (m.writeVersion version) <|
          m.attempt previousVersion (versionMatches m.descriptor.versionPath version) <|
          m.attempt previousVersion syncMetadata <|
          m.attempt previousVersion (m.recordUpdate tick committed) <|
          pure (some version)

/-- `update` up to the call of `commit`, which it reaches with the version to activate. -/
def stage (m : PolicyManager) (candidatePath : Bytes) (tick : Nat) : Mach PolicyState (Option Nat) := do
  let manager := (← Mach.get).managers m.descriptor.domain
  if !manager.ready then pure none
  else
    match nextVersion manager.activeVersion with
    | none => pure none
    | some next =>
      match ← m.readDatabase candidatePath next with
      | none => pure none
      | some (version, count) =>
        if version ≠ next then pure none
        else
          match ← acquire m.descriptor.livePath m.descriptor.policyCapacity with
          | none => do
            if (← Mach.get).busy then m.setReady false
            pure none
          | some _ => m.install candidatePath tick version count manager.persistentVersion

def update (m : PolicyManager) (candidatePath : Bytes) (tick : Nat) : Mach PolicyState Bool := do
  match ← m.stage candidatePath tick with
  | none => pure false
  | some version => do
    if ← commit then
      Mach.modify fun s =>
        { s with managers := Function.update s.managers m.descriptor.domain ⟨true, version, version⟩ }
      pure true
    else
      m.setReady false
      pure false

end PolicyManager
end ZenovOS.Security
