import ZenovOS.Security.Audit
import ZenovOS.Security.Ransomware

/-! # The ransomware policy file

`zrwp::validate`, `zrwp::update`, `zrwp::restore_update` and `zrwp::init` of `zrwp_policy.inc`: the signed
policy and its version stand in two files, which an update writes one after the other. -/

namespace ZenovOS.Security.Ransomware
open Bytes

abbrev engineVersion : Nat := 0x00000101
abbrev compiledPolicyFloor : Nat := 1
abbrev signatureBytes : Nat := 256
abbrev maxPolicyBytes : Nat := 16 * 1024
abbrev maxRecords : Nat := 16
abbrev headerBytes : Nat := 96
abbrev recordBytes : Nat := 96

def livePath : Bytes := ascii "/security/ransomware-policy.zrwp"
def versionPath : Bytes := ascii "/security/ransomware-policy.version"

def rootKeyId : Bytes := [0x71, 0x86, 0xb2, 0xbd, 0x81, 0x9e, 0x47, 0xdc]

structure Header where
  magic : Bytes
  schema : Nat
  headerSize : Nat
  policyVersion : Nat
  minimumEngine : Nat
  mode : Nat
  recordCount : Nat
  payloadSize : Nat
  windowTicks : Nat
  maxWrites : Nat
  maxRenames : Nat
  maxRemoves : Nat
  maxBytes : Nat
  payloadSha256 : Bytes
  keyId : Bytes
  reserved : Bytes

def Header.decode (b : Bytes) : Header where
  magic := slice b 0 4
  schema := toNat (slice b 4 2)
  headerSize := toNat (slice b 6 2)
  policyVersion := toNat (slice b 8 4)
  minimumEngine := toNat (slice b 12 4)
  mode := toNat (slice b 16 4)
  recordCount := toNat (slice b 20 4)
  payloadSize := toNat (slice b 24 4)
  windowTicks := toNat (slice b 28 4)
  maxWrites := toNat (slice b 32 4)
  maxRenames := toNat (slice b 36 4)
  maxRemoves := toNat (slice b 40 4)
  maxBytes := toNat (slice b 44 4)
  payloadSha256 := slice b 48 32
  keyId := slice b 80 8
  reserved := slice b 88 8

/-- `Record` as it stands in the file. -/
structure DiskRecord where
  type : UInt8
  operations : UInt8
  pathLength : Nat
  path : Bytes
  digest : Bytes
  reserved : Bytes

def DiskRecord.decode (b : Bytes) : DiskRecord where
  type := b.getD 0 0
  operations := b.getD 1 0
  pathLength := toNat (slice b 2 2)
  path := slice b 4 48
  digest := slice b 52 32
  reserved := slice b 84 12

def zeroBytes (data : Bytes) : Bool := data.all (· = 0)

def canonicalPath (r : DiskRecord) : Bool :=
  r.pathLength ≠ 0 && r.pathLength < 48 && (cstr r.path).length = r.pathLength && canonicalAbsolutePath r.path

def recordValid (r : DiskRecord) : Bool :=
  if (r.type ≠ 1 ∧ r.type ≠ 2) ∨ r.operations = 0 ∨ r.operations &&& ~~~7 ≠ 0 ∨ !canonicalPath r ∨ !zeroBytes r.reserved then
    false
  else if r.type = 1 then zeroBytes r.digest
  else !zeroBytes r.digest

def DiskRecord.load (r : DiskRecord) : Record :=
  ⟨if r.type = 1 then .recordProtected else .recordWriter, r.operations, cstr r.path, r.digest⟩

/-- The same path under the same type. -/
def DiskRecord.Repeats (r previous : DiskRecord) : Prop := r.type = previous.type ∧ cstr r.path = cstr previous.path

instance (r previous : DiskRecord) : Decidable (r.Repeats previous) :=
  inferInstanceAs (Decidable (_ ∧ _))

/-- The loop of `validate` over the records, and the counts behind it. -/
def recordsValid (records : List DiskRecord) : Bool :=
  records.all recordValid && records.Pairwise (fun previous r => ¬r.Repeats previous) && records.any (·.type = 1) &&
    records.any (·.type ≠ 1)

inductive Validation
  | malformed
  | digest
  | signature
  | rollback
  | engine
  | key
  | records
  deriving DecidableEq

/-- `RuntimePolicy` with its version. -/
structure LoadedPolicy extends RuntimePolicy where
  version : Nat
  deriving DecidableEq

/-- The globals before any policy is loaded. -/
def noPolicy : LoadedPolicy := ⟨⟨false, 0, 0, 0, 0, 0, []⟩, 0⟩

def headerMalformed (header : Header) (size : Nat) : Bool :=
  header.magic ≠ ascii "ZRWP" || header.schema ≠ 1 || header.headerSize ≠ headerBytes || 1 < header.mode ||
    header.recordCount = 0 || maxRecords < header.recordCount || header.payloadSize ≠ header.recordCount * recordBytes ||
    headerBytes + header.payloadSize + signatureBytes ≠ size || header.windowTicks = 0 || header.maxWrites = 0 ||
    header.maxRenames = 0 || header.maxRemoves = 0 || header.maxBytes = 0 || !zeroBytes header.reserved

/-- The records behind the header. -/
def diskRecords (data : Bytes) (count : Nat) : List DiskRecord :=
  (List.range count).map fun i => DiskRecord.decode (slice data (headerBytes + i * recordBytes) recordBytes)

section Validate
variable (pssVerify : Bytes → Bytes → Bool)

/-- `validate`; `pssVerify` is the RSA-PSS check of a signature against a digest under the root key. -/
def validate (data : Bytes) (minimumVersion : Nat) : Except Validation LoadedPolicy :=
  if data.length < headerBytes + signatureBytes ∨ maxPolicyBytes < data.length then .error .malformed
  else
    let header := Header.decode data
    if headerMalformed header data.length then .error .malformed
    else if engineVersion < header.minimumEngine then .error .engine
    else if header.keyId ≠ rootKeyId then .error .key
    else if sha256 (slice data headerBytes header.payloadSize) ≠ header.payloadSha256 then .error .digest
    else if !pssVerify (data.drop (data.length - signatureBytes)) (sha256 (data.take (data.length - signatureBytes))) then
      .error .signature
    else if header.policyVersion < minimumVersion then .error .rollback
    else
      let records := diskRecords data header.recordCount
      if !recordsValid records then .error .records
      else .ok {
        version := header.policyVersion
        block := header.mode = 1
        windowTicks := header.windowTicks
        maxWrites := header.maxWrites
        maxRenames := header.maxRenames
        maxRemoves := header.maxRemoves
        maxBytes := header.maxBytes
        records := records.map DiskRecord.load }

/-! ### The globals -/

structure PolicyState extends Mounted where
  ready : Bool
  active : LoadedPolicy
  mutationWindow : MutationWindow
  persistentPolicyVersion : Nat
  audit : AuditState

def emptyWindow : MutationWindow := ⟨false, false, [], List.replicate 32 0, 0, 0, 0, 0, 0⟩

/-- A request to the file system. -/
def onFiles {α : Type} (m : Mach Mounted α) : Mach PolicyState α :=
  Mach.zoom PolicyState.toMounted (fun s toMounted => { s with toMounted }) m

def setReady (ready : Bool) : Mach PolicyState Unit := Mach.modify fun s => { s with ready }

def setPersistentPolicyVersion (persistentPolicyVersion : Nat) : Mach PolicyState Unit :=
  Mach.modify fun s => { s with persistentPolicyVersion }

def activate (policy : LoadedPolicy) : Mach PolicyState Unit :=
  Mach.modify fun s => { s with active := policy, mutationWindow := emptyWindow }

/-- The digit loop of `write_version`. -/
def versionDigits : Nat → Nat → Bytes
  | 0, _ => []
  | room + 1, value =>
    (if value / 10 = 0 then [] else versionDigits room (value / 10)) ++ [UInt8.ofNat (48 + value % 10)]

def versionText (version : Nat) : Bytes := versionDigits 10 version ++ [10]

def writeVersion (version : Nat) : Mach PolicyState Bool := onFiles (Mounted.writeFile versionPath (versionText version))

def readPolicy (path : Bytes) (minimum : Nat) : Mach PolicyState (Except Validation LoadedPolicy) := do
  match ← onFiles (Mounted.readFile path maxPolicyBytes) with
  | none => pure (.error .malformed)
  | some data => pure (validate pssVerify data minimum)

/-! ### The update -/

/-- The files of `restore_update`, in its order. -/
def restoreFiles (previousVersion : Nat) (rollbackPolicy : Bytes) : Mach PolicyState Bool := do
  if rollbackPolicy = [] then pure false
  else if !(← onFiles (Mounted.writeFile livePath rollbackPolicy)) then pure false
  else if !(← writeVersion previousVersion) then pure false
  else onFiles Mounted.syncMetadata

def restoreUpdate (previous : LoadedPolicy) (previousVersion : Nat) (rollbackPolicy : Bytes) : Mach PolicyState Unit := do
  if ← restoreFiles previousVersion rollbackPolicy then
    activate previous
    setPersistentPolicyVersion previousVersion
    setReady true
  else setReady false

/-- The committed bytes, as they are read back. -/
def readCommitted (candidateSize nextVersion : Nat) : Mach PolicyState (Option (Bytes × LoadedPolicy)) := do
  match ← onFiles (Mounted.readFile livePath maxPolicyBytes) with
  | none => pure none
  | some committed =>
    if committed.length ≠ candidateSize then pure none
    else
      match validate pssVerify committed nextVersion with
      | .error _ => pure none
      | .ok finalPolicy => pure (some (committed, finalPolicy))

/-- The event that an update records. -/
def recordUpdate (tick : Nat) (committed : Bytes) : Mach PolicyState Bool :=
  Audit.record PolicyState.audit (fun s audit => { s with audit }) (fun path data => onFiles (Mounted.writeFile path data))
    tick .ransomwarePolicy .trusted livePath (sha256 committed)

/-- `update` from the first write on. -/
def commitUpdate (tick : Nat) (candidate : Bytes) (proposed previous : LoadedPolicy) (nextVersion previousVersion : Nat)
    (rollbackPolicy : Bytes) : Mach PolicyState Bool := do
  if !(← onFiles (Mounted.writeFile livePath candidate)) then pure false
  else
    match ← readCommitted pssVerify candidate.length nextVersion with
    | none => do
      restoreUpdate previous previousVersion rollbackPolicy
      pure false
    | some (committed, finalPolicy) =>
      if finalPolicy.version ≠ proposed.version then do
        restoreUpdate previous previousVersion rollbackPolicy
        pure false
      else if !(← writeVersion finalPolicy.version) then do
        restoreUpdate previous previousVersion rollbackPolicy
        pure false
      else do
        activate finalPolicy
        setPersistentPolicyVersion finalPolicy.version
        setReady true
        if !(← recordUpdate tick committed) then do
          restoreUpdate previous previousVersion rollbackPolicy
          pure false
        else if !(← onFiles Mounted.syncMetadata) then do
          restoreUpdate previous previousVersion rollbackPolicy
          pure false
        else pure true

def update (candidatePath : Bytes) (tick : Nat) : Mach PolicyState Bool := do
  let s ← Mach.get
  match nextVersion s.active.version with
  | none => pure false
  | some next =>
    if candidatePath = [] then pure false
    else
      match ← readPolicy pssVerify candidatePath next with
      | .error _ => pure false
      | .ok proposed =>
        if proposed.version ≠ next then pure false
        else
          match ← onFiles (Mounted.readFile livePath maxPolicyBytes) with
          | none | some [] => pure false
          | some rollbackPolicy =>
            match ← onFiles (Mounted.readFile candidatePath maxPolicyBytes) with
            | none => pure false
            | some candidate =>
              match validate pssVerify candidate next with
              | .error _ => pure false
              | .ok finalPolicy =>
                if finalPolicy.version ≠ proposed.version then pure false
                else
                  commitUpdate pssVerify tick candidate proposed s.active next s.persistentPolicyVersion rollbackPolicy

/-! ### Start-up -/

def fileioDigest : Bytes :=
  [0x5a, 0xcc, 0x70, 0xa7, 0x8b, 0xd8, 0x30, 0xcd, 0x7b, 0x04, 0x79, 0x9b, 0xf3, 0xc2, 0xbc, 0x22,
   0x90, 0x5a, 0xc5, 0x30, 0x70, 0xdb, 0x00, 0xb5, 0x35, 0x68, 0x7c, 0x8b, 0x70, 0x3a, 0x93, 0x4e]

/-- What `self_test` asks of the active policy. -/
def selfTest (policy : LoadedPolicy) : Bool :=
  policy.records.countP (·.type = .recordProtected) = 2 && policy.records.countP (·.type = .recordWriter) = 1 &&
    policy.maxWrites = 1 && policy.maxBytes = 128 &&
    protectedOperation policy.toRuntimePolicy (ascii "/apps/userio.txt") .write &&
    protectedOperation policy.toRuntimePolicy (ascii "/docs/readme.txt") .remove &&
    !protectedOperation policy.toRuntimePolicy (ascii "/apps/other.txt") .write &&
    writerAllowed policy.toRuntimePolicy (ascii "/apps/fileio.elf") fileioDigest .write &&
    !writerAllowed policy.toRuntimePolicy (ascii "/apps/args.elf") fileioDigest .write

/-- `init` once both files are read and the policy is valid. -/
def initLoaded (loaded : LoadedPolicy) (persistentVersion : Nat) : Mach PolicyState Bool := do
  activate loaded
  let written ← if persistentVersion < loaded.version then writeVersion loaded.version else pure true
  if !written then do
    setReady false
    pure false
  else do
    setPersistentPolicyVersion loaded.version
    setReady true
    if selfTest loaded then pure true
    else
      setReady false
      pure false

def init : Mach PolicyState Bool := do
  match ← onFiles (Mounted.readFile versionPath 16) with
  | none => do
    setReady false
    pure false
  | some versionData =>
    match parseNonzeroDecimal versionData with
    | none => do
      setPersistentPolicyVersion 0
      setReady false
      pure false
    | some persistentVersion => do
      setPersistentPolicyVersion persistentVersion
      match ← readPolicy pssVerify livePath (max persistentVersion compiledPolicyFloor) with
      | .error _ => do
        setReady false
        pure false
      | .ok loaded => initLoaded loaded persistentVersion

end Validate
end ZenovOS.Security.Ransomware
