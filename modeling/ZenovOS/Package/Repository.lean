import ZenovOS.Package.Disk
import ZenovOS.Package.Format

/-! # The package repository

`package_repository` of `format_state.inc`, `envelope_root.inc`, `chain.inc` and `runtime.inc`: six signed
documents under `/repo`, each read into the one metadata buffer and checked there, and a state file with the
versions that were accepted last. A pointer into a document is a place in the buffer as it is now. -/

namespace ZenovOS.Package.Repository
open Bytes Storage Security

abbrev schemaVersion : Nat := 1
abbrev roleRoot : Nat := 1
abbrev roleTargets : Nat := 2
abbrev roleSnapshot : Nat := 3
abbrev roleTimestamp : Nat := 4
abbrev roleDelegated : Nat := 5
abbrev maximumMetadataBytes : Nat := 8 * 1024
abbrev maximumKeys : Nat := 8
abbrev maximumRoles : Nat := 8
abbrev maximumTargets : Nat := 16
abbrev maximumSignatures : Nat := 4
abbrev capabilityFileRead : Nat := 4
abbrev capabilityFileWrite : Nat := 8
abbrev capabilityFileStat : Nat := 16
abbrev capabilityAll : Nat := 0xFF

/-- `kZenRepoMinimumTrustedEpoch`. -/
abbrev minimumTrustedEpoch : Nat := 1767225600

/-- `kZenRepoBootstrapRootKeyId`. -/
def bootstrapRootKeyId : Bytes := [0xb6, 0xac, 0x62, 0x40, 0xfa, 0x0f, 0x02, 0x83]

def statePath : Bytes := ascii "/var/lib/zenpkg/repo.v1"

/-! ### Records -/

structure Header where
  magic : Bytes
  schema : Nat
  role : Nat
  version : Nat
  expires : Nat
  bodySize : Nat
  signatureCount : Nat
  threshold : Nat
  bodySha256 : Bytes
  reserved : Bytes
  deriving DecidableEq

abbrev headerSize : Nat := 64

def Header.decode (b : Bytes) : Header where
  magic := slice b 0 4
  schema := toNat (slice b 4 2)
  role := toNat (slice b 6 2)
  version := toNat (slice b 8 4)
  expires := toNat (slice b 12 8)
  bodySize := toNat (slice b 20 4)
  signatureCount := toNat (slice b 24 2)
  threshold := toNat (slice b 26 2)
  bodySha256 := slice b 28 32
  reserved := slice b 60 4

structure Signature where
  keyId : Bytes
  bytes : Bytes
  deriving DecidableEq

abbrev signatureSize : Nat := 264

def Signature.decode (b : Bytes) : Signature := ⟨slice b 0 8, slice b 8 256⟩

structure KeyRecord where
  keyId : Bytes
  modulus : Bytes
  deriving DecidableEq

abbrev keyRecordSize : Nat := 264

def KeyRecord.decode (b : Bytes) : KeyRecord := ⟨slice b 0 8, slice b 8 256⟩

structure RoleSpec where
  role : Nat
  threshold : Nat
  keyCount : Nat
  reserved : Nat
  keyIds : Bytes
  deriving DecidableEq

abbrev roleSpecSize : Nat := 24

def RoleSpec.decode (b : Bytes) : RoleSpec where
  role := toNat (slice b 0 2)
  threshold := toNat (slice b 2 2)
  keyCount := toNat (slice b 4 2)
  reserved := toNat (slice b 6 2)
  keyIds := slice b 8 16

/-- The key ids of a role. -/
def RoleSpec.ids (spec : RoleSpec) : List Bytes := (List.range spec.keyCount).map fun k => slice spec.keyIds (8 * k) 8

structure MetaReference where
  name : Bytes
  version : Nat
  length : Nat
  digest : Bytes
  deriving DecidableEq

abbrev metaReferenceSize : Nat := 72

def MetaReference.decode (b : Bytes) : MetaReference where
  name := slice b 0 32
  version := toNat (slice b 32 4)
  length := toNat (slice b 36 4)
  digest := slice b 40 32

structure Delegation where
  roleName : Bytes
  pathPrefix : Bytes
  keyId : Bytes
  threshold : Nat
  terminating : UInt8
  reserved : UInt8
  deriving DecidableEq

abbrev delegationSize : Nat := 76

def Delegation.decode (b : Bytes) : Delegation where
  roleName := slice b 0 32
  pathPrefix := slice b 32 32
  keyId := slice b 64 8
  threshold := toNat (slice b 72 2)
  terminating := b.getD 74 0
  reserved := b.getD 75 0

structure Target where
  path : Bytes
  name : Bytes
  version : Bytes
  entrypoint : Bytes
  readScope : Bytes
  writeScope : Bytes
  packageLength : Nat
  payloadType : UInt8
  reserved0 : Bytes
  syscallMask : Nat
  packageDigest : Bytes
  payloadDigest : Bytes
  deriving DecidableEq

abbrev targetSize : Nat := 332

def Target.decode (b : Bytes) : Target where
  path := slice b 0 64
  name := slice b 64 32
  version := slice b 96 16
  entrypoint := slice b 112 48
  readScope := slice b 160 48
  writeScope := slice b 208 48
  packageLength := toNat (slice b 256 4)
  payloadType := b.getD 260 0
  reserved0 := slice b 261 3
  syscallMask := toNat (slice b 264 4)
  packageDigest := slice b 268 32
  payloadDigest := slice b 300 32

/-- The records of `size` bytes each that stand one behind the other. -/
def records {α : Type} (decode : Bytes → α) (size : Nat) (b : Bytes) (count : Nat) : List α :=
  (List.range count).map fun i => decode (slice b (size * i) size)

/-! ### The persistent state -/

structure State where
  magic : Block 8
  root : UInt32
  targets : UInt32
  delegated : UInt32
  snapshot : UInt32
  timestamp : UInt32
  checksum : UInt32
  deriving DecidableEq

namespace State

/-- The bytes that the checksum covers. -/
def covered (state : State) : Bytes :=
  state.magic.bytes ++ le 4 state.root.toNat ++ le 4 state.targets.toNat ++ le 4 state.delegated.toNat ++
    le 4 state.snapshot.toNat ++ le 4 state.timestamp.toNat

def encode (state : State) : Bytes := state.covered ++ le 4 state.checksum.toNat

def decode (b : Bytes) : State where
  magic := Block.of (slice b 0 8)
  root := UInt32.ofNat (toNat (slice b 8 4))
  targets := UInt32.ofNat (toNat (slice b 12 4))
  delegated := UInt32.ofNat (toNat (slice b 16 4))
  snapshot := UInt32.ofNat (toNat (slice b 20 4))
  timestamp := UInt32.ofNat (toNat (slice b 24 4))
  checksum := UInt32.ofNat (toNat (slice b 28 4))

end State

abbrev stateSize : Nat := 32

def stateMagic : Bytes := ascii "ZRST1" ++ [0, 0, 0]

def stateChecksum (state : State) : UInt32 := fnv1a state.covered

def stateValid (state : State) : Bool := state.magic.bytes = stateMagic && state.checksum = stateChecksum state

/-- A state with its checksum. -/
def State.sealed (state : State) : State := { state with checksum := stateChecksum state }

/-- `state_initialize`. -/
def stateInitialize : State := State.sealed ⟨Block.of stateMagic, 0, 0, 0, 0, 0, 0⟩

inductive Validation
  | storage
  | malformed
  | digest
  | signature
  | threshold
  | expired
  | rollback
  | rootSequence
  | reference
  | delegation
  | target
  | state
  deriving DecidableEq

structure Envelope where
  header : Header
  fileDigest : Bytes
  fileSize : Nat
  deriving DecidableEq

structure RootTrust where
  keys : List KeyRecord
  roles : List RoleSpec
  version : Nat
  deriving DecidableEq

/-- The globals of the repository; the buffer is there once it has been set up. -/
structure Globals where
  disk : Disk
  metadataBuffer : Option Bytes
  activeTargets : List Target
  persistentState : State
  ready : Bool

abbrev Verify (α : Type) : Type := ExceptT Validation (Mach Globals) α

def onDisk {α : Type} (m : Mach Disk α) : Mach Globals α := Mach.zoom Globals.disk (fun g disk => { g with disk }) m

/-- Go on if `c` holds. -/
def require (c : Bool) (validation : Validation) : Verify Unit := if c then pure () else throw validation

def fixedTextValid (text : Bytes) (allowEmpty : Bool := false) : Bool :=
  let content := cstr text
  (content.all fun value => 0x20 ≤ value && value ≤ 0x7E) && (allowEmpty || content ≠ []) && content.length ≠ text.length &&
    (text.drop (content.length + 1)).all (· = 0)

def findKey (trust : RootTrust) (keyId : Bytes) : Option KeyRecord := trust.keys.find? (·.keyId = keyId)

def findRole (trust : RootTrust) (role : Nat) : Option RoleSpec := trust.roles.find? (·.role = role)

/-! ### Envelopes -/

/-- `size` bytes of the metadata buffer from `offset` on. -/
def view (offset size : Nat) : Verify Bytes := do
  let g ← ExceptT.lift Mach.get
  pure (slice (g.metadataBuffer.getD []) offset size)

/-- The checks of `read_envelope` on a document that was read. -/
def parseEnvelope (data : Bytes) (expectedRole : Nat) : Except Validation Envelope :=
  let header := Header.decode data
  if data.length < headerSize + signatureSize ∨ maximumMetadataBytes < data.length then .error .malformed
  else if header.magic ≠ ascii "ZRM1" ∨ header.schema ≠ schemaVersion ∨ header.role ≠ expectedRole ∨ header.version = 0 ∨
      header.bodySize = 0 ∨ header.signatureCount = 0 ∨ maximumSignatures < header.signatureCount ∨
      header.threshold = 0 ∨ header.signatureCount < header.threshold then .error .malformed
  else if header.reserved ≠ [0, 0, 0, 0] then .error .malformed
  else if headerSize + header.bodySize + header.signatureCount * signatureSize ≠ data.length then .error .malformed
  else if sha256 (slice data headerSize header.bodySize) ≠ header.bodySha256 then .error .digest
  else if header.expires ≤ minimumTrustedEpoch then .error .expired
  else .ok ⟨header, sha256 data, data.length⟩

def readEnvelope (path : Bytes) (expectedRole : Nat) : Verify Envelope := do
  let g ← ExceptT.lift Mach.get
  match g.metadataBuffer with
  | none => throw .storage
  | some buffer =>
    match ← ExceptT.lift (onDisk (Disk.readFile path maximumMetadataBytes)) with
    | none => throw .storage
    | some data => do
      ExceptT.lift (Mach.modify fun g => { g with metadataBuffer := some (overwrite buffer 0 data) })
      match parseEnvelope data expectedRole with
      | .error validation => throw validation
      | .ok envelope => pure envelope

/-- The body of a document, where its envelope says that it stands. -/
def Envelope.body (envelope : Envelope) : Verify Bytes := view headerSize envelope.header.bodySize

def Envelope.signatures (envelope : Envelope) : Verify (List Signature) := do
  let data ← view (headerSize + envelope.header.bodySize) (envelope.header.signatureCount * signatureSize)
  pure (records Signature.decode signatureSize data envelope.header.signatureCount)

def signedDigest (envelope : Envelope) : Verify Bytes := do
  let signed ← view 0 (headerSize + envelope.header.bodySize)
  pure (sha256 signed)

section Verifier
/- `rsa_pss::verify` of a signature, a digest and a modulus. -/
variable (verify : Bytes → Bytes → Bytes → Bool)

/-- The loop of `verify_threshold`; `accepted` are the ids of the keys whose signatures were counted. -/
def acceptSignatures (trust : RootTrust) (spec : RoleSpec) (digest : Bytes) : List Signature → List Bytes → List Bytes
  | [], accepted => accepted
  | signature :: rest, accepted =>
    if spec.ids.contains signature.keyId && !accepted.contains signature.keyId &&
        (findKey trust signature.keyId).any fun key => verify signature.bytes digest key.modulus then
      acceptSignatures trust spec digest rest (accepted ++ [signature.keyId])
    else acceptSignatures trust spec digest rest accepted

def verifyThreshold (envelope : Envelope) (trust : RootTrust) (role : Nat) : Verify Bool := do
  match findRole trust role with
  | none => pure false
  | some spec =>
    if spec.threshold = 0 ∨ spec.keyCount < spec.threshold ∨ 2 < spec.keyCount then pure false
    else do
      let digest ← signedDigest envelope
      let signatures ← envelope.signatures
      pure (spec.threshold ≤ (acceptSignatures verify trust spec digest signatures []).length)

/-! ### Roots -/

def keysValid : List KeyRecord → Bool
  | [] => true
  | key :: rest =>
    !(key.keyId.all (· = 0)) && 0x80 ≤ key.modulus.getD 0 0 && !(rest.any (·.keyId = key.keyId)) && keysValid rest

def roleValid (keys : List KeyRecord) (spec : RoleSpec) : Bool :=
  spec.role ≠ 0 && spec.role ≤ roleDelegated && spec.threshold ≠ 0 && spec.keyCount ≠ 0 && spec.keyCount ≤ 2 &&
    spec.threshold ≤ spec.keyCount && spec.reserved = 0 && spec.ids.all fun id => keys.any (·.keyId = id)

/-- `parse_root` of a body. -/
def parseRootBody (body : Bytes) (version : Nat) : Except Validation RootTrust :=
  let consistentSnapshot := toNat (slice body 0 4)
  let keyCount := toNat (slice body 4 4)
  let roleCount := toNat (slice body 8 4)
  let reserved := toNat (slice body 12 4)
  if body.length < 16 then .error .malformed
  else if consistentSnapshot = 0 ∨ keyCount = 0 ∨ maximumKeys < keyCount ∨ roleCount = 0 ∨ maximumRoles < roleCount ∨
      reserved ≠ 0 then .error .malformed
  else if 16 + keyCount * keyRecordSize + roleCount * roleSpecSize ≠ body.length then .error .malformed
  else
    let keys := records KeyRecord.decode keyRecordSize (body.drop 16) keyCount
    let roles := records RoleSpec.decode roleSpecSize (body.drop (16 + keyCount * keyRecordSize)) roleCount
    if keysValid keys && roles.all (roleValid keys) then .ok ⟨keys, roles, version⟩ else .error .malformed

def parseRoot (envelope : Envelope) : Verify RootTrust := do
  let body ← envelope.body
  match parseRootBody body envelope.header.version with
  | .error validation => throw validation
  | .ok trust => pure trust

/- `kZenRepoBootstrapRootModulus`. -/
variable (bootstrapRootModulus : Bytes)

/-- The root that is compiled into the kernel. -/
def compiledRoot : RootTrust :=
  ⟨[⟨bootstrapRootKeyId, bootstrapRootModulus⟩], [⟨roleRoot, 1, 1, 0, bootstrapRootKeyId ++ List.replicate 8 0⟩], 0⟩

def bootstrapRoot : Verify RootTrust := do
  let envelope ← readEnvelope (ascii "/repo/root-bootstrap.zrm") roleRoot
  require (envelope.header.version = 1) .rootSequence
  let signed ← verifyThreshold verify envelope (compiledRoot bootstrapRootModulus) roleRoot
  require signed .signature
  parseRoot envelope

def updateRoot (old : RootTrust) : Verify RootTrust := do
  let envelope ← readEnvelope (ascii "/repo/root.zrm") roleRoot
  require (envelope.header.version = (old.version + 1) % 2 ^ 32) .rootSequence
  let next ← parseRoot envelope
  let byOld ← verifyThreshold verify envelope old roleRoot
  require byOld .threshold
  let byNext ← verifyThreshold verify envelope next roleRoot
  require byNext .threshold
  pure next

def verifyRoleFile (path : Bytes) (role : Nat) (trust : RootTrust) : Verify Envelope := do
  let envelope ← readEnvelope path role
  let signed ← verifyThreshold verify envelope trust role
  require signed .signature
  pure envelope

/-! ### The chain -/

/-- The first reference of that name; an invalid name before it ends the search. -/
def searchReferences (name : Bytes) : List MetaReference → Option MetaReference
  | [] => none
  | reference :: rest =>
    if !fixedTextValid reference.name then none
    else if cstr reference.name = name then some reference
    else searchReferences name rest

/-- `find_reference` in a body. -/
def findReferenceIn (body name : Bytes) : Option MetaReference :=
  let metaCount := toNat (slice body 0 4)
  if body.length < 8 then none
  else if metaCount = 0 ∨ 8 < metaCount ∨ toNat (slice body 4 4) ≠ 0 ∨ 8 + metaCount * metaReferenceSize ≠ body.length then none
  else searchReferences name (records MetaReference.decode metaReferenceSize (body.drop 8) metaCount)

def findReference (envelope : Envelope) (name : Bytes) : Verify MetaReference := do
  let body ← envelope.body
  match findReferenceIn body name with
  | none => throw .reference
  | some reference => pure reference

def referenceMatches (reference : MetaReference) (envelope : Envelope) : Bool :=
  reference.version = envelope.header.version && reference.length = envelope.fileSize && reference.digest = envelope.fileDigest

def enforceRollback (persistent : State) (root targets delegated snapshot timestamp : Nat) : Bool :=
  persistent.root = 0 ||
    (persistent.root.toNat ≤ root && persistent.targets.toNat ≤ targets && persistent.delegated.toNat ≤ delegated &&
      persistent.snapshot.toNat ≤ snapshot && persistent.timestamp.toNat ≤ timestamp)

/-- The delegation that the top-level targets must hold. -/
def delegationValid (body : Bytes) (root : RootTrust) : Bool :=
  let delegation := Delegation.decode (body.drop 8)
  body.length = 8 + delegationSize && toNat (slice body 0 4) = 0 && toNat (slice body 4 4) = 1 &&
    fixedTextValid delegation.roleName && fixedTextValid delegation.pathPrefix &&
    cstr delegation.roleName = ascii "native-apps" && cstr delegation.pathPrefix = ascii "native/" &&
    delegation.threshold = 1 && delegation.terminating ≠ 0 && delegation.reserved = 0 &&
    (findRole root roleDelegated).any fun spec => spec.keyCount = 1 && slice spec.keyIds 0 8 = delegation.keyId

def targetValid (target : Target) : Bool :=
  fixedTextValid target.path && fixedTextValid target.name && fixedTextValid target.version &&
    fixedTextValid target.entrypoint && fixedTextValid target.readScope true && fixedTextValid target.writeScope true &&
    (ascii "native/").isPrefixOf target.path && target.packageLength ≠ 0 && target.payloadType ≠ 0 &&
    target.syscallMask ≤ capabilityAll &&
    decide (target.syscallMask &&& (capabilityFileRead ||| capabilityFileStat) ≠ 0) = decide (cstr target.readScope ≠ []) &&
    decide (target.syscallMask &&& capabilityFileWrite ≠ 0) = decide (cstr target.writeScope ≠ []) &&
    target.reserved0.all (· = 0)

/-- The loop over the targets; `output` are those before. -/
def collectTargets : List Target → List Target → Option (List Target)
  | [], output => some output
  | target :: rest, output =>
    if targetValid target && !(output.any fun prior => cstr target.path = cstr prior.path) then
      collectTargets rest (output ++ [target])
    else none

/-- The targets of the delegated document. -/
def delegatedTargets (body : Bytes) : Option (List Target) :=
  let targetCount := toNat (slice body 0 4)
  if body.length < 8 then none
  else if targetCount = 0 ∨ maximumTargets < targetCount ∨ toNat (slice body 4 4) ≠ 0 ∨
      8 + targetCount * targetSize ≠ body.length then none
  else collectTargets (records Target.decode targetSize (body.drop 8) targetCount) []

def verifyRepository : Verify (List Target × State) := do
  let rootV1 ← bootstrapRoot verify bootstrapRootModulus
  let rootV2 ← updateRoot verify rootV1
  let timestamp ← verifyRoleFile verify (ascii "/repo/timestamp.zrm") roleTimestamp rootV2
  let snapshotReference ← findReference timestamp (ascii "snapshot.zrm")
  let snapshot ← verifyRoleFile verify (ascii "/repo/snapshot.zrm") roleSnapshot rootV2
  require (referenceMatches snapshotReference snapshot) .reference
  let targetsReference ← findReference snapshot (ascii "targets.zrm")
  let delegatedReference ← findReference snapshot (ascii "native-apps.zrm")
  let targets ← verifyRoleFile verify (ascii "/repo/targets.zrm") roleTargets rootV2
  require (referenceMatches targetsReference targets) .reference
  let targetsBody ← targets.body
  require (delegationValid targetsBody rootV2) .delegation
  let delegated ← verifyRoleFile verify (ascii "/repo/native-apps.zrm") roleDelegated rootV2
  require (referenceMatches delegatedReference delegated) .reference
  let delegatedBody ← delegated.body
  match delegatedTargets delegatedBody with
  | none => throw .target
  | some output => do
    let g ← ExceptT.lift Mach.get
    require (enforceRollback g.persistentState rootV2.version targets.header.version delegated.header.version
      snapshot.header.version timestamp.header.version) .rollback
    pure (output, State.sealed { stateInitialize with
      root := UInt32.ofNat rootV2.version
      targets := UInt32.ofNat targets.header.version
      delegated := UInt32.ofNat delegated.header.version
      snapshot := UInt32.ofNat snapshot.header.version
      timestamp := UInt32.ofNat timestamp.header.version })

/-! ### The service -/

def persistState (next : State) : Mach Globals Bool := do
  let candidate := next.sealed
  if !(← onDisk (Disk.packageWriteFile statePath candidate.encode)) then pure false
  else if !(← onDisk Disk.syncMetadata) then pure false
  else
    match ← onDisk (Disk.readFile statePath stateSize) with
    | none => pure false
    | some data =>
      let confirmed := State.decode data
      if data.length ≠ stateSize ∨ !stateValid confirmed ∨ confirmed.checksum ≠ candidate.checksum then pure false
      else do
        Mach.modify fun g => { g with persistentState := confirmed }
        pure true

/-- `load_state`: whether the state is in order. -/
def loadState : Mach Globals Bool := do
  let g ← Mach.get
  match g.disk.query statePath with
  | none => persistState stateInitialize
  | some info =>
    if info.length ≠ stateSize then pure false
    else
      match ← onDisk (Disk.readFile statePath stateSize) with
      | none => pure false
      | some data => do
        let loaded := State.decode data
        Mach.modify fun g => { g with persistentState := loaded }
        pure (data.length = stateSize && stateValid loaded)

/-- `verify_candidate`: the targets, if they are accepted and, for a commit, recorded. -/
def verifyCandidate (commit : Bool) : Mach Globals (Option (List Target)) := do
  match ← (verifyRepository verify bootstrapRootModulus).run with
  | .error _ => pure none
  | .ok (candidate, next) =>
    if commit then
      if ← persistState next then pure (some candidate) else pure none
    else pure (some candidate)

def check : Mach Globals Bool := do
  let candidate ← verifyCandidate verify bootstrapRootModulus false
  pure candidate.isSome

def refresh : Mach Globals Bool := do
  match ← verifyCandidate verify bootstrapRootModulus true with
  | none => pure false
  | some candidate => do
    Mach.modify fun g => { g with activeTargets := candidate, ready := true }
    pure true

def init : Mach Globals Bool := do
  Mach.modify fun g => { g with ready := false, activeTargets := [] }
  let g ← Mach.get
  if !g.disk.mounted then pure false
  else do
    Mach.modify fun g => { g with metadataBuffer := some (List.replicate maximumMetadataBytes 0) }
    if ← loadState then refresh verify bootstrapRootModulus else pure false

end Verifier

/-! ### Looking targets up -/

/-- `find_target` among the active targets. -/
def findTarget (targets : List Target) (name version entrypoint : Bytes) (payloadType : UInt8) : Option Target :=
  targets.find? fun target =>
    cstr target.name = name && cstr target.version = version && cstr target.entrypoint = entrypoint &&
      target.payloadType = payloadType

end ZenovOS.Package.Repository

/-! ## Comparing the versions of packages

`lexical_compare`, `compare_release` and `latest_target` of `package_repository/runtime.inc`. The package
manager has a comparison of its own, `versionCompare`; the two read a release version in the same way. -/

namespace ZenovOS.Package.Repository
open Bytes

/-- The sign of a comparison of two bytes. -/
def compareBytes (a b : UInt8) : Int := if a < b then -1 else if b < a then 1 else 0

def lexicalCompare : Bytes → Bytes → Int
  | a :: left, b :: right => if a = b then lexicalCompare left right else compareBytes a b
  | left, right => compareBytes (left.headD 0) (right.headD 0)

def compareRelease (left right : Bytes) : Int :=
  match parseRelease left, parseRelease right with
  | some a, some b => compareComponents a b
  | _, _ => lexicalCompare left right

/-- The loop of `latest_target`. -/
def latestFrom (name : Bytes) : List Target → Option Target → Option Target
  | [], latest => latest
  | target :: rest, latest =>
    if cstr target.name ≠ name then latestFrom name rest latest
    else
      match latest with
      | none => latestFrom name rest (some target)
      | some old =>
        if 0 < compareRelease (cstr target.version) (cstr old.version) then latestFrom name rest (some target)
        else latestFrom name rest (some old)

/-- `latest_target` with the repository's globals. -/
def latestTarget (ready : Bool) (activeTargets : List Target) (name : Bytes) : Option Target :=
  if !ready || name = [] then none else latestFrom name activeTargets none

end ZenovOS.Package.Repository
