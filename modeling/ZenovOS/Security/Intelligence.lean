import ZenovOS.Security.Inspection
import ZenovOS.Security.PolicyTransaction

/-! # Malware intelligence

`zmid_policy.inc`, `zmid_policy_transactional.inc` and `zmid_content_policy.inc`: the signed database of hash
and pattern rules, the classification of a content by its raw bytes and then by what inspection makes of
them, and the cache of earlier answers. -/

namespace ZenovOS.Security.Intelligence
open Bytes Inspection

/-! ### The database -/

abbrev schemaVersion : Nat := 1
abbrev engineVersion : Nat := 0x00000101
abbrev signatureBytes : Nat := 256
abbrev maxDatabaseBytes : Nat := 16 * 1024
abbrev maxRecords : Nat := 32
abbrev maxPatternBytes : Nat := 32
abbrev headerBytes : Nat := 64
abbrev recordBytes : Nat := 96

def actionBlock : UInt8 := 1
def actionQuarantine : UInt8 := 2
def actionAudit : UInt8 := 4

inductive RecordType
  | hash
  | pattern
  deriving DecidableEq

structure Record where
  type : RecordType
  action : UInt8
  value : Bytes
  name : Bytes
  deriving DecidableEq

/-- The action includes to block. -/
def Record.blocks (r : Record) : Bool := r.action &&& actionBlock ≠ 0

/-- `Record` as it stands in the file. -/
structure DiskRecord where
  type : UInt8
  action : UInt8
  valueLength : Nat
  value : Bytes
  name : Bytes
  reserved : Bytes

def DiskRecord.decode (b : Bytes) : DiskRecord where
  type := b.getD 0 0
  action := b.getD 1 0
  valueLength := toNat (slice b 2 2)
  value := slice b 4 32
  name := slice b 36 48
  reserved := slice b 84 12

/-- A string that is not empty, ends before the end of its array, and is followed by zeros only. -/
def canonicalName (value : Bytes) : Bool :=
  let length := (cstr value).length
  length ≠ 0 && length ≠ value.length && (value.drop length).all (· = 0)

def recordValid (r : DiskRecord) : Bool :=
  if (r.type ≠ 1 ∧ r.type ≠ 2) ∨ r.action = 0 ∨ r.action &&& ~~~7 ≠ 0 ∨ !canonicalName r.name then false
  else if (r.type = 1 ∧ r.valueLength ≠ 32) ∨ (r.type = 2 ∧ (r.valueLength = 0 ∨ maxPatternBytes < r.valueLength)) then false
  else (r.value.drop r.valueLength).all (· = 0) && r.reserved.all (· = 0)

def DiskRecord.load (r : DiskRecord) : Record :=
  ⟨if r.type = 1 then .hash else .pattern, r.action, r.value.take r.valueLength, cstr r.name⟩

/-- The same value under the same type. -/
def DiskRecord.Repeats (r previous : DiskRecord) : Prop :=
  r.type = previous.type ∧ r.valueLength = previous.valueLength ∧
    r.value.take r.valueLength = previous.value.take r.valueLength

instance (r previous : DiskRecord) : Decidable (r.Repeats previous) :=
  inferInstanceAs (Decidable (_ ∧ _ ∧ _))

def recordsValid (records : List DiskRecord) : Bool :=
  records.all recordValid && records.Pairwise fun previous r => ¬r.Repeats previous

structure Header where
  magic : Bytes
  schema : Nat
  headerSize : Nat
  databaseVersion : Nat
  minimumEngine : Nat
  recordCount : Nat
  payloadSize : Nat
  payloadSha256 : Bytes
  keyId : Bytes

def Header.decode (b : Bytes) : Header where
  magic := slice b 0 4
  schema := toNat (slice b 4 2)
  headerSize := toNat (slice b 6 2)
  databaseVersion := toNat (slice b 8 4)
  minimumEngine := toNat (slice b 12 4)
  recordCount := toNat (slice b 16 4)
  payloadSize := toNat (slice b 20 4)
  payloadSha256 := slice b 24 32
  keyId := slice b 56 8

def rootKeyId : Bytes := [0x6c, 0xa6, 0xa5, 0x27, 0x55, 0x44, 0xc5, 0x33]

def diskRecords (data : Bytes) (count : Nat) : List DiskRecord :=
  (List.range count).map fun i => DiskRecord.decode (slice data (headerBytes + i * recordBytes) recordBytes)

/-- `validate`: the version and the records of a database, when it is good and not older than the minimum.
    `pssVerify` is the RSA-PSS check of a signature against a digest under the root key. -/
def validate (pssVerify : Bytes → Bytes → Bool) (data : Bytes) (minimumVersion : Nat) : Option (Nat × List Record) :=
  if data.length < headerBytes + signatureBytes ∨ maxDatabaseBytes < data.length then none
  else
    let header := Header.decode data
    if header.magic ≠ ascii "ZMID" ∨ header.schema ≠ schemaVersion ∨ header.headerSize ≠ headerBytes ∨
        header.recordCount = 0 ∨ maxRecords < header.recordCount ∨ header.payloadSize ≠ header.recordCount * recordBytes ∨
        headerBytes + header.payloadSize + signatureBytes ≠ data.length then none
    else if engineVersion < header.minimumEngine then none
    else if header.keyId ≠ rootKeyId then none
    else if sha256 (slice data headerBytes header.payloadSize) ≠ header.payloadSha256 then none
    else if !pssVerify (data.drop (data.length - signatureBytes)) (sha256 (data.take (data.length - signatureBytes))) then none
    else if header.databaseVersion < minimumVersion then none
    else
      let records := diskRecords data header.recordCount
      if !recordsValid records then none else some (header.databaseVersion, records.map DiskRecord.load)

/-! ### Classification -/

/-- The fields of `ScanResult` that a classification sets. -/
structure ScanResult where
  verdict : Verdict
  policyAction : UInt8
  signature : Bytes
  deriving DecidableEq

/-- `ScanResult{}`. -/
def ScanResult.fresh : ScanResult := ⟨.error, 0, []⟩

/-- `pattern_matches`. -/
def patternMatches (data pattern : Bytes) : Bool :=
  pattern ≠ [] && (List.range (data.length + 1 - pattern.length)).any fun offset => slice data offset pattern.length = pattern

def Record.matches (r : Record) (data digest : Bytes) : Bool :=
  match r.type with
  | .hash => digest = r.value
  | .pattern => patternMatches data r.value

/-- `classify_raw` of a database that is ready: the first record that matches decides. -/
def classifyRaw (records : List Record) (data digest : Bytes) : Option ScanResult :=
  (records.find? (·.matches data digest)).map fun r => ⟨if r.blocks then .infected else .suspicious, r.action, r.name⟩

/-- `compose_signature`. -/
def composeSignature (layer signature : Bytes) : Bytes :=
  (layer ++ ascii ":" ++ (if signature = [] then ascii "Matched" else signature)).take 47

/-- `classify_decoded` and `copy_match`. -/
def classifyView (records : List Record) (view : View) : Option Match :=
  (classifyRaw records view.data (sha256 view.data)).map fun inner =>
    ⟨inner.verdict, inner.policyAction, composeSignature view.layer.name inner.signature⟩

/-- The buffers are wiped before they are mapped for an inspection. -/
def wipedWorkspace : Workspace := fun _ _ => 0

/-- The inspection of a content by a classifier: the views that it reaches, and how it ends. -/
def inspectContent (classifier : View → Option Match) (path data : Bytes) : List View × Except Stop (Unit × Workspace) :=
  inspectPayload maxArchiveDepth ⟨.content, data.length⟩ .a (some .b) ⟨path, data, classifier⟩ wipedWorkspace

/-- What `classify` makes of the end of an inspection. -/
def inspectionAnswer (stop : Except Stop (Unit × Workspace)) (result : ScanResult) : Bool × ScanResult :=
  match stop with
  | .ok _ => (false, result)
  | .error .unsupported => (true, { result with verdict := .suspicious, signature := ascii "Container.Unsupported" })
  | .error (.matched m) => (true, ⟨m.verdict, m.policyAction, m.signature⟩)

/-! ### The cache -/

abbrev cacheCapacity : Nat := 16

structure CacheEntry where
  valid : Bool
  isMatch : Bool
  databaseVersion : Nat
  pathContext : Bytes
  digest : Bytes
  verdict : Verdict
  action : UInt8
  signature : Bytes
  deriving DecidableEq

/-- `CacheEntry{}`. -/
def CacheEntry.empty : CacheEntry := ⟨false, false, 0, [], List.replicate 32 0, .error, 0, []⟩

/-- The files and globals of the policy transaction, the active records, the cache, and whether the work
    buffers can be mapped. -/
structure IntelligenceState where
  policy : PolicyState
  activeRecords : List Record
  cache : List CacheEntry
  cacheNext : Nat
  workspaceMapped : Bool

namespace IntelligenceState

def ready (s : IntelligenceState) : Bool := (s.policy.managers .zmid).ready

def activeDatabaseVersion (s : IntelligenceState) : Nat := (s.policy.managers .zmid).activeVersion

end IntelligenceState

/-- What `path_copy` leaves in a zeroed array of 48 characters, also when it fails. -/
def pathField (path : Bytes) : Bytes := path.take 47

def pathContextEqual (stored path : Bytes) : Bool := stored.length < 48 && stored = path

def cacheLookup (s : IntelligenceState) (path digest : Bytes) : Option CacheEntry :=
  s.cache.find? fun entry =>
    entry.valid && entry.databaseVersion = s.activeDatabaseVersion && pathContextEqual entry.pathContext path &&
      entry.digest = digest

/-- The answer that a cached entry gives. -/
def CacheEntry.answer (entry : CacheEntry) (result : ScanResult) : Bool × ScanResult :=
  if entry.isMatch then (true, ⟨entry.verdict, entry.action, entry.signature⟩) else (false, result)

/-- The entry for an answer. -/
def newEntry (version : Nat) (path digest : Bytes) (answer : Bool × ScanResult) : CacheEntry :=
  let entry : CacheEntry := ⟨true, answer.1, version, pathField path, digest, .error, 0, []⟩
  if answer.1 then
    { entry with verdict := answer.2.verdict, action := answer.2.policyAction, signature := answer.2.signature }
  else entry

def cacheStore (s : IntelligenceState) (path digest : Bytes) (answer : Bool × ScanResult) : IntelligenceState :=
  { s with
    cache := s.cache.set (s.cacheNext % cacheCapacity) (newEntry s.activeDatabaseVersion path digest answer)
    cacheNext := (s.cacheNext + 1) % 2 ^ 32 }

def clearCache (s : IntelligenceState) : IntelligenceState :=
  { s with cache := List.replicate cacheCapacity CacheEntry.empty, cacheNext := 0 }

/-! ### The service -/

/-- `zmid::classify` behind the raw match and the size limit, without the cache. -/
def inspectAnswer (s : IntelligenceState) (path data : Bytes) (result : ScanResult) : Bool × ScanResult :=
  inspectionAnswer (inspectContent (classifyView s.activeRecords) path data).2 result

/-- `zmid::classify`; `digest` is the SHA-256 of the data. -/
def classify (path data digest : Bytes) (result : ScanResult) (s : IntelligenceState) :
    (Bool × ScanResult) × IntelligenceState :=
  if !s.ready then ((false, result), s)
  else
    match classifyRaw s.activeRecords data digest with
    | some hit => ((true, hit), s)
    | none =>
      if workspaceBytes < data.length then
        ((true, { result with verdict := .suspicious, signature := ascii "Inspection.SizeLimit" }), s)
      else
        match cacheLookup s path digest with
        | some entry => (entry.answer result, s)
        | none =>
          if !s.workspaceMapped then
            ((true, { result with verdict := .suspicious, signature := ascii "Inspection.Workspace" }), s)
          else
            let answer := inspectAnswer s path data result
            (answer, cacheStore s path digest answer)

/-- `zmid::update`: the transaction, and when it has committed the new records and an empty cache.
    `candidate_records` then holds the records of the database that was read back from its file. -/
def update (pssVerify : Bytes → Bytes → Bool) (candidatePath : Bytes) (tick : Nat) : Mach IntelligenceState Bool := do
  let verify := fun data minimum => (validate pssVerify data minimum).map fun (version, records) => (version, records.length)
  let updated ← Mach.zoom IntelligenceState.policy (fun s policy => { s with policy }) ((zmid verify).update candidatePath tick)
  if updated then
    Mach.modify fun s =>
      let committed := (s.policy.files zmidDescriptor.livePath).getD []
      clearCache { s with activeRecords := ((validate pssVerify committed 0).map (·.2)).getD [] }
    pure true
  else pure false

end ZenovOS.Security.Intelligence
