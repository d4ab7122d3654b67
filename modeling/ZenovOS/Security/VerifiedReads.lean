import ZenovOS.Security.Guard

/-! # Verified reads

`zvrt_policy.inc` as a read uses it: files with a record of the manifest must have its size, digest and
Merkle root. -/

namespace ZenovOS.Security
open Bytes Storage

namespace Zvrt

abbrev chunkBytes : Nat := 4096
abbrev maxLeaves : Nat := 16

structure Record where
  path : Bytes
  fileSize : Nat
  leafCount : Nat
  merkleRoot : Bytes
  fileSha256 : Bytes
  deriving DecidableEq

/-- The globals of `zvrt` that a read uses. -/
structure State where
  ready : Bool
  activeRecords : List Record
  deriving DecidableEq

/-- `find_record`: the normalised path, and its record. -/
def findRecord (z : State) (currentDirectory input : Bytes) : Option (Bytes × Record) := do
  let normalized ← normalizePath currentDirectory input
  let record ← z.activeRecords.find? fun r => normalized = r.path
  some (normalized, record)

/-! ### The Merkle tree -/

def leafDigest (path : Bytes) (fileSize index : Nat) (data : Bytes) : Bytes :=
  let pathLength := path.length % 256
  sha256Final ([[0], [UInt8.ofNat pathLength], path.take pathLength, le 4 fileSize, le 4 index, le 4 data.length,
    data].foldl sha256Update sha256Init)

def parentDigest (left right : Bytes) : Bytes :=
  sha256Final ([[1], left, right].foldl sha256Update sha256Init)

/-- One round of the loop over `count` nodes, which overwrites the first half of them. -/
def mergeLevel (count : Nat) (nodes : List Bytes) : List Bytes :=
  (List.range ((count + 1) / 2)).foldl (fun nodes i =>
    let left := i * 2
    let right := if left + 1 < count then left + 1 else left
    nodes.set i (parentDigest (nodes.getD left []) (nodes.getD right []))) nodes

/-- The rounds until one node is left; `rounds` bounds them. -/
def mergeLevels : Nat → Nat → List Bytes → List Bytes
  | 0, _, nodes => nodes
  | rounds + 1, count, nodes =>
    if count ≤ 1 then nodes else mergeLevels rounds ((count + 1) / 2) (mergeLevel count nodes)

def computeRoot (path data : Bytes) (expectedLeaves : Nat) : Option Bytes :=
  if data = [] ∨ expectedLeaves = 0 ∨ maxLeaves < expectedLeaves ∨
      expectedLeaves ≠ (data.length + chunkBytes - 1) / chunkBytes then none
  else
    let nodes := (List.range expectedLeaves).map fun index =>
      leafDigest path data.length index (slice data (index * chunkBytes) chunkBytes)
    (mergeLevels maxLeaves expectedLeaves nodes).head?

/-! ### Reads -/

/-- Why the content of a file with a record is not the recorded one. -/
def mismatch (z : State) (normalized data : Bytes) (record : Record) : Option Bytes :=
  if !z.ready then some (ascii "policy-not-ready")
  else if data.length ≠ record.fileSize then some (ascii "size")
  else if sha256 data ≠ record.fileSha256 then some (ascii "file-digest")
  else if computeRoot normalized data record.leafCount ≠ some record.merkleRoot then some (ascii "merkle-root")
  else none

/-- `record_failure`. -/
def recordFailure (normalized data : Bytes) : Mach GuardState Bool :=
  recordEvent .readBlock ⟨.untrusted, normalized, sha256 data⟩

def verifyRead (z : State) (input data : Bytes) : Mach GuardState Bool := do
  let s ← Mach.get
  match findRecord z s.volume.currentDirectory input with
  | none => pure true
  | some (normalized, record) =>
    match mismatch z normalized data record with
    | none => pure true
    | some _ => do
      let _ ← recordFailure normalized data
      pure false

/-- `missing_read`. -/
def missingRead (z : State) (input : Bytes) : Mach GuardState Bool := do
  let s ← Mach.get
  match findRecord z s.volume.currentDirectory input with
  | none => pure true
  | some (normalized, _) => do
    let _ ← recordFailure normalized []
    pure false

end Zvrt

/-! ### On-access scanning -/

/-- `on_access_excluded`. -/
def onAccessExcluded (normalized : Bytes) : Bool :=
  let below := fun directory => normalized = ascii directory || (ascii (directory ++ "/")).isPrefixOf normalized
  below "/security" || below "/repo" || below "/var/lib/zenpkg" || below "/quarantine"

def allowPersistentRead (path data : Bytes) : Mach GuardState Bool := do
  let s ← Mach.get
  match normalizePath s.volume.currentDirectory path with
  | none => pure false
  | some normalized =>
    if !s.audit.enforcementReady || !s.zmidReady then pure false
    else if onAccessExcluded normalized then pure true
    else
      let result := scanMemory s normalized data
      if result.verdict = .infected then do
        let _ ← recordEvent .readBlock result
        pure false
      else if result.verdict = .suspicious then recordEvent .readAudit result
      else pure true

end ZenovOS.Security
