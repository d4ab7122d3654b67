import ZenovOS.Security.Sha256
import ZenovOS.Storage.Path

/-! # The audit journal

`security_audit.inc`: a ring of 64 hash-chained records in memory, written as a whole to the journal file
with every event. -/

namespace ZenovOS.Security
open Bytes

inductive Verdict
  | clean
  | trusted
  | untrusted
  | suspicious
  | infected
  | error
  deriving DecidableEq

inductive AuditAction
  | boot
  | scan
  | execute
  | quarantine
  | writeBlock
  | intelligenceUpdate
  | ransomware
  | ransomwarePolicy
  | readBlock
  | readAudit
  deriving DecidableEq

/-- The number of an enumerator. -/
def Verdict.code (v : Verdict) : UInt8 := UInt8.ofNat v.ctorIdx

def AuditAction.code (a : AuditAction) : UInt8 := UInt8.ofNat a.ctorIdx

namespace Audit

abbrev diskCapacity : Nat := 64

instance : NeZero diskCapacity := ⟨by decide⟩

def journalPath : Bytes := ascii "/security/zenovguard.audit"

/-- A character array of `n` bytes that holds `text`. -/
def field (n : Nat) (text : Bytes) : Bytes := text ++ List.replicate (n - text.length) 0

structure Record where
  sequence : Nat
  tick : Nat
  action : UInt8
  verdict : UInt8
  path : Bytes
  digest : Bytes
  recordHash : Bytes
  deriving DecidableEq

/-- `Header` and the records, without the header's constants. -/
structure Journal where
  count : Nat
  nextIndex : Nat
  nextSequence : Nat
  anchorHash : Bytes
  headHash : Bytes
  records : List Record
  deriving DecidableEq

def emptyRecord : Record := ⟨0, 0, 0, 0, [], List.replicate 32 0, List.replicate 32 0⟩

/-- `initialize_empty`. -/
def initializeEmpty : Journal :=
  ⟨0, 0, 1, List.replicate 32 0, List.replicate 32 0, List.replicate diskCapacity emptyRecord⟩

def Record.encode (r : Record) : Bytes :=
  le 4 r.sequence ++ le 4 r.tick ++ [r.action, r.verdict] ++ le 2 r.path.length ++ field 48 r.path ++ r.digest ++
    r.recordHash ++ List.replicate 4 0

/-- The bytes of the whole journal, as they stand in its file. -/
def Journal.encode (j : Journal) : Bytes :=
  ascii "ZGAL" ++ le 2 1 ++ le 2 96 ++ le 2 128 ++ le 2 diskCapacity ++ le 4 j.count ++ le 4 j.nextIndex ++
    le 4 j.nextSequence ++ j.anchorHash ++ j.headHash ++ List.replicate 8 0 ++ j.records.flatMap Record.encode

def hashRecord (r : Record) (previousHash : Bytes) : Bytes :=
  let domain := ascii "ZENOV-AUDIT-V1" ++ [0, 0]
  let metadata := le 4 r.sequence ++ le 4 r.tick ++ [r.action, r.verdict] ++ le 2 r.path.length
  sha256Final ([domain, previousHash, metadata, field 48 r.path, r.digest].foldl sha256Update sha256Init)

/-- `append_to`; a refused record leaves the journal to the caller, which restores it. -/
def appendTo (target : Journal) (tick : Nat) (action verdict : UInt8) (path digest : Bytes) : Option Journal :=
  if target.nextSequence = 0xFFFFFFFF ∨ path = [] then none
  else do
    let index := target.nextIndex
    let anchorHash :=
      if target.count = diskCapacity then (target.records.getD index emptyRecord).recordHash else target.anchorHash
    let stored ← Storage.pathCopy path 48
    let open_ : Record := ⟨target.nextSequence, tick, action, verdict, stored, digest, List.replicate 32 0⟩
    let record := { open_ with recordHash := hashRecord open_ target.headHash }
    some {
      count := if target.count < diskCapacity then target.count + 1 else target.count
      nextIndex := (index + 1) % diskCapacity
      nextSequence := target.nextSequence + 1
      anchorHash
      headHash := record.recordHash
      records := target.records.set index record }

end Audit

/-- The globals of `security_audit` and `security_guard::enforcement_ready`. -/
structure AuditState where
  journal : Audit.Journal
  ready : Bool
  enforcementReady : Bool

namespace Audit

/-- `security_audit::append`, in a program whose store holds the globals at `audit` and whose file system
    is `writeFile`. -/
def append {σ : Type} (audit : σ → AuditState) (setAudit : σ → AuditState → σ) (writeFile : Bytes → Bytes → Mach σ Bool)
    (tick : Nat) (action verdict : UInt8) (path digest : Bytes) : Mach σ Bool := do
  let a := audit (← Mach.get)
  if !a.ready then pure false
  else
    match appendTo a.journal tick action verdict path digest with
    | none => do
      Mach.modify fun s => setAudit s { audit s with ready := false }
      pure false
    | some journal => do
      if ← writeFile journalPath journal.encode then
        Mach.modify fun s => setAudit s { audit s with journal }
        pure true
      else
        Mach.modify fun s => setAudit s { audit s with ready := false }
        pure false

/-- `security_guard::record`, without the log in memory that only the console reads. -/
def record {σ : Type} (audit : σ → AuditState) (setAudit : σ → AuditState → σ) (writeFile : Bytes → Bytes → Mach σ Bool)
    (tick : Nat) (action : AuditAction) (verdict : Verdict) (path digest : Bytes) : Mach σ Bool := do
  let path := if path = [] then ascii "<memory>" else path
  if ← append audit setAudit writeFile tick action.code verdict.code path digest then pure true
  else
    Mach.modify fun s => setAudit s { audit s with enforcementReady := false }
    pure false

end Audit
end ZenovOS.Security
