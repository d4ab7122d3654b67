import ZenovOS.Security.AuditImage

/-! # The audit journal in memory

`initialize_empty`, `append_to`, `init` and `append` of `security_audit.inc` as they work on the journal in memory: `append_to`
writes in place, and `append` puts back what it saved when something fails. -/

namespace ZenovOS.Security.Audit
open Bytes Storage

/-- The text that a `const char*` points to, without its terminator. -/
structure CString where
  text : Bytes
  ended : 0 ∉ text
  deriving DecidableEq

def zeroRecord : DiskRecord :=
  ⟨0, 0, 0, 0, 0, Block.of [], Block.of [], Block.of [], Block.of []⟩

/-- `initialize_empty` of any journal. -/
def emptyImage : Image where
  header :=
    { magic := Block.of (ascii "ZGAL")
      schema := schemaVersion
      headerSize := 96
      recordSize := 128
      capacity := 64
      count := 0
      nextIndex := 0
      nextSequence := 1
      anchorHash := Block.of []
      headHash := Block.of []
      reserved := Block.of [] }
  records _ := zeroRecord

def Image.setRecord (j : Image) (index : Fin diskCapacity) (record : DiskRecord) : Image :=
  { j with records := fun i => if i = index then record else j.records i }

/-- The slot of the next record. -/
def Image.nextSlot (j : Image) : Fin diskCapacity := Fin.ofNat diskCapacity j.header.nextIndex.toNat

/-- The arguments of `append_to` and `append`. -/
structure Arguments where
  tick : UInt32
  action : UInt8
  verdict : UInt8
  path : Option CString
  digest : Option (Block 32)

/-- The anchor takes the hash of the record that is overwritten. -/
def Image.moveAnchor (j : Image) : Image :=
  if j.header.count = 64 then { j with header := { j.header with anchorHash := (j.records j.nextSlot).recordHash } } else j

/-- `append_to`: what it leaves, and whether it returns true. A path that is too long has been copied as far as it goes. -/
def appendInPlace (target : Image) (arguments : Arguments) : Image × Bool :=
  match arguments.path, arguments.digest with
  | some path, some digest =>
    if target.header.nextSequence = 0xFFFFFFFF ∨ path.text = [] then (target, false)
    else
      let index := target.nextSlot
      let target := target.moveAnchor
      let record := { zeroRecord with
        sequence := target.header.nextSequence
        tick := arguments.tick
        action := arguments.action
        verdict := arguments.verdict }
      match pathCopy path.text 48 with
      | none => (target.setRecord index { record with path := Block.of (path.text.take 47) }, false)
      | some text =>
        let record := { record with path := Block.of text, pathLength := UInt16.ofNat text.length, digest }
        let record := { record with recordHash := record.hash target.header.headHash }
        let header := target.header
        ({ target.setRecord index record with
          header := { header with
            count := if header.count < 64 then header.count + 1 else header.count
            nextIndex := (header.nextIndex + 1) % 64
            nextSequence := header.nextSequence + 1
            headHash := record.recordHash } }, true)
  | _, _ => (target, false)

/-- The globals of `security_audit`, and the file system. -/
structure JournalState (σ : Type) where
  journal : Image
  ready : Bool
  replayed : Bool
  persistentAppends : UInt32
  disk : σ

section Disk
variable {σ : Type} (exists_ : σ → Bool) (readFile : σ → Image → Image × Bool) (writeFile : Image → σ → σ × Bool)

/-- `init` after its self-test, which uses another journal. `readFile` is what a read of the journal's file leaves in the journal,
    and whether it has read a whole one. -/
def init (s : JournalState σ) : JournalState σ × Bool :=
  let s := { s with ready := false, replayed := false, persistentAppends := 0 }
  if !exists_ s.disk then
    let s := { s with journal := emptyImage }
    match writeFile s.journal s.disk with
    | (disk, false) => ({ s with disk }, false)
    | (disk, true) => ({ s with disk, ready := true }, true)
  else
    match readFile s.disk s.journal with
    | (journal, false) => ({ s with journal }, false)
    | (journal, true) =>
      if !verify journal then ({ s with journal }, false)
      else ({ s with journal, replayed := journal.header.count ≠ 0, ready := true }, true)

/-- `append`, which saves the header and the record of the next slot. -/
def appendRestoring (s : JournalState σ) (arguments : Arguments) : JournalState σ × Bool :=
  if !s.ready then (s, false)
  else
    let previousHeader := s.journal.header
    let index := s.journal.nextSlot
    let previousRecord := s.journal.records index
    let failed := fun (s : JournalState σ) =>
      ({ s with journal := { s.journal.setRecord index previousRecord with header := previousHeader }, ready := false }, false)
    match appendInPlace s.journal arguments with
    | (journal, false) => failed { s with journal }
    | (journal, true) =>
      match writeFile journal s.disk with
      | (disk, false) => failed { s with journal, disk }
      | (disk, true) => ({ s with journal, disk, persistentAppends := s.persistentAppends + 1 }, true)

end Disk
end ZenovOS.Security.Audit
