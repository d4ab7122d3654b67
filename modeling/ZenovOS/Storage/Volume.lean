import ZenovOS.Storage.Layout
import ZenovOS.Storage.Path
import ZenovOS.Storage.Result

/-! # The block device and the globals of ZenovFS

`BlockDevice` with `block_device_read` and `block_device_write`, and the file system's globals. What the
driver behind the device does with each request is not ours to choose, so it is an input: a list of
outcomes, one for each request, after which every request succeeds. A sector write happens as a whole
or not at all, and a request that reports a failure may still have written its sector. -/

namespace ZenovOS.Storage
open Bytes

/-- What the driver does with one request. -/
inductive Outcome
  /-- The request returns; `landed` says whether a write that reports a failure changed its sector. -/
  | returns (result : BlockResult) (landed : Bool)
  /-- The power is cut during the request, with the sector written or not. -/
  | cut (landed : Bool)
  deriving DecidableEq

/-- The request succeeds. -/
def Outcome.passes : Outcome := .returns (blockSuccess .none 0) true

structure BlockDevice where
  present : Bool
  writable : Bool
  sectors : Nat
  disk : Nat → Sector
  outcomes : List Outcome

/-- The globals of `storage_zenovfs_core.inc`. `fileBuffer` says whether the file buffer is allocated;
    `accessed` is a record for the specification only, the stored paths of the entries that were read
    or replaced. -/
structure Volume where
  ata0 : BlockDevice
  zfsSuper : ZfsSuperblock
  zfsEntries : Nat → ZfsEntry
  zfsMounted : Bool
  currentDirectory : Bytes
  fileBuffer : Bool
  accessed : List Bytes

namespace Volume

def setSector (v : Volume) (lba : Nat) (s : Sector) : Volume :=
  { v with ata0 := { v.ata0 with disk := Function.update v.ata0.disk lba s } }

def setOutcomes (v : Volume) (outcomes : List Outcome) : Volume :=
  { v with ata0 := { v.ata0 with outcomes } }

def setEntry (v : Volume) (index : Nat) (e : ZfsEntry) : Volume :=
  { v with zfsEntries := Function.update v.zfsEntries index e }

def record (v : Volume) (e : ZfsEntry) : Volume :=
  { v with accessed := if e.used = 0 then v.accessed else v.accessed ++ [e.name] }

end Volume

/-! ### Sector requests -/

def readSector (lba : Nat) : Mach Volume (Except BlockResult Sector) := fun v =>
  match v.ata0.outcomes with
  | [] => (some (.ok (v.ata0.disk lba)), v)
  | .returns result _ :: rest =>
    (some (if result.ok then .ok (v.ata0.disk lba) else .error result), v.setOutcomes rest)
  | .cut _ :: rest => (none, v.setOutcomes rest)

def writeSector (lba : Nat) (s : Sector) : Mach Volume BlockResult := fun v =>
  match v.ata0.outcomes with
  | [] => (some (blockSuccess .write lba), v.setSector lba s)
  | .returns result landed :: rest =>
    (some result, if result.ok || landed then (v.setSector lba s).setOutcomes rest else v.setOutcomes rest)
  | .cut landed :: rest => (none, if landed then (v.setSector lba s).setOutcomes rest else v.setOutcomes rest)

def zfsReadSector (lba : Nat) : Mach Volume (Except BlockResult Sector) := do
  let v ← Mach.get
  if !v.ata0.present then pure (.error (blockResult .read .noDevice lba))
  else if v.ata0.sectors ≤ lba then pure (.error (blockResult .read .outOfRange lba))
  else readSector lba

def zfsWriteSector (lba : Nat) (s : Sector) : Mach Volume BlockResult := do
  let v ← Mach.get
  if !v.ata0.present then pure (blockResult .write .noDevice lba)
  else if !v.ata0.writable then pure (blockResult .write .readOnly lba)
  else if v.ata0.sectors ≤ lba then pure (blockResult .write .outOfRange lba)
  else writeSector lba s

/-! ### Looking entries up -/

/-- The entries a path can name. -/
def ZfsEntry.visible (e : ZfsEntry) : Bool := e.used ≠ 0 && e.type ≠ zfsTypeTransaction

namespace Volume

def findEntry (v : Volume) (path : Bytes) : Option Nat :=
  (List.range (min v.zfsSuper.entries zfsMaxEntries)).find? fun i =>
    (v.zfsEntries i).visible && (v.zfsEntries i).name = path

def freeEntry (v : Volume) (excluded : Option Nat) : Option Nat :=
  (List.range (min v.zfsSuper.entries zfsMaxEntries)).find? fun i =>
    some i ≠ excluded && (v.zfsEntries i).used = 0

def parentExists (v : Volume) (path : Bytes) : Bool :=
  match parentPath path with
  | none => true
  | some parent =>
    parent = root ||
      match v.findEntry parent with
      | none => false
      | some index => (v.zfsEntries index).type = zfsTypeDirectory

def hasChildren (v : Volume) (path : Bytes) : Bool :=
  (List.range v.zfsSuper.entries).any fun i =>
    (v.zfsEntries i).visible && path.isPrefixOf (v.zfsEntries i).name &&
      (v.zfsEntries i).charAt path.length = slash && (v.zfsEntries i).charAt (path.length + 1) ≠ 0

end Volume
end ZenovOS.Storage
