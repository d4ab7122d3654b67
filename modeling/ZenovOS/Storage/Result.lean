import Mathlib.Tactic.Ring

/-! # Results of block and file system operations

`storage_block_result.inc` and `storage_fs_result.inc`. -/

namespace ZenovOS.Storage

inductive BlockOperation
  | none | identify | read | write | flush | reset
  deriving DecidableEq, Repr

inductive BlockStatus
  | ok | noDevice | invalidArgument | outOfRange | readOnly | timeoutBusy | timeoutDrq | deviceFault
  | commandAborted | idNotFound | uncorrectable | interfaceCrc | deviceError | resetFailed
  deriving DecidableEq, Repr

structure BlockResult where
  operation : BlockOperation
  status : BlockStatus
  lba : Nat
  attempts : UInt8
  statusRegister : UInt8
  errorRegister : UInt8
  deriving DecidableEq, Repr

def BlockResult.ok (r : BlockResult) : Bool := r.status = .ok

def blockResult (operation : BlockOperation) (status : BlockStatus) (lba : Nat) : BlockResult :=
  ⟨operation, status, lba, 0, 0, 0⟩

def blockSuccess (operation : BlockOperation) (lba : Nat) (attempts : UInt8 := 1) : BlockResult :=
  ⟨operation, .ok, lba, attempts, 0, 0⟩

inductive FsOperation
  | none | mount | recover | read | write | sync | query | create | remove | rename | copy
  deriving DecidableEq, Repr

inductive FsStatus
  | ok | recoveryPending | notMounted | invalidArgument | invalidPath | notFound | wrongType | alreadyExists
  | parentMissing | directoryNotEmpty | bufferTooSmall | noSpace | readOnly | checksumMismatch
  | permissionDenied | metadataCorrupt | ioError
  deriving DecidableEq, Repr

structure FsResult where
  operation : FsOperation
  status : FsStatus
  bytes : Nat
  block : BlockResult
  deriving DecidableEq, Repr

def FsResult.ok (r : FsResult) : Bool := r.status = .ok || r.status = .recoveryPending

def fsResult (operation : FsOperation) (status : FsStatus) (bytes : Nat) (block : BlockResult) : FsResult :=
  ⟨operation, status, bytes, block⟩

def fsSuccess (operation : FsOperation) (bytes : Nat := 0) : FsResult :=
  fsResult operation .ok bytes (blockSuccess .none 0 0)

def fsRecoveryPending (operation : FsOperation) (bytes : Nat) (block : BlockResult) : FsResult :=
  fsResult operation .recoveryPending bytes block

def fsFailure (operation : FsOperation) (status : FsStatus) (bytes : Nat := 0) : FsResult :=
  fsResult operation status bytes (blockSuccess .none 0 0)

def fsStatusFromBlock : BlockStatus → FsStatus
  | .ok => .ok
  | .noDevice => .notMounted
  | .invalidArgument => .invalidArgument
  | .outOfRange => .metadataCorrupt
  | .readOnly => .readOnly
  | .timeoutBusy | .timeoutDrq | .deviceFault | .commandAborted | .idNotFound | .uncorrectable
  | .interfaceCrc | .deviceError | .resetFailed => .ioError

def fsFromBlock (operation : FsOperation) (block : BlockResult) (bytes : Nat := 0) : FsResult :=
  fsResult operation (fsStatusFromBlock block.status) bytes block

@[simp] theorem fsSuccess_ok (operation : FsOperation) (bytes : Nat) : (fsSuccess operation bytes).ok = true := rfl

@[simp] theorem fsSuccess_status (operation : FsOperation) (bytes : Nat) :
    (fsSuccess operation bytes).status = .ok := rfl

@[simp] theorem fsFailure_status (operation : FsOperation) (status : FsStatus) (bytes : Nat) :
    (fsFailure operation status bytes).status = status := rfl

@[simp] theorem fsRecoveryPending_ok (operation : FsOperation) (bytes : Nat) (block : BlockResult) :
    (fsRecoveryPending operation bytes block).ok = true := rfl

@[simp] theorem fsRecoveryPending_status (operation : FsOperation) (bytes : Nat) (block : BlockResult) :
    (fsRecoveryPending operation bytes block).status = .recoveryPending := rfl

theorem fsFromBlock_ok {operation : FsOperation} {block : BlockResult} {bytes : Nat} (h : block.ok = false) :
    (fsFromBlock operation block bytes).ok = false := by
  unfold BlockResult.ok at h
  unfold fsFromBlock fsResult FsResult.ok
  cases hs : block.status <;> simp_all [fsStatusFromBlock]

end ZenovOS.Storage
