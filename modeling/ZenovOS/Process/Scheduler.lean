import ZenovOS.Process.Lifecycle
import ZenovOS.Process.SchedulerPolicy
import ZenovOS.Process.Syscall

/-! # The scheduler

`scheduler.inc`: the tasks of a batch, what the kernel does for them on timer interrupts, exceptions and
the calls of `scheduler_syscall`, and the start and the end of a batch. -/

namespace ZenovOS.Process
open Bytes

inductive TaskState
  | unused
  | ready
  | running
  | sleeping
  | waiting
  | zombie
  deriving DecidableEq

/-- An address space; `mapped` says whether it has a page table. -/
structure AddressSpace extends Window where
  mapped : Bool

/-- `AddressSpace{}`. -/
def AddressSpace.empty : AddressSpace := ⟨⟨fun _ => 0, fun _ => ⟨false, false, false⟩⟩, false⟩

/-- The globals of `process` that say who runs. -/
structure ExecutionIdentity where
  capabilities : ActiveCapabilityProfile
  abi : SyscallAbi
  imageBias : UInt32
  application : Bytes
  format : Bytes
  deriving DecidableEq

def noCapabilities : ActiveCapabilityProfile := ⟨false, 0, [], [], [], List.replicate 32 0⟩

def zeroFrame : SyscallFrame := ⟨0, 0, 0, 0, 0, 0, 0, 0, 0, 0, 0, 0, 0, 0, 0, 0, 0⟩

structure Task where
  state : TaskState := .unused
  basePriority : UInt8 := SchedulerPolicy.defaultPriority
  dynamicPriority : UInt8 := SchedulerPolicy.defaultPriority
  quantumRemaining : UInt8 := 0
  pid : Nat := 0
  wakeTick : UInt32 := 0
  runtimeTicks : UInt32 := 0
  waitTicks : UInt32 := 0
  contextSwitches : UInt32 := 0
  exitCode : UInt32 := 0
  faultVector : UInt32 := 0
  waitStatusOffset : UInt32 := 0
  waitHasStatus : Bool := false
  waitReapChild : Bool := false
  waitAnyChild : Bool := false
  context : SyscallFrame := zeroFrame
  addressSpace : AddressSpace := .empty
  capabilities : ActiveCapabilityProfile := noCapabilities
  object : ObjectKey := {}
  waitObject : ObjectKey := {}
  handles : Handles.Table := {}
  path : Bytes := []
  format : Bytes := []

def Task.candidate (task : Task) : SchedulerPolicy.Candidate :=
  ⟨task.state = .ready, task.basePriority, task.dynamicPriority, task.waitTicks⟩

/-- The globals of the scheduler. `activeAddressSpace` is the task whose address space is active, and
    `kernelStack` the one whose kernel stack is; none is the kernel's own. `delivered` is a record for the
    specification only: the births and the pids of the children whose status a waiting parent was given. -/
structure Scheduler where
  tasks : Fin taskCapacity → Task
  currentTask : Option (Fin taskCapacity)
  lifecycle : Lifecycle
  legacyWindow : Window
  activeAddressSpace : Option (Fin taskCapacity)
  kernelStack : Option (Fin taskCapacity)
  identity : ExecutionIdentity
  timerTicks : UInt32
  schedulerRunning : Bool
  schedulerEnding : Bool
  panicked : Bool
  delivered : List (Nat × Nat)

/-- What the kernel goes back to: the frame to resume, or `abort`, the end of user mode. -/
structure Return where
  frame : SyscallFrame
  abort : Bool
  scheduler : Scheduler

namespace Scheduler
variable (s : Scheduler)

def setTask (index : Fin taskCapacity) (task : Task) : Scheduler :=
  { s with tasks := Function.update s.tasks index task }

def setLifecycle (lifecycle : Lifecycle) : Scheduler := { s with lifecycle }

/-- The window that is mapped. -/
def window : Window :=
  match s.activeAddressSpace with
  | none => s.legacyWindow
  | some index => (s.tasks index).addressSpace.toWindow

/-- A write of the kernel to the window. -/
def storeUser (offset : Nat) (data : Bytes) : Scheduler :=
  match s.activeAddressSpace with
  | none => { s with legacyWindow := s.legacyWindow.store offset data }
  | some index =>
    let task := s.tasks index
    s.setTask index { task with addressSpace := { task.addressSpace with toWindow := task.addressSpace.store offset data } }

/-! ### Switching -/

def exposeTask (index : Fin taskCapacity) : Scheduler :=
  let task := s.tasks index
  { s with
    kernelStack := some index
    identity := ⟨task.capabilities, .zenov, 0, task.path, task.format⟩ }

/-- The task as `activate_task` leaves it. -/
def activated (task : Task) : Task :=
  let candidate := SchedulerPolicy.resetAfterRun task.candidate
  { task with
    state := .running
    quantumRemaining := SchedulerPolicy.quantumTicks task.dynamicPriority
    dynamicPriority := candidate.dynamicPriority
    waitTicks := candidate.waitTicks }

def activateTask (index : Fin taskCapacity) : Option Scheduler :=
  let task := s.tasks index
  if task.state = .unused ∨ task.state = .zombie ∨ !task.addressSpace.mapped then none
  else
    some (exposeTask { s.setTask index (activated task) with activeAddressSpace := some index, currentTask := some index } index)

/-- `select_ready`. -/
def selectReady (current : Option (Fin taskCapacity)) : Option (Fin taskCapacity) :=
  SchedulerPolicy.select (fun index => (s.tasks index).candidate) current

def higherPriorityReady (priority : UInt8) : Bool :=
  (List.finRange taskCapacity).any fun index =>
    (s.tasks index).state = .ready && priority < (s.tasks index).dynamicPriority

/-! ### Ending tasks -/

/-- `destroy_task_address_space`. -/
def destroyTaskAddressSpace (index : Fin taskCapacity) : Scheduler :=
  if !(s.tasks index).addressSpace.mapped then s
  else
    { s.setTask index { s.tasks index with addressSpace := .empty } with
      activeAddressSpace := if s.activeAddressSpace = some index then none else s.activeAddressSpace }

/-- One round of the loop of `close_all_handles` of the task `index`. -/
def closeEntry (index : Fin taskCapacity) (s : Scheduler) (entry : Fin handleCapacity) : Scheduler :=
  let task := s.tasks index
  if !(task.handles.entries entry).used then s
  else
    match Handles.close task.handles (Handles.encode entry (task.handles.entries entry).generation) with
    | none => s
    | some (handles, key) =>
      let s := s.setTask index { task with handles }
      match s.lifecycle.release key with
      | none => s
      | some lifecycle => s.setLifecycle lifecycle

def closeAllHandles (index : Fin taskCapacity) : Scheduler :=
  (List.finRange handleCapacity).foldl (closeEntry index) s

/-- `release_task_runtime`, without the scrubbing of the kernel stack. -/
def releaseTaskRuntime (index : Fin taskCapacity) : Scheduler := s.destroyTaskAddressSpace index

/-- The object of a key without its task. -/
def detach (l : Lifecycle) (key : ObjectKey) : Lifecycle :=
  match l.find key with
  | none => l
  | some object => l.setObject key.slot { object with taskSlot := none }

def finalizeTerminatedTask (index : Fin taskCapacity) : Scheduler :=
  if (s.tasks index).state ≠ .zombie then s
  else
    let s := s.releaseTaskRuntime index
    let key := (s.tasks index).object
    match s.lifecycle.find key with
    | none => s.setTask index {}
    | some object =>
      if object.parentReaped then (s.setTask index {}).setLifecycle ((detach s.lifecycle key).collect key) else s

/-- `UserWaitStatus` of an object. -/
def waitStatusFor (object : Object) : Bytes :=
  le 4 object.pid ++ le 4 object.exitCode.toNat ++
    le 4 (match object.reason with | .running => 0 | .exited => 1 | .faulted => 2 | .cancelled => 3) ++
    le 4 object.faultVector.toNat

abbrev waitStatusBytes : Nat := 16

/-- `UserProcessInfo` of an object. -/
def processInfoFor (object : Object) : Bytes :=
  le 4 object.pid ++ le 4 object.parentPid ++ le 4 (if object.signaled then 2 else 1) ++ le 4 object.exitCode.toNat ++
    le 4 object.faultVector.toNat ++ le 4 object.runtimeTicks.toNat ++ le 4 object.contextSwitches.toNat ++
    le 4 object.handleReferences

abbrev processInfoBytes : Nat := 32

/-- `write_wait_status`: the task once the status is in its memory. -/
def writeWaitStatus (task : Task) (object : Object) : Option Task :=
  if !task.waitHasStatus then some task
  else if task.addressSpace.mapped && task.addressSpace.userAccess task.waitStatusOffset.toNat waitStatusBytes true then
    some { task with addressSpace := { task.addressSpace with
      toWindow := task.addressSpace.store task.waitStatusOffset.toNat (waitStatusFor object) } }
  else none

/-- The child's task, if it is not the current one, is gone before the child is reaped. -/
def dropTask (key : ObjectKey) (object : Object) : Scheduler :=
  match object.taskSlot with
  | none => s
  | some slot =>
    if some slot = s.currentTask then s
    else ((s.releaseTaskRuntime slot).setTask slot {}).setLifecycle (detach s.lifecycle key)

def reapChildTask (key : ObjectKey) (parentPid : Nat) : Option Scheduler :=
  match s.lifecycle.find key with
  | none => none
  | some object =>
    if !object.signaled ∨ object.parentPid ≠ parentPid ∨ object.parentReaped then none
    else
      let s := s.dropTask key object
      match s.lifecycle.reapParent key parentPid with
      | none => none
      | some lifecycle => some { s.setLifecycle lifecycle with delivered := s.delivered ++ [(object.birth, object.pid)] }

/-- A task that waits no longer. -/
def noWait (task : Task) : Task :=
  { task with waitObject := {}, waitStatusOffset := 0, waitHasStatus := false, waitReapChild := false, waitAnyChild := false }

/-- The value that a completed wait returns, after the reaping that it asks for. -/
def reapFor (waiter : Task) (key : ObjectKey) (pid : Nat) : Scheduler × UInt32 :=
  if !waiter.waitReapChild then (s, UInt32.ofNat pid)
  else
    match s.reapChildTask key waiter.pid with
    | none => (s, errorStale)
    | some s => (s, UInt32.ofNat pid)

def completeWaiter (index : Fin taskCapacity) (key : ObjectKey) : Scheduler :=
  let waiter := s.tasks index
  match s.lifecycle.find key with
  | none => s
  | some object =>
    if waiter.state ≠ .waiting ∨ !object.signaled then s
    else
      let (s, eax) :=
        match writeWaitStatus waiter object with
        | none => (s, errorFault)
        | some waiter => (s.setTask index waiter).reapFor waiter key object.pid
      let waiter := s.tasks index
      s.setTask index { noWait waiter with state := .ready, waitTicks := 0, context := { waiter.context with eax } }

/-- One round of the loop of `wake_waiters` of a child of `parentPid`. -/
def wakeWaiter (key : ObjectKey) (parentPid : Nat) (s : Scheduler) (index : Fin taskCapacity) : Scheduler :=
  let waiter := s.tasks index
  if waiter.state = .waiting ∧ (waiter.waitObject = key ∨ waiter.waitAnyChild ∧ parentPid = waiter.pid) then
    s.completeWaiter index key
  else s

def wakeWaiters (key : ObjectKey) : Scheduler :=
  match s.lifecycle.find key with
  | none => s
  | some object =>
    if !object.signaled then s else (List.finRange taskCapacity).foldl (wakeWaiter key object.parentPid) s

/-- One round of the loop of `collect_orphan_zombies`. -/
def collectOrphan (exceptIndex : Fin taskCapacity) (s : Scheduler) (index : Fin taskCapacity) : Scheduler :=
  if index = exceptIndex ∨ (s.tasks index).state ≠ .zombie then s
  else
    match s.lifecycle.find (s.tasks index).object with
    | none => s.finalizeTerminatedTask index
    | some object => if object.parentPid = 0 ∧ object.parentReaped then s.finalizeTerminatedTask index else s

def collectOrphanZombies (exceptIndex : Fin taskCapacity) : Scheduler :=
  (List.finRange taskCapacity).foldl (collectOrphan exceptIndex) s

/-- The part of `terminate_task` before the object is terminated. -/
def retire (index : Fin taskCapacity) (exitCode faultVector : UInt32) : Scheduler :=
  let s := s.setLifecycle (s.lifecycle.reparent (s.tasks index).pid 0)
  let s := (s.collectOrphanZombies index).closeAllHandles index
  s.setTask index { s.tasks index with exitCode, faultVector, state := .zombie }

/-- `terminate_task`; the flag is its result. -/
def terminateTask (index : Fin taskCapacity) (exitCode faultVector : UInt32) (reason : TerminationReason) : Scheduler × Bool :=
  if (s.tasks index).state = .unused ∨ (s.tasks index).state = .zombie then (s, false)
  else
    let s := s.retire index exitCode faultVector
    let task := s.tasks index
    match s.lifecycle.terminate task.object exitCode faultVector task.runtimeTicks task.contextSwitches reason with
    | none => (s, false)
    | some lifecycle => ((s.setLifecycle lifecycle).wakeWaiters task.object, true)

/-! ### Switching to a task -/

/-- `switch_interrupt` and `switch_syscall`, which differ in the type of the frame. -/
def switchTo (next : Fin taskCapacity) : Option (SyscallFrame × Scheduler) :=
  let previous := s.currentTask
  match s.activateTask next with
  | none => none
  | some s =>
    let task := s.tasks next
    let s := s.setTask next { task with contextSwitches := task.contextSwitches + 1 }
    some (task.context,
      match previous with
      | none => s
      | some index => if (s.tasks index).state = .zombie then s.finalizeTerminatedTask index else s)

/-- Go on with the task `next`, or abort when it cannot be activated. -/
def switchOr (frame : SyscallFrame) (next : Fin taskCapacity) : Return :=
  match s.switchTo next with
  | none => ⟨frame, true, s⟩
  | some (frame, s) => ⟨frame, false, s⟩

/-! ### The timer -/

def wakeSleeper (ticks : UInt32) (task : Task) : Task :=
  if task.state = .sleeping ∧ ticks - task.wakeTick < 0x80000000 then { task with state := .ready, waitTicks := 0 } else task

def wakeSleepers : Scheduler := { s with tasks := fun index => wakeSleeper s.timerTicks (s.tasks index) }

def ageReadyTask (task : Task) : Task :=
  let candidate := SchedulerPolicy.accountWait task.candidate
  { task with dynamicPriority := candidate.dynamicPriority, waitTicks := candidate.waitTicks }

def ageReadyTasks : Scheduler := { s with tasks := fun index => ageReadyTask (s.tasks index) }

/-- The current task goes on with a new quantum. -/
def renewed (index : Fin taskCapacity) : Scheduler :=
  let current := s.tasks index
  s.setTask index { current with state := .running, quantumRemaining := SchedulerPolicy.quantumTicks current.dynamicPriority }

/-- `timer_interrupt`, after the tick that the interrupt handler counts. -/
def timerInterrupt (frame : SyscallFrame) : Return :=
  let s := { s with timerTicks := s.timerTicks + 1 }
  match s.currentTask with
  | none => ⟨frame, false, s⟩
  | some index =>
    if !s.schedulerRunning ∨ frame.cs &&& 3 ≠ 3 then ⟨frame, false, s⟩
    else
      let current := s.tasks index
      let s := s.setTask index { current with context := frame, runtimeTicks := current.runtimeTicks + 1 }
      let s := s.wakeSleepers.ageReadyTasks
      let current := s.tasks index
      let current := { current with quantumRemaining := if 0 < current.quantumRemaining then current.quantumRemaining - 1 else 0 }
      let s := s.setTask index current
      if 0 < current.quantumRemaining ∧ !s.higherPriorityReady current.dynamicPriority then ⟨frame, false, s⟩
      else
        let s := s.setTask index { current with state := .ready }
        match s.selectReady (some index) with
        | none => ⟨frame, false, s.renewed index⟩
        | some next => if next = index then ⟨frame, false, s.renewed index⟩ else s.switchOr frame next

/-! ### Exceptions and exits -/

/-- The end of the current task, and the switch to the next one that is ready. -/
def endTask (frame : SyscallFrame) (index : Fin taskCapacity) (exitCode faultVector : UInt32) (reason : TerminationReason) :
    Return :=
  match s.terminateTask index exitCode faultVector reason with
  | (s, false) => ⟨frame, true, { s with schedulerEnding := true }⟩
  | (s, true) =>
    match s.selectReady (some index) with
    | none => ⟨frame, true, { s with schedulerEnding := true }⟩
    | some next => s.switchOr frame next

def userException (frame : SyscallFrame) (vector : UInt32) : Return :=
  match s.currentTask with
  | none => ⟨frame, true, s⟩
  | some index =>
    if !s.schedulerRunning then ⟨frame, true, s⟩ else s.endTask frame index (128 + vector) vector .faulted

/-! ### Making tasks -/

/-- What the loading of a command comes to: whether it names a program that can be read, the globals as the
    read leaves them, the address space, and the program in it. -/
structure Image where
  argumentCount : Nat
  found : Bool
  identity : ExecutionIdentity
  requested : Bytes
  space : Option Window
  loaded : Bool
  entry : UInt32
  initialStack : UInt32
  zex : Bool

/-- `restore_execution_identity`. -/
def restoreExecutionIdentity (identity : ExecutionIdentity) (addressSpace : Option (Fin taskCapacity)) : Scheduler :=
  if addressSpace.all fun index => (s.tasks index).addressSpace.mapped then
    { s with identity, activeAddressSpace := addressSpace }
  else { s with panicked := true }

def initialContext (entry initialStack initialEax : UInt32) : SyscallFrame :=
  { zeroFrame with
    gs := 0x23, fs := 0x23, es := 0x23, ds := 0x23, eax := initialEax, eip := entry, cs := 0x1B, eflags := 0x202
    useresp := initialStack, ss := 0x23 }

/-- `configure_task`. -/
def configureTask (slot : Fin taskCapacity) (space : Window) (entry initialStack initialEax : UInt32)
    (capabilities : ActiveCapabilityProfile) (path format : Bytes) (parentPid : Nat) : Option Scheduler :=
  match Storage.pathCopy path 48 with
  | none => none
  | some path =>
    match s.lifecycle.create parentPid slot with
    | none => none
    | some (lifecycle, object, pid) =>
      some ((s.setLifecycle lifecycle).setTask slot
        { state := .ready, pid, object
          quantumRemaining := SchedulerPolicy.quantumTicks SchedulerPolicy.defaultPriority
          context := initialContext entry initialStack initialEax
          addressSpace := ⟨space, true⟩
          capabilities, path, format })

/-- `prepare_task` of a command that is not empty. Between the read and the restore of the caller's identity
    the new address space, which is no task's yet, is the active one. -/
def prepareTask (slot : Fin taskCapacity) (image : Image) (parentPid : Nat) : Scheduler × Bool :=
  if (s.tasks slot).state ≠ .unused ∨ image.argumentCount = 0 then (s, false)
  else
    let identity := s.identity
    let addressSpace := s.activeAddressSpace
    let s := { s with identity := image.identity }
    if !image.found then (s.restoreExecutionIdentity identity addressSpace, false)
    else
      match image.space with
      | none => (s.restoreExecutionIdentity identity addressSpace, false)
      | some space =>
        let s := { s with activeAddressSpace := none }
        if !image.loaded then (s.restoreExecutionIdentity identity addressSpace, false)
        else
          match s.configureTask slot space image.entry image.initialStack 0 image.identity.capabilities image.requested
              (if image.zex then ascii "ZEX1" else ascii "ELF32") parentPid with
          | none => (s.restoreExecutionIdentity identity addressSpace, false)
          | some s => (s.restoreExecutionIdentity identity addressSpace, true)

def findFreeTaskSlot : Option (Fin taskCapacity) :=
  (List.finRange taskCapacity).find? fun index => (s.tasks index).state = .unused

/-- `discard_prepared_task`. -/
def discardPreparedTask (slot : Fin taskCapacity) : Scheduler :=
  if (s.tasks slot).state = .unused then s
  else
    let s := (s.destroyTaskAddressSpace slot).closeAllHandles slot
    (s.setTask slot {}).setLifecycle ((s.lifecycle.destroyUnstarted (s.tasks slot).object).getD s.lifecycle)

/-- The part of `syscall_spawn_task` that gives the parent a handle of the new task in `slot`. -/
def giveHandle (frame : SyscallFrame) (parent slot : Fin taskCapacity) : Scheduler × Except UInt32 Nat :=
  let child := (s.tasks slot).object
  match s.lifecycle.retain child with
  | none => (s.discardPreparedTask slot, .error errorNoSpace)
  | some lifecycle =>
    let s := s.setLifecycle lifecycle
    match Handles.allocate (s.tasks parent).handles child (rightWait ||| rightQuery) with
    | none =>
      let s := s.setLifecycle ((s.lifecycle.release child).getD s.lifecycle)
      (s.discardPreparedTask slot, .error errorNoSpace)
    | some (handles, handle) =>
      let s := s.setTask parent { s.tasks parent with handles }
      if s.window.userRange frame.edx.toNat 4 true then (s.storeUser frame.edx.toNat (le 4 handle), .ok handle)
      else
        match Handles.close (s.tasks parent).handles handle with
        | none => (s.discardPreparedTask slot, .error errorFault)
        | some (handles, released) =>
          let s := s.setTask parent { s.tasks parent with handles }
          let s := s.setLifecycle ((s.lifecycle.release released).getD s.lifecycle)
          (s.discardPreparedTask slot, .error errorFault)

/-- `syscall_spawn_task`; `images` says what the loading of a command comes to. -/
def syscallSpawnTask (images : Bytes → Image) (frame : SyscallFrame) (parent : Fin taskCapacity) : Scheduler × UInt32 :=
  if frame.ecx ≠ 0 then (s, errorInvalid)
  else
    match s.window.userString frame.ebx.toNat with
    | none => (s, errorFault)
    | some command =>
      if frame.edx ≠ 0 ∧ !s.window.userRange frame.edx.toNat 4 true then (s, errorFault)
      else if command = [] ∨ 96 ≤ command.length then (s, errorInvalid)
      else
        match s.findFreeTaskSlot with
        | none => (s, errorNoSpace)
        | some slot =>
          match s.prepareTask slot (images command) (s.tasks parent).pid with
          | (s, false) => (s, errorDenied)
          | (s, true) =>
            if frame.edx = 0 then (s, UInt32.ofNat (s.tasks slot).pid)
            else
              match s.giveHandle frame parent slot with
              | (s, .error eax) => (s, eax)
              | (s, .ok _) => (s, UInt32.ofNat (s.tasks slot).pid)

/-! ### Waiting -/

abbrev waitNohang : UInt32 := 1

/-- The end of `begin_wait`, with the caller waiting. -/
def block (frame : SyscallFrame) (waiter : Fin taskCapacity) : Return :=
  match s.selectReady s.currentTask with
  | none => wouldBlock
  | some next => if some next = s.currentTask then wouldBlock else
    match s.switchTo next with
    | none => ⟨frame, false, s⟩
    | some (frame, s) => ⟨frame, false, s⟩
where
  wouldBlock : Return :=
    ⟨{ frame with eax := errorWouldBlock }, false, s.setTask waiter { noWait (s.tasks waiter) with state := .running }⟩

/-- `begin_wait`, and the return to the caller when it does not wait. -/
def beginWait (frame : SyscallFrame) (waiter : Fin taskCapacity) (key : ObjectKey) (reapChild anyChild : Bool) : Return :=
  let returned := fun (s : Scheduler) eax => (⟨{ frame with eax }, false, s⟩ : Return)
  match s.lifecycle.find key with
  | none => returned s errorStale
  | some object =>
    if frame.ecx ≠ 0 ∧ !s.window.userRange frame.ecx.toNat waitStatusBytes true then returned s errorFault
    else if object.signaled then
      let s := if frame.ecx ≠ 0 then s.storeUser frame.ecx.toNat (waitStatusFor object) else s
      if !reapChild then returned s (UInt32.ofNat object.pid)
      else
        match s.reapChildTask key (s.tasks waiter).pid with
        | none => returned s errorStale
        | some s => returned s (UInt32.ofNat object.pid)
    else if frame.edx &&& waitNohang ≠ 0 then returned s 0
    else
      let s := s.setTask waiter { s.tasks waiter with
        context := { frame with eax := 0 }
        state := .waiting
        waitObject := key
        waitStatusOffset := frame.ecx
        waitHasStatus := frame.ecx ≠ 0
        waitReapChild := reapChild
        waitAnyChild := anyChild }
      s.block frame waiter

/-- The child that a `waitpid` is about. -/
def waitedChild (frame : SyscallFrame) (pid : Nat) : Option Object :=
  if frame.ebx = 0 then
    match s.lifecycle.firstChild pid true with
    | none => s.lifecycle.firstChild pid false
    | some object => some object
  else
    match s.lifecycle.findPid frame.ebx.toNat with
    | none => none
    | some object => if object.parentPid ≠ pid ∨ object.parentReaped then none else some object

/-- `syscall_wait_child`, and the return to the caller. -/
def syscallWaitChild (frame : SyscallFrame) (waiter : Fin taskCapacity) : Return :=
  match s.waitedChild frame (s.tasks waiter).pid with
  | none => ⟨{ frame with eax := errorNotFound }, false, s⟩
  | some object => s.beginWait frame waiter object.key true (frame.ebx = 0)

/-- `syscall_wait_process_handle`, and the return to the caller. -/
def syscallWaitProcessHandle (frame : SyscallFrame) (waiter : Fin taskCapacity) : Return :=
  match Handles.resolve (s.tasks waiter).handles frame.ebx.toNat rightWait with
  | none => ⟨{ frame with eax := errorInvalid }, false, s⟩
  | some key =>
    match s.lifecycle.find key with
    | none => ⟨{ frame with eax := errorStale }, false, s⟩
    | some _ => s.beginWait frame waiter key false false

/-! ### Handles -/

def syscallCloseProcessHandle (frame : SyscallFrame) (index : Fin taskCapacity) : Scheduler × UInt32 :=
  match Handles.close (s.tasks index).handles frame.ebx.toNat with
  | none => (s, errorInvalid)
  | some (handles, key) =>
    let s := s.setTask index { s.tasks index with handles }
    match s.lifecycle.release key with
    | none => (s, errorStale)
    | some lifecycle => (s.setLifecycle lifecycle, 0)

def syscallQueryProcess (frame : SyscallFrame) (index : Fin taskCapacity) : Scheduler × UInt32 :=
  if !s.window.userRange frame.ecx.toNat processInfoBytes true then (s, errorFault)
  else
    match Handles.resolve (s.tasks index).handles frame.ebx.toNat rightQuery with
    | none => (s, errorInvalid)
    | some key =>
      match s.lifecycle.find key with
      | none => (s, errorStale)
      | some object => (s.storeUser frame.ecx.toNat (processInfoFor object), 0)

/-! ### The calls of the scheduler -/

def sleepTask (frame : SyscallFrame) (index : Fin taskCapacity) : Return :=
  let s := s.setTask index { s.tasks index with
    state := .sleeping
    wakeTick := s.timerTicks + (if frame.ebx ≠ 0 then frame.ebx else 1) }
  match s.selectReady (some index) with
  | none => ⟨frame, false, s.setTask index { s.tasks index with state := .running }⟩
  | some next => s.switchOr frame next

def yieldTask (frame : SyscallFrame) (index : Fin taskCapacity) : Return :=
  let s := s.setTask index { s.tasks index with state := .ready }
  match s.selectReady (some index) with
  | none => ⟨frame, false, s.setTask index { s.tasks index with state := .running }⟩
  | some next =>
    if next = index then ⟨frame, false, s.setTask index { s.tasks index with state := .running }⟩ else s.switchOr frame next

/-- `scheduler_syscall`. -/
def schedulerSyscall (images : Bytes → Image) (frame : SyscallFrame) : Return :=
  let returned := fun (result : Scheduler × UInt32) => (⟨{ frame with eax := result.2 }, false, result.1⟩ : Return)
  match s.currentTask with
  | none => ⟨frame, true, s⟩
  | some index =>
    if !s.schedulerRunning then ⟨frame, true, s⟩
    else if frame.eax = syscallGetpid then returned (s, UInt32.ofNat (s.tasks index).pid)
    else if frame.eax = syscallSpawn then returned (s.syscallSpawnTask images frame index)
    else if frame.eax = syscallWaitpid then s.syscallWaitChild frame index
    else if frame.eax = syscallWaitHandle then s.syscallWaitProcessHandle frame index
    else if frame.eax = syscallHandleClose then returned (s.syscallCloseProcessHandle frame index)
    else if frame.eax = syscallProcessQuery then returned (s.syscallQueryProcess frame index)
    else if frame.eax = syscallExit then s.endTask frame index frame.ebx 0 .exited
    else
      let saved := { frame with eax := 0 }
      let s := s.setTask index { s.tasks index with context := saved }
      if frame.eax = syscallSleep then s.sleepTask saved index
      else if frame.eax = syscallYield then s.yieldTask saved index
      else ⟨saved, false, s⟩

/-! ### Batches -/

/-- `reset_task_table`. -/
def resetTaskTable : Scheduler :=
  { s with tasks := fun _ => {}, lifecycle := s.lifecycle.reset, currentTask := none, schedulerEnding := false }

/-- One round of the loop of `cleanup_task_table`. -/
def cleanupTask (s : Scheduler) (index : Fin taskCapacity) : Scheduler :=
  ((s.destroyTaskAddressSpace index).closeAllHandles index).setTask index {}

def cleanupTaskTable : Scheduler :=
  let s := (List.finRange taskCapacity).foldl cleanupTask { s with activeAddressSpace := none }
  s.setLifecycle s.lifecycle.reset

/-- `prepare_internal_probe_task` of the kernel's own image in `space`, which holds it if it could be loaded. -/
def prepareInternalProbeTask (slot : Fin taskCapacity) (space : Option Window) (initialEax : UInt32) (path format digest : Bytes) :
    Option Scheduler :=
  match space with
  | none => none
  | some space =>
    let s := { s with activeAddressSpace := none }
    match Storage.pathCopy path 48 with
    | none => none
    | some profilePath =>
      s.configureTask slot space 0 (UInt32.ofNat userLimit - 16) initialEax ⟨true, 1, profilePath, [], [], digest⟩ path format 0

/-- `start_scheduler_batch`: the state in which user mode is entered, if it is. -/
def startSchedulerBatch : Option Scheduler :=
  let s := { s with schedulerRunning := true }
  match s.selectReady none with
  | none => none
  | some first => s.activateTask first

/-- The loop of `run_task_batch` over the commands. -/
def prepareBatch (s : Scheduler) : List (Fin taskCapacity × Image) → Option Scheduler
  | [] => some s
  | (slot, image) :: rest =>
    match s.prepareTask slot image 0 with
    | (_, false) => none
    | (s, true) => prepareBatch s rest

/-- `run_task_batch` of what the commands come to, one for each task from the first. -/
def runTaskBatch (images : List Image) : Option Scheduler :=
  if s.schedulerRunning ∨ images.length < 2 ∨ taskCapacity < images.length then none
  else (s.resetTaskTable.prepareBatch ((List.finRange taskCapacity).zip images)).bind startSchedulerBatch

/-- The probes of the kernel, which start a batch of their own. -/
def runSchedulerProbe (first second : Option Window) (digest : Bytes) : Option Scheduler :=
  if s.schedulerRunning then none
  else do
    let s ← s.resetTaskTable.prepareInternalProbeTask 0 first 0 (ascii "/kernel/scheduler-probe-a") (ascii "KPROBE") digest
    let s ← s.prepareInternalProbeTask 1 second 1 (ascii "/kernel/scheduler-probe-b") (ascii "KPROBE") digest
    s.startSchedulerBatch

def runProcessLifecycleProbe (space : Option Window) (digest : Bytes) : Option Scheduler :=
  if s.schedulerRunning then none
  else do
    let s ← s.resetTaskTable.prepareInternalProbeTask 0 space 0 (ascii "/kernel/process-lifecycle-parent") (ascii "KPROC") digest
    s.startSchedulerBatch

/-- A task that still runs when user mode is left is cancelled. -/
def cancelCurrent : Scheduler :=
  match s.currentTask with
  | none => s
  | some index =>
    if (s.tasks index).state = .running then (s.terminateTask index (s.tasks index).exitCode 0 .cancelled).1 else s

/-- `user_window_cleanup` at the end of a batch. -/
def userWindowCleanup : Scheduler :=
  let s := { s.cancelCurrent with schedulerRunning := false, schedulerEnding := false, currentTask := none, kernelStack := none }
  let s := s.cleanupTaskTable
  { s with identity := ⟨noCapabilities, .zenov, 0, ascii "<none>", ascii "none"⟩ }.resetTaskTable

end Scheduler
end ZenovOS.Process
