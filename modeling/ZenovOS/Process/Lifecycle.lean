import ZenovOS.Process.Handles

/-! # Process objects

`process_lifecycle.inc`: what is kept of a process until it has ended, its parent knows and no handle is
open on it. -/

namespace ZenovOS.Process

abbrev taskCapacity : Nat := 8

scoped instance : NeZero taskCapacity := ⟨by decide⟩

inductive TerminationReason
  | running
  | exited
  | faulted
  | cancelled
  deriving DecidableEq

/-- A process object. `birth` is a record for the specification only: which creation made it. -/
structure Object where
  used : Bool := false
  signaled : Bool := false
  parentReaped : Bool := false
  generation : UInt16 := 0
  slot : Fin objectCapacity := 0
  taskSlot : Option (Fin taskCapacity) := none
  pid : Nat := 0
  parentPid : Nat := 0
  exitCode : UInt32 := 0
  faultVector : UInt32 := 0
  runtimeTicks : UInt32 := 0
  contextSwitches : UInt32 := 0
  handleReferences : Nat := 0
  reason : TerminationReason := .running
  birth : Nat := 0
  deriving DecidableEq

/-- The globals of `process_lifecycle`. `births` counts the creations and `collected` are the objects as
    they were when they were collected; both are records for the specification only. -/
structure Lifecycle where
  objects : Fin objectCapacity → Object := fun _ => {}
  generations : Fin objectCapacity → UInt16 := fun _ => 0
  liveObjects : Nat := 0
  retainedObjects : Nat := 0
  births : Nat := 0
  collected : List Object := []

def encodePid (slot : Fin objectCapacity) (generation : UInt16) : Nat :=
  if generation = 0 then 0 else (generation.toNat - 1) * 256 + (slot.val + 1)

def decodePid (pid : Nat) : Option (Fin objectCapacity × UInt16) :=
  if h : pid % 256 - 1 < objectCapacity then
    if pid % 256 = 0 ∨ 0xFFFE < pid / 256 then none else some (⟨pid % 256 - 1, h⟩, UInt16.ofNat (pid / 256 + 1))
  else none

def Object.key (object : Object) : ObjectKey := ⟨object.slot, object.generation⟩

namespace Lifecycle

def setObject (l : Lifecycle) (slot : Fin objectCapacity) (object : Object) : Lifecycle :=
  { l with objects := Function.update l.objects slot object }

/-- `find` and `find_const`. -/
def find (l : Lifecycle) (key : ObjectKey) : Option Object :=
  if key.generation = 0 then none
  else if (l.objects key.slot).used && (l.objects key.slot).generation = key.generation then some (l.objects key.slot)
  else none

def findPid (l : Lifecycle) (pid : Nat) : Option Object :=
  match decodePid pid with
  | none => none
  | some (slot, generation) =>
    let object := l.objects slot
    if object.used && object.generation = generation && object.pid = pid then some object else none

/-- `collect_if_unreferenced`. -/
def collect (l : Lifecycle) (key : ObjectKey) : Lifecycle :=
  match l.find key with
  | none => l
  | some object =>
    if !object.signaled ∨ !object.parentReaped ∨ object.handleReferences ≠ 0 then l
    else
      { l.setObject key.slot {} with
        retainedObjects := l.retainedObjects - 1
        collected := l.collected ++ [object] }

/-- `create`: the new object's key and pid. -/
def create (l : Lifecycle) (parentPid : Nat) (taskSlot : Fin taskCapacity) : Option (Lifecycle × ObjectKey × Nat) :=
  match (List.finRange objectCapacity).find? fun slot => !(l.objects slot).used with
  | none => none
  | some slot =>
    let generation := nextGeneration (l.generations slot)
    let object : Object :=
      { used := true, generation, slot, taskSlot := some taskSlot, pid := encodePid slot generation, parentPid
        birth := l.births }
    some ({ l.setObject slot object with
        generations := Function.update l.generations slot generation
        liveObjects := l.liveObjects + 1
        retainedObjects := l.retainedObjects + 1
        births := l.births + 1 }, object.key, object.pid)

def destroyUnstarted (l : Lifecycle) (key : ObjectKey) : Option Lifecycle :=
  match l.find key with
  | none => none
  | some object =>
    if object.signaled ∨ object.handleReferences ≠ 0 then none
    else
      some { l.setObject key.slot {} with
        liveObjects := l.liveObjects - 1
        retainedObjects := l.retainedObjects - 1 }

def retain (l : Lifecycle) (key : ObjectKey) : Option Lifecycle :=
  match l.find key with
  | none => none
  | some object =>
    if object.handleReferences = 0xFFFFFFFF then none
    else some (l.setObject key.slot { object with handleReferences := object.handleReferences + 1 })

def release (l : Lifecycle) (key : ObjectKey) : Option Lifecycle :=
  match l.find key with
  | none => none
  | some object =>
    if object.handleReferences = 0 then none
    else some ((l.setObject key.slot { object with handleReferences := object.handleReferences - 1 }).collect key)

def terminate (l : Lifecycle) (key : ObjectKey) (exitCode faultVector runtimeTicks contextSwitches : UInt32)
    (reason : TerminationReason) : Option Lifecycle :=
  match l.find key with
  | none => none
  | some object =>
    if object.signaled ∨ reason = .running then none
    else
      let object := { object with
        signaled := true, exitCode, faultVector, runtimeTicks, contextSwitches, reason
        parentReaped := object.parentPid = 0 || object.parentReaped }
      some ({ l.setObject key.slot object with liveObjects := l.liveObjects - 1 }.collect key)

def reapParent (l : Lifecycle) (key : ObjectKey) (parentPid : Nat) : Option Lifecycle :=
  match l.find key with
  | none => none
  | some object =>
    if !object.signaled ∨ object.parentReaped ∨ object.parentPid ≠ parentPid then none
    else some ((l.setObject key.slot { object with parentReaped := true }).collect key)

/-- One round of the loop of `reparent`. -/
def reparentSlot (oldParentPid newParentPid : Nat) (l : Lifecycle) (slot : Fin objectCapacity) : Lifecycle :=
  let object := l.objects slot
  if !object.used ∨ object.parentPid ≠ oldParentPid then l
  else if newParentPid = 0 ∧ object.signaled then
    (l.setObject slot { object with parentPid := newParentPid, parentReaped := true }).collect object.key
  else l.setObject slot { object with parentPid := newParentPid }

def reparent (l : Lifecycle) (oldParentPid newParentPid : Nat) : Lifecycle :=
  (List.finRange objectCapacity).foldl (reparentSlot oldParentPid newParentPid) l

def firstChild (l : Lifecycle) (parentPid : Nat) (signaledOnly : Bool) : Option Object :=
  ((List.finRange objectCapacity).map l.objects).find? fun object =>
    object.used && object.parentPid = parentPid && !object.parentReaped && (!signaledOnly || object.signaled)

def reset (l : Lifecycle) : Lifecycle :=
  { l with objects := fun _ => {}, liveObjects := 0, retainedObjects := 0 }

end Lifecycle
end ZenovOS.Process
