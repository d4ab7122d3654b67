import ZenovOS.Security.PolicyFormat

/-! # The ransomware policy

The decision of `zrwp_policy.inc`: which paths are protected against which operations, which programs may
change them, and how much one of them may change within a time window. -/

namespace ZenovOS.Security.Ransomware

inductive Operation
  | write
  | rename
  | remove
  deriving DecidableEq

/-- The operation's bit. -/
def Operation.mask : Operation → UInt8
  | write => 1
  | rename => 2
  | remove => 4

inductive RecordType
  | recordProtected
  | recordWriter
  deriving DecidableEq

structure Record where
  type : RecordType
  operations : UInt8
  path : Bytes
  digest : Bytes
  deriving DecidableEq

/-- `RuntimePolicy`; `block` says whether the mode is to block. -/
structure RuntimePolicy where
  block : Bool
  windowTicks : Nat
  maxWrites : Nat
  maxRenames : Nat
  maxRemoves : Nat
  maxBytes : Nat
  records : List Record
  deriving DecidableEq

structure MutationWindow where
  valid : Bool
  locked : Bool
  actor : Bytes
  digest : Bytes
  started : Nat
  writes : Nat
  renames : Nat
  removes : Nat
  bytes : Nat
  deriving DecidableEq

/-- The globals of `zrwp`. -/
structure State where
  ready : Bool
  active : RuntimePolicy
  mutationWindow : MutationWindow
  deriving DecidableEq

/-- The path is the record's or lies below it. -/
def pathMatches (path start : Bytes) : Bool :=
  start.isPrefixOf path && ((path.drop start.length).head? = none || (path.drop start.length).head? = some 47)

def protectedOperation (policy : RuntimePolicy) (path : Bytes) (operation : Operation) : Bool :=
  policy.records.any fun r =>
    r.type = .recordProtected && r.operations &&& operation.mask ≠ 0 && pathMatches path r.path

def writerAllowed (policy : RuntimePolicy) (actor digest : Bytes) (operation : Operation) : Bool :=
  policy.records.any fun r =>
    r.type = .recordWriter && r.operations &&& operation.mask ≠ 0 && actor = r.path && digest = r.digest

/-- `ensure_window`: a window of another program, or one that has expired, is started anew. -/
def ensureWindow (policy : RuntimePolicy) (window : MutationWindow) (timerTicks : Nat) (actor digest : Bytes) :
    MutationWindow :=
  let same := window.valid && window.actor = actor && window.digest = digest
  let expired := window.valid && policy.windowTicks ≤ (timerTicks + 2 ^ 32 - window.started) % 2 ^ 32
  if !same || expired then ⟨true, false, actor, digest, timerTicks, 0, 0, 0, 0⟩ else window

/-- A counter after one more of `n`, and whether it had no room for them. -/
def count (value n : Nat) : Nat × Bool := if u32Max - value < n then (u32Max, true) else (value + n, false)

/-- The window after an operation. -/
def charge (window : MutationWindow) (operation : Operation) (bytes : Nat) : MutationWindow :=
  { window with
    writes := (count window.writes (if operation = .write then 1 else 0)).1
    renames := (count window.renames (if operation = .rename then 1 else 0)).1
    removes := (count window.removes (if operation = .remove then 1 else 0)).1
    bytes := (count window.bytes bytes).1 }

def overflows (window : MutationWindow) (operation : Operation) (bytes : Nat) : Bool :=
  (count window.writes (if operation = .write then 1 else 0)).2 ||
    (count window.renames (if operation = .rename then 1 else 0)).2 ||
    (count window.removes (if operation = .remove then 1 else 0)).2 || (count window.bytes bytes).2

/-- Why an operation in the window is against the policy. -/
def reason (policy : RuntimePolicy) (window : MutationWindow) (actor digest : Bytes) (operation : Operation) (bytes : Nat) :
    Option Bytes :=
  let charged := charge window operation bytes
  if !writerAllowed policy actor digest operation then some (ascii "untrusted-writer")
  else if window.locked then some (ascii "actor-locked")
  else if overflows window operation bytes then some (ascii "counter-overflow")
  else if policy.maxWrites < charged.writes then some (ascii "write-budget")
  else if policy.maxRenames < charged.renames then some (ascii "rename-budget")
  else if policy.maxRemoves < charged.removes then some (ascii "remove-budget")
  else if policy.maxBytes < charged.bytes then some (ascii "byte-budget")
  else none

end ZenovOS.Security.Ransomware
