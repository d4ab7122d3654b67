import ZenovOS.Process.Stack
import ZenovOS.Security.VerifiedReads

/-! # System calls

The two dispatchers: `syscall_dispatch` of `process_capabilities.inc`, which checks the capability profile of
the program and its scopes and translates the calls of the Linux ABI, and behind it the dispatcher of
`process.inc`, which the kernel compiles as `syscall_dispatch_unrestricted`. -/

namespace ZenovOS.Process
open Bytes Storage Security

/-- The registers of the caller, as they stand on the kernel stack. -/
structure SyscallFrame where
  gs : UInt32
  fs : UInt32
  es : UInt32
  ds : UInt32
  edi : UInt32
  esi : UInt32
  ebp : UInt32
  espDummy : UInt32
  ebx : UInt32
  edx : UInt32
  ecx : UInt32
  eax : UInt32
  eip : UInt32
  cs : UInt32
  eflags : UInt32
  useresp : UInt32
  ss : UInt32
  deriving DecidableEq

structure ActiveCapabilityProfile where
  valid : Bool
  mask : UInt32
  path : Bytes
  readScope : Bytes
  writeScope : Bytes
  digest : Bytes
  deriving DecidableEq

inductive SyscallAbi
  | zenov
  | linuxI386
  deriving DecidableEq

/-! ### Numbers -/

abbrev syscallExit : UInt32 := 0
abbrev syscallConsoleWrite : UInt32 := 1
abbrev syscallTicks : UInt32 := 2
abbrev syscallFileRead : UInt32 := 3
abbrev syscallFileWrite : UInt32 := 4
abbrev syscallFileStat : UInt32 := 5
abbrev syscallVersion : UInt32 := 6
abbrev syscallSync : UInt32 := 7
abbrev syscallConsoleRead : UInt32 := 8
abbrev syscallYield : UInt32 := 9
abbrev syscallSleep : UInt32 := 10
abbrev syscallGetpid : UInt32 := 11
abbrev syscallSpawn : UInt32 := 12
abbrev syscallWaitpid : UInt32 := 13
abbrev syscallWaitHandle : UInt32 := 14
abbrev syscallHandleClose : UInt32 := 15
abbrev syscallProcessQuery : UInt32 := 16

abbrev errorInvalid : UInt32 := 0xFFFFFFFF
abbrev errorNotFound : UInt32 := 0xFFFFFFFE
abbrev errorNoSpace : UInt32 := 0xFFFFFFFD
abbrev errorIo : UInt32 := 0xFFFFFFFC
abbrev errorFault : UInt32 := 0xFFFFFFFB
abbrev errorUnsupported : UInt32 := 0xFFFFFFFA
abbrev errorDenied : UInt32 := 0xFFFFFFF9
abbrev errorWouldBlock : UInt32 := 0xFFFFFFF8
abbrev errorStale : UInt32 := 0xFFFFFFF7
abbrev syscallErrorDenied : UInt32 := 0xFFFFFFF9
abbrev syscallErrorCorrupt : UInt32 := 0xFFFFFFF8

/-- `syscall_capability`; a number without a capability has none to check. -/
def syscallCapability (number : UInt32) : UInt32 :=
  if number = syscallConsoleWrite then 1
  else if number = syscallTicks then 2
  else if number = syscallFileRead then 4
  else if number = syscallFileWrite then 8
  else if number = syscallFileStat then 16
  else if number = syscallVersion then 32
  else if number = syscallSync then 64
  else if number = syscallConsoleRead then 128
  else 0

def fsStatusToSyscallError : FsStatus → UInt32
  | .ok | .recoveryPending => 0
  | .notFound => errorNotFound
  | .bufferTooSmall | .noSpace => errorNoSpace
  | .readOnly | .permissionDenied => syscallErrorDenied
  | .checksumMismatch | .metadataCorrupt => syscallErrorCorrupt
  | .notMounted | .ioError => errorIo
  | .invalidArgument | .invalidPath | .wrongType | .alreadyExists | .parentMissing | .directoryNotEmpty => errorInvalid

/-! ### The state -/

/-- A call that reaches `syscall_dispatch_unrestricted`, or is carried out in its place. -/
structure NativeCall where
  number : UInt32
  ebx : UInt32
  ecx : UInt32
  deriving DecidableEq

/-- What system calls work on: the file system behind the guard, the user window with its pages, and the
    globals of `process`. `keys` are the keys that are still to be pressed. `native` is a record for the
    specification only. -/
structure SyscallState extends Window where
  guard : GuardState
  zvrt : Zvrt.State
  activeCapabilities : ActiveCapabilityProfile
  activeSyscallAbi : SyscallAbi
  linuxImageBias : Nat
  capabilityAuditFailed : Bool
  securityReadBlocked : Bool
  lastExitCode : UInt32
  schedulerActive : Bool
  console : Bytes
  keys : List UInt16
  native : List NativeCall

def onGuard {α : Type} (m : Mach GuardState α) : Mach SyscallState α :=
  Mach.zoom SyscallState.guard (fun s guard => { s with guard }) m

def SyscallState.store (s : SyscallState) (offset : Nat) (data : Bytes) : SyscallState :=
  { s with toWindow := s.toWindow.store offset data }

/-! ### Reading files for a program -/

/-- The bytes at the start of the output buffer that a failed read has set to zero. -/
def cleared (v : Volume) (input : Bytes) (result : FsResult) : Nat :=
  if result.status = .checksumMismatch then
    (((normalizePath v.currentDirectory input).bind v.findEntry).elim 0 fun i => (v.zfsEntries i).size.toNat)
  else result.bytes

/-- `integrity_read_failure`. -/
def integrityReadFailure (source : FsResult) (output actualSize : Nat) : Mach SyscallState (FsResult × Nat) := do
  Mach.modify fun s => { s.store output (List.replicate actualSize 0) with securityReadBlocked := true }
  pure (fsResult .read .checksumMismatch 0 source.block, 0)

/-- The end of `guarded_read_file_result`, after a read that went well. The path is read again from the user's
    memory, which the content of the file may have overwritten. -/
def inspectRead (input output : Nat) (read : FsResult) (content : Bytes) : Mach SyscallState (FsResult × Nat) := do
  let s ← Mach.get
  if !(← onGuard (Zvrt.verifyRead s.zvrt (s.stringAt input) content)) then
    integrityReadFailure read output content.length
  else if scanBufferBytes < content.length then deny
  else if !(← onGuard (allowPersistentRead (s.stringAt input) content)) then deny
  else pure (read, content.length)
where
  deny : Mach SyscallState (FsResult × Nat) := do
    Mach.modify fun s => { s.store output (List.replicate content.length 0) with securityReadBlocked := true }
    pure (fsFailure .read .permissionDenied, 0)

/-- `guarded_read_file_result` of a path and a buffer in the user window: the result and the size. -/
def guardedReadFileResult (input output capacity : Nat) : Mach SyscallState (FsResult × Nat) := do
  Mach.modify fun s => { s with securityReadBlocked := false }
  let s ← Mach.get
  let read ← onGuard (onVolume (readFileResult (s.stringAt input) capacity))
  if read.1.ok then do
    Mach.modify fun s => s.store output read.2
    inspectRead input output read.1 read.2
  else do
    Mach.modify fun s' => s'.store output (List.replicate (cleared s.guard.volume (s.stringAt input) read.1) 0)
    let s ← Mach.get
    if ← onGuard (Zvrt.missingRead s.zvrt (s.stringAt input)) then pure (read.1, 0)
    else integrityReadFailure read.1 output 0

/-- `security_read_file_result` with an output in the user window, which is not the application buffer. -/
def securityReadFileResult (input output capacity : Nat) : Mach SyscallState (FsResult × Nat) := do
  Mach.modify fun s => { s with securityReadBlocked := false }
  guardedReadFileResult input output capacity

/-! ### The unrestricted dispatcher -/

/-- The loop of `read_console`; `text` is what has been typed so far. Without a key to come it waits for ever. -/
def consoleLoop (capacity : Nat) : List UInt16 → Bytes → Mach SyscallState Bytes
  | [], _ => do
    Mach.modify fun s => { s with keys := [] }
    Mach.stop
  | key :: rest, text =>
    if key = 10 then do
      Mach.modify fun s => { s with keys := rest, console := s.console ++ [10] }
      pure text
    else if key = 8 then do
      if text ≠ [] then Mach.modify fun s => { s with console := s.console ++ [8] }
      consoleLoop capacity rest text.dropLast
    else if 0xFF < key ∨ key = 0 ∨ capacity ≤ text.length + 1 then consoleLoop capacity rest text
    else do
      Mach.modify fun s => { s with console := s.console ++ [key.toUInt8] }
      consoleLoop capacity rest (text ++ [key.toUInt8])

def readConsole (output capacity : Nat) : Mach SyscallState UInt32 := do
  if capacity < 2 then pure errorInvalid
  else do
    let s ← Mach.get
    let text ← consoleLoop capacity s.keys []
    Mach.modify fun s => s.store output (text ++ [0])
    pure (UInt32.ofNat text.length)

/-- What a program is given by a query of a file. -/
def userFileInfo (info : FileInfo) : Bytes := le 4 info.type.toNat ++ le 4 info.size.toNat ++ le 4 info.checksum.toNat

/-- The end of a call that returns to the program. -/
def resume (frame : SyscallFrame) (eax : UInt32) : Mach SyscallState (SyscallFrame × UInt32) :=
  pure ({ frame with eax }, 0)

section Dispatch
variable (scheduler : SyscallFrame → Mach SyscallState (SyscallFrame × UInt32)) (kVersion : Bytes)

def schedulerNumber (number : UInt32) : Bool :=
  number = syscallExit || number = syscallYield || number = syscallSleep || number = syscallGetpid ||
    number = syscallSpawn || number = syscallWaitpid || number = syscallWaitHandle || number = syscallHandleClose ||
    number = syscallProcessQuery

/-- The scheduler's part of a call. What it does is not on the record of native calls. -/
def enterScheduler (frame : SyscallFrame) : Mach SyscallState (SyscallFrame × UInt32) :=
  Mach.zoom id (fun s s' => { s' with native := s.native }) (scheduler frame)

/-- A read of a file; `failed` is the error that a failed one returns with. -/
def fileRead (failed : FsStatus → SyscallState → UInt32) (frame : SyscallFrame) :
    Mach SyscallState (SyscallFrame × UInt32) := do
  let s ← Mach.get
  if (s.userString frame.ebx.toNat).isNone ∨ !s.userRange frame.ecx.toNat frame.edx.toNat true then
    resume frame errorFault
  else do
    let read ← securityReadFileResult frame.ebx.toNat frame.ecx.toNat frame.edx.toNat
    let s ← Mach.get
    resume frame (if read.1.ok then UInt32.ofNat read.2 else failed read.1.status s)

def fileWrite (failed : FsStatus → UInt32) (frame : SyscallFrame) : Mach SyscallState (SyscallFrame × UInt32) := do
  let s ← Mach.get
  match s.userString frame.ebx.toNat with
  | none => resume frame errorFault
  | some path =>
    if !s.userRange frame.ecx.toNat frame.edx.toNat false ∧ frame.edx ≠ 0 then resume frame errorFault
    else do
      let result ← onGuard
        (guardedWriteFileResult path (s.bytesAt frame.ecx.toNat frame.edx.toNat) (frame.esi ≠ 0))
      resume frame (if result.ok then frame.edx else failed result.status)

def fileStat (failed : FsStatus → UInt32) (frame : SyscallFrame) : Mach SyscallState (SyscallFrame × UInt32) := do
  let s ← Mach.get
  match s.userString frame.ebx.toNat with
  | none => resume frame errorFault
  | some path =>
    if !s.userRange frame.ecx.toNat 12 true then resume frame errorFault
    else do
      let queried ← onGuard (onVolume (queryResult path))
      match queried.2 with
      | none => resume frame (failed queried.1.status)
      | some info => do
        Mach.modify fun s => s.store frame.ecx.toNat (userFileInfo info)
        resume frame 0

def unrestrictedVersion (frame : SyscallFrame) : Mach SyscallState (SyscallFrame × UInt32) := do
  let s ← Mach.get
  if !s.userRange frame.ebx.toNat frame.ecx.toNat true then resume frame errorFault
  else if frame.ecx.toNat ≤ kVersion.length then resume frame errorNoSpace
  else do
    Mach.modify fun s => s.store frame.ebx.toNat (kVersion ++ [0])
    resume frame (UInt32.ofNat kVersion.length)

def unrestrictedConsoleWrite (frame : SyscallFrame) : Mach SyscallState (SyscallFrame × UInt32) := do
  let s ← Mach.get
  if !s.userRange frame.ebx.toNat frame.ecx.toNat false then resume frame errorFault
  else do
    Mach.modify fun s => { s with console := s.console ++ s.bytesAt frame.ebx.toNat frame.ecx.toNat }
    resume frame frame.ecx

def unrestrictedConsoleRead (frame : SyscallFrame) : Mach SyscallState (SyscallFrame × UInt32) := do
  let s ← Mach.get
  if !s.userRange frame.ebx.toNat frame.ecx.toNat true then resume frame errorFault
  else do
    let eax ← readConsole frame.ebx.toNat frame.ecx.toNat
    resume frame eax

/-- Waiting for the deadline of a sleep, without a scheduler. -/
def waitUntil (ticks interval : UInt32) : UInt32 :=
  let deadline := ticks + interval
  if 0x80000000 ≤ ticks - deadline then deadline else ticks

def syscallDispatchUnrestricted (frame : SyscallFrame) : Mach SyscallState (SyscallFrame × UInt32) := do
  let s ← Mach.get
  let number := frame.eax
  if s.schedulerActive && schedulerNumber number then enterScheduler scheduler frame
  else if number = syscallYield then resume frame 0
  else if number = syscallSleep then do
    Mach.modify fun s => { s with guard.timerTicks := (waitUntil (UInt32.ofNat s.guard.timerTicks) frame.ebx).toNat }
    resume frame 0
  else if number = syscallGetpid then resume frame 0
  else if number = syscallExit then do
    Mach.modify fun s => { s with lastExitCode := frame.ebx }
    pure (frame, 1)
  else if number = syscallConsoleWrite then unrestrictedConsoleWrite frame
  else if number = syscallConsoleRead then unrestrictedConsoleRead frame
  else if number = syscallTicks then resume frame (UInt32.ofNat s.guard.timerTicks)
  else if number = syscallFileRead then
    fileRead (fun _ s => if s.securityReadBlocked then errorDenied else errorNotFound) frame
  else if number = syscallFileWrite then fileWrite (fun _ => errorIo) frame
  else if number = syscallFileStat then fileStat (fun _ => errorNotFound) frame
  else if number = syscallVersion then unrestrictedVersion kVersion frame
  else if number = syscallSync then do
    let result ← onGuard (onVolume syncMetadataResult)
    resume frame (if result.ok then 0 else errorIo)
  else resume frame errorUnsupported

end Dispatch

/-! ### Capabilities and scopes -/

/-- `exact_scope_allows`. -/
def exactScopeAllows (currentDirectory path scope : Bytes) : Bool :=
  scope ≠ [] && normalizePath currentDirectory path = some scope

def auditCapabilityDenial : Mach SyscallState Unit := do
  let s ← Mach.get
  let profile := s.activeCapabilities
  let recorded ← onGuard (recordEvent .execute
    { verdict := .untrusted
      path := if profile.valid then profile.path else ascii "<no-profile>"
      digest := if profile.valid then profile.digest else List.replicate 32 0 })
  if !recorded then Mach.modify fun s => { s with capabilityAuditFailed := true }

/-- The mask of the profile has the capability of the call. -/
def granted (profile : ActiveCapabilityProfile) (number : UInt32) : Bool :=
  profile.valid && profile.mask &&& syscallCapability number = syscallCapability number

def syscallCapabilityAllowed (number : UInt32) : Mach SyscallState Bool := do
  let s ← Mach.get
  if syscallCapability number = 0 || granted s.activeCapabilities number then pure true
  else do
    auditCapabilityDenial
    pure false

/-- The scope that applies to a call. -/
def scopeOf (profile : ActiveCapabilityProfile) (number : UInt32) : Option Bytes :=
  if number = syscallFileRead ∨ number = syscallFileStat then some profile.readScope
  else if number = syscallFileWrite then some profile.writeScope
  else none

def syscallScopeAllowed (number : UInt32) (path : Bytes) : Mach SyscallState Bool := do
  let s ← Mach.get
  match scopeOf s.activeCapabilities number with
  | none => pure true
  | some scope =>
    if s.activeCapabilities.valid && exactScopeAllows s.guard.volume.currentDirectory path scope then pure true
    else do
      auditCapabilityDenial
      pure false

/-! ### The Linux ABI -/

namespace LinuxI386

inductive Operation
  | exit
  | write
  | invalidDescriptor
  | unsupported
  deriving DecidableEq

structure Translation where
  operation : Operation
  argument0 : UInt32
  argument1 : UInt32
  argument2 : UInt32
  deriving DecidableEq

abbrev errorBadFileDescriptor : UInt32 := 0 - 9
abbrev errorFault : UInt32 := 0 - 14
abbrev errorNotImplemented : UInt32 := 0 - 38

def translate (number ebx ecx edx : UInt32) : Translation :=
  if number = 1 ∨ number = 252 then ⟨.exit, ebx, 0, 0⟩
  else if number = 4 then
    if ebx ≠ 1 ∧ ebx ≠ 2 then ⟨.invalidDescriptor, ebx, ecx, edx⟩ else ⟨.write, ebx, ecx, edx⟩
  else ⟨.unsupported, number, 0, 0⟩

end LinuxI386

/-- `linux_i386_pointer_offset`. -/
def linuxI386PointerOffset (imageBias address length : Nat) : Option Nat :=
  if imageBias = 0 ∨ address < imageBias ∨ userLimit ≤ address - imageBias then none
  else if length ≤ userLimit - (address - imageBias) then some (address - imageBias)
  else none

/-- A Linux call as a native one, or the error it returns with. -/
def translateFrame (imageBias : Nat) (frame : SyscallFrame) : Except UInt32 SyscallFrame :=
  let translated := LinuxI386.translate frame.eax frame.ebx frame.ecx frame.edx
  match translated.operation with
  | .invalidDescriptor => .error LinuxI386.errorBadFileDescriptor
  | .unsupported => .error LinuxI386.errorNotImplemented
  | .exit => .ok { frame with eax := syscallExit, ebx := translated.argument0 }
  | .write =>
    match linuxI386PointerOffset imageBias translated.argument1.toNat translated.argument2.toNat with
    | none => .error LinuxI386.errorFault
    | some offset =>
      .ok { frame with eax := syscallConsoleWrite, ebx := UInt32.ofNat offset, ecx := translated.argument2 }

/-! ### The dispatcher -/

/-- The end of a denied call. -/
def denied (frame : SyscallFrame) : Mach SyscallState (SyscallFrame × UInt32) := do
  let s ← Mach.get
  if s.capabilityAuditFailed then do
    Mach.modify fun s => { s with lastExitCode := 126 }
    pure ({ frame with eax := syscallErrorDenied }, 1)
  else resume frame syscallErrorDenied

section Dispatch
variable (scheduler : SyscallFrame → Mach SyscallState (SyscallFrame × UInt32)) (kVersion : Bytes)

/-- The calls that are carried out once capability and scope are checked. -/
def dispatchAllowed (frame : SyscallFrame) : Mach SyscallState (SyscallFrame × UInt32) := do
  if frame.eax = syscallFileRead then fileRead (fun status _ => fsStatusToSyscallError status) frame
  else if frame.eax = syscallFileWrite then fileWrite fsStatusToSyscallError frame
  else if frame.eax = syscallFileStat then fileStat fsStatusToSyscallError frame
  else if frame.eax = syscallSync then do
    let result ← onGuard (onVolume syncMetadataResult)
    resume frame (if result.ok then 0 else fsStatusToSyscallError result.status)
  else do
    let dispatched ← syscallDispatchUnrestricted scheduler kVersion frame
    let s ← Mach.get
    if s.activeSyscallAbi = .linuxI386 ∧ dispatched.1.eax = errorFault then
      pure ({ dispatched.1 with eax := LinuxI386.errorFault }, dispatched.2)
    else pure dispatched

/-- The part of `syscall_dispatch` after the translation of Linux calls. -/
def dispatchNative (frame : SyscallFrame) : Mach SyscallState (SyscallFrame × UInt32) := do
  Mach.modify fun s => { s with native := s.native ++ [⟨frame.eax, frame.ebx, frame.ecx⟩] }
  let s ← Mach.get
  let number := frame.eax
  if number = syscallExit ∨ syscallCapability number = 0 then syscallDispatchUnrestricted scheduler kVersion frame
  else if !(← syscallCapabilityAllowed number) then denied frame
  else if number = syscallFileRead ∨ number = syscallFileWrite ∨ number = syscallFileStat then
    match s.userString frame.ebx.toNat with
    | none => dispatchAllowed scheduler kVersion frame
    | some path => do
      if !(← syscallScopeAllowed number path) then denied frame else dispatchAllowed scheduler kVersion frame
  else dispatchAllowed scheduler kVersion frame

def syscallDispatch (frame : SyscallFrame) : Mach SyscallState (SyscallFrame × UInt32) := do
  let s ← Mach.get
  if s.activeSyscallAbi = .linuxI386 then
    match translateFrame s.linuxImageBias frame with
    | .error eax => resume frame eax
    | .ok frame => dispatchNative scheduler kVersion frame
  else dispatchNative scheduler kVersion frame

end Dispatch

end ZenovOS.Process
