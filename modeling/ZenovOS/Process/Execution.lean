import Mathlib.Computability.StateTransition
import ZenovOS.Memory.Paging
import ZenovOS.Process.Syscall

/-! # Native programs

How the processor runs a program in the user window: the instructions that the compiler of source programs emits, and the system calls
that they enter. -/

namespace ZenovOS.Process
open Bytes Memory

/-- The window of the active address space, as the program and the checks of its pointers find it. -/
def windowOf (s : Paging) : Window where
  memory offset := (s.userByte offset).getD 0
  pages k :=
    let entry := s.currentEntry k
    { present := entry &&& Paging.present ≠ 0, user := entry &&& Paging.user ≠ 0, writable := entry &&& Paging.writable ≠ 0 }

inductive Register
  | eax
  | ecx
  | ebx
  deriving DecidableEq

inductive Instruction
  | mov (register : Register) (value : UInt32)
  | int80
  | ud2
  deriving DecidableEq

def Instruction.length : Instruction → UInt32
  | .mov _ _ => 5
  | .int80 => 2
  | .ud2 => 2

/-- Bytes of the code segment. It ends with the window, and its pages must be there for the program. -/
def Window.fetch (w : Window) (offset length : Nat) : Option Bytes :=
  if w.userAccess offset length false then some (w.bytesAt offset length) else none

/-- `mov register, imm32` with the value behind the opcode. -/
def Window.decodeMov (w : Window) (register : Register) (eip : Nat) : Option Instruction :=
  (w.fetch (eip + 1) 4).map fun value => .mov register (UInt32.ofNat (toNat value))

/-- The instruction at an offset, if it is one of these. -/
def Window.decode (w : Window) (eip : Nat) : Option Instruction :=
  match w.fetch eip 1 with
  | some [0xB8] => w.decodeMov .eax eip
  | some [0xB9] => w.decodeMov .ecx eip
  | some [0xBB] => w.decodeMov .ebx eip
  | some [0xCD] => if w.fetch (eip + 1) 1 = some [0x80] then some .int80 else none
  | some [0x0F] => if w.fetch (eip + 1) 1 = some [0x0B] then some .ud2 else none
  | _ => none

def SyscallFrame.load (frame : SyscallFrame) (register : Register) (value : UInt32) : SyscallFrame :=
  match register with
  | .eax => { frame with eax := value }
  | .ecx => { frame with ecx := value }
  | .ebx => { frame with ebx := value }

/-- The frame behind an instruction. -/
def SyscallFrame.advance (frame : SyscallFrame) (instruction : Instruction) : SyscallFrame :=
  { frame with eip := frame.eip + instruction.length }

/-- A program in the window, with its registers as they stand in the frame of a call. -/
inductive Execution
  | running (frame : SyscallFrame) (s : SyscallState)
  | exited (code : UInt32) (s : SyscallState)
  | stopped (s : SyscallState)

section Step
variable (scheduler : SyscallFrame → Mach SyscallState (SyscallFrame × UInt32)) (kVersion : Bytes)

/-- `int 0x80`. The exit call does not return, whether there are tasks or not, and its code is in `ebx`. -/
def systemCall (frame : SyscallFrame) (s : SyscallState) : Execution :=
  if frame.eax = syscallExit then .exited frame.ebx s
  else
    match syscallDispatchUnrestricted scheduler kVersion frame s with
    | (some (frame, 0), s) => .running frame s
    | (some (_, _), s) => .exited s.lastExitCode s
    | (none, s) => .stopped s

/-- An instruction that is not there, or not one of these, stops the program. -/
def execute : Execution → Option Execution
  | .running frame s =>
    match s.decode frame.eip.toNat with
    | some (.mov register value) => some (.running ((frame.load register value).advance (.mov register value)) s)
    | some .int80 => some (systemCall scheduler kVersion (frame.advance .int80) s)
    | some .ud2 => some (.stopped s)
    | none => some (.stopped s)
  | .exited _ _ => none
  | .stopped _ => none

end Step
end ZenovOS.Process
