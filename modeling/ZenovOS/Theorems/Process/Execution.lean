import ZenovOS.Process.Execution
import ZenovOS.Theorems.Process.ZexLoader

/-! # Runs of native programs

An image that is in the window is fetched as it stands there, so that the processor finds each instruction that was emitted. A run that
ends by the exit call ends in one way only. -/

namespace ZenovOS.Process
open Bytes Memory Security ForeignImport StateTransition

/-! ### The image in the window -/

/-- The window has the image at its start, on pages that the program can read. -/
structure Window.Holds (w : Window) (image : Bytes) : Prop where
  fits : image.length ≤ userLimit
  bytes : ∀ i < image.length, w.memory i = image.getD i 0
  readable : ∀ i < image.length, (w.pages (i / pageSize)).present = true ∧ (w.pages (i / pageSize)).user = true

/-- A piece of the image stands at this offset. -/
def CodeAt (image : Bytes) (offset : Nat) (code : Bytes) : Prop :=
  ∃ before after, image = before ++ code ++ after ∧ before.length = offset

variable {w : Window} {image code a b : Bytes} {offset length : Nat}

theorem CodeAt.fits (h : CodeAt image offset code) : offset + code.length ≤ image.length := by
  obtain ⟨before, after, rfl, rfl⟩ := h
  rw [List.length_append, List.length_append]
  omega

theorem CodeAt.slice_eq (h : CodeAt image offset code) : slice image offset code.length = code := by
  obtain ⟨before, after, rfl, rfl⟩ := h
  exact slice_field before code rfl rfl (List.append_assoc before code after)

theorem CodeAt.left (h : CodeAt image offset (a ++ b)) : CodeAt image offset a := by
  obtain ⟨before, after, rfl, rfl⟩ := h
  exact ⟨before, b ++ after, by simp only [List.append_assoc], rfl⟩

theorem CodeAt.right (h : CodeAt image offset (a ++ b)) : CodeAt image (offset + a.length) b := by
  obtain ⟨before, after, rfl, rfl⟩ := h
  exact ⟨before ++ a, after, by simp only [List.append_assoc], List.length_append⟩

theorem Window.Holds.bytesAt (h : w.Holds image) (hrange : offset + length ≤ image.length) :
    w.bytesAt offset length = slice image offset length := by
  rw [Write.slice_eq_load hrange]
  refine List.map_congr_left fun i hi => ?_
  have hi : i < length := List.mem_range.mp hi
  exact h.bytes (offset + i) (by omega)

theorem exists_byte_of_page {k : Nat} (hfirst : offset / 4096 ≤ k) (hlast : k < (offset + length + 4096 - 1) / 4096) (hpos : 0 < length) :
    ∃ i, offset ≤ i ∧ i < offset + length ∧ i / 4096 = k := by
  by_cases hk : offset / 4096 = k
  · exact ⟨offset, Nat.le_refl _, by omega, hk⟩
  · exact ⟨k * 4096, by omega, by omega, by omega⟩

theorem Window.Holds.userAccess (h : w.Holds image) (hpos : 0 < length) (hrange : offset + length ≤ image.length) :
    w.userAccess offset length false = true := by
  have hfits := h.fits
  unfold Window.userAccess
  rw [if_neg (by omega), if_neg (by omega), List.all_eq_true]
  intro i hi
  have hi : i < (offset + length + 4096 - 1) / 4096 - offset / 4096 := List.mem_range.mp hi
  obtain ⟨o, hfirst, hlt, hpage⟩ := @exists_byte_of_page offset length (offset / 4096 + i) (by omega) (by omega) hpos
  have hreadable := h.readable o (by omega)
  rw [show o / pageSize = offset / pageSize + i from hpage] at hreadable
  show ((w.pages (offset / pageSize + i)).present && (w.pages (offset / pageSize + i)).user && true) = true
  rw [hreadable.1, hreadable.2]
  rfl

theorem Window.Holds.userRange (h : w.Holds image) (hpos : 0 < length) (hrange : offset + length ≤ image.length) :
    w.userRange offset length false = true := by
  have hfits := h.fits
  unfold Window.userRange
  rw [h.userAccess hpos hrange, decide_eq_true (by omega : offset < userLimit), decide_eq_true (by omega : length ≤ userLimit - offset)]
  rfl

theorem Window.Holds.fetch (h : w.Holds image) (hcode : CodeAt image offset code) (hlength : code.length = length) (hpos : 0 < length) :
    w.fetch offset length = some code := by
  subst hlength
  unfold Window.fetch
  rw [if_pos (h.userAccess hpos hcode.fits), h.bytesAt hcode.fits, hcode.slice_eq]

/-! ### Loaded images -/

theorem windowOf_readable {p : Pmm} {s : Paging} {own : Paging.Slot → Option Nat} (hs : Paging.Sound p s own) {o : Nat}
    (hbyte : (s.userByte o).isSome = true) : ((windowOf s).pages (o / pageSize)).present = true ∧ ((windowOf s).pages (o / pageSize)).user = true := by
  have hpresent : Paging.isPresent (s.currentEntry (o / pageSize)) = true := by
    unfold Paging.userByte at hbyte
    dsimp only at hbyte
    split at hbyte
    · assumption
    · cases hbyte
  rcases hs.current (o / pageSize) with hzero | ⟨-, f, -, hflag⟩
  · rw [hzero] at hpresent
    cases hpresent
  · -- the entry has 5 or 7 in its low bits
    have hlow : s.currentEntry (o / pageSize) % 8 = 5 ∨ s.currentEntry (o / pageSize) % 8 = 7 := by
      rcases hflag with he | he <;> rw [he] <;> omega
    have huser : s.currentEntry (o / pageSize) &&& 4 ≠ 0 := by
      have hmask : s.currentEntry (o / pageSize) &&& 4 = s.currentEntry (o / pageSize) % 2 ^ 3 &&& 4 := by
        rw [← Paging.and_low, Nat.and_assoc]
        rfl
      rw [hmask]
      rcases hlow with hlow | hlow <;> rw [show 2 ^ 3 = 8 from rfl, hlow] <;> decide
    exact ⟨hpresent, decide_eq_true huser⟩

theorem load_holds {p : Pmm} {s : Paging} {own : Paging.Slot → Option Nat} {file : Bytes} (h : LoadableZex file)
    (hs : Paging.Sound p s own) (hframes : s.Enough (zexFramesNeeded file)) :
    ∃ s', loadZex file s = (some (some (u32 file 16)), s') ∧ (windowOf s').Holds (slice file 32 (u32 file 12)) := by
  obtain ⟨s', hload, hloaded⟩ := h.load hs hframes
  obtain ⟨v, hat, -⟩ := (Mach.wp_ended (loadZex_ends file hs) hload).2 (Option.some_ne_none _)
  obtain ⟨own', hs'⟩ := hat.shown.sound
  have himage : (slice file 32 (u32 file 12)).length = u32 file 12 := length_slice h.length
  have hroom : u32 file 12 + u32 file 20 ≤ 1032192 := h.room
  refine ⟨s', hload, himage.symm ▸ (by omega : u32 file 12 ≤ 1048576), fun i hi => ?_, fun i hi => ?_⟩
  · rw [himage] at hi
    rw [getD_slice hi]
    show (s'.userByte i).getD 0 = _
    rw [hloaded.bytes i hi, Option.getD_some]
  · rw [himage] at hi
    refine windowOf_readable hs' ?_
    rw [hloaded.bytes i hi, Option.isSome_some]

/-! ### Single instructions -/

/-- The opcode of `mov register, imm32`. -/
def Register.opcode : Register → UInt8
  | .eax => 0xB8
  | .ecx => 0xB9
  | .ebx => 0xBB

def SyscallFrame.value (frame : SyscallFrame) : Register → UInt32
  | .eax => frame.eax
  | .ecx => frame.ecx
  | .ebx => frame.ebx

/-- An instruction as it is emitted. -/
def movCode (register : Register) (value : Nat) : Bytes := register.opcode :: le 4 value

theorem length_movCode (register : Register) (value : Nat) : (movCode register value).length = 5 := by
  rw [movCode, List.length_cons, length_le]

theorem decode_mov (h : w.Holds image) {register : Register} {value : Nat} (hcode : CodeAt image offset (movCode register value)) :
    w.decode offset = some (.mov register (UInt32.ofNat value)) := by
  have hopcode : w.fetch offset 1 = some [register.opcode] := h.fetch (CodeAt.left (b := le 4 value) hcode) rfl Nat.one_pos
  have hvalue : w.fetch (offset + 1) 4 = some (le 4 value) := h.fetch (CodeAt.right (a := [register.opcode]) hcode) (length_le 4 value) (by decide)
  have hmov : w.decodeMov register offset = some (.mov register (UInt32.ofNat value)) := by
    unfold Window.decodeMov
    rw [hvalue, Option.map_some, toNat_le]
    congr 2
    exact UInt32.ofNat_mod_size
  unfold Window.decode
  rw [hopcode]
  cases register <;> exact hmov

theorem decode_int80 (h : w.Holds image) (hcode : CodeAt image offset [0xCD, 0x80]) : w.decode offset = some .int80 := by
  have hopcode : w.fetch offset 1 = some [0xCD] := h.fetch (CodeAt.left (a := [0xCD]) (b := [0x80]) hcode) rfl Nat.one_pos
  have hvector : w.fetch (offset + 1) 1 = some [0x80] := h.fetch (CodeAt.right (a := [0xCD]) (b := [0x80]) hcode) rfl Nat.one_pos
  unfold Window.decode
  rw [hopcode]
  exact if_pos hvector

section Steps
variable (scheduler : SyscallFrame → Mach SyscallState (SyscallFrame × UInt32)) (kVersion : Bytes)
variable {frame : SyscallFrame} {s : SyscallState} {eip : Nat}

theorem advance_eip (instruction : Instruction) {n : Nat} (heip : frame.eip.toNat = eip) (hlength : instruction.length.toNat = n)
    (hroom : eip + n ≤ userLimit) : (frame.advance instruction).eip.toNat = eip + n := by
  have hroom : eip + n ≤ 1048576 := hroom
  show (frame.eip + instruction.length).toNat = eip + n
  rw [UInt32.toNat_add, heip, hlength]
  exact Nat.mod_eq_of_lt (by omega)

theorem execute_mov (h : s.Holds image) (heip : frame.eip.toNat = eip) {register : Register} {value : Nat}
    (hcode : CodeAt image eip (movCode register value)) :
    ∃ frame', execute scheduler kVersion (.running frame s) = some (.running frame' s) ∧ frame'.eip.toNat = eip + 5 ∧
      frame'.value register = UInt32.ofNat value ∧ ∀ other, other ≠ register → frame'.value other = frame.value other := by
  have hroom := Nat.le_trans hcode.fits h.fits
  rw [length_movCode] at hroom
  refine ⟨(frame.load register (UInt32.ofNat value)).advance (.mov register (UInt32.ofNat value)), ?_, ?_, ?_, ?_⟩
  · rw [execute, heip, decode_mov h hcode]
  · refine advance_eip _ ?_ rfl hroom
    cases register <;> exact heip
  · cases register <;> rfl
  · intro other hother
    cases register <;> cases other <;> first | rfl | exact absurd rfl hother

theorem execute_int80 (h : s.Holds image) (heip : frame.eip.toNat = eip) (hcode : CodeAt image eip [0xCD, 0x80]) :
    execute scheduler kVersion (.running frame s) = some (systemCall scheduler kVersion (frame.advance .int80) s) := by
  rw [execute, heip, decode_int80 h hcode]

/-! ### System calls -/

theorem dispatch_consoleWrite (hnumber : frame.eax = syscallConsoleWrite) :
    syscallDispatchUnrestricted scheduler kVersion frame s = unrestrictedConsoleWrite frame s := by
  have hscheduler : (s.schedulerActive && schedulerNumber frame.eax) = false := by
    rw [hnumber, Bool.and_eq_false_iff]
    exact .inr (by decide)
  unfold syscallDispatchUnrestricted
  show (if s.schedulerActive && schedulerNumber frame.eax then _ else _ : Mach SyscallState (SyscallFrame × UInt32)) s = _
  rw [hscheduler, if_neg Bool.false_ne_true, hnumber]
  rfl

theorem consoleWrite_allowed (hrange : s.userRange frame.ebx.toNat frame.ecx.toNat false = true) :
    unrestrictedConsoleWrite frame s =
      (some ({ frame with eax := frame.ecx }, 0), { s with console := s.console ++ s.bytesAt frame.ebx.toNat frame.ecx.toNat }) := by
  show (if !s.userRange frame.ebx.toNat frame.ecx.toNat false then _ else _ : Mach SyscallState (SyscallFrame × UInt32)) s = _
  rw [hrange]
  rfl

theorem consoleWrite_refused (hrange : s.userRange frame.ebx.toNat frame.ecx.toNat false = false) :
    unrestrictedConsoleWrite frame s = (some ({ frame with eax := errorFault }, 0), s) := by
  show (if !s.userRange frame.ebx.toNat frame.ecx.toNat false then _ else _ : Mach SyscallState (SyscallFrame × UInt32)) s = _
  rw [hrange]
  rfl

theorem systemCall_consoleWrite (h : s.Holds image) (hnumber : frame.eax = syscallConsoleWrite) {text : Bytes} {offset : Nat}
    (hebx : frame.ebx.toNat = offset) (hecx : frame.ecx.toNat = text.length) (htext : CodeAt image offset text) :
    ∃ eax, systemCall scheduler kVersion frame s = .running { frame with eax } { s with console := s.console ++ text } := by
  have hne : ¬frame.eax = syscallExit := hnumber ▸ by decide
  unfold systemCall
  rw [if_neg hne, dispatch_consoleWrite scheduler kVersion hnumber]
  cases hrange : s.userRange frame.ebx.toNat frame.ecx.toNat false with
  | true =>
    have hbytes : s.bytesAt frame.ebx.toNat frame.ecx.toNat = text := by
      rw [hebx, hecx, h.bytesAt htext.fits, htext.slice_eq]
    rw [consoleWrite_allowed hrange, hbytes]
    exact ⟨frame.ecx, rfl⟩
  | false =>
    have hnone : text = [] := by
      by_contra hne
      rw [hebx, hecx, h.userRange (List.length_pos_of_ne_nil hne) htext.fits] at hrange
      cases hrange
    rw [consoleWrite_refused hrange, hnone, List.append_nil]
    exact ⟨errorFault, rfl⟩

theorem systemCall_exit (hnumber : frame.eax = syscallExit) : systemCall scheduler kVersion frame s = .exited frame.ebx s := if_pos hnumber

theorem exited_unique {start : Execution} {code code' : UInt32} {s s' : SyscallState}
    (h : Reaches (execute scheduler kVersion) start (.exited code s)) (h' : Reaches (execute scheduler kVersion) start (.exited code' s')) :
    code = code' ∧ s = s' := by
  have hend : ∀ {code s code' s'}, Reaches (execute scheduler kVersion) (.exited code s) (.exited code' s') → code = code' ∧ s = s' := by
    intro code s code' s' h
    rcases Relation.ReflTransGen.cases_head h with heq | ⟨next, hnext, -⟩
    · exact ⟨(Execution.exited.inj heq).1, (Execution.exited.inj heq).2⟩
    · cases hnext
  rcases reaches_total h h' with h | h
  · exact hend h
  · exact ⟨(hend h).1.symm, (hend h).2.symm⟩

end Steps
end ZenovOS.Process
