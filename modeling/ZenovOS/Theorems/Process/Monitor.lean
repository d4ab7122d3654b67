import ZenovOS.Process.Syscall
import ZenovOS.Theorems.Security.Access

/-! # The dispatcher as a reference monitor

A program gets at the file system through three calls, each behind a capability of its profile and a scope
that the path must be. What the calls access has the scope as its stored path, but for the second
normalisation of an append; a program of the Linux ABI reaches no other native call than exit and a
console write in its window. -/

namespace ZenovOS.Process
open Bytes Storage Security Mach Volume

variable {s s' : SyscallState} {frame : SyscallFrame} {N M : Bytes → Prop}

/-! ### Strings of the program -/

namespace Window
variable {w : Window}

theorem bytesAt_succ (offset length : Nat) :
    w.bytesAt offset (length + 1) = w.memory offset :: w.bytesAt (offset + 1) length := by
  unfold bytesAt
  rw [List.range_succ_eq_map, List.map_cons, List.map_map]
  refine congrArg _ (List.map_congr_left fun i _ => ?_)
  simp only [Function.comp_apply, Nat.succ_eq_add_one]
  rw [Nat.add_assoc, Nat.add_comm 1 i]

theorem bytesAt_add (offset m n : Nat) : w.bytesAt offset (m + n) = w.bytesAt offset m ++ w.bytesAt (offset + m) n := by
  unfold bytesAt
  rw [List.range_add, List.map_append, List.map_map]
  refine congrArg _ (List.map_congr_left fun i _ => ?_)
  simp only [Function.comp_apply]
  rw [Nat.add_assoc]

theorem scanString_some {left offset : Nat} {text path : Bytes} (h : w.scanString left offset text = some path) :
    ∃ n < left, path = text ++ w.bytesAt offset n ∧ w.memory (offset + n) = 0 ∧ (0 : UInt8) ∉ w.bytesAt offset n := by
  induction left generalizing offset text with
  | zero => cases h
  | succ left ih =>
    unfold scanString at h
    split at h
    · cases h
    split at h
    · rename_i hzero
      cases h
      exact ⟨0, Nat.succ_pos left, by simp [bytesAt], hzero, by simp [bytesAt]⟩
    · rename_i hbyte
      obtain ⟨n, hn, rfl, hend, hnot⟩ := ih h
      refine ⟨n + 1, Nat.succ_lt_succ hn, ?_, ?_, ?_⟩
      · rw [bytesAt_succ, List.append_assoc, List.singleton_append]
      · rwa [Nat.add_comm n 1, ← Nat.add_assoc]
      · rw [bytesAt_succ, List.mem_cons, not_or]
        exact ⟨fun h => hbyte h.symm, hnot⟩

theorem cstr_stringAt {offset : Nat} {path : Bytes} (h : w.userString offset = some path) :
    cstr (w.stringAt offset) = cstr path := by
  unfold userString at h
  split at h
  · cases h
  obtain ⟨n, hn, rfl, hend, hnot⟩ := scanString_some h
  rw [List.nil_append, cstr_of_notMem hnot]
  obtain ⟨left, hleft⟩ : ∃ left, 128 = n + (left + 1) := ⟨127 - n, by omega⟩
  rw [stringAt, hleft, bytesAt_add, bytesAt_succ, hend, cstr_append_zero hnot]

end Window

theorem normalizePath_cstr {d path path' : Bytes} (h : cstr path = cstr path') : normalizePath d path = normalizePath d path' := by
  unfold normalizePath
  rw [h]

/-! ### The calls on files -/

theorem wp_onGuard {α : Type} {m : Mach GuardState α} {Q : α → SyscallState → Prop} {C : SyscallState → Prop} :
    wp (onGuard m) Q C s ↔ wp m (fun a g => Q a { s with guard := g }) (fun g => C { s with guard := g }) s.guard := wp_zoom

theorem wp_onVolume {α : Type} {m : Mach Volume α} {g : GuardState} {Q : α → GuardState → Prop} {C : GuardState → Prop} :
    wp (onVolume m) Q C g ↔ wp m (fun a v => Q a { g with volume := v }) (fun v => C { g with volume := v }) g.volume := wp_zoom

/-- The entries accessed in a call. -/
def Touched (N : Bytes → Prop) (s s' : SyscallState) : Prop := Touches N (fun _ => True) s.guard.volume s'.guard.volume

theorem Touched.refl (s : SyscallState) : Touched N s s := Touches.refl _

theorem Touched.trans {t : SyscallState} (h : Touched N s s') (h' : Touched N s' t) : Touched N s t := Touches.trans h h'

theorem touched_onGuard {α : Type} {m : Mach GuardState α}
    (h : wp m (fun _ g => Touches N M s.guard.volume g.volume) (fun g => Touches N M s.guard.volume g.volume) s.guard) :
    wp (onGuard m) (fun _ s' => Touched N s s') (fun s' => Touched N s s') s :=
  wp_onGuard.mpr (wp_mono h (fun _ _ h => h.mono (fun _ => id) fun _ _ => trivial) fun _ h =>
    h.mono (fun _ => id) fun _ _ => trivial)

/-- The path that a call names. -/
def Names (s : SyscallState) (frame : SyscallFrame) (n : Bytes) : Prop :=
  ∃ path, s.userString frame.ebx.toNat = some path ∧ normalizePath s.guard.volume.currentDirectory path = some n

theorem integrityReadFailure_touched {source : FsResult} {output actualSize : Nat} :
    wp (integrityReadFailure source output actualSize) (fun _ s' => Touched N s s') (fun s' => Touched N s s') s := by
  unfold integrityReadFailure
  rw [wp_bind, wp_modify]
  exact Touched.refl s

theorem inspectRead_touched {input output : Nat} {read : FsResult} {content : Bytes} :
    wp (inspectRead input output read content) (fun _ s' => Touched N s s') (fun s' => Touched N s s') s := by
  have hdeny : ∀ {t : SyscallState}, Touched N s t →
      wp (inspectRead.deny output content) (fun _ s' => Touched N s s') (fun s' => Touched N s s') t := fun h => h
  unfold inspectRead
  rw [wp_bind, wp_get]
  refine wp_seq (touched_onGuard verifyRead_touches) (fun _ h => h) fun ok s₁ h₁ => ?_
  refine wp_ite (fun _ => ?_) fun _ => wp_ite (fun _ => hdeny h₁) fun _ => ?_
  · exact wp_mono integrityReadFailure_touched (fun _ _ h => h₁.trans h) fun _ h => h₁.trans h
  · refine wp_seq (touched_onGuard allowPersistentRead_touches) (fun _ h => h₁.trans h) fun ok s₂ h₂ => ?_
    exact wp_ite (fun _ => hdeny (h₁.trans h₂)) fun _ => h₁.trans h₂

theorem guardedReadFileResult_touched {input output capacity : Nat} :
    wp (guardedReadFileResult input output capacity)
      (fun _ s' => Touched (Reads s.guard.volume (s.stringAt input)) s s')
      (fun s' => Touched (Reads s.guard.volume (s.stringAt input)) s s') s := by
  unfold guardedReadFileResult
  rw [wp_bind, wp_modify, wp_bind, wp_get]
  have hread : wp (onGuard (onVolume (readFileResult (s.stringAt input) capacity)))
      (fun _ s' => Touched (Reads s.guard.volume (s.stringAt input)) s s')
      (fun s' => Touched (Reads s.guard.volume (s.stringAt input)) s s') { s with securityReadBlocked := false } :=
    touched_onGuard (wp_onVolume.mpr (wp_mono (readFileResult_touches (M := fun _ => True)) (fun _ _ h => h.1) fun _ h => h))
  refine wp_seq hread (fun _ h => h) fun read s₁ h₁ => wp_ite (fun _ => ?_) fun _ => ?_
  · rw [wp_bind, wp_modify]
    exact wp_mono inspectRead_touched (fun _ _ h => h₁.trans h) fun _ h => h₁.trans h
  · simp only [wp_bind, wp_modify, wp_get]
    have hmissing : ∀ s' : SyscallState, wp (onGuard (Zvrt.missingRead s'.zvrt (s'.stringAt input)))
        (fun _ s₂ => Touched (Reads s.guard.volume (s.stringAt input)) s' s₂)
        (fun s₂ => Touched (Reads s.guard.volume (s.stringAt input)) s' s₂) s' := fun _ => touched_onGuard missingRead_touches
    refine wp_mono (hmissing (s₁.store output _)) (fun ok s₂ h₂ => wp_ite (fun _ => h₁.trans h₂) fun _ => ?_) fun _ h => h₁.trans h
    exact wp_mono integrityReadFailure_touched (fun _ _ h => (h₁.trans h₂).trans h) fun _ h => (h₁.trans h₂).trans h

theorem fileRead_touched {failed : FsStatus → SyscallState → UInt32} :
    wp (fileRead failed frame) (fun _ s' => Touched (Names s frame) s s') (fun s' => Touched (Names s frame) s s') s := by
  unfold fileRead
  rw [wp_bind, wp_get]
  refine wp_ite (fun _ => Touched.refl s) fun hok => ?_
  obtain ⟨path, hpath⟩ : ∃ path, s.userString frame.ebx.toNat = some path := by
    rw [not_or, Option.isNone_iff_eq_none] at hok
    exact Option.ne_none_iff_exists'.mp hok.1
  have hnames : ∀ n, Reads s.guard.volume (s.stringAt frame.ebx.toNat) n → Names s frame n := fun n h =>
    ⟨path, hpath, (normalizePath_cstr (Window.cstr_stringAt hpath)).symm.trans h.2.1⟩
  unfold securityReadFileResult
  rw [wp_bind, wp_bind, wp_modify]
  refine wp_mono guardedReadFileResult_touched (fun _ _ h => ?_) fun _ h => ?_
  · exact Touches.mono h hnames fun _ => id
  · exact Touches.mono h hnames fun _ => id

theorem fileStat_touched {failed : FsStatus → UInt32} :
    wp (fileStat failed frame) (fun _ s' => Touched (Names s frame) s s') (fun s' => Touched (Names s frame) s s') s := by
  unfold fileStat
  rw [wp_bind, wp_get]
  rcases hpath : s.userString frame.ebx.toNat with _ | path
  · exact Touched.refl s
  dsimp only
  refine wp_ite (fun _ => Touched.refl s) fun _ => ?_
  have hquery : wp (onGuard (onVolume (queryResult path))) (fun _ s' => Touched (Names s frame) s s')
      (fun s' => Touched (Names s frame) s s') s := by
    refine touched_onGuard (M := fun _ => True) (wp_onVolume.mpr (wp_mono (queryResult_touches (M := fun _ => True))
      (fun _ _ h => ?_) fun _ h => ?_))
    · exact h.mono (fun n hn => ⟨path, hpath, hn⟩) fun _ => id
    · exact h.mono (fun n hn => ⟨path, hpath, hn⟩) fun _ => id
  refine wp_seq hquery (fun _ h => h) fun queried s₁ h₁ => ?_
  split
  · exact h₁
  · rw [wp_bind, wp_modify]
    exact h₁

/-- The data of a write can be read. -/
def DataReadable (s : SyscallState) (frame : SyscallFrame) : Prop :=
  frame.edx = 0 ∨ s.userRange frame.ecx.toNat frame.edx.toNat false = true

/-- A write accesses the entries of its path `p` and the entry that the guard reads before an append. -/
theorem fileWrite_touched {failed : FsStatus → UInt32} {path p : Bytes} (hpath : s.userString frame.ebx.toNat = some path)
    (hp : normalizePath s.guard.volume.currentDirectory path = some p) :
    wp (fileWrite failed frame)
      (fun _ s' => Touched (fun n => n = p ∨ DataReadable s frame ∧ GuardReads s.guard p (frame.esi ≠ 0) n) s s')
      (fun s' => Touched (fun n => n = p ∨ DataReadable s frame ∧ GuardReads s.guard p (frame.esi ≠ 0) n) s s') s := by
  unfold fileWrite
  rw [wp_bind, wp_get, hpath]
  refine wp_ite (fun _ => Touched.refl s) fun hdata => ?_
  have hdata : DataReadable s frame := by
    rw [not_and_or, not_not] at hdata
    exact hdata.symm.imp id fun h => by simpa using h
  have hwrite : wp (onGuard (guardedWriteFileResult path (s.bytesAt frame.ecx.toNat frame.edx.toNat) (frame.esi ≠ 0)))
      (fun _ s' => Touched (fun n => n = p ∨ DataReadable s frame ∧ GuardReads s.guard p (frame.esi ≠ 0) n) s s')
      (fun s' => Touched (fun n => n = p ∨ DataReadable s frame ∧ GuardReads s.guard p (frame.esi ≠ 0) n) s s') s := by
    refine touched_onGuard (M := fun _ => True) (wp_mono (guardedWriteFileResult_touches hp) (fun _ _ h => ?_) fun _ h => ?_)
    · exact h.mono (fun n hn => hn.imp id fun h => ⟨hdata, h⟩) fun _ => id
    · exact h.mono (fun n hn => hn.imp id fun h => ⟨hdata, h⟩) fun _ => id
  exact wp_seq hwrite (fun _ h => h) fun _ _ h => h

theorem fileWrite_accesses {failed : FsStatus → UInt32} {path p n : Bytes} (hpath : s.userString frame.ebx.toNat = some path)
    (hp : normalizePath s.guard.volume.currentDirectory path = some p) (hdata : DataReadable s frame)
    (h : GuardReads s.guard p (frame.esi ≠ 0) n) :
    wp (fileWrite failed frame) (fun _ s' => Accesses n s.guard.volume s'.guard.volume)
      (fun s' => Accesses n s.guard.volume s'.guard.volume) s := by
  unfold fileWrite
  rw [wp_bind, wp_get, hpath]
  dsimp only
  rw [if_neg]
  · exact wp_seq (wp_onGuard.mpr (guardedWriteFileResult_accessed hp h)) (fun _ h => h) fun _ _ h => h
  · intro hno
    rcases hdata with hzero | hrange
    · exact hno.2 hzero
    · rw [hrange] at hno
      exact absurd hno.1 (by decide)

/-! ### Capabilities and scopes -/

theorem auditCapabilityDenial_touched :
    wp auditCapabilityDenial (fun _ s' => Touched N s s') (fun s' => Touched N s s') s := by
  unfold auditCapabilityDenial
  rw [wp_bind, wp_get]
  refine wp_seq (touched_onGuard recordEvent_touches) (fun _ h => h) fun recorded s₁ h => ?_
  exact wp_ite (fun _ => h) fun _ => h

theorem syscallCapabilityAllowed_touched {number : UInt32} (hcap : syscallCapability number ≠ 0) :
    wp (syscallCapabilityAllowed number)
      (fun ok s' => ok = granted s.activeCapabilities number ∧ Touched N s s' ∧ (ok = true → s' = s))
      (fun s' => Touched N s s') s := by
  unfold syscallCapabilityAllowed
  rw [wp_bind, wp_get]
  refine wp_ite (fun h => ⟨?_, Touched.refl s, fun _ => rfl⟩) fun h => ?_
  · simpa [hcap] using h.symm
  · refine wp_seq auditCapabilityDenial_touched (fun _ h => h) fun _ _ h' => ⟨?_, h', fun h => by cases h⟩
    simpa [hcap] using h

theorem syscallScopeAllowed_touched {number : UInt32} {path scope : Bytes}
    (hscope : scopeOf s.activeCapabilities number = some scope) :
    wp (syscallScopeAllowed number path)
      (fun ok s' => ok = (s.activeCapabilities.valid && exactScopeAllows s.guard.volume.currentDirectory path scope) ∧
        Touched N s s' ∧ (ok = true → s' = s))
      (fun s' => Touched N s s') s := by
  unfold syscallScopeAllowed
  rw [wp_bind, wp_get, hscope]
  refine wp_ite (fun h => ⟨h.symm, Touched.refl s, fun _ => rfl⟩) fun h => ?_
  refine wp_seq auditCapabilityDenial_touched (fun _ h => h) fun _ _ h' => ⟨?_, h', fun h => by cases h⟩
  simpa using h

theorem denied_touched : wp (denied frame) (fun _ s' => Touched N s s') (fun s' => Touched N s s') s := by
  unfold denied
  rw [wp_bind, wp_get]
  refine wp_ite (fun _ => ?_) fun _ => Touched.refl s
  rw [wp_bind, wp_modify]
  exact Touched.refl s

/-! ### The dispatcher -/

/-- The calls on files. -/
def FileCall (number : UInt32) : Prop := number = syscallFileRead ∨ number = syscallFileStat ∨ number = syscallFileWrite

/-- The profile grants the call, and the stored path `n` is the scope of it. -/
def Permits (profile : ActiveCapabilityProfile) (number : UInt32) (n : Bytes) : Prop :=
  granted profile number = true ∧ scopeOf profile number = some n

/-- A native call that a Linux program may cause. -/
def LinuxCall (call : NativeCall) : Prop :=
  call.number = syscallExit ∨
    call.number = syscallConsoleWrite ∧ call.ebx.toNat < userLimit ∧ call.ecx.toNat ≤ userLimit - call.ebx.toNat

/-- What a reference monitor lets a call from `s` do: a call on files accesses what the profile permits, a
    Linux program causes only the calls that it may. -/
structure Monitored (s : SyscallState) (frame : SyscallFrame) (s' : SyscallState) : Prop where
  files : s.activeSyscallAbi = .zenov → FileCall frame.eax → ∃ paths, s'.guard.volume.accessed =
    s.guard.volume.accessed ++ paths ∧ ∀ n ∈ paths, Permits s.activeCapabilities frame.eax n
  native : s.activeSyscallAbi = .linuxI386 → ∃ calls, s'.native = s.native ++ calls ∧ ∀ call ∈ calls, LinuxCall call

/-- A permitted append to a file whose path is normalised to that of another entry. -/
def Strays (s : SyscallState) (frame : SyscallFrame) : Prop :=
  s.activeSyscallAbi = .zenov ∧ frame.eax = syscallFileWrite ∧ granted s.activeCapabilities syscallFileWrite = true ∧
    Names s frame s.activeCapabilities.writeScope ∧ DataReadable s frame ∧
    ∃ n, GuardReads s.guard s.activeCapabilities.writeScope (frame.esi ≠ 0) n ∧ n ≠ s.activeCapabilities.writeScope

theorem fileCall_capability {number : UInt32} (h : FileCall number) : number ≠ syscallExit ∧ syscallCapability number ≠ 0 := by
  rcases h with rfl | rfl | rfl <;> decide

theorem fileCall_scope {number : UInt32} (h : FileCall number) (profile : ActiveCapabilityProfile) :
    ∃ scope, scopeOf profile number = some scope := by
  rcases h with rfl | rfl | rfl
  · exact ⟨profile.readScope, rfl⟩
  · exact ⟨profile.readScope, rfl⟩
  · exact ⟨profile.writeScope, rfl⟩

section Dispatch
variable {scheduler : SyscallFrame → Mach SyscallState (SyscallFrame × UInt32)} {kVersion : Bytes}

theorem dispatchAllowed_file (h : FileCall frame.eax) {Q : SyscallFrame × UInt32 → SyscallState → Prop}
    {C : SyscallState → Prop}
    (hread : frame.eax = syscallFileRead → wp (fileRead (fun status _ => fsStatusToSyscallError status) frame) Q C s)
    (hstat : frame.eax = syscallFileStat → wp (fileStat fsStatusToSyscallError frame) Q C s)
    (hwrite : frame.eax = syscallFileWrite → wp (fileWrite fsStatusToSyscallError frame) Q C s) :
    wp (dispatchAllowed scheduler kVersion frame) Q C s := by
  unfold dispatchAllowed
  refine wp_ite hread fun hr => wp_ite hwrite fun hw => wp_ite hstat fun hs => ?_
  rcases h with h | h | h
  · exact absurd h hr
  · exact absurd h hs
  · exact absurd h hw

theorem dispatchAllowed_fault (h : FileCall frame.eax) (hnone : s.userString frame.ebx.toNat = none) :
    wp (dispatchAllowed scheduler kVersion frame) (fun _ s' => Touched N s s') (fun s' => Touched N s s') s := by
  refine dispatchAllowed_file h (fun _ => ?_) (fun _ => ?_) fun _ => ?_
  · unfold fileRead
    rw [wp_bind, wp_get, if_pos (by simp [hnone])]
    exact Touched.refl s
  · unfold fileStat
    rw [wp_bind, wp_get, hnone]
    exact Touched.refl s
  · unfold fileWrite
    rw [wp_bind, wp_get, hnone]
    exact Touched.refl s

theorem dispatchAllowed_touched (h : FileCall frame.eax) {path scope : Bytes}
    (hpath : s.userString frame.ebx.toNat = some path)
    (hscope : normalizePath s.guard.volume.currentDirectory path = some scope) :
    wp (dispatchAllowed scheduler kVersion frame)
      (fun _ s' => Touched (fun n => n = scope ∨
        frame.eax = syscallFileWrite ∧ DataReadable s frame ∧ GuardReads s.guard scope (frame.esi ≠ 0) n) s s')
      (fun s' => Touched (fun n => n = scope ∨
        frame.eax = syscallFileWrite ∧ DataReadable s frame ∧ GuardReads s.guard scope (frame.esi ≠ 0) n) s s') s := by
  have hnames : ∀ n, Names s frame n → n = scope := by
    intro n ⟨path', hpath', hn⟩
    rw [hpath] at hpath'
    cases hpath'
    rw [hscope] at hn
    exact (Option.some.inj hn).symm
  refine dispatchAllowed_file h (fun _ => ?_) (fun _ => ?_) fun hw => ?_
  · exact wp_mono fileRead_touched (fun _ _ h => Touches.mono h (fun n hn => .inl (hnames n hn)) fun _ => id) fun _ h =>
      Touches.mono h (fun n hn => .inl (hnames n hn)) fun _ => id
  · exact wp_mono fileStat_touched (fun _ _ h => Touches.mono h (fun n hn => .inl (hnames n hn)) fun _ => id) fun _ h =>
      Touches.mono h (fun n hn => .inl (hnames n hn)) fun _ => id
  · exact wp_mono (fileWrite_touched hpath hscope)
      (fun _ _ h => Touches.mono h (fun n hn => hn.imp id fun h => ⟨hw, h⟩) fun _ => id) fun _ h =>
      Touches.mono h (fun n hn => hn.imp id fun h => ⟨hw, h⟩) fun _ => id

theorem exactScopeAllows_iff {d path scope : Bytes} : exactScopeAllows d path scope = true ↔ normalizePath d path = some scope := by
  unfold exactScopeAllows
  rw [Bool.and_eq_true, decide_eq_true_eq, decide_eq_true_eq]
  exact ⟨And.right, fun h => ⟨normalizePath_ne_nil h, h⟩⟩

/-- The state in which a native call is carried out. -/
def logged (s : SyscallState) (frame : SyscallFrame) : SyscallState :=
  { s with native := s.native ++ [⟨frame.eax, frame.ebx, frame.ecx⟩] }

/-- The profile lets the call have the path that it names. -/
def InScope (s : SyscallState) (frame : SyscallFrame) (scope : Bytes) : Prop :=
  Permits s.activeCapabilities frame.eax scope ∧ Names s frame scope

theorem logged_userString (offset : Nat) : (logged s frame).userString offset = s.userString offset :=
  rfl

theorem dispatchNative_inScope (h : FileCall frame.eax) {scope : Bytes} (hin : InScope s frame scope)
    {Q : SyscallFrame × UInt32 → SyscallState → Prop} {C : SyscallState → Prop}
    (hdo : wp (dispatchAllowed scheduler kVersion frame) Q C (logged s frame)) :
    wp (dispatchNative scheduler kVersion frame) Q C s := by
  obtain ⟨hexit, hcap⟩ := fileCall_capability h
  obtain ⟨⟨hgranted, hscope⟩, path, hpath, hn⟩ := hin
  have hvalid : s.activeCapabilities.valid = true := by
    unfold granted at hgranted
    exact (Bool.and_eq_true_iff.mp hgranted).1
  unfold dispatchNative
  rw [wp_bind, wp_modify, wp_bind, wp_get, if_neg (by simp [hexit, hcap])]
  unfold syscallCapabilityAllowed
  simp only [wp_bind, wp_get]
  rw [if_pos (by simp [hgranted])]
  simp only [wp_pure]
  rw [if_neg (by simp), if_pos (by rcases h with h | h | h <;> simp [h])]
  simp only [hpath]
  unfold syscallScopeAllowed
  simp only [wp_bind, wp_get]
  rw [hscope]
  dsimp only
  rw [if_pos]
  · exact hdo
  · rw [Bool.and_eq_true, exactScopeAllows_iff]
    exact ⟨hvalid, hn⟩

theorem dispatchNative_refused (h : FileCall frame.eax) (hout : ∀ scope, ¬InScope s frame scope) :
    wp (dispatchNative scheduler kVersion frame) (fun _ s' => Touched N s s') (fun s' => Touched N s s') s := by
  obtain ⟨hexit, hcap⟩ := fileCall_capability h
  obtain ⟨scope, hscope⟩ := fileCall_scope h s.activeCapabilities
  have hlogged : Touched N s (logged s frame) := Touched.refl s
  have hdenied : ∀ {t : SyscallState}, Touched N s t →
      wp (denied frame) (fun _ s' => Touched N s s') (fun s' => Touched N s s') t :=
    fun ht => wp_mono denied_touched (fun _ _ h => ht.trans h) fun _ h => ht.trans h
  unfold dispatchNative
  rw [wp_bind, wp_modify, wp_bind, wp_get, if_neg (by simp [hexit, hcap])]
  refine wp_seq (syscallCapabilityAllowed_touched (s := logged s frame) hcap) (fun _ h => hlogged.trans h) fun ok s₁ h₁ => ?_
  obtain ⟨hok, ht₁, hsame⟩ := h₁
  refine wp_ite (fun _ => hdenied (hlogged.trans ht₁)) fun hgo => ?_
  have hgo : ok = true := by simpa using hgo
  obtain rfl := hsame hgo
  rw [if_pos (by rcases h with h | h | h <;> simp [h])]
  split
  · next hnone => exact wp_mono (dispatchAllowed_fault h hnone) (fun _ _ h => hlogged.trans h) fun _ h => hlogged.trans h
  · next path hpath =>
    have hpath : s.userString frame.ebx.toNat = some path := (logged_userString _).symm.trans hpath
    refine wp_seq (syscallScopeAllowed_touched (s := logged s frame) hscope) (fun _ h => hlogged.trans h) fun ok' s₂ h₂ => ?_
    obtain ⟨hok', ht₂, -⟩ := h₂
    refine wp_ite (fun _ => hdenied (hlogged.trans ht₂)) fun hgo' => ?_
    have hgo' : ok' = true := by simpa using hgo'
    rw [hgo', eq_comm, Bool.and_eq_true, exactScopeAllows_iff] at hok'
    exact absurd ⟨⟨hok.symm.trans hgo, hscope⟩, path, hpath, hok'.2⟩ (hout scope)

theorem dispatchNative_monitored (hzenov : s.activeSyscallAbi = .zenov) (h : FileCall frame.eax) (hno : ¬Strays s frame) :
    wp (dispatchNative scheduler kVersion frame) (fun _ s' => Touched (Permits s.activeCapabilities frame.eax) s s')
      (fun s' => Touched (Permits s.activeCapabilities frame.eax) s s') s := by
  by_cases hin : ∃ scope, InScope s frame scope
  · obtain ⟨scope, hin⟩ := hin
    obtain ⟨hpermits, path, hpath, hn⟩ := hin
    have hallowed : wp (dispatchAllowed scheduler kVersion frame)
        (fun _ s' => Touched (fun n => n = scope ∨ frame.eax = syscallFileWrite ∧ DataReadable (logged s frame) frame ∧
          GuardReads (logged s frame).guard scope (frame.esi ≠ 0) n) (logged s frame) s')
        (fun s' => Touched (fun n => n = scope ∨ frame.eax = syscallFileWrite ∧ DataReadable (logged s frame) frame ∧
          GuardReads (logged s frame).guard scope (frame.esi ≠ 0) n) (logged s frame) s') (logged s frame) :=
      dispatchAllowed_touched h ((logged_userString _).trans hpath) hn
    have hmono : ∀ n, n = scope ∨ frame.eax = syscallFileWrite ∧ DataReadable (logged s frame) frame ∧
        GuardReads (logged s frame).guard scope (frame.esi ≠ 0) n → Permits s.activeCapabilities frame.eax n := by
      intro n hor
      rcases hor with rfl | ⟨hw, hdata, hreads⟩
      · exact hpermits
      · have hscope : s.activeCapabilities.writeScope = scope := by
          have := hpermits.2
          rw [hw] at this
          exact Option.some.inj this
        by_contra hne
        refine hno ⟨hzenov, hw, hw ▸ hpermits.1, hscope ▸ ⟨path, hpath, hn⟩, hdata, n, hscope ▸ hreads, fun heq => hne ?_⟩
        rw [heq, hscope]
        exact hpermits
    refine dispatchNative_inScope h ⟨hpermits, path, hpath, hn⟩ (wp_mono hallowed (fun _ _ h => ?_) fun _ h => ?_)
    · exact Touches.mono h hmono fun _ => id
    · exact Touches.mono h hmono fun _ => id
  · exact dispatchNative_refused h fun scope h => hin ⟨scope, h⟩

theorem dispatchNative_strays (hno : Strays s frame) :
    wp (dispatchNative scheduler kVersion frame)
      (fun _ s' => ∃ n, ¬Permits s.activeCapabilities frame.eax n ∧ Accesses n s.guard.volume s'.guard.volume)
      (fun s' => ∃ n, ¬Permits s.activeCapabilities frame.eax n ∧ Accesses n s.guard.volume s'.guard.volume) s := by
  obtain ⟨-, hw, hgranted, ⟨path, hpath, hn⟩, hdata, n, hreads, hne⟩ := hno
  have hfile : FileCall frame.eax := .inr (.inr hw)
  have hpermits : Permits s.activeCapabilities frame.eax s.activeCapabilities.writeScope := by
    rw [hw]
    exact ⟨hgranted, rfl⟩
  have hforeign : ¬Permits s.activeCapabilities frame.eax n := by
    intro hp
    exact hne (Option.some.inj (hp.2.symm.trans hpermits.2))
  have haccess : wp (fileWrite fsStatusToSyscallError frame)
      (fun _ s' => Accesses n (logged s frame).guard.volume s'.guard.volume)
      (fun s' => Accesses n (logged s frame).guard.volume s'.guard.volume) (logged s frame) :=
    fileWrite_accesses ((logged_userString _).trans hpath) hn hdata hreads
  refine dispatchNative_inScope hfile ⟨hpermits, path, hpath, hn⟩ (dispatchAllowed_file hfile ?_ ?_ fun _ => ?_)
  · exact fun hr => absurd (hr.symm.trans hw) (by decide)
  · exact fun hs => absurd (hs.symm.trans hw) (by decide)
  · exact wp_mono haccess (fun _ _ h => ⟨n, hforeign, h⟩) fun _ h => ⟨n, hforeign, h⟩

/-! ### Linux programs -/

theorem onGuard_native {α : Type} {m : Mach GuardState α} {calls : List NativeCall} (h : s.native = calls) :
    wp (onGuard m) (fun _ s' => s'.native = calls) (fun s' => s'.native = calls) s :=
  wp_onGuard.mpr (wp_always (fun _ _ => h) fun _ => h)

theorem unrestricted_native {calls : List NativeCall} (h : s.native = calls)
    (hcall : frame.eax = syscallExit ∨ frame.eax = syscallConsoleWrite) :
    wp (syscallDispatchUnrestricted scheduler kVersion frame) (fun _ s' => s'.native = calls) (fun s' => s'.native = calls)
      s := by
  unfold syscallDispatchUnrestricted
  rw [wp_bind, wp_get]
  refine wp_ite (fun _ => ?_) fun _ => ?_
  · unfold enterScheduler
    rw [wp_zoom]
    exact wp_always (fun _ _ => h) fun _ => h
  · rcases hcall with hcall | hcall
    · simp only [hcall]
      exact h
    · simp only [hcall]
      show wp (unrestrictedConsoleWrite frame) _ _ s
      unfold unrestrictedConsoleWrite
      rw [wp_bind, wp_get]
      refine wp_ite (fun _ => h) fun _ => ?_
      rw [wp_bind, wp_modify]
      exact h

theorem dispatchNative_native (hcall : frame.eax = syscallExit ∨ frame.eax = syscallConsoleWrite) :
    wp (dispatchNative scheduler kVersion frame)
      (fun _ s' => s'.native = s.native ++ [⟨frame.eax, frame.ebx, frame.ecx⟩])
      (fun s' => s'.native = s.native ++ [⟨frame.eax, frame.ebx, frame.ecx⟩]) s := by
  unfold dispatchNative
  rw [wp_bind, wp_modify, wp_bind, wp_get]
  refine wp_ite (fun _ => unrestricted_native rfl hcall) fun hexit => ?_
  have hwrite : frame.eax = syscallConsoleWrite := hcall.resolve_left fun h => hexit (.inl h)
  have haudit : wp (syscallCapabilityAllowed frame.eax)
      (fun _ s' => s'.native = s.native ++ [⟨frame.eax, frame.ebx, frame.ecx⟩])
      (fun s' => s'.native = s.native ++ [⟨frame.eax, frame.ebx, frame.ecx⟩]) (logged s frame) := by
    unfold syscallCapabilityAllowed auditCapabilityDenial
    rw [wp_bind, wp_get]
    refine wp_ite (fun _ => rfl) fun _ => ?_
    rw [wp_bind, wp_bind, wp_get]
    exact wp_seq (onGuard_native rfl) (fun _ h => h) fun _ _ h => wp_ite (fun _ => h) fun _ => h
  refine wp_seq haudit (fun _ h => h) fun ok s₁ h₁ => wp_ite (fun _ => ?_) fun _ => ?_
  · unfold denied
    rw [wp_bind, wp_get]
    exact wp_ite (fun _ => h₁) fun _ => h₁
  · rw [if_neg (by rw [hwrite]; decide)]
    unfold dispatchAllowed
    rw [if_neg (by rw [hwrite]; decide), if_neg (by rw [hwrite]; decide), if_neg (by rw [hwrite]; decide),
      if_neg (by rw [hwrite]; decide)]
    refine wp_seq (unrestricted_native h₁ hcall) (fun _ h => h) fun dispatched s₂ h₂ => ?_
    rw [wp_bind, wp_get]
    exact wp_ite (fun _ => h₂) fun _ => h₂

theorem translateFrame_linuxCall {imageBias : Nat} {frame native : SyscallFrame} (h : translateFrame imageBias frame = .ok native) :
    (native.eax = syscallExit ∨ native.eax = syscallConsoleWrite) ∧ LinuxCall ⟨native.eax, native.ebx, native.ecx⟩ := by
  unfold translateFrame at h
  dsimp only at h
  split at h
  · cases h
  · cases h
  · cases h
    exact ⟨.inl rfl, .inl rfl⟩
  · split at h
    · cases h
    · rename_i offset hoffset
      cases h
      unfold linuxI386PointerOffset at hoffset
      split at hoffset
      · cases hoffset
      split at hoffset
      · rename_i hbias hlength
        cases hoffset
        rw [not_or, not_or, Nat.not_le] at hbias
        refine ⟨.inr rfl, .inr ⟨rfl, ?_⟩⟩
        dsimp only
        rw [UInt32.toNat_ofNat_of_lt' (lt_trans hbias.2.2 (by decide))]
        exact ⟨hbias.2.2, hlength⟩
      · cases hoffset

/-! ### The reference monitor -/

theorem syscallDispatch_zenov (h : s.activeSyscallAbi = .zenov) :
    syscallDispatch scheduler kVersion frame s = dispatchNative scheduler kVersion frame s := by
  show (if s.activeSyscallAbi = .linuxI386 then _ else _ : Mach SyscallState (SyscallFrame × UInt32)) s = _
  rw [if_neg (by rw [h]; decide)]

theorem syscallDispatch_native (h : s.activeSyscallAbi = .linuxI386) :
    wp (syscallDispatch scheduler kVersion frame)
      (fun _ s' => ∃ calls, s'.native = s.native ++ calls ∧ ∀ call ∈ calls, LinuxCall call)
      (fun s' => ∃ calls, s'.native = s.native ++ calls ∧ ∀ call ∈ calls, LinuxCall call) s := by
  unfold syscallDispatch
  rw [wp_bind, wp_get, if_pos h]
  rcases htranslated : translateFrame s.linuxImageBias frame with eax | native
  · exact ⟨[], by simp, by simp⟩
  obtain ⟨hcall, hlinux⟩ := translateFrame_linuxCall htranslated
  have hone : ∀ {t : SyscallState}, t.native = s.native ++ [⟨native.eax, native.ebx, native.ecx⟩] →
      ∃ calls, t.native = s.native ++ calls ∧ ∀ call ∈ calls, LinuxCall call := by
    intro t ht
    refine ⟨_, ht, fun call hmem => ?_⟩
    rw [List.mem_singleton.mp hmem]
    exact hlinux
  exact wp_mono (dispatchNative_native hcall) (fun _ _ h => hone h) fun _ h => hone h

/-- However a call ends, it has done no more than a reference monitor lets it do, exactly if it does not
    stray. -/
theorem syscallDispatch_monitored_iff (scheduler : SyscallFrame → Mach SyscallState (SyscallFrame × UInt32)) (kVersion : Bytes)
    (s : SyscallState) (frame : SyscallFrame) :
    Monitored s frame (syscallDispatch scheduler kVersion frame s).2 ↔ ¬Strays s frame := by
  rcases hrun : syscallDispatch scheduler kVersion frame s with ⟨r, s'⟩
  constructor
  · intro hmon hstrays
    rw [syscallDispatch_zenov hstrays.1] at hrun
    obtain ⟨n, hforeign, hn⟩ := wp_left (dispatchNative_strays hstrays) hrun
    obtain ⟨paths, heq, hpaths⟩ := hmon.files hstrays.1 (.inr (.inr hstrays.2.1))
    exact hforeign (hpaths n (hn.mem heq))
  · intro hno
    refine ⟨fun hzenov hfile => ?_, fun hlinux => ?_⟩
    · rw [syscallDispatch_zenov hzenov] at hrun
      exact (wp_left (dispatchNative_monitored hzenov hfile hno) hrun).accessed
    · have hnative := wp_left (syscallDispatch_native hlinux) hrun
      exact hnative

end Dispatch

/-! ### An append that strays -/

/-- A volume with the files `/x` and `/data/x`, the second of which a path reaches as `/data/data/x`. -/
def aliased : Volume :=
  ((do
    let _ ← makeDirectoryResult (ascii "/data/data")
    let _ ← writeFileResult (ascii "/x") [1] false
    writeFileResult (ascii "/data/data/x") [2] false : Mach Volume FsResult) (fresh [])).2

/-- A program whose profile grants file writes to `/data/x`, with the path of that file in its window. -/
def appender : SyscallState where
  guard := { freshGuard with volume := { aliased with accessed := [] } }
  zvrt := ⟨true, []⟩
  memory := fun a => (ascii "/data/data/x").getD a 0
  pages := fun _ => ⟨true, true, true⟩
  activeCapabilities := ⟨true, 8, ascii "/apps/pkg-a.elf", [], ascii "/data/x", List.replicate 32 0⟩
  activeSyscallAbi := .zenov
  linuxImageBias := 0
  capabilityAuditFailed := false
  securityReadBlocked := false
  lastExitCode := 0
  schedulerActive := false
  console := []
  keys := []
  native := []

/-- The call that appends the byte at 1 to the file. -/
def appendFrame : SyscallFrame where
  gs := 0
  fs := 0
  es := 0
  ds := 0
  edi := 0
  esi := 1
  ebp := 0
  espDummy := 0
  ebx := 0
  edx := 1
  ecx := 1
  eax := syscallFileWrite
  eip := 0
  cs := 0
  eflags := 0
  useresp := 0
  ss := 0

/-- The append to `/data/x` reads `/x`. -/
theorem syscallDispatch_append_alias :
    ascii "/x" ∈ (syscallDispatch (fun frame => resume frame 0) [] appendFrame appender).2.guard.volume.accessed ∧
      ¬Monitored appender appendFrame (syscallDispatch (fun frame => resume frame 0) [] appendFrame appender).2 := by
  have hmem : ascii "/x" ∈ (syscallDispatch (fun frame => resume frame 0) [] appendFrame appender).2.guard.volume.accessed := by
    decide +kernel
  refine ⟨hmem, fun hmon => ?_⟩
  obtain ⟨paths, heq, hpaths⟩ := hmon.files rfl (.inr (.inr rfl))
  rw [heq] at hmem
  have hscope := (hpaths _ ((List.nil_append paths) ▸ hmem)).2
  exact absurd (Option.some.inj hscope) (by decide)

end ZenovOS.Process
