import ZenovOS.Theorems.Security.Guard

/-! # A guarded write was checked for what it stored

The guard normalises the path of a write, and the malware scan normalises it once more; it reads the old
content of a file on its own. Both agree with the write as long as the path does not lie in `/data`, where
the second normalisation resolves the alias again. -/

namespace ZenovOS.Security
open Bytes Storage Mach Volume

/-- The write of `content` to `p` was checked: every policy was asked about `p`, the content that was scanned
    is the one the file holds, now and after a remount, and no entry but the file's own changed, the audit
    journal aside. -/
structure CheckedWrite (s s' : GuardState) (p content : Bytes) (log : List Check) : Prop where
  checks : s'.checks = s.checks ++ log
  policyPath : .policyPath p ∈ log
  malware : .malware p content ∈ log
  ransomware : .ransomware p ∈ log
  paths : ∀ check ∈ log, check.path = p
  scanned : ∀ path data, .malware path data ∈ log → data = content
  mounted : s'.volume.zfsMounted = true → s'.volume.lookup p = some (fileState content)
  durable : ∀ w, Remounted s'.volume w → w.lookup p = some (fileState content)
  others : Kept (fun q => q ≠ p ∧ q ≠ Audit.journalPath) s.volume s'.volume

section Write
variable {s s' : GuardState} {path p data : Bytes} {append : Bool}

theorem candidateAt_eq (hp : normalizePath s.volume.currentDirectory path = some p) (hd : ¬UnderData p)
    (hr : ReadableAt s p append) : candidateAt s p data append = newContent s.volume p data append := by
  unfold candidateAt newContent
  cases append with
  | false => rfl
  | true =>
    unfold Volume.lookup
    rcases hfind : s.volume.findEntry p with _ | i
    · rfl
    · obtain ⟨again, hagain⟩ := Option.isSome_iff_exists.mp (hr rfl (by rw [hfind]; rfl))
      have := normalizePath_again hp hd _ _ hagain
      subst this
      simp [contentAt, hagain, Volume.lookup, hfind]

theorem journalPath_protected : protectedName Audit.journalPath = true := by decide

theorem guardedWriteFileResult_passed (hv : s.volume.Ready) :
    wp (guardedWriteFileResult path data append)
      (fun r s' => r.ok = true → ∃ p s₁, normalizePath s.volume.currentDirectory path = some p ∧ p ≠ Audit.journalPath ∧
        ReadableAt s p append ∧
        Passed (· ≠ Audit.journalPath) s.volume s
          [.policyPath p, .malware (scanPath s.volume.currentDirectory p) (candidateAt s p data append), .ransomware p] s₁ ∧
        s'.checks = s₁.checks ∧ writeFileResult path data append s₁.volume = (some r, s'.volume))
      (fun _ => True) s := by
  have hP : ¬Audit.journalPath ≠ Audit.journalPath := fun h => h rfl
  unfold guardedWriteFileResult
  refine wp_seq (askProtectedPath_passed (P := (· ≠ Audit.journalPath)) hv.kept) (fun _ _ => trivial) fun isProtected s₁ h₁ => ?_
  obtain ⟨⟨log, hlog₁⟩, hvolume, -, hask⟩ := h₁
  refine wp_ite (fun _ h => by cases h) fun hopen => ?_
  refine wp_seq (allowPersistentWrite_passed hlog₁.kept fun _ _ hj => absurd hj hP) (fun _ _ => trivial) fun allowed s₂ h₂ => ?_
  obtain ⟨-, -, hallowed⟩ := h₂
  refine wp_ite (fun _ h => by cases h) fun hallow => ?_
  obtain ⟨p, hp, hreadable, hlog₂⟩ := hallowed (by simpa using hallow)
  refine wp_seq (authorize_passed hlog₂.kept fun hj => absurd hj hP) (fun _ _ => trivial) fun authorized s₃ h₃ => ?_
  obtain ⟨-, -, -, hauthorized⟩ := h₃
  refine wp_ite (fun _ h => by cases h) fun hauth => ?_
  obtain ⟨p', hp', hlog₃⟩ := hauthorized (by simpa using hauth)
  have hcwd : s₁.volume.currentDirectory = s.volume.currentDirectory := hlog₁.volume.currentDirectory
  rw [hlog₂.volume.currentDirectory, hp, Option.some.injEq] at hp'
  subst hp'
  rw [hcwd] at hp hlog₂
  obtain ⟨hname, hasked⟩ := hask (by simpa using hopen) p hp
  have hcand : candidateAt s₁ p data append = candidateAt s p data append := by
    unfold candidateAt contentAt
    rw [hvolume]
  have hreadable : ReadableAt s p append := by
    unfold ReadableAt at hreadable ⊢
    rwa [hvolume] at hreadable
  have hall := (hasked.trans hlog₂).trans hlog₃
  rw [hcand] at hall
  unfold onVolume
  rw [wp_zoom]
  refine wp_mono (wp_self _ _) (fun r v' hrun hok => ?_) fun _ _ => trivial
  refine ⟨p, s₃, hp, ?_, hreadable, hall, rfl, hrun⟩
  rintro rfl
  rw [journalPath_protected] at hname
  cases hname

/-- **A guarded write is sound unless it goes to `/data`.** A write that succeeds was checked for what it
    stored if and only if the normalised path does not lie in `/data`. -/
theorem guardedWriteFileResult_checked_iff {r : FsResult} (hv : s.volume.Ready)
    (hrun : guardedWriteFileResult path data append s = (some r, s')) (hok : r.ok = true) :
    ∃ p, normalizePath s.volume.currentDirectory path = some p ∧
      ((∃ log, CheckedWrite s s' p (newContent s.volume p data append) log) ↔ ¬UnderData p) := by
  obtain ⟨p, s₁, hp, hjournal, hreadable, hpassed, hchecks, hwrite⟩ := wp_ended (guardedWriteFileResult_passed hv) hrun hok
  refine ⟨p, hp, fun ⟨log, h⟩ hd => ?_, fun hd => ?_⟩
  · -- the malware policy was asked about another path
    have hlog : log = [.policyPath p, .malware (scanPath s.volume.currentDirectory p) (candidateAt s p data append),
        .ransomware p] := by
      have := h.checks
      rw [hchecks, hpassed.checks] at this
      exact (List.append_cancel_left this).symm
    have hmem : .malware (scanPath s.volume.currentDirectory p) (candidateAt s p data append) ∈ log := by
      rw [hlog]
      simp
    exact scanPath_of_underData hp hd (h.paths _ hmem)
  · have hmounted : s₁.volume.zfsMounted = true := by
      by_contra hno
      have := wp_ended (writeFileResult_idle (by simpa using hno)) hwrite
      rw [hok] at this
      cases this.1
    obtain ⟨hready, hlook⟩ := hpassed.kept.mounted hmounted
    have hnew : newContent s₁.volume p data append = newContent s.volume p data append := by
      unfold newContent
      rw [hlook p hjournal]
    have hp₁ : normalizePath s₁.volume.currentDirectory path = some p := by rw [hpassed.volume.currentDirectory, hp]
    have hwrote := wp_ended (writeFileResult_wrote hready hp₁ (normalizePath_again hp hd _)) hwrite hok
    rw [hnew] at hwrote
    rw [scanPath_of_normal hp hd, candidateAt_eq hp hd hreadable] at hpassed
    refine ⟨_, hchecks.trans hpassed.checks, by simp, by simp, by simp, ?_, ?_, hwrote.mounted, hwrote.durable, ?_⟩
    · intro check hmem
      simp only [List.mem_cons, List.not_mem_nil, or_false] at hmem
      rcases hmem with rfl | rfl | rfl <;> rfl
    · intro q d hmem
      simp only [List.mem_cons, List.not_mem_nil, or_false, reduceCtorEq, false_or, Check.malware.injEq] at hmem
      exact hmem.2
    · exact (hwrote.kept.mono fun q hq => hq.1).trans fun q hq => hlook q hq.2

end Write

/-! ### Two writes -/

theorem guardedWriteFileResult_checked_root :
    ∃ s' log, CheckedWrite freshGuard s' (ascii "/a") [1, 2] log := by
  have hok : ((guardedWriteFileResult (ascii "/a") [1, 2] false freshGuard).1.any FsResult.ok) = true := by
    decide +kernel
  rcases hrun : guardedWriteFileResult (ascii "/a") [1, 2] false freshGuard with ⟨r, s'⟩
  rw [hrun] at hok
  obtain ⟨r, rfl, hok⟩ := (Option.any_eq_true ..).mp hok
  obtain ⟨p, hp, hiff⟩ := guardedWriteFileResult_checked_iff (fresh_ready []) hrun hok
  obtain rfl : ascii "/a" = p := Option.some.inj ((show normalizePath root (ascii "/a") = some (ascii "/a") by decide).symm.trans hp)
  obtain ⟨log, hlog⟩ := hiff.mpr (by decide)
  exact ⟨s', log, hlog⟩

/-- A write to `/data/data` stores the file `/data`, but the malware scan goes by the path `/`. -/
theorem guardedWriteFileResult_data_alias :
    ∃ r s', guardedWriteFileResult (ascii "/data/data") [1, 2] false freshGuard = (some r, s') ∧ r.ok = true ∧
      normalizePath freshGuard.volume.currentDirectory (ascii "/data/data") = some (ascii "/data") ∧
      .malware (ascii "/") [1, 2] ∈ s'.checks ∧
      ¬∃ log, CheckedWrite freshGuard s' (ascii "/data") (newContent freshGuard.volume (ascii "/data") [1, 2] false) log := by
  have hok : ((guardedWriteFileResult (ascii "/data/data") [1, 2] false freshGuard).1.any FsResult.ok) = true := by
    decide +kernel
  have hchecks : (guardedWriteFileResult (ascii "/data/data") [1, 2] false freshGuard).2.checks =
      [.policyPath (ascii "/data"), .malware (ascii "/") [1, 2], .ransomware (ascii "/data")] := by
    decide +kernel
  rcases hrun : guardedWriteFileResult (ascii "/data/data") [1, 2] false freshGuard with ⟨r, s'⟩
  rw [hrun] at hok hchecks
  obtain ⟨r, rfl, hok⟩ := (Option.any_eq_true ..).mp hok
  have hmem : .malware (ascii "/") [1, 2] ∈ s'.checks := by
    rw [hchecks]
    simp
  refine ⟨r, s', rfl, hok, by decide, hmem, fun ⟨log, h⟩ => ?_⟩
  rw [show s'.checks = log from h.checks] at hmem
  exact absurd (h.paths _ hmem) (by decide)

end ZenovOS.Security
