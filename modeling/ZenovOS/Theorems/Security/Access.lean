import ZenovOS.Security.VerifiedReads
import ZenovOS.Theorems.Security.Guard
import ZenovOS.Theorems.Storage.Access

/-! # The entries that the guard accesses

The checks before a write read the file that is appended to, by its path normalised once more, and write
to the audit journal. No other entry is accessed, and the entry that the append reads is. -/

namespace ZenovOS.Security
open Bytes Storage Mach Volume

variable {s : GuardState} {N M : Bytes → Prop}

theorem recordEvent_touches {action : AuditAction} {result : ScanResult} :
    wp (recordEvent action result) (fun _ s' => Touches N (· = Audit.journalPath) s.volume s'.volume)
      (fun s' => Touches N (· = Audit.journalPath) s.volume s'.volume) s := by
  unfold recordEvent
  rw [wp_bind, wp_get]
  refine Audit.record_rule (fun _ _ _ h => h) (fun data _ => ?_) (Touches.refl s.volume)
  unfold writeVolumeFile onJournal
  rw [wp_bind, wp_zoom]
  have hjournal : ∀ {w : Volume}, Touches (fun n => ∃ p, normalizePath s.volume.currentDirectory Audit.journalPath = some p ∧
      (n = p ∨ AppendReads s.volume p false n))
      (fun n => normalizePath s.volume.currentDirectory Audit.journalPath = some n) s.volume w →
      Touches N (· = Audit.journalPath) s.volume { w with accessed := s.volume.accessed } := by
    intro w h
    refine h.unrecorded.mono (fun _ => id) fun n hn => ?_
    rw [normalizePath_journalPath] at hn
    exact (Option.some.inj hn).symm
  exact wp_mono writeFileResult_touches (fun _ _ h => hjournal h) fun _ h => hjournal h

/-! ### Before a write -/

theorem scanCandidate_touches {p data : Bytes} {append : Bool} :
    wp (scanCandidate p data append)
      (fun c s' => Touches (AppendReads s.volume p append) M s.volume s'.volume ∧
        (c.isSome = true → append = true → (s.volume.findEntry p).isSome = true → ∃ n, AppendReads s.volume p append n))
      (fun s' => Touches (AppendReads s.volume p append) M s.volume s'.volume) s := by
  unfold scanCandidate
  cases append with
  | false => exact ⟨Touches.refl _, fun _ h => by cases h⟩
  | true =>
    simp only [Bool.not_true, Bool.false_eq_true, if_false, wp_bind, wp_get]
    rcases hfind : s.volume.findEntry p with _ | index
    · exact ⟨Touches.refl _, fun _ _ h => by cases h⟩
    dsimp only
    refine wp_ite (fun _ => ⟨Touches.refl _, fun h => by cases h⟩) fun htype => ?_
    have hreads : ∀ n, Reads s.volume p n → AppendReads s.volume p true n :=
      fun n h => ⟨rfl, ⟨index, hfind, by simpa using htype⟩, h⟩
    unfold onVolume
    rw [wp_bind, wp_zoom]
    refine wp_mono (readFileResult_touches (M := M)) (fun read v' h => ?_) fun v' h => h.mono hreads fun _ => id
    have htouches := h.1.mono hreads fun _ => id
    refine wp_ite (fun _ => ⟨htouches, fun h => by cases h⟩) fun hok => ⟨htouches, fun _ _ _ => ?_⟩
    rw [not_or] at hok
    obtain ⟨n, hn⟩ := h.2.2 (by simpa using hok.1)
    exact ⟨n, hreads n hn⟩

theorem scanCandidate_accessed {p data n : Bytes} {append : Bool} (h : AppendReads s.volume p append n) :
    wp (scanCandidate p data append) (fun _ s' => Accesses n s.volume s'.volume)
      (fun s' => Accesses n s.volume s'.volume) s := by
  obtain ⟨rfl, ⟨i, hfind, htype⟩, hreads⟩ := h
  unfold scanCandidate onVolume
  simp only [Bool.not_true, Bool.false_eq_true, if_false, wp_bind, wp_get, hfind, htype, ne_eq, not_true, wp_zoom]
  exact wp_mono (readFileResult_accessed hreads) (fun _ _ hn => wp_ite (fun _ => hn) fun _ => hn) fun _ hn => hn

theorem inspectCandidate_touches {p candidate : Bytes} :
    wp (inspectCandidate p candidate) (fun _ s' => Touches N (· = Audit.journalPath) s.volume s'.volume)
      (fun s' => Touches N (· = Audit.journalPath) s.volume s'.volume) s := by
  unfold inspectCandidate note
  rw [wp_bind, wp_get, wp_bind, wp_modify]
  refine wp_ite (fun _ => ?_) fun _ => wp_ite (fun _ => ?_) fun _ => Touches.refl _
  · exact wp_seq recordEvent_touches (fun _ h => h) fun _ _ h => h
  · exact recordEvent_touches

/-- The guard is in a state to scan a write. -/
def Scans (s : GuardState) (p : Bytes) : Prop :=
  s.audit.enforcementReady = true ∧ s.zmidReady = true ∧ (ascii "/quarantine/").isPrefixOf p = false

theorem allowPersistentWrite_touches {path p data : Bytes} {append : Bool}
    (hn : normalizePath s.volume.currentDirectory path = some p) :
    wp (allowPersistentWrite path data append)
      (fun ok s' => Touches (fun n => Scans s p ∧ AppendReads s.volume p append n) (· = Audit.journalPath) s.volume s'.volume ∧
        (ok = true → Scans s p ∧ (append = true → (s.volume.findEntry p).isSome = true →
          ∃ n, AppendReads s.volume p append n)))
      (fun s' => Touches (fun n => Scans s p ∧ AppendReads s.volume p append n) (· = Audit.journalPath) s.volume s'.volume)
      s := by
  unfold allowPersistentWrite
  rw [wp_bind, wp_get, hn]
  refine wp_ite (fun _ => ⟨Touches.refl _, fun h => by cases h⟩) fun hscans => ?_
  have hscans : Scans s p := by
    simp only [Bool.or_eq_true, Bool.not_eq_true', not_or, Bool.not_eq_false, Bool.not_eq_true] at hscans
    exact ⟨hscans.1.1, hscans.1.2, hscans.2⟩
  refine wp_seq scanCandidate_touches (fun _ h => h.mono (fun n hn => ⟨hscans, hn⟩) fun _ => id) fun c s₁ h => ?_
  have h₁ := h.1.mono (K := fun n => Scans s p ∧ AppendReads s.volume p append n) (fun n hn => ⟨hscans, hn⟩) fun _ => id
  cases c with
  | none => exact ⟨h₁, fun h => by cases h⟩
  | some candidate =>
    exact wp_mono inspectCandidate_touches (fun _ _ h' => ⟨h₁.trans h', fun _ => ⟨hscans, h.2 rfl⟩⟩) fun _ h' => h₁.trans h'

theorem allowPersistentWrite_accessed {path p data n : Bytes} {append : Bool}
    (hn : normalizePath s.volume.currentDirectory path = some p) (hscans : Scans s p) (h : AppendReads s.volume p append n) :
    wp (allowPersistentWrite path data append) (fun _ s' => Accesses n s.volume s'.volume)
      (fun s' => Accesses n s.volume s'.volume) s := by
  obtain ⟨hready, hzmid, hquarantine⟩ := hscans
  unfold allowPersistentWrite
  rw [wp_bind, wp_get, hn]
  dsimp only
  rw [if_neg (by simp [hready, hzmid, hquarantine])]
  refine wp_seq (scanCandidate_accessed h) (fun _ h => h) fun c s₁ hmem => ?_
  cases c with
  | none => exact hmem
  | some candidate =>
    exact wp_mono (inspectCandidate_touches (N := fun _ => False)) (fun _ _ h => hmem.later h) fun _ h => hmem.later h

theorem authorize_touches {target : Bytes} {operation : Ransomware.Operation} {bytes : Nat} :
    wp (authorize target operation bytes) (fun _ s' => Touches N (· = Audit.journalPath) s.volume s'.volume)
      (fun s' => Touches N (· = Audit.journalPath) s.volume s'.volume) s := by
  unfold authorize
  rw [wp_bind, wp_get]
  refine wp_ite (fun _ => Touches.refl _) fun _ => ?_
  rcases normalizePath s.volume.currentDirectory target with _ | p
  · exact Touches.refl _
  dsimp only
  unfold note
  rw [wp_bind, wp_modify]
  refine wp_ite (fun _ => Touches.refl _) fun _ => ?_
  rcases s.actor with _ | ⟨actor, digest⟩
  · exact Touches.refl _
  dsimp only
  unfold setWindow
  rw [wp_bind, wp_modify]
  unfold chargeActor
  rw [wp_bind, wp_get]
  dsimp only
  split
  · exact Touches.refl _
  · unfold setWindow
    refine wp_seq (recordEvent_touches (N := N)) (fun _ h => h) fun _ _ h => ?_
    exact wp_ite (fun _ => h) fun _ => wp_ite (fun _ => h) fun _ => h

/-! ### Writes -/

/-- What the guard reads by the path `n` before it lets a program append to `p`. -/
def GuardReads (s : GuardState) (p : Bytes) (append : Bool) (n : Bytes) : Prop :=
  protectedName p = false ∧ Scans s p ∧ AppendReads s.volume p append n

theorem askProtectedPath_noted {path p : Bytes} {Q : Bool → GuardState → Prop} {C : GuardState → Prop}
    (hn : normalizePath s.volume.currentDirectory path = some p)
    (h : Q (protectedName p) { s with checks := s.checks ++ [.policyPath p] }) : wp (askProtectedPath path) Q C s := by
  unfold askProtectedPath note
  rw [wp_bind, wp_get, hn]
  exact h

theorem guardedWriteFileResult_touches {path p data : Bytes} {append : Bool}
    (hn : normalizePath s.volume.currentDirectory path = some p) :
    wp (guardedWriteFileResult path data append)
      (fun _ s' => Touches (fun n => n = p ∨ GuardReads s p append n) (fun _ => True) s.volume s'.volume)
      (fun s' => Touches (fun n => n = p ∨ GuardReads s p append n) (fun _ => True) s.volume s'.volume) s := by
  unfold guardedWriteFileResult
  rw [wp_bind]
  refine askProtectedPath_noted hn (wp_ite (fun _ => Touches.refl _) fun hfree => ?_)
  have hfree : protectedName p = false := by simpa using hfree
  have hjournal : p ≠ Audit.journalPath := by
    intro hp
    rw [hp] at hfree
    exact absurd hfree (by decide)
  obtain ⟨s₀, hs₀⟩ : ∃ s₀ : GuardState, s₀ = { s with checks := s.checks ++ [.policyPath p] } := ⟨_, rfl⟩
  rw [← hs₀]
  have hv₀ : s₀.volume = s.volume := by rw [hs₀]
  have hscans : Scans s₀ p ↔ Scans s p := by rw [hs₀]; rfl
  have hmono : ∀ {w w' : Volume}, Touches (fun n => Scans s₀ p ∧ AppendReads s₀.volume p append n)
      (· = Audit.journalPath) w w' → Touches (fun n => n = p ∨ GuardReads s p append n) (fun _ => True) w w' := by
    intro w w' h
    refine h.mono (fun n hn => .inr ?_) fun _ _ => trivial
    rw [hscans, hv₀] at hn
    exact ⟨hfree, hn⟩
  refine wp_seq (allowPersistentWrite_touches (hv₀ ▸ hn)) (fun s' h => hv₀ ▸ hmono h) fun ok s₁ h₁ => ?_
  obtain ⟨h₁, hok⟩ := h₁
  refine wp_ite (fun _ => hv₀ ▸ hmono h₁) fun hgo => ?_
  obtain ⟨hscan, hreads⟩ := hok (by simpa using hgo)
  refine wp_seq authorize_touches (fun s' h => hv₀ ▸ hmono (h₁.trans h)) fun ok s₂ h₂ => ?_
  have h₂ := h₁.trans h₂
  refine wp_ite (fun _ => hv₀ ▸ hmono h₂) fun _ => ?_
  -- the entries that the write itself finds are those the guard has found before
  have hwrite : ∀ n, (∃ q, normalizePath s₂.volume.currentDirectory path = some q ∧ (n = q ∨ AppendReads s₂.volume q append n)) →
      n = p ∨ GuardReads s p append n := by
    intro n ⟨q, hq, h⟩
    rw [h₂.currentDirectory, hv₀, hn] at hq
    cases hq
    refine h.imp id fun hagain => ⟨hfree, hscans.mp hscan, ?_⟩
    obtain ⟨happ, ⟨i, hi, -⟩, -, hnorm, -⟩ := hagain
    have hfound : (s₀.volume.findEntry p).isSome = true := by
      rw [← h₂.found p hjournal, hi]
      rfl
    obtain ⟨m, hm⟩ := hreads happ hfound
    rw [h₂.currentDirectory, hm.2.2.2.1] at hnorm
    cases hnorm
    rwa [hv₀] at hm
  unfold onVolume
  rw [wp_zoom]
  refine wp_mono writeFileResult_touches (fun _ _ h => ?_) fun _ h => ?_
  · exact (hv₀ ▸ hmono h₂).trans (h.mono hwrite fun _ _ => trivial)
  · exact (hv₀ ▸ hmono h₂).trans (h.mono hwrite fun _ _ => trivial)

theorem guardedWriteFileResult_accessed {path p data n : Bytes} {append : Bool}
    (hn : normalizePath s.volume.currentDirectory path = some p) (h : GuardReads s p append n) :
    wp (guardedWriteFileResult path data append) (fun _ s' => Accesses n s.volume s'.volume)
      (fun s' => Accesses n s.volume s'.volume) s := by
  obtain ⟨hfree, hscans, hreads⟩ := h
  unfold guardedWriteFileResult
  rw [wp_bind]
  refine askProtectedPath_noted hn ?_
  rw [hfree]
  refine wp_seq (allowPersistentWrite_accessed hn hscans hreads) (fun _ h => h) fun ok s₁ h₁ => ?_
  refine wp_ite (fun _ => h₁) fun _ => ?_
  refine wp_seq (authorize_touches (N := fun _ => False)) (fun _ h => h₁.later h) fun ok s₂ h₂ => ?_
  have h₂ := h₁.later h₂
  refine wp_ite (fun _ => h₂) fun _ => ?_
  unfold onVolume
  rw [wp_zoom]
  exact wp_mono writeFileResult_touches (fun _ _ h => h₂.later h) fun _ h => h₂.later h

/-! ### Reads -/

theorem verifyRead_touches {z : Zvrt.State} {input data : Bytes} :
    wp (Zvrt.verifyRead z input data) (fun _ s' => Touches N (· = Audit.journalPath) s.volume s'.volume)
      (fun s' => Touches N (· = Audit.journalPath) s.volume s'.volume) s := by
  unfold Zvrt.verifyRead
  rw [wp_bind, wp_get]
  split
  · exact Touches.refl _
  · split
    · exact Touches.refl _
    · exact wp_seq recordEvent_touches (fun _ h => h) fun _ _ h => h

theorem missingRead_touches {z : Zvrt.State} {input : Bytes} :
    wp (Zvrt.missingRead z input) (fun _ s' => Touches N (· = Audit.journalPath) s.volume s'.volume)
      (fun s' => Touches N (· = Audit.journalPath) s.volume s'.volume) s := by
  unfold Zvrt.missingRead
  rw [wp_bind, wp_get]
  split
  · exact Touches.refl _
  · exact wp_seq recordEvent_touches (fun _ h => h) fun _ _ h => h

theorem allowPersistentRead_touches {path data : Bytes} :
    wp (allowPersistentRead path data) (fun _ s' => Touches N (· = Audit.journalPath) s.volume s'.volume)
      (fun s' => Touches N (· = Audit.journalPath) s.volume s'.volume) s := by
  unfold allowPersistentRead
  rw [wp_bind, wp_get]
  split
  · exact Touches.refl _
  · refine wp_ite (fun _ => Touches.refl _) fun _ => wp_ite (fun _ => Touches.refl _) fun _ => ?_
    refine wp_ite (fun _ => ?_) fun _ => wp_ite (fun _ => recordEvent_touches) fun _ => Touches.refl _
    exact wp_seq recordEvent_touches (fun _ h => h) fun _ _ h => h

end ZenovOS.Security
