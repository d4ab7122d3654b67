import ZenovOS.Security.Guard
import ZenovOS.Theorems.Storage.Names

/-! # What the checks of the guard do

The guard asks its policies, reads the file that a write appends to, and writes to the audit journal. It
leaves what every path but the journal's names, whatever it decides. -/

namespace ZenovOS.Security
open Bytes Storage Mach Volume

/-! ### The `/data` alias -/

/-- `/data` or a path below it: the alias is resolved when the path is normalised once more. -/
def UnderData (path : Bytes) : Prop := path = ascii "/data" ∨ (ascii "/data/").isPrefixOf path = true

instance (path : Bytes) : Decidable (UnderData path) := inferInstanceAs (Decidable (_ ∨ _))

theorem underData_render {c : Bytes} {cs : List Bytes} (hc : Clean c) : UnderData (render (c :: cs)) ↔ c = ascii "data" := by
  have hdata : ascii "/data" = slash :: ascii "data" := by decide
  have hslash : ascii "/data/" = slash :: ascii "data" ++ [slash] := by decide
  constructor
  · intro h
    have hpre : (ascii "/data").isPrefixOf (render (c :: cs)) = true := by
      rw [List.isPrefixOf_iff_prefix]
      rcases h with h | h
      · exact h ▸ List.prefix_rfl
      · rw [List.isPrefixOf_iff_prefix] at h
        exact (show ascii "/data" <+: ascii "/data/" by decide).trans h
    rw [isPrefixOf_render, List.isPrefixOf_iff_prefix] at hpre
    obtain ⟨tl, rfl⟩ := hpre
    cases tl with
    | nil => rw [List.append_nil]
    | cons t tl =>
      -- a longer component goes on with a byte other than the separator
      exfalso
      have ht : t ≠ slash := by
        rintro rfl
        exact hc.noSlash (by simp)
      rw [UnderData, render_cons, hdata, hslash] at h
      simp at h
      exact ht h.symm
  · rintro rfl
    rw [UnderData, render_cons]
    cases cs with
    | nil => exact .inl (by simp [hdata])
    | cons d ds =>
      refine .inr ?_
      rw [List.isPrefixOf_iff_prefix, hslash, List.flatMap_cons, List.cons_append]
      exact ⟨d ++ ds.flatMap (slash :: ·), by simp⟩

section Alias
variable {currentDirectory input p : Bytes}

theorem normalizePath_again (h : normalizePath currentDirectory input = some p) (hd : ¬UnderData p) :
    ∀ d again, normalizePath d p = some again → again = p := by
  intro d again hagain
  obtain ⟨cs, hn, rfl⟩ := normalizePath_normalForm h
  rw [normalizePath_render hn] at hagain
  cases cs with
  | nil => exact (Option.some.inj hagain).symm
  | cons c cs =>
    have hc : c ≠ ascii "data" := fun hc => hd ((underData_render (hn.clean c (by simp))).mpr hc)
    simp only [if_neg hc] at hagain
    split at hagain
    · cases hagain
    · exact (Option.some.inj hagain).symm

theorem normalizePath_underData (h : normalizePath currentDirectory input = some p) (hd : UnderData p) (d : Bytes) :
    ∃ again, normalizePath d p = some again ∧ again ≠ p := by
  obtain ⟨cs, hn, rfl⟩ := normalizePath_normalForm h
  rw [normalizePath_render hn]
  cases cs with
  | nil => exact absurd hd (by decide)
  | cons c cs =>
    have hc := (underData_render (hn.clean c (by simp))).mp hd
    refine ⟨render cs, if_pos hc, fun heq => ?_⟩
    subst hc
    have hlen := congrArg List.length heq
    rw [render_cons] at hlen
    cases cs with
    | nil => exact absurd heq (by decide)
    | cons e es =>
      rw [render_cons] at hlen
      simp at hlen
      omega

theorem normalizePath_ne_nil (h : normalizePath currentDirectory input = some p) : p ≠ [] := by
  obtain ⟨cs, hn, rfl⟩ := normalizePath_normalForm h
  intro hnil
  have hlen : (render cs).length = 0 := by rw [hnil]; rfl
  cases cs with
  | nil => cases hlen
  | cons c cs =>
    rw [render_cons] at hlen
    simp at hlen

theorem scanPath_of_normal (h : normalizePath currentDirectory input = some p) (hd : ¬UnderData p) :
    scanPath currentDirectory p = p := by
  obtain ⟨hz, hlen⟩ := normalizePath_stored h
  have hne := normalizePath_ne_nil h
  unfold scanPath
  rw [if_neg hne]
  rcases hn : normalizePath currentDirectory p with _ | again
  · exact List.take_of_length_le (by omega)
  · exact normalizePath_again h hd _ _ hn

theorem scanPath_of_underData (h : normalizePath currentDirectory input = some p) (hd : UnderData p) :
    scanPath currentDirectory p ≠ p := by
  obtain ⟨again, hn, hne⟩ := normalizePath_underData h hd currentDirectory
  have hnil : p ≠ [] := by
    rintro rfl
    exact absurd hd (by decide)
  unfold scanPath
  rw [if_neg hnil, hn]
  exact hne

end Alias

theorem normalizePath_journalPath (d : Bytes) : normalizePath d Audit.journalPath = some Audit.journalPath := rfl

/-! ### The audit journal -/

theorem Audit.record_rule {σ : Type} {audit : σ → AuditState} {setAudit : σ → AuditState → σ}
    {writeFile : Bytes → Bytes → Mach σ Bool} {tick : Nat} {action : AuditAction} {verdict : Verdict} {path digest : Bytes}
    {I C : σ → Prop} {s : σ} (hset : ∀ s a, (a.ready = true → (audit s).ready = true) → I s → I (setAudit s a))
    (hwrite : ∀ data, (audit s).ready = true → wp (writeFile Audit.journalPath data) (fun _ => I) C s) (hs : I s) :
    wp (Audit.record audit setAudit writeFile tick action verdict path digest) (fun _ => I) C s := by
  unfold Audit.record
  rw [wp_bind]
  have happend : wp (Audit.append audit setAudit writeFile tick action.code verdict.code
      (if path = [] then ascii "<memory>" else path) digest) (fun _ => I) C s := by
    unfold Audit.append
    rw [wp_bind, wp_get]
    refine wp_ite (fun _ => hs) fun hready => ?_
    split
    · exact hset _ _ (fun h => by cases h) hs
    · refine wp_seq (hwrite _ (by simpa using hready)) (fun _ h => h) fun ok s' h => ?_
      cases ok with
      | true => exact hset _ _ id h
      | false => exact hset _ _ (fun h => by cases h) h
  refine wp_mono happend (fun ok s' h => ?_) fun _ h => h
  cases ok with
  | true => exact h
  | false => exact hset _ _ id h

/-! ### The checks -/

/-- What the guard goes by and does not change, the window of the ransomware policy aside. -/
structure SameGuard (s s' : GuardState) : Prop where
  volume : Volume.Same s.volume s'.volume
  classify : s'.classify = s.classify
  actor : s'.actor = s.actor
  timerTicks : s'.timerTicks = s.timerTicks
  ready : s'.audit.ready = true → s.audit.ready = true

theorem SameGuard.trans {s t t' : GuardState} (h : SameGuard s t) (h' : SameGuard t t') : SameGuard s t' where
  volume := h.volume.trans h'.volume
  classify := h'.classify.trans h.classify
  actor := h'.actor.trans h.actor
  timerTicks := h'.timerTicks.trans h.timerTicks
  ready := h.ready ∘ h'.ready

/-- The guard has gone from `s` to `s'` and asked `log`; the paths in `P` name what they named in `u`. -/
structure Passed (P : Bytes → Prop) (u : Volume) (s : GuardState) (log : List Check) (s' : GuardState) : Prop
    extends SameGuard s s' where
  kept : Kept P u s'.volume
  checks : s'.checks = s.checks ++ log

section Checks
variable {P : Bytes → Prop} {u : Volume} {s s' : GuardState}

theorem Passed.refl (hk : Kept P u s.volume) : Passed P u s [] s := ⟨⟨Volume.Same.refl _, rfl, rfl, rfl, id⟩, hk, by simp⟩

theorem Passed.trans {t : GuardState} {log log' : List Check} (h : Passed P u s log s') (h' : Passed P u s' log' t) :
    Passed P u s (log ++ log') t :=
  ⟨h.toSameGuard.trans h'.toSameGuard, h'.kept, by rw [h'.checks, h.checks, List.append_assoc]⟩

theorem Passed.onVolume {α : Type} {m : Mach Volume α} {Q : α → Prop}
    (hm : wp m (fun a v' => (Volume.Same s.volume v' ∧ Kept P u v') ∧ Q a) (fun v' => Durable P u v') s.volume) :
    wp (onVolume m) (fun a s' => (Passed P u s [] s' ∧ s'.zrwp = s.zrwp) ∧ Q a)
      (fun s' => Durable P u s'.volume) s := by
  unfold Security.onVolume
  rw [wp_zoom]
  refine wp_mono hm (fun a v' h => ?_) fun _ h => h
  exact ⟨⟨⟨⟨h.1.1, rfl, rfl, rfl, id⟩, h.1.2, by simp⟩, rfl⟩, h.2⟩

theorem onVolume_works {α : Type} {m : Mach Volume α} {Q : α → Volume → Prop} (hm : wp m Q (fun _ => False) s.volume) :
    wp (onVolume m) (fun a s' => ∃ v', s' = { s with volume := v' } ∧ Q a v') (fun _ => False) s := by
  unfold Security.onVolume
  rw [wp_zoom]
  exact wp_mono hm (fun _ v' h => ⟨v', rfl, h⟩) fun _ h => h

theorem recordEvent_passed {action : AuditAction} {result : ScanResult} (hk : Kept P u s.volume)
    (hP : P Audit.journalPath → s.audit.ready = false) :
    wp (recordEvent action result) (fun _ s' => Passed P u s [] s' ∧ s'.zrwp = s.zrwp)
      (fun s' => Durable P u s'.volume) s := by
  unfold recordEvent
  rw [wp_bind, wp_get]
  refine Audit.record_rule (fun s' a ha h => ?_) (fun data hready => ?_) ⟨Passed.refl hk, rfl⟩
  · obtain ⟨⟨hsame, hkept, hchecks⟩, hz⟩ := h
    exact ⟨⟨⟨hsame.volume, hsame.classify, hsame.actor, hsame.timerTicks, hsame.ready ∘ ha⟩, hkept, hchecks⟩, hz⟩
  unfold writeVolumeFile onJournal
  rw [wp_bind, wp_zoom]
  refine wp_mono (hk.write fun p hp hj => ?_) (fun _ w h => ?_) fun _ h => h.accessed _
  swap
  · exact ⟨⟨⟨h.1.trans (same_accessed w _), rfl, rfl, rfl, id⟩, h.2.accessed _, by simp⟩, rfl⟩
  rw [normalizePath_journalPath, Option.some.injEq] at hp
  rw [hP (hp ▸ hj)] at hready
  cases hready

/-! ### Scanning -/

/-- The content of the file that a path names. -/
def contentAt (s : GuardState) (input : Bytes) : Bytes :=
  ((normalizePath s.volume.currentDirectory input).bind s.volume.lookup).elim [] (·.content)

/-- The content that the guard scans before a write: the old content is read by the path that the normalised
    path is normalised to. -/
def candidateAt (s : GuardState) (normalized data : Bytes) (append : Bool) : Bytes :=
  if append && (s.volume.findEntry normalized).isSome then contentAt s normalized ++ data else data

/-- The old content can be read by that path. -/
def ReadableAt (s : GuardState) (normalized : Bytes) (append : Bool) : Prop :=
  append = true → (s.volume.findEntry normalized).isSome = true →
    (normalizePath s.volume.currentDirectory normalized).isSome = true

theorem readFileResult_passed {input : Bytes} {capacity : Nat} (hk : Kept P u s.volume) :
    wp (onVolume (readFileResult input capacity))
      (fun r s' => (Passed P u s [] s' ∧ s'.zrwp = s.zrwp) ∧ (r.1.ok = true → r.2 = contentAt s input ∧
        (normalizePath s.volume.currentDirectory input).isSome = true))
      (fun s' => Durable P u s'.volume) s := by
  refine Passed.onVolume (Q := fun r : FsResult × Bytes => r.1.ok = true → r.2 = contentAt s input ∧
    (normalizePath s.volume.currentDirectory input).isSome = true) ?_
  have hcontent : wp (readFileResult input capacity) (fun r _ => r.1.ok = true → r.2 = contentAt s input ∧
      (normalizePath s.volume.currentDirectory input).isSome = true) (fun _ => True) s.volume := by
    rcases hm : s.volume.zfsMounted with _ | _
    · refine wp_mono (readFileResult_idle hm) (fun r _ h hok => ?_) fun _ _ => trivial
      rw [h.1] at hok
      cases hok
    · refine wp_mono (readFileResult_spec (hk.mounted hm).1.laid) (fun r _ h hok => ?_) fun _ _ => trivial
      obtain ⟨-, -, -, ⟨-, -, path, i, hn, hfind, -, -, hr, -⟩ | ⟨hfail, -⟩⟩ := h
      · rw [hr]
        simp [contentAt, hn, Volume.lookup, hfind, Volume.stateAt]
      · rw [hfail] at hok
        cases hok
  exact wp_mono (wp_and hk.read hcontent) (fun _ _ h => h) fun _ h => h.1

theorem scanCandidate_passed {normalized data : Bytes} {append : Bool} (hk : Kept P u s.volume) :
    wp (scanCandidate normalized data append)
      (fun c s' => (Passed P u s [] s' ∧ s'.zrwp = s.zrwp) ∧
        ∀ candidate, c = some candidate → candidate = candidateAt s normalized data append ∧ ReadableAt s normalized append)
      (fun s' => Durable P u s'.volume) s := by
  have hsame : Passed P u s [] s ∧ s.zrwp = s.zrwp := ⟨Passed.refl hk, rfl⟩
  unfold scanCandidate
  cases append with
  | false =>
    refine ⟨hsame, fun candidate h => ?_⟩
    cases h
    exact ⟨rfl, fun h => by cases h⟩
  | true =>
    simp only [Bool.not_true, Bool.false_eq_true, if_false, wp_bind, wp_get]
    rcases hfind : s.volume.findEntry normalized with _ | index
    · refine ⟨hsame, fun candidate h => ?_⟩
      split at h
      · cases h
      · cases h
        simp [candidateAt, ReadableAt, hfind]
    · dsimp only
      refine wp_ite (fun _ => ⟨hsame, fun _ h => by cases h⟩) fun _ => ?_
      refine wp_seq (readFileResult_passed hk) (fun _ h => h) fun read s' h => ?_
      refine wp_ite (fun _ => ⟨h.1, fun _ h => by cases h⟩) fun hok => ⟨h.1, fun candidate hc => ?_⟩
      rw [not_or] at hok
      cases hc
      obtain ⟨hcontent, hnormal⟩ := h.2 (by simpa using hok.1)
      refine ⟨?_, fun _ _ => hnormal⟩
      rw [hcontent]
      simp [candidateAt, hfind]

/-- The guard finds nothing that it would record in the content. -/
def CleanAt (s : GuardState) (normalized content : Bytes) : Prop :=
  (scanMemory s normalized content).verdict ≠ .infected ∧ (scanMemory s normalized content).verdict ≠ .suspicious

theorem inspectCandidate_passed {normalized candidate : Bytes} (hk : Kept P u s.volume)
    (hP : P Audit.journalPath → s.audit.ready = true → CleanAt s normalized candidate) :
    wp (inspectCandidate normalized candidate)
      (fun _ s' => Passed P u s [.malware (scanPath s.volume.currentDirectory normalized) candidate] s' ∧ s'.zrwp = s.zrwp)
      (fun s' => Durable P u s'.volume) s := by
  have hnoted : Passed P u s [.malware (scanPath s.volume.currentDirectory normalized) candidate]
      { s with checks := s.checks ++ [.malware (scanPath s.volume.currentDirectory normalized) candidate] } :=
    ⟨⟨Volume.Same.refl _, rfl, rfl, rfl, id⟩, hk, rfl⟩
  have hready : P Audit.journalPath → ¬CleanAt s normalized candidate → s.audit.ready = false := by
    intro hj hc
    by_contra hr
    exact hc (hP hj (by simpa using hr))
  unfold inspectCandidate note
  rw [wp_bind, wp_get, wp_bind, wp_modify]
  refine wp_ite (fun hinf => ?_) fun _ => wp_ite (fun hsus => ?_) fun _ => ⟨hnoted, rfl⟩
  · refine wp_seq (recordEvent_passed hnoted.kept fun hj => hready hj fun hc => hc.1 hinf) (fun _ h => h) ?_
    intro _ s' h
    exact ⟨hnoted.trans h.1, h.2⟩
  · refine wp_mono (recordEvent_passed hnoted.kept fun hj => hready hj fun hc => hc.2 hsus) (fun _ s' h => ?_) fun _ h => h
    exact ⟨hnoted.trans h.1, h.2⟩

theorem allowPersistentWrite_passed {path data : Bytes} {append : Bool} (hk : Kept P u s.volume)
    (hP : ∀ p, normalizePath s.volume.currentDirectory path = some p → P Audit.journalPath → s.audit.ready = true →
      CleanAt s p (candidateAt s p data append)) :
    wp (allowPersistentWrite path data append)
      (fun ok s' => (∃ log, Passed P u s log s') ∧ s'.zrwp = s.zrwp ∧
        (ok = true → ∃ p, normalizePath s.volume.currentDirectory path = some p ∧ ReadableAt s p append ∧
          Passed P u s [.malware (scanPath s.volume.currentDirectory p) (candidateAt s p data append)] s'))
      (fun s' => Durable P u s'.volume) s := by
  unfold allowPersistentWrite
  rw [wp_bind, wp_get]
  rcases hn : normalizePath s.volume.currentDirectory path with _ | p
  · exact ⟨⟨[], Passed.refl hk⟩, rfl, fun h => by cases h⟩
  dsimp only
  refine wp_ite (fun _ => ⟨⟨[], Passed.refl hk⟩, rfl, fun h => by cases h⟩) fun _ => ?_
  refine wp_seq (scanCandidate_passed hk) (fun _ h => h) fun c s₁ h => ?_
  obtain ⟨⟨h₁, hz₁⟩, hc⟩ := h
  cases c with
  | none => exact ⟨⟨[], h₁⟩, hz₁, fun h => by cases h⟩
  | some candidate =>
    dsimp only
    obtain ⟨rfl, hreadable⟩ := hc candidate rfl
    have hscan : ∀ c, scanMemory s₁ p c = scanMemory s p c := by
      intro c
      unfold scanMemory
      rw [h₁.volume.currentDirectory, h₁.classify]
    have hclean : P Audit.journalPath → s₁.audit.ready = true → CleanAt s₁ p (candidateAt s p data append) := by
      intro hj hr
      unfold CleanAt
      rw [hscan]
      exact hP p hn hj (h₁.ready hr)
    refine wp_mono (inspectCandidate_passed h₁.kept hclean) (fun ok s₂ h => ?_) fun _ h => h
    have hlog := h₁.trans h.1
    rw [List.nil_append, h₁.volume.currentDirectory] at hlog
    exact ⟨⟨_, hlog⟩, h.2.trans hz₁, fun _ => ⟨p, rfl, hreadable, hlog⟩⟩

/-! ### The ransomware policy -/

/-- The window after an operation against which the policy has nothing; none where it has. -/
def acceptedWindow (s : GuardState) (window : Ransomware.MutationWindow) (target : Bytes) (operation : Ransomware.Operation)
    (bytes : Nat) : Option Ransomware.MutationWindow :=
  match normalizePath s.volume.currentDirectory target, s.actor with
  | some normalized, some (actor, digest) =>
    if s.zrwp.ready && Ransomware.protectedOperation s.zrwp.active normalized operation then
      let window := Ransomware.ensureWindow s.zrwp.active window s.timerTicks actor digest
      if (Ransomware.reason s.zrwp.active window actor digest operation bytes).isSome then none
      else some (Ransomware.charge window operation bytes)
    else some window
  | _, _ => some window

/-- The globals of the ransomware policy but for the window. -/
def SamePolicy (z z' : Ransomware.State) : Prop := z'.ready = z.ready ∧ z'.active = z.active

theorem chargeActor_passed {normalized actor digest : Bytes} {operation : Ransomware.Operation} {bytes : Nat}
    (hk : Kept P u s.volume)
    (hP : P Audit.journalPath → s.audit.ready = true →
      Ransomware.reason s.zrwp.active s.zrwp.mutationWindow actor digest operation bytes = none) :
    wp (chargeActor normalized actor digest operation bytes)
      (fun _ s' => Passed P u s [] s' ∧ SamePolicy s.zrwp s'.zrwp ∧
        (Ransomware.reason s.zrwp.active s.zrwp.mutationWindow actor digest operation bytes = none →
          s'.zrwp.mutationWindow = Ransomware.charge s.zrwp.mutationWindow operation bytes))
      (fun s' => Durable P u s'.volume) s := by
  have hset : ∀ {t : GuardState} (window : Ransomware.MutationWindow), Passed P u s [] t → t.zrwp = s.zrwp →
      Passed P u s [] { t with zrwp := { t.zrwp with mutationWindow := window } } ∧
        SamePolicy s.zrwp { t.zrwp with mutationWindow := window } := by
    intro t window h hz
    refine ⟨⟨⟨h.volume, h.classify, h.actor, h.timerTicks, h.ready⟩, h.kept, h.checks⟩, ?_⟩
    rw [hz]
    exact ⟨rfl, rfl⟩
  unfold chargeActor
  rw [wp_bind, wp_get]
  dsimp only
  rcases hreason : Ransomware.reason s.zrwp.active s.zrwp.mutationWindow actor digest operation bytes with _ | text
  · exact ⟨(hset _ (Passed.refl hk) rfl).1, (hset _ (Passed.refl hk) rfl).2, fun _ => rfl⟩
  have hready : P Audit.journalPath → s.audit.ready = false := by
    intro hj
    by_contra hr
    have := hP hj (by simpa using hr)
    rw [hreason] at this
    cases this
  dsimp only
  refine wp_seq (recordEvent_passed hk hready) (fun _ h => h) fun ok s' h => ?_
  have hsame : SamePolicy s.zrwp s'.zrwp := by
    rw [h.2]
    exact ⟨rfl, rfl⟩
  refine wp_ite (fun _ => ⟨h.1, hsame, fun hn => by cases hn⟩) fun _ => wp_ite (fun _ => ?_) fun _ => ?_
  · exact ⟨(hset _ h.1 h.2).1, (hset _ h.1 h.2).2, fun hn => by cases hn⟩
  · exact ⟨(hset _ h.1 h.2).1, (hset _ h.1 h.2).2, fun hn => by cases hn⟩

theorem authorize_passed {target : Bytes} {operation : Ransomware.Operation} {bytes : Nat} (hk : Kept P u s.volume)
    (hP : P Audit.journalPath → s.audit.ready = true →
      (acceptedWindow s s.zrwp.mutationWindow target operation bytes).isSome = true) :
    wp (authorize target operation bytes)
      (fun ok s' => (∃ log, Passed P u s log s') ∧ SamePolicy s.zrwp s'.zrwp ∧
        (∀ window, acceptedWindow s s.zrwp.mutationWindow target operation bytes = some window →
          s'.zrwp.mutationWindow = window) ∧
        (ok = true → ∃ p, normalizePath s.volume.currentDirectory target = some p ∧ Passed P u s [.ransomware p] s'))
      (fun s' => Durable P u s'.volume) s := by
  unfold authorize
  rw [wp_bind, wp_get]
  refine wp_ite (fun hno => ?_) fun hready => ?_
  · refine ⟨⟨[], Passed.refl hk⟩, ⟨rfl, rfl⟩, fun window hw => ?_, fun h => by cases h⟩
    have hno : s.zrwp.ready = false := by simpa using hno
    unfold acceptedWindow at hw
    simp only [hno, Bool.false_and, Bool.false_eq_true, if_false] at hw
    split at hw <;> exact Option.some.inj hw
  have hready : s.zrwp.ready = true := by simpa using hready
  rcases hn : normalizePath s.volume.currentDirectory target with _ | p
  · refine ⟨⟨[], Passed.refl hk⟩, ⟨rfl, rfl⟩, fun window hw => ?_, fun h => by cases h⟩
    simpa [acceptedWindow, hn] using hw
  dsimp only
  unfold note
  rw [wp_bind, wp_modify]
  obtain ⟨s₁, hs₁⟩ : ∃ s₁ : GuardState, s₁ = { s with checks := s.checks ++ [.ransomware p] } := ⟨_, rfl⟩
  rw [← hs₁]
  have hnoted : Passed P u s [.ransomware p] s₁ := hs₁ ▸ ⟨⟨Volume.Same.refl _, rfl, rfl, rfl, id⟩, hk, rfl⟩
  have hz : s₁.zrwp = s.zrwp := by rw [hs₁]
  have hsame : SamePolicy s.zrwp s₁.zrwp := hz ▸ ⟨rfl, rfl⟩
  refine wp_ite (fun hprot => ?_) fun hprot => ?_
  · refine ⟨⟨_, hnoted⟩, hsame, fun window hw => ?_, fun _ => ⟨p, rfl, hnoted⟩⟩
    have hprot : Ransomware.protectedOperation s.zrwp.active p operation = false := by simpa using hprot
    rw [hz]
    rcases hactor : s.actor with _ | ⟨actor, digest⟩
    · simpa [acceptedWindow, hactor] using hw
    · simpa [acceptedWindow, hn, hactor, hprot] using hw
  have hprot : Ransomware.protectedOperation s.zrwp.active p operation = true := by simpa using hprot
  rcases hactor : s.actor with _ | ⟨actor, digest⟩
  · refine ⟨⟨_, hnoted⟩, hsame, fun window hw => ?_, fun _ => ⟨p, rfl, hnoted⟩⟩
    rw [hz]
    simpa [acceptedWindow, hactor] using hw
  dsimp only
  unfold setWindow
  rw [wp_bind, wp_modify, hz]
  obtain ⟨window, hwindow⟩ : ∃ window,
      window = Ransomware.ensureWindow s.zrwp.active s.zrwp.mutationWindow s.timerTicks actor digest := ⟨_, rfl⟩
  rw [← hwindow]
  have haccepted : acceptedWindow s s.zrwp.mutationWindow target operation bytes =
      if (Ransomware.reason s.zrwp.active window actor digest operation bytes).isSome then none
      else some (Ransomware.charge window operation bytes) := by
    simp [acceptedWindow, hn, hactor, hready, hprot, hwindow]
  rw [haccepted] at hP ⊢
  refine wp_mono (chargeActor_passed (P := P) (u := u) hnoted.kept fun hj hr => ?_) (fun ok s' h => ?_) fun _ h => h
  · have hsome := hP hj (hnoted.ready hr)
    by_contra hne
    rw [if_pos (Option.isSome_iff_ne_none.mpr hne)] at hsome
    cases hsome
  · obtain ⟨h', hpolicy, hcharged⟩ := h
    have hpassed : Passed P u s [.ransomware p] s' := by
      have hnext : Passed P u s₁ [] s' := ⟨⟨h'.volume, h'.classify, h'.actor, h'.timerTicks, h'.ready⟩, h'.kept, h'.checks⟩
      have := hnoted.trans hnext
      rwa [List.append_nil] at this
    refine ⟨⟨_, hpassed⟩, hpolicy, fun window' hw => ?_, fun _ => ⟨p, rfl, hpassed⟩⟩
    split at hw
    · cases hw
    · rename_i hnone
      rw [← Option.some.inj hw]
      exact hcharged (Option.not_isSome_iff_eq_none.mp hnone)

/-! ### Protected paths -/

theorem askProtectedPath_passed {input : Bytes} (hk : Kept P u s.volume) :
    wp (askProtectedPath input)
      (fun isProtected s' => (∃ log, Passed P u s log s') ∧ s'.volume = s.volume ∧ s'.zrwp = s.zrwp ∧
        (isProtected = false → ∀ p, normalizePath s.volume.currentDirectory input = some p →
          protectedName p = false ∧ Passed P u s [.policyPath p] s'))
      (fun s' => Durable P u s'.volume) s := by
  unfold askProtectedPath
  rw [wp_bind, wp_get]
  rcases hn : normalizePath s.volume.currentDirectory input with _ | p
  · exact ⟨⟨[], Passed.refl hk⟩, rfl, rfl, fun _ p hp => by cases hp⟩
  have hnoted : Passed P u s [.policyPath p] { s with checks := s.checks ++ [.policyPath p] } :=
    ⟨⟨Volume.Same.refl _, rfl, rfl, rfl, id⟩, hk, rfl⟩
  dsimp only
  unfold note
  rw [wp_bind, wp_modify, wp_pure]
  refine ⟨⟨_, hnoted⟩, rfl, rfl, fun hno q hq => ?_⟩
  cases hq
  exact ⟨hno, hnoted⟩

end Checks

/-- A fresh volume behind a guard that knows no malware and no ransomware rules. -/
def freshGuard : GuardState where
  volume := fresh []
  audit := ⟨Audit.initializeEmpty, true, true⟩
  classify := fun _ _ => none
  zmidReady := true
  zrwp := ⟨true, ⟨true, 100, 1, 1, 1, 1, []⟩, ⟨false, false, [], [], 0, 0, 0, 0, 0⟩⟩
  actor := none
  timerTicks := 0
  checks := []

end ZenovOS.Security
