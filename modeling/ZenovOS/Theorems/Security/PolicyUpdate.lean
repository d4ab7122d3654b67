import ZenovOS.Theorems.Security.PolicyTransaction

/-! # Runs of an update, and recovery after them

`update` replaces the files of its domain one after the other. `Staged` says where it stands: the journal
is hot, and apart from it the files are those that the steps so far were to make. -/

namespace ZenovOS.Security
open Bytes Storage Mach

/-- The journal is hot, and the other files are those of `g`. -/
structure Staged (d : Descriptor) (f₀ g f : Files) : Prop where
  hot : Hot d f₀ f
  files : ∀ path, path ≠ journalPath → f path = g path

/-- The files of `g`, or these with a hot journal. -/
def Near (d : Descriptor) (f₀ g f : Files) : Prop := f = g ∨ Staged d f₀ g f

section Staged
variable {d : Descriptor} {f₀ g f : Files}

theorem Near.recoverable (h : Near d f₀ f₀ f) : Recoverable d f₀ f := by
  cases h with
  | inl h => exact .inl h
  | inr h => exact .inr h.hot

theorem Staged.write (hd : d ∈ descriptors) (h : Staged d f₀ g f) {path : Bytes} (hp : path ∈ d.owned) (data : Option Bytes) :
    Staged d f₀ (Function.update g path data) (Function.update f path data) := by
  refine ⟨h.hot.write hd hp data, fun q hq => ?_⟩
  by_cases hqp : q = path
  · rw [hqp, Function.update_self, Function.update_self]
  · rw [Function.update_of_ne hqp, Function.update_of_ne hqp, h.files q hq]

theorem Staged.cleared (hg : g journalPath = some []) (h : Staged d f₀ g f) : Function.update f journalPath (some []) = g :=
  cleared_restored hg h.files

theorem Near.clear {s s' : PolicyState} (hg : g journalPath = some []) (h : Near d f₀ g s.files)
    (hw : s'.files = s.files ∨ s'.files = Function.update s.files journalPath (some [])) : Near d f₀ g s'.files := by
  cases hw with
  | inl hw => exact hw ▸ h
  | inr hw =>
    refine .inl (hw.trans ?_)
    cases h with
    | inl h => exact cleared_restored hg fun path _ => by rw [h]
    | inr h => exact h.cleared hg

end Staged

/-! ### Taking the backup -/

section Acquire
variable {d : Descriptor} {f₀ : Files}

theorem readAuxiliary_spec (s : PolicyState) (hd : d ∈ descriptors) :
    wp (readAuxiliary d)
      (fun r s' => After s s.files s' ∧ ∀ b, r = some b → auxiliarySizeValid d b.length = true ∧
        ∀ path ∈ d.auxiliaryPath, s.files path = some b ∧ b.length ≤ d.auxiliaryCapacity)
      (fun s' => s'.files = s.files) s := by
  unfold readAuxiliary
  cases ha : d.auxiliaryPath with
  | none =>
    refine ⟨⟨⟨s.store, rfl⟩, rfl, id⟩, fun b hb => ?_⟩
    cases hb
    exact ⟨by simp [auxiliarySizeValid, ha], by simp⟩
  | some aux =>
    rw [wp_bind]
    have hfixed : Fixed aux := Descriptor.fixed hd (by simp [Descriptor.owned, ha])
    refine wp_readFile hfixed (fun b s₁ hb hle h₁ => ?_) (fun s₁ h₁ _ => ⟨h₁, by simp⟩) fun _ s₁ h₁ => h₁
    cases b with
    | nil => exact ⟨h₁, by simp⟩
    | cons x rest =>
      refine ⟨h₁, fun b' hb' => ?_⟩
      cases hb'
      refine ⟨?_, fun path hp => ?_⟩
      · simp only [List.length_cons] at hle
        simp [auxiliarySizeValid, ha, hle]
      · cases hp
        exact ⟨hb, hle⟩

theorem persistJournal_spec (s : PolicyState) {policy version : Bytes} {n : Nat} (hd : d ∈ descriptors)
    (hf : s.files = f₀) (hpolicy : s.rollbackData = policy) (hversion : s.versionBackup = version)
    (hlive : f₀ d.livePath = some policy) (hvers : f₀ d.versionPath = some version) (hp : policy ≠ [])
    (hcap : policy.length ≤ d.policyCapacity) (hparse : parseNonzeroDecimal version = some n) :
    wp (persistJournal d policy.length n)
      (fun ok s' => Same s s' ∧ Near d f₀ f₀ s'.files ∧ (ok = true → Staged d f₀ f₀ s'.files))
      (fun s' => Near d f₀ f₀ s'.files) s := by
  unfold persistJournal
  simp only [wp_bind, wp_get]
  refine wp_ite (fun _ => ⟨.refl s, .inl hf, by simp⟩) fun _ => ?_
  refine wp_seq (readAuxiliary_spec s hd) (fun s' h => .inl (h.trans hf)) fun r s₁ h₁ => ?_
  obtain ⟨h₁, haux⟩ := h₁
  have hf₁ : s₁.files = f₀ := h₁.files.trans hf
  cases r with
  | none => exact ⟨h₁.same, .inl hf₁, by simp⟩
  | some auxiliary =>
    obtain ⟨hsize, haux⟩ := haux auxiliary rfl
    dsimp only
    rw [hpolicy, hversion, List.take_length]
    cases hbuild : buildJournal d policy version auxiliary n with
    | none => exact ⟨h₁.same, .inl hf₁, by simp⟩
    | some journal =>
      have hvalid := validateJournal_buildJournal hd hp hcap hparse hsize hbuild
      have hback : Backup d f₀ ⟨d, policy, version, auxiliary, n⟩ :=
        ⟨rfl, hlive, hvers, fun path h => hf ▸ (haux path h).1, hcap,
          (parseNonzeroDecimal_some hparse).2.1.trans (by decide), fun path h => (haux path h).2, hparse⟩
      have hlen : journal.length ≤ applicationBufferBytes := length_buildJournal hbuild
      -- once the record has landed the journal is hot
      have hstaged : ∀ s' : PolicyState, s'.files = Function.update s₁.files journalPath (some journal) →
          Staged d f₀ f₀ s'.files := by
        intro s' hs'
        have hother : ∀ path, path ≠ journalPath → s'.files path = f₀ path := fun path hne => by
          rw [hs', Function.update_of_ne hne, hf₁]
        refine ⟨⟨⟨journal, _, ?_, hlen, hvalid, hback⟩, fun path hne _ => hother path hne⟩, hother⟩
        rw [hs', Function.update_self]
      have hnear : ∀ s' : PolicyState, (s'.files = s₁.files ∨ s'.files = Function.update s₁.files journalPath (some journal)) →
          Near d f₀ f₀ s'.files := by
        intro s' hs'
        cases hs' with
        | inl hs' => exact .inl (hs'.trans hf₁)
        | inr hs' => exact .inr (hstaged s' hs')
      rw [wp_bind]
      refine wp_writeFile fixed_journalPath (fun s₂ h₂ => ?_) (fun hc s₂ h₂ => ?_) fun _ s₂ h₂ => hnear s₂ h₂
      · have hs₂ := hstaged s₂ h₂.files
        have hsame₂ := h₁.same.trans h₂.same
        rw [if_neg (by simp), wp_bind]
        refine wp_readFile fixed_journalPath (fun b s₃ hb _ h₃ => ?_)
          (fun s₃ h₃ _ => ⟨hsame₂.trans h₃.same, .inr (h₃.files ▸ hs₂), by simp⟩) fun _ s₃ h₃ => .inr (h₃ ▸ hs₂)
        have hs₃ : Staged d f₀ f₀ s₃.files := h₃.files ▸ hs₂
        have hsame₃ := hsame₂.trans h₃.same
        rw [h₂.files, Function.update_self] at hb
        cases hb
        dsimp only
        rw [if_neg (not_not_intro rfl), hvalid]
        dsimp only
        rw [if_neg (by simp)]
        exact wp_syncMetadata (fun s₄ h₄ => ⟨hsame₃.trans h₄.same, .inr (h₄.files ▸ hs₃), fun _ => h₄.files ▸ hs₃⟩)
          (fun _ s₄ h₄ => ⟨hsame₃.trans h₄.same, .inr (h₄.files ▸ hs₃), by simp⟩) fun _ s₄ h₄ => .inr (h₄ ▸ hs₃)
      · rw [if_pos (by simp)]
        refine ⟨?_, hnear s₂ ?_, by simp⟩
        · cases h₂ with
          | inl h₂ => exact h₁.same.trans h₂.same
          | inr h₂ => exact h₁.same.trans h₂.same
        · cases h₂ with
          | inl h₂ => exact .inl h₂.files
          | inr h₂ => exact .inr h₂.files

theorem descriptorForLive_livePath (hd : d ∈ descriptors) : descriptorForLive d.livePath = some d := by
  simp only [descriptors, List.mem_cons, List.not_mem_nil, or_false] at hd
  obtain rfl | rfl | rfl := hd <;> decide

theorem abandonJournal_spec {s s₁ : PolicyState} (hj : f₀ journalPath = some []) (h : Near d f₀ f₀ s₁.files)
    (hsame : Same s s₁) :
    wp abandonJournal
      (fun r s' => Same s s' ∧ Near d f₀ f₀ s'.files ∧ (r.isSome = true → Staged d f₀ f₀ s'.files))
      (fun s' => Near d f₀ f₀ s'.files) s₁ := by
  unfold abandonJournal
  refine wp_seq (clearJournal_spec s₁) (fun s' h' => h.clear hj h'.2) fun ok s₂ h₂ => ?_
  have hnear := h.clear hj h₂.files
  have hsame₂ := hsame.trans h₂.same
  exact wp_ite (fun _ => ⟨⟨hsame₂.1, hsame₂.2⟩, hnear, by simp⟩) fun _ => ⟨hsame₂, hnear, by simp⟩

theorem acquire_spec (s : PolicyState) (hd : d ∈ descriptors) (hf : s.files = f₀) (hj : f₀ journalPath = some []) :
    wp (acquire d.livePath d.policyCapacity)
      (fun r s' => Same s s' ∧ Near d f₀ f₀ s'.files ∧ (r.isSome = true → Staged d f₀ f₀ s'.files))
      (fun s' => Near d f₀ f₀ s'.files) s := by
  have hlive : Fixed d.livePath := Descriptor.fixed hd (by simp [Descriptor.owned])
  have hversion : Fixed d.versionPath := Descriptor.fixed hd (by simp [Descriptor.owned])
  unfold acquire
  simp only [wp_bind, wp_get]
  refine wp_ite (fun _ => ⟨.refl s, .inl hf, by simp⟩) fun _ => ?_
  rw [descriptorForLive_livePath hd]
  dsimp only
  rw [if_neg (Nat.lt_irrefl _)]
  simp only [wp_bind, wp_modify]
  refine wp_readFile hlive (fun policy s₁ hpolicy hcap h₁ => ?_) (fun s₁ h₁ _ => ?_) fun _ s₁ h₁ => .inl (h₁.trans hf)
  · have hf₁ : s₁.files = f₀ := h₁.files.trans hf
    have hsame₁ : Same s s₁ := ⟨h₁.same.1, h₁.same.2⟩
    have hlive₁ : f₀ d.livePath = some policy := hf ▸ hpolicy
    cases policy with
    | nil => exact ⟨⟨hsame₁.1, hsame₁.2⟩, .inl hf₁, by simp⟩
    | cons x rest =>
      simp only [wp_bind, wp_modify]
      refine wp_readFile hversion (fun version s₂ hvers _ h₂ => ?_) (fun s₂ h₂ _ => ?_) fun _ s₂ h₂ => .inl (h₂.trans hf₁)
      · have hf₂ : s₂.files = f₀ := h₂.files.trans hf₁
        have hsame₂ : Same s s₂ := hsame₁.trans ⟨h₂.same.1, h₂.same.2⟩
        have hvers₂ : f₀ d.versionPath = some version := hf₁ ▸ hvers
        have hroll : s₂.rollbackData = x :: rest := by
          obtain ⟨store, rfl⟩ := h₂.eq
          rfl
        simp only [wp_bind, wp_modify]
        cases hparse : parseNonzeroDecimal version with
        | none => exact abandonJournal_spec hj (.inl hf₂) ⟨hsame₂.1, hsame₂.2⟩
        | some n =>
          refine wp_seq (persistJournal_spec _ hd hf₂ hroll rfl hlive₁ hvers₂ (by simp) hcap hparse) (fun _ h => h)
            fun ok s₃ h₃ => ?_
          have hsame₃ : Same s s₃ := hsame₂.trans ⟨h₃.1.1, h₃.1.2⟩
          exact wp_ite (fun hok => ⟨hsame₃, h₃.2.1, fun _ => h₃.2.2 hok⟩) fun _ => abandonJournal_spec hj h₃.2.1 hsame₃
      · have hsame₂ : Same s s₂ := hsame₁.trans ⟨h₂.same.1, h₂.same.2⟩
        exact ⟨⟨hsame₂.1, hsame₂.2⟩, .inl (h₂.files.trans hf₁), by simp⟩
  · exact ⟨⟨h₁.same.1, h₁.same.2⟩, .inl (h₁.files.trans hf), by simp⟩

end Acquire

/-! ### Installing the new files -/

/-- The three policy managers. -/
def managers (verify : Bytes → Nat → Option (Nat × Nat)) : List PolicyManager := [zgdb verify, zcap verify, zmid verify]

/-- The files after an update. -/
def PolicyManager.newFiles (m : PolicyManager) (f : Files) (policy version : Bytes) (auxiliary : Option Bytes) : Files :=
  let g := Function.update (Function.update f m.descriptor.livePath (some policy)) m.descriptor.versionPath (some version)
  match auxiliary with
  | none => g
  | some auxiliary => Function.update g Audit.journalPath (some auxiliary)

/-- What the auxiliary file becomes: the audit journal with the event, if the manager records its updates. -/
def PolicyManager.Recorded (m : PolicyManager) (tick : Nat) (audit : AuditState) (policy : Bytes) (auxiliary : Option Bytes) :
    Prop :=
  if m.audits then
    ∃ journal, Audit.appendTo audit.journal tick AuditAction.intelligenceUpdate.code Verdict.trusted.code
      m.descriptor.livePath (sha256 policy) = some journal ∧ auxiliary = some journal.encode
  else auxiliary = none

/-- What an update from `s` is to install: the candidate, which is valid for the next version, the text of
    that version and, if the manager records its updates, the audit journal with the event. -/
structure PolicyManager.Installs (m : PolicyManager) (candidatePath : Bytes) (tick : Nat) (s : PolicyState)
    (policy version : Bytes) (auxiliary : Option Bytes) : Prop where
  candidate : ∃ path, normalizePath s.currentDirectory candidatePath = some path ∧ s.files path = some policy
  next : ∃ n count, nextVersion (s.managers m.descriptor.domain).activeVersion = some n ∧
    m.validate policy n = some (n, count) ∧ formatNonzeroDecimal n 12 = some version
  event : m.Recorded tick s.audit policy auxiliary

section Install
variable {m : PolicyManager} {f₀ g : Files}

theorem descriptor_mem {verify : Bytes → Nat → Option (Nat × Nat)} (hm : m ∈ managers verify) : m.descriptor ∈ descriptors := by
  simp only [managers, List.mem_cons, List.not_mem_nil, or_false] at hm
  obtain rfl | rfl | rfl := hm <;> simp [descriptors, zgdb, zcap, zmid]

theorem auditPath_mem {verify : Bytes → Nat → Option (Nat × Nat)} (hm : m ∈ managers verify) (ha : m.audits = true) :
    Audit.journalPath ∈ m.descriptor.owned := by
  simp only [managers, List.mem_cons, List.not_mem_nil, or_false] at hm
  obtain rfl | rfl | rfl := hm
  · cases ha
  · cases ha
  · simp [zmid, zmidDescriptor, Descriptor.owned, Audit.journalPath]

theorem newFiles_journalPath {verify : Bytes → Nat → Option (Nat × Nat)} (hm : m ∈ managers verify) (policy version : Bytes)
    (auxiliary : Option Bytes) : m.newFiles f₀ policy version auxiliary journalPath = f₀ journalPath := by
  have hnot := Descriptor.journalPath_notMem (descriptor_mem hm)
  simp only [Descriptor.owned, List.mem_cons, not_or] at hnot
  have haudit : journalPath ≠ Audit.journalPath := by decide
  unfold PolicyManager.newFiles
  cases auxiliary with
  | none =>
    dsimp only
    rw [Function.update_of_ne hnot.2.1, Function.update_of_ne hnot.1]
  | some auxiliary =>
    dsimp only
    rw [Function.update_of_ne haudit, Function.update_of_ne hnot.2.1, Function.update_of_ne hnot.1]

theorem commit_spec (s : PolicyState) {d : Descriptor} (hg : g journalPath = some []) (h : Staged d f₀ g s.files) :
    wp commit (fun _ s' => Near d f₀ g s'.files) (fun s' => Near d f₀ g s'.files) s := by
  unfold commit
  simp only [wp_bind, wp_get]
  refine wp_ite (fun _ => .inr h) fun _ => ?_
  refine wp_seq (clearJournal_spec s) (fun s' h' => Near.clear hg (.inr h) h'.2) fun ok s₁ h₁ => ?_
  have hnear : Near d f₀ g s₁.files := Near.clear hg (.inr h) h₁.files
  exact wp_ite (fun _ => hnear) fun _ => hnear

theorem rollback_spec (s : PolicyState) {d : Descriptor} (hd : d ∈ descriptors) (hj : f₀ journalPath = some [])
    (h : Hot d f₀ s.files) :
    wp rollback (fun _ s' => Recoverable d f₀ s'.files) (fun s' => Recoverable d f₀ s'.files) s := by
  unfold rollback
  simp only [wp_bind, wp_get]
  refine wp_ite (fun _ => .inr h) fun _ => ?_
  exact wp_mono (restoreHotJournal_spec s hd hj h) (fun _ _ w => w.files) fun _ w => w.2

theorem restoreUpdate_spec (s : PolicyState) (previousVersion : Nat) (hd : m.descriptor ∈ descriptors)
    (hj : f₀ journalPath = some []) (h : Hot m.descriptor f₀ s.files) :
    wp (m.restoreUpdate previousVersion) (fun _ s' => Recoverable m.descriptor f₀ s'.files)
      (fun s' => Recoverable m.descriptor f₀ s'.files) s := by
  unfold PolicyManager.restoreUpdate
  exact wp_seq (rollback_spec s hd hj h) (fun _ h => h) fun ok s₁ h₁ => wp_ite (fun _ => h₁) fun _ => h₁

theorem discardPrepared_spec (s : PolicyState) (hj : f₀ journalPath = some []) (h : Staged m.descriptor f₀ f₀ s.files) :
    wp m.discardPrepared (fun _ s' => Recoverable m.descriptor f₀ s'.files)
      (fun s' => Recoverable m.descriptor f₀ s'.files) s := by
  unfold PolicyManager.discardPrepared discard
  refine wp_seq (commit_spec s hj h) (fun _ h => h.recoverable) fun ok s₁ h₁ => ?_
  exact wp_ite (fun _ => h₁.recoverable) fun _ => h₁.recoverable

theorem wp_attempt {s : PolicyState} {previousVersion : Nat} {step : Mach PolicyState Bool}
    {rest : Mach PolicyState (Option Nat)} {R : PolicyState → Prop} {Q : Option Nat → PolicyState → Prop}
    (hd : m.descriptor ∈ descriptors) (hj : f₀ journalPath = some [])
    (hnone : ∀ s', Recoverable m.descriptor f₀ s'.files → Q none s')
    (hstep : wp step (fun ok s' => Hot m.descriptor f₀ s'.files ∧ (ok = true → R s')) (fun s' => Hot m.descriptor f₀ s'.files) s)
    (hrest : ∀ s', R s' → wp rest Q (fun s' => Recoverable m.descriptor f₀ s'.files) s') :
    wp (m.attempt previousVersion step rest) Q (fun s' => Recoverable m.descriptor f₀ s'.files) s := by
  unfold PolicyManager.attempt
  refine wp_seq hstep (fun _ h => .inr h) fun ok s₁ h₁ => ?_
  refine wp_ite (fun hok => hrest s₁ (h₁.2 hok)) fun _ => ?_
  exact wp_seq (restoreUpdate_spec s₁ previousVersion hd hj h₁.1) (fun _ h => h) fun _ s₂ h₂ => hnone s₂ h₂

theorem writeFile_step {s₀ s : PolicyState} {path : Bytes} (data : Bytes) (hd : m.descriptor ∈ descriptors)
    (hp : path ∈ m.descriptor.owned) (hsame : Same s₀ s) (h : Staged m.descriptor f₀ g s.files) :
    wp (writeFile path data)
      (fun ok s' => Hot m.descriptor f₀ s'.files ∧
        (ok = true → Same s₀ s' ∧ Staged m.descriptor f₀ (Function.update g path (some data)) s'.files))
      (fun s' => Hot m.descriptor f₀ s'.files) s := by
  refine wp_writeFile (Descriptor.fixed hd hp) (fun s₁ h₁ => ?_) (fun _ s₁ h₁ => ?_) fun _ s₁ h₁ => h.hot.wrote hd hp h₁
  · have hs₁ := h.write hd hp (some data)
    rw [← h₁.files] at hs₁
    exact ⟨hs₁.hot, fun _ => ⟨hsame.trans h₁.same, hs₁⟩⟩
  · cases h₁ with
    | inl h₁ => exact ⟨h₁.files ▸ h.hot, by simp⟩
    | inr h₁ => exact ⟨h₁.files ▸ h.hot.write hd hp _, by simp⟩

theorem writeVersion_step {s₀ s : PolicyState} (value : Nat) (hd : m.descriptor ∈ descriptors)
    (hp : m.descriptor.versionPath ∈ m.descriptor.owned) (hsame : Same s₀ s) (h : Staged m.descriptor f₀ g s.files) :
    wp (m.writeVersion value)
      (fun ok s' => Hot m.descriptor f₀ s'.files ∧ (ok = true → ∃ text, formatNonzeroDecimal value 12 = some text ∧
        Same s₀ s' ∧ Staged m.descriptor f₀ (Function.update g m.descriptor.versionPath (some text)) s'.files))
      (fun s' => Hot m.descriptor f₀ s'.files) s := by
  unfold PolicyManager.writeVersion
  cases htext : formatNonzeroDecimal value 12 with
  | none => exact ⟨h.hot, by simp⟩
  | some text =>
    refine wp_mono (writeFile_step text hd hp hsame h) (fun ok s₁ h₁ => ⟨h₁.1, fun hok => ?_⟩) fun _ h => h
    exact ⟨text, rfl, h₁.2 hok⟩

theorem versionMatches_step {s₀ s : PolicyState} {versionPath : Bytes} {expected : Nat} (hp : Fixed versionPath)
    (hsame : Same s₀ s) (h : Staged m.descriptor f₀ g s.files) :
    wp (versionMatches versionPath expected)
      (fun ok s' => Hot m.descriptor f₀ s'.files ∧ (ok = true → Same s₀ s' ∧ Staged m.descriptor f₀ g s'.files))
      (fun s' => Hot m.descriptor f₀ s'.files) s := by
  refine wp_mono (versionMatches_spec s hp) (fun ok s₁ h₁ => ?_) fun s₁ h₁ => h₁.2 ▸ h.hot
  exact ⟨h₁.1.files ▸ h.hot, fun _ => ⟨hsame.trans h₁.1.same, h₁.1.files ▸ h⟩⟩

theorem syncMetadata_step {s₀ s : PolicyState} (hsame : Same s₀ s) (h : Staged m.descriptor f₀ g s.files) :
    wp syncMetadata
      (fun ok s' => Hot m.descriptor f₀ s'.files ∧ (ok = true → Same s₀ s' ∧ Staged m.descriptor f₀ g s'.files))
      (fun s' => Hot m.descriptor f₀ s'.files) s :=
  wp_syncMetadata (fun s₁ h₁ => ⟨h₁.files ▸ h.hot, fun _ => ⟨hsame.trans h₁.same, h₁.files ▸ h⟩⟩)
    (fun _ s₁ h₁ => ⟨h₁.files ▸ h.hot, by simp⟩) fun _ s₁ h₁ => h₁ ▸ h.hot

theorem recordUpdate_step {s₀ s : PolicyState} {policy version : Bytes} (tick : Nat) (hd : m.descriptor ∈ descriptors)
    (haudit : m.audits = true → Audit.journalPath ∈ m.descriptor.owned) (hsame : Same s₀ s)
    (h : Staged m.descriptor f₀ (m.newFiles f₀ policy version none) s.files) :
    wp (m.recordUpdate tick policy)
      (fun ok s' => Hot m.descriptor f₀ s'.files ∧ (ok = true → ∃ auxiliary, m.Recorded tick s₀.audit policy auxiliary ∧
        Staged m.descriptor f₀ (m.newFiles f₀ policy version auxiliary) s'.files))
      (fun s' => Hot m.descriptor f₀ s'.files) s := by
  have hpath : m.descriptor.livePath ≠ [] := fun he => by
    have := Descriptor.fixed hd (show m.descriptor.livePath ∈ m.descriptor.owned by simp [Descriptor.owned]) []
    rw [he] at this
    cases this
  unfold PolicyManager.recordUpdate
  refine wp_ite (fun ha => ?_) fun ha => ⟨h.hot, fun _ => ⟨none, by rw [PolicyManager.Recorded, if_neg ha], h⟩⟩
  unfold Audit.record
  rw [if_neg hpath, wp_bind]
  unfold Audit.append
  simp only [wp_bind, wp_get]
  refine wp_ite (fun _ => ⟨h.hot, by simp⟩) fun _ => ?_
  cases hap : Audit.appendTo s.audit.journal tick AuditAction.intelligenceUpdate.code Verdict.trusted.code
      m.descriptor.livePath (sha256 policy) with
  | none => exact ⟨h.hot, by simp⟩
  | some journal =>
    refine wp_seq (writeFile_step journal.encode hd (haudit ha) hsame h) (fun _ h => h) fun ok s₁ h₁ => ?_
    refine wp_ite (fun hok => ⟨h₁.1, fun _ => ⟨some journal.encode, ?_, (h₁.2 hok).2⟩⟩) fun _ => ⟨h₁.1, by simp⟩
    unfold PolicyManager.Recorded
    rw [if_pos ha, ← hsame.audit]
    exact ⟨journal, hap, rfl⟩

theorem readBack_spec (s : PolicyState) {policy : Bytes} {version count : Nat} (hd : m.descriptor ∈ descriptors)
    (hf : s.files m.descriptor.livePath = some policy) :
    wp (m.readBack policy version count)
      (fun r s' => After s s.files s' ∧ ∀ committed, r = some committed → committed = policy)
      (fun s' => s'.files = s.files) s := by
  unfold PolicyManager.readBack
  rw [wp_bind]
  have hlive : Fixed m.descriptor.livePath := Descriptor.fixed hd (by simp [Descriptor.owned])
  refine wp_readFile hlive (fun b s₁ hb _ h₁ => ?_) (fun s₁ h₁ _ => ⟨h₁, by simp⟩) fun _ s₁ h₁ => h₁
  rw [hf] at hb
  cases hb
  refine ⟨h₁, fun committed hc => ?_⟩
  split at hc
  · cases hc
    rfl
  · cases hc

/-- The files before the commit: the new ones, under a hot journal of the old ones. -/
def Installed (m : PolicyManager) (f₀ : Files) (audit : AuditState) (path : Bytes) (tick version count : Nat) (f : Files) :
    Prop :=
  ∃ policy text auxiliary, f₀ path = some policy ∧ m.validate policy version = some (version, count) ∧
    formatNonzeroDecimal version 12 = some text ∧ m.Recorded tick audit policy auxiliary ∧
    Staged m.descriptor f₀ (m.newFiles f₀ policy text auxiliary) f

/-- How the steps between the backup and the commit end: with the new files and a hot journal, or with
    files that recovery makes the old ones. -/
def InstallEnd (m : PolicyManager) (f₀ : Files) (audit : AuditState) (path : Bytes) (tick version count : Nat)
    (r : Option Nat) (s' : PolicyState) : Prop :=
  match r with
  | none => Recoverable m.descriptor f₀ s'.files
  | some n => n = version ∧ Installed m f₀ audit path tick version count s'.files

theorem install_spec {s₀ s : PolicyState} {candidatePath path : Bytes} {verify : Bytes → Nat → Option (Nat × Nat)}
    (tick version count previousVersion : Nat) (hm : m ∈ managers verify) (hj : f₀ journalPath = some []) (hsame : Same s₀ s)
    (h : Staged m.descriptor f₀ f₀ s.files) (hpath : normalizePath s₀.currentDirectory candidatePath = some path)
    (hne : path ≠ journalPath) :
    wp (m.install candidatePath tick version count previousVersion)
      (InstallEnd m f₀ s₀.audit path tick version count) (fun s' => Recoverable m.descriptor f₀ s'.files) s := by
  have hd := descriptor_mem hm
  have hlive : m.descriptor.livePath ∈ m.descriptor.owned := by simp [Descriptor.owned]
  have hvers : m.descriptor.versionPath ∈ m.descriptor.owned := by simp [Descriptor.owned]
  have hnone : ∀ s' : PolicyState, Recoverable m.descriptor f₀ s'.files →
      InstallEnd m f₀ s₀.audit path tick version count none s' := fun _ h => h
  unfold PolicyManager.install
  rw [wp_bind]
  rw [← hsame.currentDirectory] at hpath
  refine wp_readFile_at hpath (fun policy s₁ hpolicy _ h₁ => ?_) (fun s₁ h₁ _ => ?_) fun _ s₁ h₁ => .inr (h₁ ▸ h.hot)
  · have hs₁ : Staged m.descriptor f₀ f₀ s₁.files := h₁.files ▸ h
    have hsame₁ := hsame.trans h₁.same
    rw [h.files path hne] at hpolicy
    dsimp only
    refine wp_ite (fun _ => ?_) fun hvalid => ?_
    · exact wp_seq (discardPrepared_spec s₁ hj hs₁) (fun _ h => h) fun _ s₂ h₂ => h₂
    simp only [ne_eq, not_not] at hvalid
    refine wp_attempt hd hj hnone (writeFile_step policy hd hlive hsame₁ hs₁) fun s₂ h₂ => ?_
    obtain ⟨hsame₂, hs₂⟩ := h₂
    have hwritten : s₂.files m.descriptor.livePath = some policy := by
      rw [hs₂.files _ (fun he => Descriptor.journalPath_notMem hd (he ▸ hlive)), Function.update_self]
    refine wp_seq (readBack_spec s₂ hd hwritten) (fun s' h' => .inr (h' ▸ hs₂.hot)) fun r s₃ h₃ => ?_
    obtain ⟨h₃, hback⟩ := h₃
    have hs₃ := h₃.files ▸ hs₂
    cases r with
    | none => exact wp_seq (restoreUpdate_spec s₃ previousVersion hd hj hs₃.hot) (fun _ h => h) fun _ s₄ h₄ => h₄
    | some committed =>
      obtain rfl := hback committed rfl
      dsimp only
      refine wp_attempt hd hj hnone (writeVersion_step version hd hvers (hsame₂.trans h₃.same) hs₃) fun s₄ h₄ => ?_
      obtain ⟨text, htext, hsame₄, hs₄⟩ := h₄
      refine wp_attempt hd hj hnone (versionMatches_step (Descriptor.fixed hd hvers) hsame₄ hs₄) fun s₅ h₅ => ?_
      refine wp_attempt hd hj hnone (syncMetadata_step h₅.1 h₅.2) fun s₆ h₆ => ?_
      refine wp_attempt hd hj hnone (recordUpdate_step tick hd (auditPath_mem hm) h₆.1 h₆.2) fun s₇ h₇ => ?_
      obtain ⟨auxiliary, haux, hs₇⟩ := h₇
      exact ⟨rfl, committed, text, auxiliary, hpolicy, hvalid, htext, haux, hs₇⟩
  · exact wp_seq (discardPrepared_spec s₁ hj (h₁.files ▸ h)) (fun _ h => h) fun _ s₂ h₂ => h₂

theorem readDatabase_spec (s : PolicyState) (candidatePath : Bytes) (minimum : Nat) (hj : s.files journalPath = some []) :
    wp (m.readDatabase candidatePath minimum)
      (fun r s' => Same s s' ∧ s'.files = s.files ∧ (r.isSome = true → ∃ path,
        normalizePath s.currentDirectory candidatePath = some path ∧ path ≠ journalPath))
      (fun s' => s'.files = s.files) s := by
  unfold PolicyManager.readDatabase
  rw [wp_bind]
  cases hn : normalizePath s.currentDirectory candidatePath with
  | none =>
    unfold readFile
    simp only [wp_bind, wp_get, hn]
    exact ⟨.refl s, rfl, by simp⟩
  | some path =>
    refine wp_readFile_at hn (fun b s₁ hb _ h₁ => ?_) (fun s₁ h₁ _ => ⟨h₁.same, h₁.files, by simp⟩) fun _ s₁ h₁ => h₁
    refine ⟨h₁.same, h₁.files, fun hr => ⟨path, rfl, fun he => ?_⟩⟩
    rw [he, hj] at hb
    cases hb
    cases hr

theorem stage_spec (s : PolicyState) {verify : Bytes → Nat → Option (Nat × Nat)} (candidatePath : Bytes) (tick : Nat)
    (hm : m ∈ managers verify) (hj : s.files journalPath = some []) :
    wp (m.stage candidatePath tick)
      (fun r s' => (r = none → Recoverable m.descriptor s.files s'.files) ∧ (r.isSome = true → ∃ policy text auxiliary,
        m.Installs candidatePath tick s policy text auxiliary ∧
          Staged m.descriptor s.files (m.newFiles s.files policy text auxiliary) s'.files))
      (fun s' => Recoverable m.descriptor s.files s'.files) s := by
  have hd := descriptor_mem hm
  have hstay : ∀ s' : PolicyState, s'.files = s.files → Recoverable m.descriptor s.files s'.files := fun _ h => .inl h
  unfold PolicyManager.stage
  simp only [wp_bind, wp_get]
  refine wp_ite (fun _ => ⟨fun _ => hstay s rfl, by simp⟩) fun _ => ?_
  cases hnext : nextVersion (s.managers m.descriptor.domain).activeVersion with
  | none => exact ⟨fun _ => hstay s rfl, by simp⟩
  | some next =>
    dsimp only
    refine wp_seq (readDatabase_spec s candidatePath next hj) hstay fun r s₁ h₁ => ?_
    obtain ⟨hsame₁, hf₁, hread⟩ := h₁
    rcases r with _ | ⟨version, count⟩
    · exact ⟨fun _ => hstay s₁ hf₁, by simp⟩
    · obtain ⟨path, hpath, hne⟩ := hread rfl
      dsimp only
      refine wp_ite (fun _ => ⟨fun _ => hstay s₁ hf₁, by simp⟩) fun hv => ?_
      obtain rfl : version = next := not_not.mp hv
      refine wp_seq (acquire_spec s₁ hd hf₁ hj) (fun _ h => h.recoverable) fun r s₂ h₂ => ?_
      obtain ⟨hsame₂, hnear, hstaged⟩ := h₂
      cases r with
      | none =>
        simp only [wp_bind, wp_get]
        have hrec := hnear.recoverable
        exact wp_ite (fun _ => ⟨fun _ => hrec, by simp⟩) fun _ => ⟨fun _ => hrec, by simp⟩
      | some size =>
        refine wp_mono (install_spec tick version count _ hm hj (hsame₁.trans hsame₂) (hstaged rfl) hpath hne)
          (fun r s₃ h₃ => ?_) fun _ h => h
        cases r with
        | none => exact ⟨fun _ => h₃, by simp⟩
        | some n =>
          obtain ⟨rfl, policy, text, auxiliary, hpolicy, hvalid, htext, haux, hs₃⟩ := h₃
          exact ⟨by simp, fun _ => ⟨policy, text, auxiliary,
            ⟨⟨path, hpath, hpolicy⟩, ⟨n, count, hnext, hvalid, htext⟩, haux⟩, hs₃⟩⟩

end Install

/-! ### Recovery -/

/-- The machine has been started again: the files are kept, the transaction is not. -/
structure Rebooted (s t : PolicyState) : Prop where
  files : t.files = s.files
  busy : t.busy = false

/-- Any number of starts with an attempt to recover in each, whether it ended or was cut off. -/
inductive Restarts : PolicyState → PolicyState → Prop
  | refl (s : PolicyState) : Restarts s s
  | step {s t s' s'' : PolicyState} {r : Option Bool} (boot : Rebooted s t) (run : recoverPending t = (r, s'))
      (rest : Restarts s' s'') : Restarts s s''

section Recovery
variable {d : Descriptor} {f₀ : Files}

theorem recoverPending_recoverable {t t' : PolicyState} {r : Option Bool} (hd : d ∈ descriptors)
    (hj : f₀ journalPath = some []) (h : Recoverable d f₀ t.files) (hrun : recoverPending t = (r, t')) :
    Recoverable d f₀ t'.files ∧ (r = some true → t'.files = f₀) := by
  have hspec := recoverPending_spec t hd hj h
  cases r with
  | none => exact ⟨(wp_cut hspec hrun).2, by simp⟩
  | some ok =>
    obtain ⟨hrec, hdone, -⟩ := wp_ended hspec hrun
    exact ⟨hrec, fun he => hdone (Option.some.inj he)⟩

theorem Restarts.recoverable {s s' : PolicyState} (hd : d ∈ descriptors) (hj : f₀ journalPath = some [])
    (hr : Restarts s s') (h : Recoverable d f₀ s.files) : Recoverable d f₀ s'.files := by
  induction hr with
  | refl s => exact h
  | step boot run rest ih => exact ih (recoverPending_recoverable hd hj (boot.files ▸ h) run).1

theorem recoverPending_calm {t : PolicyState} (hd : d ∈ descriptors) (hj : f₀ journalPath = some [])
    (h : Recoverable d f₀ t.files) (hb : t.busy = false) (hc : t.Calm) : ∃ t', recoverPending t = (some true, t') := by
  have hspec : wp recoverPending _ (fun _ => False) t :=
    wp_mono (recoverPending_spec t hd hj h) (fun _ _ h => h) fun t' h => h.1 hc
  obtain ⟨ok, t', hrun, -, -, hok⟩ := wp_ends hspec
  obtain rfl := hok hc hb
  exact ⟨t', hrun⟩

end Recovery

/-- The commit of this run has cleared the journal: the run reached `commit` with the journal hot, and it
    left the journal empty. -/
def PolicyManager.CommitCleared (m : PolicyManager) (candidatePath : Bytes) (tick : Nat) (s s' : PolicyState) : Prop :=
  ∃ version s₁, m.stage candidatePath tick s = (some (some version), s₁) ∧ s₁.files journalPath ≠ some [] ∧
    s'.files journalPath = some []

/-- The files `f` are the new ones of the run of `update` from `s` to `s'`, whose commit has cleared the
    journal. -/
def PolicyManager.Replaced (m : PolicyManager) (candidatePath : Bytes) (tick : Nat) (s s' : PolicyState) (f : Files) : Prop :=
  ∃ policy version auxiliary, m.Installs candidatePath tick s policy version auxiliary ∧
    f = m.newFiles s.files policy version auxiliary ∧ m.CommitCleared candidatePath tick s s'

/-- A run of `update`, ended or cut off, leaves files that recovery makes the old ones, or the new ones,
    and these only when its commit has cleared the journal. -/
theorem update_leaves {m : PolicyManager} {verify : Bytes → Nat → Option (Nat × Nat)} {candidatePath : Bytes} {tick : Nat}
    {s s' : PolicyState} {r : Option Bool} (hm : m ∈ managers verify) (hj : s.files journalPath = some [])
    (hrun : m.update candidatePath tick s = (r, s')) :
    Recoverable m.descriptor s.files s'.files ∨ m.Replaced candidatePath tick s s' s'.files := by
  refine wp_left (P := fun s' => Recoverable m.descriptor s.files s'.files ∨ m.Replaced candidatePath tick s s' s'.files)
    ?_ hrun
  unfold PolicyManager.update
  refine wp_seq (wp_and (stage_spec s candidatePath tick hm hj) (wp_self _ s)) (fun _ h => .inl h.1)
    fun r₁ s₁ h₁ => ?_
  obtain ⟨⟨hnone, hsome⟩, hstage⟩ := h₁
  cases r₁ with
  | none => exact .inl (hnone rfl)
  | some version =>
    obtain ⟨policy, text, auxiliary, hinst, hstaged⟩ := hsome rfl
    have hg : m.newFiles s.files policy text auxiliary journalPath = some [] := by rw [newFiles_journalPath hm, hj]
    -- the commit leaves the journal hot or makes the new files final
    have hcommit : ∀ s₂ : PolicyState, Near m.descriptor s.files (m.newFiles s.files policy text auxiliary) s₂.files →
        Recoverable m.descriptor s.files s₂.files ∨ m.Replaced candidatePath tick s s₂ s₂.files := by
      intro s₂ h₂
      cases h₂ with
      | inl h₂ =>
        refine .inr ⟨policy, text, auxiliary, hinst, h₂, version, s₁, hstage, fun hempty => ?_, by rw [h₂, hg]⟩
        obtain ⟨journal, prepared, hjournal, -, hvalid, -⟩ := hstaged.hot.journal
        rw [hempty] at hjournal
        cases hjournal
        cases hvalid
      | inr h₂ => exact .inl (.inr h₂.hot)
    refine wp_seq (commit_spec s₁ hg hstaged) hcommit fun ok s₂ h₂ => ?_
    exact wp_ite (fun _ => hcommit s₂ h₂) fun _ => hcommit s₂ h₂

/-- Policy updates are atomic. Let `update` run from files with an empty journal, whatever the storage
    requests do and wherever the run is cut off, and let any number of recoveries be cut off after it. The
    first recovery that completes leaves an empty journal and the old files, or the new ones if the commit had
    cleared the journal; and without further faults recovery completes. -/
theorem update_atomic {m : PolicyManager} {verify : Bytes → Nat → Option (Nat × Nat)} {candidatePath : Bytes} {tick : Nat}
    {s s' s'' : PolicyState} {r : Option Bool} (hm : m ∈ managers verify) (hj : s.files journalPath = some [])
    (hrun : m.update candidatePath tick s = (r, s')) (hrestarts : Restarts s' s'') {t : PolicyState} (hboot : Rebooted s'' t) :
    (∀ t', recoverPending t = (some true, t') → t'.files journalPath = some [] ∧
      (t'.files = s.files ∨ m.Replaced candidatePath tick s s' t'.files)) ∧
    (t.Calm → ∃ t', recoverPending t = (some true, t')) := by
  have hd := descriptor_mem hm
  rcases update_leaves hm hj hrun with hrec | ⟨policy, version, auxiliary, hinst, hnew, hclear⟩
  · have ht : Recoverable m.descriptor s.files t.files := hboot.files ▸ hrestarts.recoverable hd hj hrec
    refine ⟨fun t' ht' => ?_, recoverPending_calm hd hj ht hboot.busy⟩
    have hfiles := (recoverPending_recoverable hd hj ht ht').2 rfl
    exact ⟨by rw [hfiles, hj], .inl hfiles⟩
  · -- the new files are final: to recovery they are the old files of a journal that is empty
    have hg : s'.files journalPath = some [] := by rw [hnew, newFiles_journalPath hm, hj]
    have ht : Recoverable m.descriptor s'.files t.files := hboot.files ▸ hrestarts.recoverable hd hg (.inl rfl)
    refine ⟨fun t' ht' => ?_, recoverPending_calm hd hg ht hboot.busy⟩
    have hfiles := (recoverPending_recoverable hd hg ht ht').2 rfl
    exact ⟨by rw [hfiles, hg], .inr ⟨policy, version, auxiliary, hinst, hfiles.trans hnew, hclear⟩⟩

/-- A volume with a policy of one byte in version 1 and a candidate of 320 bytes. -/
def sampleFiles : Files := fun path =>
  if path = journalPath then some []
  else if path = zgdbDescriptor.livePath then some [1]
  else if path = zgdbDescriptor.versionPath then some (ascii "1\n")
  else if path = ascii "/candidate" then some (List.replicate 320 0)
  else none

def sampleState (answers : List Answer) : PolicyState where
  store := ⟨sampleFiles, answers⟩
  currentDirectory := root
  busy := false
  recoveredDomain := .none
  rollbackData := []
  versionBackup := []
  managers := fun _ => ⟨true, 1, 1⟩
  audit := ⟨Audit.initializeEmpty, true, true⟩

/-- A manager that accepts every candidate. -/
def acceptAll : PolicyManager := zgdb fun _ minimum => some (minimum, 1)

/-- The requests of an update that is cut off when it has written the policy and the version. -/
def cutStart : PolicyState := sampleState (List.replicate 9 .passes ++ [.cut true])

def cutUpdate : Option Bool × PolicyState := acceptAll.update (ascii "/candidate") 0 cutStart

/-- The machine after it was started again with the files `f`. -/
def restarted (f : Files) : PolicyState := { sampleState [] with store := ⟨f, []⟩ }

theorem restarted_files (f : Files) : (restarted f).files = f := rfl

theorem update_atomic_cut : cutUpdate.1 = none ∧ cutUpdate.2.files zgdbDescriptor.versionPath = some (ascii "2\n") ∧
    ∃ t', recoverPending (restarted cutUpdate.2.files) = (some true, t') ∧ t'.files journalPath = some [] := by
  refine ⟨by decide +kernel, by decide +kernel, ?_⟩
  have hm : acceptAll ∈ managers fun _ minimum => some (minimum, 1) := List.mem_cons_self ..
  have hj : cutStart.files journalPath = some [] := by decide +kernel
  have hrun : acceptAll.update (ascii "/candidate") 0 cutStart = (cutUpdate.1, cutUpdate.2) :=
    (Prod.eta cutUpdate).symm
  have hboot : Rebooted cutUpdate.2 (restarted cutUpdate.2.files) := ⟨restarted_files _, rfl⟩
  have h := update_atomic hm hj hrun (.refl _) hboot
  obtain ⟨t', ht'⟩ := h.2 rfl
  exact ⟨t', ht', (h.1 t' ht').1⟩

end ZenovOS.Security
