import ZenovOS.Theorems.Security.Guard

/-! # Protected paths stay what they are

The guarded operations ask about the path they are given, so they keep every protected entry as long as
the stored path is not one whose alias is protected. `mkdir` and `touch` do not ask: they keep the
protected entries as long as they are not told to create one. `Spares` says so of one step, and in a run of
such steps no protected entry changes but the audit journal, and the journal only where the guard has
something to record. -/

namespace ZenovOS.Security
open Bytes Storage Mach Volume

/-- An operation of the shell or of a program. -/
inductive GuardedOp
  | write (path data : Bytes) (append : Bool)
  | remove (path : Bytes)
  | rename (source destination : Bytes)
  | copy (source destination : Bytes)
  | makeDirectory (path : Bytes)
  | touch (path : Bytes)
  deriving DecidableEq

def GuardedOp.run : GuardedOp → Mach GuardState FsResult
  | write path data append => guardedWriteFileResult path data append
  | remove path => guardedRemoveResult path
  | rename source destination => guardedRenameEntryResult source destination
  | copy source destination => guardedCopyFileResult source destination
  | makeDirectory path => onVolume (makeDirectoryResult path)
  | touch path => onVolume (touchResult path)

/-- `protected_path` holds of the stored path of an entry; it does not depend on the working directory. -/
def ProtectedEntry (q : Bytes) : Prop := ∃ d, protectedPath d q = true

/-- The paths of entries that an operation asks about and can change. -/
def GuardedOp.asked (currentDirectory : Bytes) : GuardedOp → List (Option Bytes)
  | write path _ _ => [normalizePath currentDirectory path]
  | remove path => [normalizePath currentDirectory path]
  | rename source destination => [normalizePath currentDirectory source, normalizePath currentDirectory destination]
  | copy _ destination => [normalizePath currentDirectory destination]
  | makeDirectory _ => []
  | touch _ => []

/-- The path of the entry that an operation creates without having asked. -/
def GuardedOp.unasked (v : Volume) : GuardedOp → Option Bytes
  | makeDirectory path => do
    let p ← normalizePath v.currentDirectory path
    if (v.findEntry p).isSome then none else some p
  | touch path => do
    let p ← normalizePath v.currentDirectory path
    if (v.findEntry p).isSome then none else normalizePath v.currentDirectory p
  | _ => none

/-- The operation goes to no protected entry that the guard lets through: none below `/data`, and none that
    is created without a question. -/
structure Spares (v : Volume) (op : GuardedOp) : Prop where
  inData : ∀ p, some p ∈ op.asked v.currentDirectory → UnderData p → ¬ProtectedEntry p
  unasked : ∀ p, op.unasked v = some p → ¬ProtectedEntry p

/-- The window after one path of a rename, which is charged only if it is protected. -/
def acceptedRenamed (s : GuardState) (window : Ransomware.MutationWindow) (normalized : Bytes) :
    Option Ransomware.MutationWindow :=
  if Ransomware.protectedOperation s.zrwp.active normalized .rename then acceptedWindow s window normalized .rename 0
  else some window

/-- The window after both paths of a rename. -/
def acceptedRename (s : GuardState) (source destination : Bytes) : Option Ransomware.MutationWindow :=
  match normalizePath s.volume.currentDirectory source, normalizePath s.volume.currentDirectory destination with
  | some source, some destination => do
    let window ← acceptedRenamed s s.zrwp.mutationWindow source
    acceptedRenamed s window destination
  | _, _ => some s.zrwp.mutationWindow

/-- The size of the file that a path names. -/
def sizeAt (s : GuardState) (input : Bytes) : Nat :=
  ((normalizePath s.volume.currentDirectory input).bind s.volume.lookup).elim 0 (·.size.toNat)

/-- The guard finds nothing in the operation that it would record. -/
def GuardedOp.Unremarkable (s : GuardState) : GuardedOp → Prop
  | write path data append =>
    (∀ p, normalizePath s.volume.currentDirectory path = some p → CleanAt s p (candidateAt s p data append)) ∧
      (acceptedWindow s s.zrwp.mutationWindow path .write data.length).isSome = true
  | remove path => (acceptedWindow s s.zrwp.mutationWindow path .remove 0).isSome = true
  | rename source destination =>
    (∀ p, normalizePath s.volume.currentDirectory destination = some p → CleanAt s p (contentAt s source)) ∧
      (acceptedRename s source destination).isSome = true
  | copy source destination =>
    (∀ p, normalizePath s.volume.currentDirectory destination = some p → CleanAt s p (contentAt s source)) ∧
      (acceptedWindow s s.zrwp.mutationWindow destination .write (sizeAt s source)).isSome = true
  | makeDirectory _ => True
  | touch _ => True

section Ops
variable {P : Bytes → Prop} {u : Volume} {s s' : GuardState}

/-- The paths that the guard lets through are not in `P`. -/
def Avoids (P : Bytes → Prop) (paths : List (Option Bytes)) : Prop :=
  ∀ p, some p ∈ paths → protectedName p = false → ¬P p

theorem acceptedWindow_congr {window : Ransomware.MutationWindow} {target : Bytes} {operation : Ransomware.Operation}
    {bytes : Nat} (h : SameGuard s s') (hz : SamePolicy s.zrwp s'.zrwp) :
    acceptedWindow s' window target operation bytes = acceptedWindow s window target operation bytes := by
  unfold acceptedWindow
  rw [h.volume.currentDirectory, h.actor, h.timerTicks, hz.1, hz.2]

theorem scanMemory_congr (h : SameGuard s s') : scanMemory s' = scanMemory s := by
  unfold scanMemory
  rw [h.volume.currentDirectory, h.classify]

theorem CleanAt.congr {normalized content : Bytes} (h : SameGuard s s') (hc : CleanAt s normalized content) :
    CleanAt s' normalized content := by
  unfold CleanAt at hc ⊢
  rwa [scanMemory_congr h]

theorem guardedWriteFileResult_kept {path data : Bytes} {append : Bool} (hk : Kept P u s.volume)
    (havoid : Avoids P [normalizePath s.volume.currentDirectory path])
    (hquiet : P Audit.journalPath → s.audit.ready = true → (GuardedOp.write path data append).Unremarkable s) :
    wp (guardedWriteFileResult path data append) (fun _ s' => Kept P u s'.volume) (fun s' => Durable P u s'.volume) s := by
  unfold guardedWriteFileResult
  refine wp_seq (askProtectedPath_passed hk) (fun _ h => h) fun isProtected s₁ h₁ => ?_
  obtain ⟨⟨log, h₁⟩, hv₁, hz₁, hask⟩ := h₁
  refine wp_ite (fun _ => h₁.kept) fun hopen => ?_
  have hclean : ∀ p, normalizePath s₁.volume.currentDirectory path = some p → P Audit.journalPath →
      s₁.audit.ready = true → CleanAt s₁ p (candidateAt s₁ p data append) := by
    intro p hp hj hr
    rw [hv₁] at hp
    have := (hquiet hj (h₁.ready hr)).1 p hp
    unfold candidateAt contentAt
    rw [hv₁]
    exact this.congr h₁.toSameGuard
  refine wp_seq (allowPersistentWrite_passed h₁.kept hclean) (fun _ h => h) fun allowed s₂ h₂ => ?_
  obtain ⟨⟨log, h₂⟩, hz₂, -⟩ := h₂
  refine wp_ite (fun _ => h₂.kept) fun _ => ?_
  have hsame := h₁.toSameGuard.trans h₂.toSameGuard
  have hz : s₂.zrwp = s.zrwp := hz₂.trans hz₁
  have haccept : P Audit.journalPath → s₂.audit.ready = true →
      (acceptedWindow s₂ s₂.zrwp.mutationWindow path .write data.length).isSome = true := by
    intro hj hr
    rw [acceptedWindow_congr hsame (hz ▸ ⟨rfl, rfl⟩), hz]
    exact (hquiet hj (hsame.ready hr)).2
  refine wp_seq (authorize_passed h₂.kept haccept) (fun _ h => h) fun authorized s₃ h₃ => ?_
  obtain ⟨⟨log, h₃⟩, -⟩ := h₃
  refine wp_ite (fun _ => h₃.kept) fun _ => ?_
  unfold onVolume
  rw [wp_zoom]
  refine wp_mono (h₃.kept.write fun p hp => ?_) (fun _ _ h => h.2) fun _ h => h
  rw [(hsame.trans h₃.toSameGuard).volume.currentDirectory] at hp
  exact havoid p (by simp [hp]) (hask (by simpa using hopen) p hp).1

theorem guardedRemoveResult_kept {path : Bytes} (hk : Kept P u s.volume)
    (havoid : Avoids P [normalizePath s.volume.currentDirectory path])
    (hquiet : P Audit.journalPath → s.audit.ready = true → (GuardedOp.remove path).Unremarkable s) :
    wp (guardedRemoveResult path) (fun _ s' => Kept P u s'.volume) (fun s' => Durable P u s'.volume) s := by
  unfold guardedRemoveResult
  refine wp_ite (fun _ => hk) fun _ => ?_
  refine wp_seq (askProtectedPath_passed hk) (fun _ h => h) fun isProtected s₁ h₁ => ?_
  obtain ⟨⟨log, h₁⟩, hv₁, hz₁, hask⟩ := h₁
  refine wp_ite (fun _ => h₁.kept) fun hopen => ?_
  have haccept : P Audit.journalPath → s₁.audit.ready = true →
      (acceptedWindow s₁ s₁.zrwp.mutationWindow path .remove 0).isSome = true := by
    intro hj hr
    rw [acceptedWindow_congr h₁.toSameGuard (hz₁ ▸ ⟨rfl, rfl⟩), hz₁]
    exact hquiet hj (h₁.ready hr)
  refine wp_seq (authorize_passed h₁.kept haccept) (fun _ h => h) fun authorized s₂ h₂ => ?_
  obtain ⟨⟨log, h₂⟩, -⟩ := h₂
  refine wp_ite (fun _ => h₂.kept) fun _ => ?_
  unfold onVolume
  rw [wp_zoom]
  refine wp_mono (h₂.kept.remove fun p hp => ?_) (fun _ _ h => h.2) fun _ h => h
  rw [(h₁.toSameGuard.trans h₂.toSameGuard).volume.currentDirectory] at hp
  exact havoid p (by simp [hp]) (hask (by simpa using hopen) p hp).1

theorem allowPersistentTransfer_passed {source destination : Bytes} (hk : Kept P u s.volume)
    (hP : ∀ p, normalizePath s.volume.currentDirectory destination = some p → P Audit.journalPath →
      s.audit.ready = true → CleanAt s p (contentAt s source)) :
    wp (allowPersistentTransfer source destination)
      (fun _ s' => (∃ log, Passed P u s log s') ∧ s'.zrwp = s.zrwp) (fun s' => Durable P u s'.volume) s := by
  unfold allowPersistentTransfer
  refine wp_seq (readFileResult_passed hk) (fun _ h => h) fun read s₁ h₁ => ?_
  obtain ⟨⟨h₁, hz₁⟩, hread⟩ := h₁
  refine wp_ite (fun _ => ⟨⟨_, h₁⟩, hz₁⟩) fun hok => ?_
  have hcontent : read.2 = contentAt s source := (hread (by simpa using hok)).1
  refine wp_mono (allowPersistentWrite_passed h₁.kept fun p hp hj hr => ?_) (fun _ s₂ h => ?_) fun _ h => h
  · rw [h₁.volume.currentDirectory] at hp
    rw [hcontent]
    exact (hP p hp hj (h₁.ready hr)).congr h₁.toSameGuard
  · obtain ⟨⟨log, h₂⟩, hz₂, -⟩ := h
    exact ⟨⟨_, h₁.trans h₂⟩, hz₂.trans hz₁⟩

theorem acceptedRenamed_congr {window : Ransomware.MutationWindow} {normalized : Bytes} (h : SameGuard s s')
    (hz : SamePolicy s.zrwp s'.zrwp) : acceptedRenamed s' window normalized = acceptedRenamed s window normalized := by
  unfold acceptedRenamed
  rw [acceptedWindow_congr h hz, hz.2]

theorem authorizeRenamed_passed {normalized : Bytes} (hk : Kept P u s.volume)
    (hP : P Audit.journalPath → s.audit.ready = true →
      (acceptedRenamed s s.zrwp.mutationWindow normalized).isSome = true) :
    wp (authorizeRenamed normalized)
      (fun _ s' => (∃ log, Passed P u s log s') ∧ SamePolicy s.zrwp s'.zrwp ∧
        ∀ window, acceptedRenamed s s.zrwp.mutationWindow normalized = some window → s'.zrwp.mutationWindow = window)
      (fun s' => Durable P u s'.volume) s := by
  unfold authorizeRenamed
  rw [wp_bind, wp_get]
  refine wp_ite (fun hprot => ?_) fun hprot => ?_
  · have haccepted : acceptedRenamed s s.zrwp.mutationWindow normalized =
        acceptedWindow s s.zrwp.mutationWindow normalized .rename 0 := if_pos hprot
    rw [haccepted] at hP ⊢
    exact wp_mono (authorize_passed hk hP) (fun _ _ h => ⟨h.1, h.2.1, h.2.2.1⟩) fun _ h => h
  · refine ⟨⟨[], Passed.refl hk⟩, ⟨rfl, rfl⟩, fun window hw => ?_⟩
    unfold acceptedRenamed at hw
    rw [if_neg hprot] at hw
    exact Option.some.inj hw

theorem authorizeRename_passed {source destination : Bytes} (hk : Kept P u s.volume)
    (hP : P Audit.journalPath → s.audit.ready = true → (acceptedRename s source destination).isSome = true) :
    wp (authorizeRename source destination) (fun _ s' => ∃ log, Passed P u s log s') (fun s' => Durable P u s'.volume) s := by
  unfold authorizeRename
  rw [wp_bind, wp_get]
  rcases hs : normalizePath s.volume.currentDirectory source with _ | normalizedSource
  · exact ⟨[], Passed.refl hk⟩
  rcases hd : normalizePath s.volume.currentDirectory destination with _ | normalizedDestination
  · exact ⟨[], Passed.refl hk⟩
  have haccepted : acceptedRename s source destination =
      (acceptedRenamed s s.zrwp.mutationWindow normalizedSource).bind fun window =>
        acceptedRenamed s window normalizedDestination := by
    unfold acceptedRename
    rw [hs, hd]
    rfl
  rw [haccepted] at hP
  dsimp only
  refine wp_seq (authorizeRenamed_passed hk fun hj hr => ?_) (fun _ h => h) fun ok s₁ h₁ => ?_
  · obtain ⟨w, hw⟩ := Option.isSome_iff_exists.mp (hP hj hr)
    obtain ⟨w', hw', -⟩ := Option.bind_eq_some_iff.mp hw
    rw [hw']
    rfl
  obtain ⟨⟨log, h₁⟩, hz, hwindow⟩ := h₁
  refine wp_ite (fun _ => ⟨_, h₁⟩) fun _ => ?_
  refine wp_mono (authorizeRenamed_passed h₁.kept fun hj hr => ?_) (fun _ s₂ h₂ => ?_) fun _ h => h
  · obtain ⟨w, hw⟩ := Option.isSome_iff_exists.mp (hP hj (h₁.ready hr))
    obtain ⟨w', hw', hw⟩ := Option.bind_eq_some_iff.mp hw
    rw [acceptedRenamed_congr h₁.toSameGuard hz, hwindow w' hw', hw]
    rfl
  · obtain ⟨⟨log', h₂⟩, -⟩ := h₂
    exact ⟨_, h₁.trans h₂⟩

theorem guardedRenameEntryResult_kept {source destination : Bytes} (hk : Kept P u s.volume)
    (havoid : Avoids P [normalizePath s.volume.currentDirectory source, normalizePath s.volume.currentDirectory destination])
    (hquiet : P Audit.journalPath → s.audit.ready = true → (GuardedOp.rename source destination).Unremarkable s) :
    wp (guardedRenameEntryResult source destination) (fun _ s' => Kept P u s'.volume)
      (fun s' => Durable P u s'.volume) s := by
  unfold guardedRenameEntryResult
  refine wp_ite (fun _ => hk) fun _ => ?_
  refine wp_seq (askProtectedPath_passed hk) (fun _ h => h) fun sourceProtected s₁ h₁ => ?_
  obtain ⟨⟨log₁, h₁⟩, hv₁, hz₁, hask₁⟩ := h₁
  refine wp_ite (fun _ => h₁.kept) fun hopen₁ => ?_
  refine wp_seq (askProtectedPath_passed h₁.kept) (fun _ h => h) fun destinationProtected s₂ h₂ => ?_
  obtain ⟨⟨log₂, h₂⟩, hv₂, hz₂, hask₂⟩ := h₂
  refine wp_ite (fun _ => h₂.kept) fun hopen₂ => ?_
  have hsame₂ := h₁.toSameGuard.trans h₂.toSameGuard
  have hcontent : contentAt s₂ source = contentAt s source := by
    unfold contentAt
    rw [hv₂, hv₁]
  have hclean : ∀ p, normalizePath s₂.volume.currentDirectory destination = some p → P Audit.journalPath →
      s₂.audit.ready = true → CleanAt s₂ p (contentAt s₂ source) := by
    intro p hp hj hr
    rw [hsame₂.volume.currentDirectory] at hp
    rw [hcontent]
    exact ((hquiet hj (hsame₂.ready hr)).1 p hp).congr hsame₂
  refine wp_seq (allowPersistentTransfer_passed h₂.kept hclean) (fun _ h => h) fun allowed s₃ h₃ => ?_
  obtain ⟨⟨log₃, h₃⟩, hz₃⟩ := h₃
  refine wp_ite (fun _ => h₃.kept) fun _ => ?_
  have hsame₃ := hsame₂.trans h₃.toSameGuard
  have hz : s₃.zrwp = s.zrwp := hz₃.trans (hz₂.trans hz₁)
  have haccept : P Audit.journalPath → s₃.audit.ready = true → (acceptedRename s₃ source destination).isSome = true := by
    intro hj hr
    have := (hquiet hj (hsame₃.ready hr)).2
    unfold acceptedRename at this ⊢
    simp only [acceptedRenamed_congr hsame₃ (hz ▸ ⟨rfl, rfl⟩), hsame₃.volume.currentDirectory, hz]
    exact this
  refine wp_seq (authorizeRename_passed h₃.kept haccept) (fun _ h => h) fun authorized s₄ h₄ => ?_
  obtain ⟨log₄, h₄⟩ := h₄
  refine wp_ite (fun _ => h₄.kept) fun _ => ?_
  have hcwd : s₄.volume.currentDirectory = s.volume.currentDirectory := (hsame₃.trans h₄.toSameGuard).volume.currentDirectory
  unfold onVolume
  rw [wp_zoom]
  refine wp_mono (h₄.kept.rename (fun p hp => ?_) fun p hp => ?_) (fun _ _ h => h.2) fun _ h => h
  · rw [hcwd] at hp
    exact havoid p (by simp [hp]) (hask₁ (by simpa using hopen₁) p hp).1
  · rw [hcwd] at hp
    rw [h₁.volume.currentDirectory] at hask₂
    exact havoid p (by simp [hp]) (hask₂ (by simpa using hopen₂) p hp).1

theorem queryResult_passed {input : Bytes} (hk : Kept P u s.volume) :
    wp (onVolume (queryResult input))
      (fun r s' => (Passed P u s [] s' ∧ s'.zrwp = s.zrwp) ∧ ∀ info, r.2 = some info → info.type = zfsTypeFile →
        s.volume.zfsMounted = true ∧ info.size.toNat = sizeAt s input)
      (fun s' => Durable P u s'.volume) s := by
  refine Passed.onVolume (Q := fun r : FsResult × Option FileInfo => ∀ info, r.2 = some info → info.type = zfsTypeFile →
    s.volume.zfsMounted = true ∧ info.size.toNat = sizeAt s input) ?_
  have hsize : wp (queryResult input) (fun r _ => ∀ info, r.2 = some info → info.type = zfsTypeFile →
      s.volume.zfsMounted = true ∧ info.size.toNat = sizeAt s input) (fun _ => True) s.volume := by
    rw [queryResult, wp_bind, wp_get]
    refine wp_ite (fun _ _ h => by cases h) fun hm => wp_ite (fun _ _ h => by cases h) fun _ => ?_
    rcases hn : normalizePath s.volume.currentDirectory input with _ | path
    · exact fun _ h => by cases h
    dsimp only
    refine wp_ite (fun _ info h htype => ?_) fun _ => ?_
    · cases h
      exact absurd htype (by decide)
    rcases hfind : s.volume.findEntry path with _ | index
    · exact fun _ h => by cases h
    dsimp only
    rw [wp_bind, wp_modify]
    refine wp_ite (fun _ _ h => by cases h) fun _ info h _ => ⟨by simpa using hm, ?_⟩
    cases h
    simp [sizeAt, hn, Volume.lookup, hfind, Volume.stateAt]
  exact wp_mono (wp_and hk.query hsize) (fun _ _ h => h) fun _ h => h.1

theorem allowPersistentTransfer_size {source destination : Bytes} (hk : Kept P u s.volume)
    (hclean : s.audit.ready = true → ∀ p, normalizePath s.volume.currentDirectory destination = some p →
      CleanAt s p (contentAt s source)) :
    wp (allowPersistentTransfer source destination)
      (fun _ s' => s'.volume.zfsMounted = true → sizeAt s' source = sizeAt s source) (fun _ => True) s := by
  rcases hm : s.volume.zfsMounted with _ | _
  · unfold allowPersistentTransfer onVolume
    rw [wp_bind, wp_zoom]
    refine wp_mono (readFileResult_idle hm) (fun r v' h => ?_) fun _ h => h.elim
    rw [if_pos (by simp [h.1]), wp_pure, h.2]
    exact fun hm' => absurd (hm.symm.trans hm') (by decide)
  · have hall : Kept (fun _ => True) s.volume s.volume := (hk.mounted hm).1.kept
    refine wp_mono (allowPersistentTransfer_passed hall fun p hp _ hr => hclean hr p hp) (fun _ s' h hm' => ?_)
      fun _ _ => trivial
    obtain ⟨⟨log, h⟩, -⟩ := h
    have hlook : s'.volume.lookup = s.volume.lookup := funext fun q => (h.kept.mounted hm').2 q trivial
    unfold sizeAt
    rw [h.volume.currentDirectory, hlook]

theorem guardedCopyFileResult_kept {source destination : Bytes} (hk : Kept P u s.volume)
    (havoid : Avoids P [normalizePath s.volume.currentDirectory destination])
    (hquiet : P Audit.journalPath → s.audit.ready = true → (GuardedOp.copy source destination).Unremarkable s) :
    wp (guardedCopyFileResult source destination) (fun _ s' => Kept P u s'.volume)
      (fun s' => Durable P u s'.volume) s := by
  unfold guardedCopyFileResult
  refine wp_ite (fun _ => hk) fun _ => ?_
  refine wp_seq (askProtectedPath_passed hk) (fun _ h => h) fun isProtected s₁ h₁ => ?_
  obtain ⟨⟨log₁, h₁⟩, hv₁, hz₁, hask⟩ := h₁
  refine wp_ite (fun _ => h₁.kept) fun hopen => ?_
  have hclean : P Audit.journalPath → s₁.audit.ready = true → ∀ p,
      normalizePath s₁.volume.currentDirectory destination = some p → CleanAt s₁ p (contentAt s₁ source) := by
    intro hj hr p hp
    have hcontent : contentAt s₁ source = contentAt s source := by
      unfold contentAt
      rw [hv₁]
    rw [h₁.volume.currentDirectory] at hp
    rw [hcontent]
    exact ((hquiet hj (h₁.ready hr)).1 p hp).congr h₁.toSameGuard
  have hsize : wp (allowPersistentTransfer source destination)
      (fun _ s' => P Audit.journalPath → s₁.audit.ready = true → s'.volume.zfsMounted = true →
        sizeAt s' source = sizeAt s₁ source) (fun _ => True) s₁ := by
    by_cases hj : P Audit.journalPath ∧ s₁.audit.ready = true
    · exact wp_mono (allowPersistentTransfer_size h₁.kept fun hr => hclean hj.1 hr) (fun _ _ h _ _ => h) fun _ h => h
    · exact wp_mono (wp_self _ _) (fun _ _ _ hP hr => absurd ⟨hP, hr⟩ hj) fun _ _ => trivial
  refine wp_seq (wp_and (allowPersistentTransfer_passed h₁.kept fun p hp hj hr => hclean hj hr p hp) hsize)
    (fun _ h => h.1) fun allowed s₂ h₂ => ?_
  obtain ⟨⟨⟨log₂, h₂⟩, hz₂⟩, hsize⟩ := h₂
  refine wp_ite (fun _ => h₂.kept) fun _ => ?_
  refine wp_seq (queryResult_passed h₂.kept) (fun _ h => h) fun queried s₃ h₃ => ?_
  obtain ⟨⟨h₃, hz₃⟩, hinfo⟩ := h₃
  rcases hq : queried.2 with _ | info
  · exact h₃.kept
  dsimp only
  refine wp_ite (fun _ => h₃.kept) fun htype => ?_
  have hsame₃ := (h₁.toSameGuard.trans h₂.toSameGuard).trans h₃.toSameGuard
  have hz : s₃.zrwp = s.zrwp := hz₃.trans (hz₂.trans hz₁)
  have haccept : P Audit.journalPath → s₃.audit.ready = true →
      (acceptedWindow s₃ s₃.zrwp.mutationWindow destination .write info.size.toNat).isSome = true := by
    intro hj hr
    obtain ⟨hm, hbytes⟩ := hinfo info hq (of_not_not htype)
    have hsource : sizeAt s₁ source = sizeAt s source := by
      unfold sizeAt
      rw [hv₁]
    rw [acceptedWindow_congr hsame₃ (hz ▸ ⟨rfl, rfl⟩), hz, hbytes,
      hsize hj (h₂.ready (h₃.ready hr)) hm, hsource]
    exact (hquiet hj (hsame₃.ready hr)).2
  refine wp_seq (authorize_passed h₃.kept haccept) (fun _ h => h) fun authorized s₄ h₄ => ?_
  obtain ⟨⟨log₄, h₄⟩, -⟩ := h₄
  refine wp_ite (fun _ => h₄.kept) fun _ => ?_
  unfold onVolume
  rw [wp_zoom]
  refine wp_mono (h₄.kept.copy fun p hp => ?_) (fun _ _ h => h.2) fun _ h => h
  rw [(hsame₃.trans h₄.toSameGuard).volume.currentDirectory] at hp
  exact havoid p (by simp [hp]) (hask (by simpa using hopen) p hp).1

/-- **One operation.** It keeps the paths in `P` when those it goes to are not in `P`. -/
theorem GuardedOp.run_kept {op : GuardedOp} (hk : Kept P u s.volume) (havoid : Avoids P (op.asked s.volume.currentDirectory))
    (hunasked : ∀ p, op.unasked s.volume = some p → ¬P p)
    (hquiet : P Audit.journalPath → s.audit.ready = true → op.Unremarkable s) :
    wp op.run (fun _ s' => Kept P u s'.volume) (fun s' => Durable P u s'.volume) s := by
  cases op with
  | write path data append => exact guardedWriteFileResult_kept hk havoid hquiet
  | remove path => exact guardedRemoveResult_kept hk havoid hquiet
  | rename source destination => exact guardedRenameEntryResult_kept hk havoid hquiet
  | copy source destination => exact guardedCopyFileResult_kept hk havoid hquiet
  | makeDirectory path =>
    unfold run onVolume
    rw [wp_zoom]
    refine wp_mono (hk.makeDirectory fun p hp hfind => hunasked p ?_) (fun _ _ h => h.2) fun _ h => h
    simp [unasked, hp, hfind]
  | touch path =>
    unfold run onVolume
    rw [wp_zoom]
    refine wp_mono (hk.touch fun p again hp hfind hagain => hunasked again ?_) (fun _ _ h => h.2) fun _ h => h
    simp [unasked, hp, hfind, hagain]

end Ops

/-! ### Runs -/

/-- Runs of operations that meet `M`. Each finds the volume as the one before it left it, in any working
    directory and with any state of the guard; a power cut ends with a completed remount, and there may be one
    at any other time. -/
inductive GuardRun (M : GuardState → GuardedOp → Prop) (u : Volume) : Volume → Prop
  | start : GuardRun M u u
  | step {v : Volume} {s s' : GuardState} {op : GuardedOp} {r : FsResult} (d : Bytes) (os : List Storage.Outcome)
      (run : GuardRun M u v) (volume : s.volume = v.enter d os) (meets : M s op) (step : op.run s = (some r, s')) :
      GuardRun M u s'.volume
  | cut {v w : Volume} {s s' : GuardState} {op : GuardedOp} (d : Bytes) (os : List Storage.Outcome) (run : GuardRun M u v)
      (volume : s.volume = v.enter d os) (meets : M s op) (step : op.run s = (none, s'))
      (remounted : Remounted s'.volume w) : GuardRun M u w.activate
  | remount {v w : Volume} (run : GuardRun M u v) (remounted : Remounted v w) : GuardRun M u w.activate

theorem asked_normal {d p : Bytes} {op : GuardedOp} (h : some p ∈ op.asked d) : ∃ input, normalizePath d input = some p := by
  cases op with
  | write path data append =>
    simp only [GuardedOp.asked, List.mem_singleton] at h
    exact ⟨path, h.symm⟩
  | remove path =>
    simp only [GuardedOp.asked, List.mem_singleton] at h
    exact ⟨path, h.symm⟩
  | rename source destination =>
    simp only [GuardedOp.asked, List.mem_cons, List.not_mem_nil, or_false] at h
    rcases h with h | h
    · exact ⟨source, h.symm⟩
    · exact ⟨destination, h.symm⟩
  | copy source destination =>
    simp only [GuardedOp.asked, List.mem_singleton] at h
    exact ⟨destination, h.symm⟩
  | makeDirectory path => cases h
  | touch path => cases h

theorem not_protectedEntry {d input p : Bytes} (h : normalizePath d input = some p) (hd : ¬UnderData p)
    (hp : protectedName p = false) : ¬ProtectedEntry p := by
  intro ⟨d', hq⟩
  unfold protectedPath at hq
  obtain ⟨again, hagain, hname⟩ := (Option.any_eq_true ..).mp hq
  rw [normalizePath_again h hd d' again hagain, hp] at hname
  cases hname

theorem Spares.avoids {v : Volume} {op : GuardedOp} {P : Bytes → Prop} (h : Spares v op) (hP : ∀ q, P q → ProtectedEntry q) :
    Avoids P (op.asked v.currentDirectory) := by
  intro p hp hname hq
  by_cases hd : UnderData p
  · exact h.inData p hp hd (hP p hq)
  · obtain ⟨input, hn⟩ := asked_normal hp
    exact not_protectedEntry hn hd hname (hP p hq)

theorem GuardRun.kept {M : GuardState → GuardedOp → Prop} {P : Bytes → Prop} {u v : Volume}
    (hP : ∀ q, P q → ProtectedEntry q)
    (hM : ∀ s op, M s op → Spares s.volume op ∧ (P Audit.journalPath → s.audit.ready = true → op.Unremarkable s))
    (hu : u.Ready) (h : GuardRun M u v) : Kept P u v := by
  have hop : ∀ {v : Volume} {s : GuardState} {op : GuardedOp} {d : Bytes} {os : List Storage.Outcome}, Kept P u v →
      s.volume = v.enter d os → M s op →
      wp op.run (fun _ s' => Kept P u s'.volume) (fun s' => Durable P u s'.volume) s := by
    intro v s op d os hk hv hm
    obtain ⟨hspares, hquiet⟩ := hM s op hm
    exact GuardedOp.run_kept (hv ▸ hk.enter d os) (hspares.avoids hP) (fun p hp hq => hspares.unasked p hp (hP p hq)) hquiet
  induction h with
  | start => exact hu.kept
  | step d os _ volume meets step ih =>
    have hkept := wp_ended (hop ih volume meets) step
    exact hkept
  | cut d os _ volume meets step remounted ih =>
    have hdurable := wp_cut (hop ih volume meets) step
    exact Kept.remounted hdurable remounted
  | remount _ remounted ih => exact Kept.remounted ih.durable remounted

/-- What `q` names in `v`, and what a remount of `v` finds, is what it named in `u`. -/
structure Unchanged (u v : Volume) (q : Bytes) : Prop where
  mounted : v.zfsMounted = true → v.lookup q = u.lookup q
  durable : ∀ w, Remounted v w → w.lookup q = u.lookup q

theorem Kept.unchanged {P : Bytes → Prop} {u v : Volume} {q : Bytes} (h : Kept P u v) (hq : P q) : Unchanged u v q :=
  ⟨fun hm => (h.mounted hm).2 q hq, fun w hw => (h.durable w hw).2 q hq⟩

/-- **Protected entries stay.** In a run whose operations go to no protected entry below `/data`, and create
    none by `mkdir` or `touch`, no protected entry is created, changed or removed, the audit journal aside; nor
    is the journal, if moreover the guard has nothing to record. -/
theorem guardRun_protected {u : Volume} (hu : u.Ready) :
    (∀ v, GuardRun (fun s op => Spares s.volume op) u v →
      ∀ q, ProtectedEntry q → q ≠ Audit.journalPath → Unchanged u v q) ∧
      ∀ v, GuardRun (fun s op => Spares s.volume op ∧ (s.audit.ready = true → op.Unremarkable s)) u v →
        ∀ q, ProtectedEntry q → Unchanged u v q := by
  refine ⟨fun v h q hq hj => ?_, fun v h q hq => ?_⟩
  · have hk : Kept (fun q => ProtectedEntry q ∧ q ≠ Audit.journalPath) u v :=
      h.kept (fun _ h => h.1) (fun s op hm => ⟨hm, fun hj => absurd rfl hj.2⟩) hu
    exact Kept.unchanged hk ⟨hq, hj⟩
  · have hk : Kept ProtectedEntry u v := h.kept (fun _ h => h) (fun s op hm => ⟨hm.1, fun _ => hm.2⟩) hu
    exact Kept.unchanged hk hq

/-- After a write of `/a` into a fresh volume there is still no `/quarantine`. -/
theorem guardRun_protected_write :
    ∃ v, GuardRun (fun s op => Spares s.volume op ∧ (s.audit.ready = true → op.Unremarkable s)) (fresh []) v ∧
      Unchanged (fresh []) v (ascii "/quarantine") := by
  have hp : normalizePath root (ascii "/a") = some (ascii "/a") := by decide
  have hspares : Spares freshGuard.volume (.write (ascii "/a") [1, 2] false) := by
    refine ⟨fun p hmem hd => ?_, fun p h => by cases h⟩
    obtain rfl : p = ascii "/a" := by
      have hmem : some p ∈ [normalizePath root (ascii "/a")] := hmem
      simpa [hp] using hmem
    exact absurd hd (by decide)
  have hquiet : (GuardedOp.write (ascii "/a") [1, 2] false).Unremarkable freshGuard := by
    refine ⟨fun p h => ?_, by decide⟩
    obtain rfl : ascii "/a" = p := Option.some.inj (hp.symm.trans h)
    exact ⟨by decide +kernel, by decide +kernel⟩
  have hends : (guardedWriteFileResult (ascii "/a") [1, 2] false freshGuard).1.isSome = true := by decide +kernel
  rcases hrun : guardedWriteFileResult (ascii "/a") [1, 2] false freshGuard with ⟨r, s'⟩
  rw [hrun] at hends
  obtain ⟨r, rfl⟩ := Option.isSome_iff_exists.mp hends
  have hstep : GuardRun (fun s op => Spares s.volume op ∧ (s.audit.ready = true → op.Unremarkable s)) (fresh []) s'.volume :=
    .step root [] .start rfl ⟨hspares, fun _ => hquiet⟩ hrun
  exact ⟨s'.volume, hstep, (guardRun_protected (fresh_ready [])).2 _ hstep _ ⟨root, by decide⟩⟩

/-- `mkdir` creates the protected directory `/quarantine`. -/
theorem guardRun_makeDirectory_protected :
    ∃ v, GuardRun (fun _ _ => True) (fresh []) v ∧ v.zfsMounted = true ∧ ProtectedEntry (ascii "/quarantine") ∧
      (fresh []).lookup (ascii "/quarantine") = none ∧ (v.lookup (ascii "/quarantine")).isSome = true := by
  have hends : (makeDirectoryResult (ascii "/quarantine") (fresh [])).1.isSome = true := by decide +kernel
  have hmounted : (makeDirectoryResult (ascii "/quarantine") (fresh [])).2.zfsMounted = true := by decide +kernel
  have hlookup : ((makeDirectoryResult (ascii "/quarantine") (fresh [])).2.findEntry (ascii "/quarantine")).isSome = true := by
    decide +kernel
  rcases hrun : makeDirectoryResult (ascii "/quarantine") (fresh []) with ⟨r, v'⟩
  rw [hrun] at hends hmounted hlookup
  obtain ⟨r, rfl⟩ := Option.isSome_iff_exists.mp hends
  have hstep : (GuardedOp.makeDirectory (ascii "/quarantine")).run freshGuard = (some r, { freshGuard with volume := v' }) := by
    show ((makeDirectoryResult (ascii "/quarantine") (fresh [])).1,
      ({ freshGuard with volume := (makeDirectoryResult (ascii "/quarantine") (fresh [])).2 } : GuardState)) = _
    rw [hrun]
  refine ⟨v', .step root [] .start rfl trivial hstep, hmounted, ⟨root, by decide⟩, by decide +kernel, ?_⟩
  rwa [Volume.lookup, Option.isSome_map]

end ZenovOS.Security
