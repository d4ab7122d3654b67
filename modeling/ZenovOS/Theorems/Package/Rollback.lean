import ZenovOS.Theorems.Package.Repository

/-! # The accepted versions over boots

The versions of a candidate are compared with a copy of the state file in memory. As long as that copy is what
the file holds, the file never goes back. A commit that fails can part the two: the volume then is gone until
the next boot, unless it was the sync that was turned down. -/

namespace ZenovOS.Package.Repository
open Bytes Storage Security Mach

variable {g g' : Globals} {next : State} {C : Globals → Prop}

/-! ### The state file -/

theorem State.length_encode (state : State) : state.encode.length = stateSize := by
  simp [State.encode, State.covered]

theorem State.decode_encode (state : State) : State.decode state.encode = state := by
  have hlen := state.magic.length_eq
  have hmagic : slice state.encode 0 8 = state.magic.bytes :=
    slice_field [] _ rfl hlen (by simp only [State.encode, State.covered, List.append_assoc]; rfl)
  have hroot : slice state.encode 8 4 = le 4 state.root.toNat :=
    slice_field state.magic.bytes _ hlen (by simp) (by simp only [State.encode, State.covered, List.append_assoc]; rfl)
  have htargets : slice state.encode 12 4 = le 4 state.targets.toNat :=
    slice_field (state.magic.bytes ++ le 4 state.root.toNat) _ (by simp [hlen]) (by simp)
      (by simp only [State.encode, State.covered, List.append_assoc]; rfl)
  have hdelegated : slice state.encode 16 4 = le 4 state.delegated.toNat :=
    slice_field (state.magic.bytes ++ le 4 state.root.toNat ++ le 4 state.targets.toNat) _ (by simp [hlen]) (by simp)
      (by simp only [State.encode, State.covered, List.append_assoc]; rfl)
  have hsnapshot : slice state.encode 20 4 = le 4 state.snapshot.toNat :=
    slice_field (state.magic.bytes ++ le 4 state.root.toNat ++ le 4 state.targets.toNat ++ le 4 state.delegated.toNat) _
      (by simp [hlen]) (by simp) (by simp only [State.encode, State.covered, List.append_assoc]; rfl)
  have htimestamp : slice state.encode 24 4 = le 4 state.timestamp.toNat :=
    slice_field (state.magic.bytes ++ le 4 state.root.toNat ++ le 4 state.targets.toNat ++ le 4 state.delegated.toNat ++
      le 4 state.snapshot.toNat) _ (by simp [hlen]) (by simp)
      (by simp only [State.encode, State.covered, List.append_assoc]; rfl)
  have hchecksum : slice state.encode 28 4 = le 4 state.checksum.toNat :=
    slice_field state.covered (le 4 state.checksum.toNat) (by simp [State.covered, hlen]) (by simp)
      (by rw [List.append_nil]; rfl)
  unfold State.decode
  rw [hmagic, hroot, htargets, hdelegated, hsnapshot, htimestamp, hchecksum, Block.of_bytes]
  simp only [ofNat_toNat_le32]

@[simp] theorem State.sealed_sealed (state : State) : state.sealed.sealed = state.sealed := rfl

theorem stateValid_sealed (hmagic : next.magic.bytes = stateMagic) : stateValid next.sealed = true := by
  unfold stateValid
  rw [Bool.and_eq_true, decide_eq_true_eq, decide_eq_true_eq]
  exact ⟨hmagic, rfl⟩

/-- The state that a file holds, if it is in order. -/
def State.read (data : Bytes) : Option State :=
  if data.length = stateSize ∧ stateValid (State.decode data) = true then some (State.decode data) else none

/-- The state in the state file. -/
def stored (d : Disk) : Option State := (d.files statePath).bind State.read

theorem State.read_encode (hmagic : next.magic.bytes = stateMagic) : State.read next.sealed.encode = some next.sealed := by
  unfold State.read
  rw [State.decode_encode, if_pos ⟨State.length_encode _, stateValid_sealed hmagic⟩]

theorem content_statePath (d : Disk) : d.content statePath = d.files statePath :=
  d.content_absolute rfl (by decide +kernel)

theorem normalizePath_statePath (d : Disk) : normalizePath d.currentDirectory statePath = some statePath := by
  rw [normalizePath_absolute _ rfl]
  decide +kernel

theorem stored_congr {d d' : Disk} (h : d'.files = d.files) : stored d' = stored d := by
  unfold stored
  rw [h]

theorem stored_update {d d' : Disk} (hmagic : next.magic.bytes = stateMagic)
    (h : d'.files = Function.update d.files statePath (some next.sealed.encode)) : stored d' = some next.sealed := by
  unfold stored
  rw [h, Function.update_self, Option.bind_some, State.read_encode hmagic]

/-! ### Versions -/

/-- No version of `a` is above that of `b`. -/
structure State.AtMost (a b : State) : Prop where
  root : a.root ≤ b.root
  targets : a.targets ≤ b.targets
  delegated : a.delegated ≤ b.delegated
  snapshot : a.snapshot ≤ b.snapshot
  timestamp : a.timestamp ≤ b.timestamp

theorem State.AtMost.refl (a : State) : a.AtMost a :=
  ⟨UInt32.le_refl _, UInt32.le_refl _, UInt32.le_refl _, UInt32.le_refl _, UInt32.le_refl _⟩

theorem State.AtMost.trans {a b c : State} (h : a.AtMost b) (h' : b.AtMost c) : a.AtMost c where
  root := UInt32.le_trans h.root h'.root
  targets := UInt32.le_trans h.targets h'.targets
  delegated := UInt32.le_trans h.delegated h'.delegated
  snapshot := UInt32.le_trans h.snapshot h'.snapshot
  timestamp := UInt32.le_trans h.timestamp h'.timestamp

/-- A state without a root version has no versions at all. -/
def State.Proper (a : State) : Prop :=
  a.root = 0 → a.targets = 0 ∧ a.delegated = 0 ∧ a.snapshot = 0 ∧ a.timestamp = 0

theorem State.Proper.atMost {a : State} (h : a.Proper) (hroot : a.root = 0) (b : State) : a.AtMost b := by
  obtain ⟨ht, hd, hs, hm⟩ := h hroot
  have hzero : ∀ x : UInt32, 0 ≤ x := fun x => UInt32.le_iff_toNat_le.mpr (Nat.zero_le _)
  exact ⟨hroot ▸ hzero _, ht ▸ hzero _, hd ▸ hzero _, hs ▸ hzero _, hm ▸ hzero _⟩

theorem toNat_slice_lt (b : Bytes) (offset : Nat) : toNat (slice b offset 4) < 2 ^ 32 := by
  have hlen : (slice b offset 4).length ≤ 4 := List.length_take_le _ _
  have hlt := toNat_lt (slice b offset 4)
  have hpow : 256 ^ (slice b offset 4).length ≤ 256 ^ 4 := Nat.pow_le_pow_right (by decide) hlen
  omega

theorem le_ofNat {x : UInt32} {n : Nat} (hn : n < 2 ^ 32) (h : x.toNat ≤ n) : x ≤ UInt32.ofNat n := by
  rw [UInt32.le_iff_toNat_le, UInt32.toNat_ofNat_of_lt' hn]
  exact h

variable {verify : Bytes → Bytes → Bytes → Bool} {bootstrapRootModulus : Bytes}

theorem Documents.NotBelow.atMost {D : Documents} {old new : RootTrust} {output : List Target} {a : State}
    (hc : Chained verify bootstrapRootModulus D old new output) (ha : a.Proper) (h : D.NotBelow new a) :
    a.AtMost (D.state new) := by
  unfold NotBelow enforceRollback at h
  simp only [Bool.or_eq_true, Bool.and_eq_true, decide_eq_true_eq] at h
  rcases h with hroot | ⟨⟨⟨⟨hr, ht⟩, hd⟩, hs⟩, hm⟩
  · exact ha.atMost hroot _
  · have hversion : new.version < 2 ^ 32 := by
      rw [version_of_parseRoot hc.roots.newParsed]
      exact toNat_slice_lt _ _
    exact ⟨le_ofNat hversion hr, le_ofNat (toNat_slice_lt _ _) ht, le_ofNat (toNat_slice_lt _ _) hd,
      le_ofNat (toNat_slice_lt _ _) hs, le_ofNat (toNat_slice_lt _ _) hm⟩

theorem Documents.sealed_state (D : Documents) (new : RootTrust) : (D.state new).sealed = D.state new :=
  State.sealed_sealed _

theorem bytes_stateMagic : (Block.of stateMagic : Block 8).bytes = stateMagic := by decide

theorem Chained.proper {D : Documents} {old new : RootTrust} {output : List Target}
    (hc : Chained verify bootstrapRootModulus D old new output) : (D.state new).Proper := by
  intro hroot
  have hversion : new.version = 2 := by
    have hnew := version_of_parseRoot hc.roots.newParsed
    have hstep := hc.roots.version
    have hold := version_of_parseRoot hc.roots.oldParsed
    have hfirst := hc.roots.bootstrapVersion
    omega
  have hstate : (D.state new).root = UInt32.ofNat new.version := rfl
  rw [hstate, hversion] at hroot
  cases hroot

/-! ### Commits -/

/-- What an attempt to record `next` leaves: the state file is as it was or holds `next`. -/
structure Attempts (g g' : Globals) (next : State) : Prop where
  file : stored g'.disk = stored g.disk ∨ (g.disk.mounted = true ∧ stored g'.disk = some next.sealed)
  activeTargets : g'.activeTargets = g.activeTargets
  mounted : g'.disk.mounted = true → g.disk.mounted = true

theorem wp_persistState {Q : Bool → Globals → Prop} (hmagic : next.magic.bytes = stateMagic)
    (hdone : ∀ g', Attempts g g' next → g'.persistentState = next.sealed → stored g'.disk = some next.sealed → Q true g')
    (hfail : ∀ g', Attempts g g' next → g'.persistentState = g.persistentState →
      (g'.disk.mounted = true → stored g'.disk = stored g.disk ∨ g.disk.drive.generation = lastGeneration) → Q false g')
    (hcut : ∀ g', Attempts g g' next → C g') : wp (persistState next) Q C g := by
  have hstored : ∀ d', d'.files = Function.update g.disk.files statePath (some next.sealed.encode) →
      stored d' = some next.sealed := fun _ => stored_update hmagic
  unfold persistState
  dsimp only
  rw [wp_bind]
  unfold onDisk
  rw [wp_zoom]
  refine wp_packageWriteFile (normalizePath_statePath _) ⟨fun hm d₁ h₁ => ?_, fun hm d₁ h₁ hlost => ?_, fun d₁ h₁ => ?_,
    fun hm d₁ h₁ => ?_, fun d₁ h₁ => ?_⟩
  · -- The write is reported as done; the volume may be gone all the same.
    rw [Bool.not_true, if_neg Bool.false_ne_true, wp_bind, wp_zoom]
    refine wp_syncMetadata (fun d₂ hfiles hdir hcap _ hm₂ _ => ?_) (fun d₂ h₂ hgeneration => ?_) fun d₂ h₂ => ?_
    · rw [Bool.not_true, if_neg Bool.false_ne_true, wp_bind, wp_zoom]
      have hfiles₂ : d₂.files = Function.update g.disk.files statePath (some next.sealed.encode) := hfiles.trans h₁.files
      have hcontent : d₂.content statePath = some next.sealed.encode := by
        rw [content_statePath, hfiles₂, Function.update_self]
      have hstored₂ := hstored d₂ hfiles₂
      refine wp_readFile (fun data d₃ hdata _ h₃ => ?_) (fun d₃ h₃ hno => ?_) fun d₃ h₃ => ?_
      · obtain rfl : data = next.sealed.encode := Option.some.inj (hdata.symm.trans hcontent)
        dsimp only
        rw [State.decode_encode, if_neg (by
          rw [State.length_encode, stateValid_sealed hmagic]
          simp), wp_bind, wp_modify, wp_pure]
        have hstored₃ : stored d₃ = some next.sealed := (stored_congr h₃.files).trans hstored₂
        exact hdone _ ⟨.inr ⟨hm, hstored₃⟩, rfl, fun _ => hm⟩ rfl hstored₃
      · have hstored₃ : stored d₃ = some next.sealed := (stored_congr h₃.files).trans hstored₂
        refine hfail _ ⟨.inr ⟨hm, hstored₃⟩, rfl, fun _ => hm⟩ rfl fun hm₃ => ?_
        have hlong := hno hm₃ _ hcontent
        rw [State.length_encode] at hlong
        exact absurd hlong (Nat.lt_irrefl _)
      · exact hcut _ ⟨.inr ⟨hm, (stored_congr h₃.files).trans hstored₂⟩, rfl, fun _ => hm⟩
    · refine hfail _ ⟨.inr ⟨hm, hstored _ (h₂.files.trans h₁.files)⟩, rfl, fun _ => hm⟩ rfl fun hm₂ => .inr ?_
      exact h₁.generation.symm.trans (hgeneration hm₂)
    · exact hcut _ ⟨.inr ⟨hm, hstored _ (h₂.files.trans h₁.files)⟩, rfl, fun _ => hm⟩
  · exact hfail _ ⟨.inr ⟨hm, hstored _ h₁.files⟩, rfl, fun _ => hm⟩ rfl fun hm₁ => absurd (hm₁.symm.trans hlost) (by decide)
  · exact hfail _ ⟨.inl (stored_congr h₁.files), rfl, h₁.mounted⟩ rfl fun _ => .inl (stored_congr h₁.files)
  · exact hcut _ ⟨.inr ⟨hm, hstored _ h₁.files⟩, rfl, fun _ => hm⟩
  · exact hcut _ ⟨.inl (stored_congr h₁.files), rfl, h₁.mounted⟩

/-- The copy in memory is what the file of a mounted volume holds. -/
def Synced (g : Globals) : Prop := g.disk.mounted = true → stored g.disk = some g.persistentState

/-- What is in the state file is proper. -/
def ProperDisk (d : Disk) : Prop := ∀ a, stored d = some a → a.Proper

/-- The state file has not gone back. -/
def NeverLower (d d' : Disk) : Prop := ∀ a, stored d = some a → ∃ b, stored d' = some b ∧ a.AtMost b

theorem NeverLower.refl (d : Disk) : NeverLower d d := fun a ha => ⟨a, ha, State.AtMost.refl a⟩

theorem NeverLower.trans {d d' d'' : Disk} (h : NeverLower d d') (h' : NeverLower d' d'') : NeverLower d d'' := by
  intro a ha
  obtain ⟨b, hb, hab⟩ := h a ha
  obtain ⟨c, hc, hbc⟩ := h' b hb
  exact ⟨c, hc, hab.trans hbc⟩

theorem NeverLower.of_eq {d d' : Disk} (h : stored d' = stored d) : NeverLower d d' :=
  fun a ha => ⟨a, h.trans ha, State.AtMost.refl a⟩

/-- A step that keeps the state file in order. -/
structure Advances (d d' : Disk) : Prop where
  proper : ProperDisk d'
  never : NeverLower d d'

theorem Advances.of_eq {d d' : Disk} (hp : ProperDisk d) (h : stored d' = stored d) : Advances d d' where
  proper a ha := hp a (h.symm.trans ha)
  never := NeverLower.of_eq h

theorem Attempts.advances (h : Attempts g g' next) (hp : ProperDisk g.disk) (hproper : next.sealed.Proper)
    (hnever : g.disk.mounted = true → ∀ a, stored g.disk = some a → a.AtMost next.sealed) : Advances g.disk g'.disk := by
  rcases h.file with hs | ⟨hm, hs⟩
  · exact Advances.of_eq hp hs
  · refine ⟨fun a ha => ?_, fun a ha => ⟨next.sealed, hs, hnever hm a ha⟩⟩
    rw [hs] at ha
    cases ha
    exact hproper

theorem Reads.stored (h : Reads g g') : stored g'.disk = stored g.disk := stored_congr h.disk.files

theorem Reads.synced (h : Reads g g') (hs : Synced g) : Synced g' := by
  intro hm
  rw [h.stored, h.persistentState]
  exact hs (h.disk.mounted hm)

theorem wp_refresh {Q : Bool → Globals → Prop} (hs : Synced g) (hp : ProperDisk g.disk)
    (hdone : ∀ g', Advances g.disk g'.disk → Synced g' → Q true g')
    (hfail : ∀ g', Advances g.disk g'.disk → g'.activeTargets = g.activeTargets →
      ((g.disk.mounted = true → g.disk.drive.generation ≠ lastGeneration) → Synced g') → Q false g')
    (hcut : ∀ g', Advances g.disk g'.disk → C g') : wp (refresh verify bootstrapRootModulus) Q C g := by
  unfold refresh verifyCandidate
  rw [wp_bind, wp_bind]
  have hreads : ∀ g', Reads g g' → Advances g.disk g'.disk := fun g' h => Advances.of_eq hp h.stored
  have hverify : wpExcept (verifyRepository verify bootstrapRootModulus)
      (fun r g' => ∃ D old new, Chained verify bootstrapRootModulus D old new r.1 ∧ D.NotBelow new g.persistentState ∧
        r.2 = D.state new ∧ Reads g g')
      (fun _ g' => Reads g g') (fun g' => Reads g g') g :=
    wp_verifyRepository (fun D old new _ _ _ _ hc hbelow h => ⟨D, old, new, hc, hbelow, rfl, h⟩) (fun _ _ h => h) fun _ h => h
  refine wp_mono hverify (fun r g₁ hr => ?_) fun g₁ h => hcut g₁ (hreads g₁ h)
  cases r with
  | error validation =>
    exact hfail g₁ (hreads g₁ hr) hr.activeTargets fun _ => Reads.synced hr hs
  | ok r =>
    obtain ⟨output, next⟩ := r
    obtain ⟨D, old, new, hc, hbelow, hnext, h₁⟩ := hr
    obtain rfl : next = D.state new := hnext
    dsimp only
    rw [if_pos rfl, wp_bind]
    have hadvances : ∀ g', Attempts g₁ g' (D.state new) → Advances g.disk g'.disk := by
      intro g' h
      have hnever : g₁.disk.mounted = true → ∀ a, stored g₁.disk = some a → a.AtMost (D.state new) := by
        intro hm a ha
        rw [h₁.stored, hs (h₁.disk.mounted hm)] at ha
        cases ha
        exact hbelow.atMost hc (hp _ (hs (h₁.disk.mounted hm)))
      have hstep := Attempts.advances h (hreads g₁ h₁).proper
      rw [D.sealed_state new] at hstep
      replace hstep := hstep hc.proper hnever
      exact ⟨hstep.proper, (hreads g₁ h₁).never.trans hstep.never⟩
    refine wp_persistState bytes_stateMagic (fun g₂ h₂ hmemory hfile => ?_) (fun g₂ h₂ hmemory hfile => ?_) fun g₂ h₂ =>
      hcut g₂ (hadvances g₂ h₂)
    · rw [if_pos rfl, wp_pure, wp_bind, wp_modify, wp_pure]
      refine hdone _ (hadvances g₂ h₂) fun _ => ?_
      rw [hfile, hmemory]
    · refine hfail g₂ (hadvances g₂ h₂) (h₂.activeTargets.trans h₁.activeTargets) fun hgeneration hm₂ => ?_
      have hm : g.disk.mounted = true := h₁.disk.mounted (h₂.mounted hm₂)
      rcases hfile hm₂ with hsame | hlast
      · rw [hsame, hmemory, h₁.persistentState, h₁.stored]
        exact hs hm
      · exact absurd (h₁.disk.generation.symm.trans hlast) (hgeneration hm)

theorem wp_loadState {Q : Bool → Globals → Prop} (hp : ProperDisk g.disk)
    (hdone : ∀ g', Advances g.disk g'.disk → Synced g' → Q true g') (hfail : ∀ g', Advances g.disk g'.disk → Q false g')
    (hcut : ∀ g', Advances g.disk g'.disk → C g') : wp loadState Q C g := by
  unfold loadState
  rw [wp_bind, wp_get]
  have hquery : g.disk.query statePath = if g.disk.mounted then g.disk.files statePath else none := by
    unfold Disk.query
    rw [normalizePath_statePath]
    rfl
  cases hq : g.disk.query statePath with
  | none =>
    have hnone : g.disk.mounted = true → stored g.disk = none := by
      intro hm
      rw [hquery, if_pos hm] at hq
      unfold stored
      rw [hq]
      rfl
    have hadvances : ∀ g', Attempts g g' stateInitialize → Advances g.disk g'.disk := fun g' h =>
      h.advances hp (fun _ => ⟨rfl, rfl, rfl, rfl⟩) fun hm a ha => by
        rw [hnone hm] at ha
        cases ha
    refine wp_persistState bytes_stateMagic (fun g' h hmemory hfile => ?_) (fun g' h _ _ => hfail g' (hadvances g' h)) fun g' h =>
      hcut g' (hadvances g' h)
    refine hdone g' (hadvances g' h) fun _ => ?_
    rw [hfile, hmemory]
  | some info =>
    dsimp only
    have hcontent : g.disk.files statePath = some info := by
      rw [hquery] at hq
      split at hq
      · exact hq
      · cases hq
    refine wp_ite (fun _ => hfail g (Advances.of_eq hp rfl)) fun hlen => ?_
    rw [wp_bind]
    unfold onDisk
    rw [wp_zoom]
    refine wp_readFile (fun data d' hdata _ h' => ?_) (fun d' h' _ => hfail _ (Advances.of_eq hp (stored_congr h'.files)))
      fun d' h' => hcut _ (Advances.of_eq hp (stored_congr h'.files))
    rw [content_statePath, hcontent] at hdata
    cases hdata
    dsimp only
    rw [wp_bind, wp_modify, wp_pure]
    have hadvances : Advances g.disk d' := Advances.of_eq hp (stored_congr h'.files)
    cases hv : decide (info.length = stateSize) && stateValid (State.decode info) with
    | false => exact hfail _ hadvances
    | true =>
      refine hdone _ hadvances fun _ => ?_
      simp only [Bool.and_eq_true, decide_eq_true_eq] at hv
      show stored d' = some (State.decode info)
      rw [stored_congr h'.files]
      unfold stored State.read
      rw [hcontent, Option.bind_some, if_pos hv]

theorem wp_init {Q : Bool → Globals → Prop} (hp : ProperDisk g.disk)
    (hdone : ∀ g', Advances g.disk g'.disk → Synced g' → Q true g') (hfail : ∀ g', Advances g.disk g'.disk → Q false g')
    (hcut : ∀ g', Advances g.disk g'.disk → C g') : wp (init verify bootstrapRootModulus) Q C g := by
  unfold init
  rw [wp_bind, wp_modify, wp_bind, wp_get]
  refine wp_ite (fun _ => hfail _ (Advances.of_eq hp rfl)) fun _ => ?_
  rw [wp_bind, wp_modify, wp_bind]
  refine wp_loadState hp (fun g₁ h₁ hs₁ => ?_) hfail hcut
  have hthen : ∀ d, Advances g₁.disk d → Advances g.disk d := fun d h => ⟨h.proper, h₁.never.trans h.never⟩
  exact wp_refresh hs₁ h₁.proper (fun g₂ h₂ hs₂ => hdone g₂ (hthen _ h₂) hs₂) (fun g₂ h₂ _ _ => hfail g₂ (hthen _ h₂))
    fun g₂ h₂ => hcut g₂ (hthen _ h₂)

/-! ### Runs -/

/-- The machine: it runs from a boot whose `init` succeeds to the next stop. -/
structure System where
  globals : Globals
  running : Bool

/-- The globals before `init`, when the volume has been looked for. -/
def startup (d : Disk) (found : Bool) (replies : List Reply) : Globals where
  disk := { d with drive := { d.drive.reboot replies with mounted := found } }
  metadataBuffer := none
  activeTargets := []
  persistentState := ⟨Block.of [], 0, 0, 0, 0, 0, 0⟩
  ready := false

inductive Event
  | boot (found : Bool) (replies : List Reply)
  | check
  | refresh
  /-- Everything else: other files change, there are other syncs, the volume may be lost. -/
  | elsewhere (files : Bytes → Option Bytes) (currentDirectory : Bytes) (generation : Nat) (lost : Bool) (replies : List Reply)

/-- The volume after something else has happened. -/
def elsewhere (d : Disk) (files : Bytes → Option Bytes) (currentDirectory : Bytes) (generation : Nat) (lost : Bool)
    (replies : List Reply) : Disk where
  drive :=
    { files := Function.update files statePath (d.files statePath), mounted := d.mounted && !lost, capacity := d.drive.capacity,
      generation, replies }
  currentDirectory

section Runs
variable (verify : Bytes → Bytes → Bytes → Bool) (bootstrapRootModulus : Bytes)

def step (s : System) : Event → System
  | .boot found replies =>
    let r := init verify bootstrapRootModulus (startup s.globals.disk found replies)
    ⟨r.2, r.1 = some true⟩
  | .check =>
    if s.running then
      let r := check verify bootstrapRootModulus s.globals
      ⟨r.2, r.1.isSome⟩
    else s
  | .refresh =>
    if s.running then
      let r := refresh verify bootstrapRootModulus s.globals
      ⟨r.2, r.1.isSome⟩
    else s
  | .elsewhere files currentDirectory generation lost replies =>
    { s with globals := { s.globals with disk := elsewhere s.globals.disk files currentDirectory generation lost replies } }

def run (s : System) (events : List Event) : System := events.foldl (step verify bootstrapRootModulus) s

/-- No refresh of a mounted volume is made when its counter of syncs is at its end. -/
def Counted (s : System) : Event → Prop
  | .refresh => s.running = true → s.globals.disk.mounted = true → s.globals.disk.drive.generation ≠ lastGeneration
  | _ => True

/-- Every step of a run meets `Counted`. -/
def AllCounted : System → List Event → Prop
  | _, [] => True
  | s, event :: rest => Counted s event ∧ AllCounted (step verify bootstrapRootModulus s event) rest

end Runs

/-- What holds between the steps: memory is in step with the file while the machine runs. -/
structure Consistent (s : System) : Prop where
  proper : ProperDisk s.globals.disk
  synced : s.running = true → Synced s.globals

theorem AllCounted.append {s : System} {events events' : List Event}
    (h : AllCounted verify bootstrapRootModulus s (events ++ events')) :
    AllCounted verify bootstrapRootModulus s events ∧
      AllCounted verify bootstrapRootModulus (run verify bootstrapRootModulus s events) events' := by
  induction events generalizing s with
  | nil => exact ⟨trivial, h⟩
  | cons event events ih =>
    obtain ⟨hevent, hrest⟩ := h
    obtain ⟨hevents, hevents'⟩ := ih hrest
    exact ⟨⟨hevent, hevents⟩, hevents'⟩

/-- The volume after the state file was replaced. -/
def Globals.wrote (g : Globals) (next : State) : Disk :=
  g.disk.withFiles (Function.update g.disk.files statePath (some next.sealed.encode))

section Sample
set_option maxRecDepth 100000

end Sample

end ZenovOS.Package.Repository
