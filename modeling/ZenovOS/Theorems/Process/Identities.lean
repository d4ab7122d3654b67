import Mathlib.Algebra.Order.BigOperators.Group.Finset
import Mathlib.Data.Fintype.BigOperators
import Mathlib.Data.List.Induction
import ZenovOS.Theorems.Process.Lifecycle

/-! # Keys and pids name one object, and the counters are right

A slot is used again for other objects. While it has not been used so often that its generation comes round, the key and the
pid of a creation find the object of that creation, as long as it is used, and no other. The counters of the objects are right in every
run, and an object is kept as long as something refers to it. -/

namespace ZenovOS.Process
open Lifecycle

/-- The key and the pid that `create` returned, and which creation it was. -/
structure Creation where
  key : ObjectKey
  pid : Nat
  birth : Nat
  deriving DecidableEq

inductive LifecycleCall
  | create (parentPid : Nat) (taskSlot : Fin taskCapacity)
  | destroyUnstarted (key : ObjectKey)
  | retain (key : ObjectKey)
  | release (key : ObjectKey)
  | terminate (key : ObjectKey) (exitCode faultVector runtimeTicks contextSwitches : UInt32) (reason : TerminationReason)
  | reapParent (key : ObjectKey) (parentPid : Nat)
  | reparent (oldParentPid newParentPid : Nat)
  | reset

/-- A call, beside the record of the creations. A call that fails changes nothing. -/
def lifecycleStep (s : Lifecycle × List Creation) : LifecycleCall → Lifecycle × List Creation
  | .create parentPid taskSlot =>
    match s.1.create parentPid taskSlot with
    | none => s
    | some (l, key, pid) => (l, s.2 ++ [⟨key, pid, s.1.births⟩])
  | .destroyUnstarted key => ((s.1.destroyUnstarted key).getD s.1, s.2)
  | .retain key => ((s.1.retain key).getD s.1, s.2)
  | .release key => ((s.1.release key).getD s.1, s.2)
  | .terminate key exitCode faultVector runtimeTicks contextSwitches reason =>
    ((s.1.terminate key exitCode faultVector runtimeTicks contextSwitches reason).getD s.1, s.2)
  | .reapParent key parentPid => ((s.1.reapParent key parentPid).getD s.1, s.2)
  | .reparent oldParentPid newParentPid => (s.1.reparent oldParentPid newParentPid, s.2)
  | .reset => (s.1.reset, s.2)

def lifecycleRun (calls : List LifecycleCall) : Lifecycle × List Creation := calls.foldl lifecycleStep ({}, [])

/-- How often `create` returned an object in the slot. -/
def creations (given : List Creation) (slot : Fin objectCapacity) : Nat := given.countP fun c => c.key.slot = slot

/-- The object of the creation is used. -/
def Lifecycle.Uses (l : Lifecycle) (c : Creation) : Prop := ∃ slot, (l.objects slot).used = true ∧ (l.objects slot).birth = c.birth

/-- The key and the pid of a creation find its object exactly while this is used. -/
structure Resolves (l : Lifecycle) (c : Creation) : Prop where
  find : (∃ o, l.find c.key = some o) ↔ l.Uses c
  find_own : ∀ o, l.find c.key = some o → o.birth = c.birth
  findPid : (∃ o, l.findPid c.pid = some o) ↔ l.Uses c
  findPid_own : ∀ o, l.findPid c.pid = some o → o.birth = c.birth

variable {l l' l'' : Lifecycle} {given : List Creation} {key : ObjectKey} {slot : Fin objectCapacity} {o o' : Object}

/-! ### Calls that make no object -/

/-- `o'` is a version of `o`. -/
structure SameObject (o o' : Object) : Prop where
  used : o.used = true
  generation : o'.generation = o.generation
  pid : o'.pid = o.pid
  birth : o'.birth = o.birth
  reaped : o.parentReaped = true → o'.parentReaped = true

/-- The objects that are used in `l'` are those of `l`. -/
structure Thins (l l' : Lifecycle) : Prop where
  generations : l'.generations = l.generations
  births : l'.births = l.births
  objects : ∀ slot, (l'.objects slot).used = true → SameObject (l.objects slot) (l'.objects slot)

theorem Thins.refl (l : Lifecycle) : Thins l l := ⟨rfl, rfl, fun _ hused => ⟨hused, rfl, rfl, rfl, id⟩⟩

theorem Thins.trans (h : Thins l l') (h' : Thins l' l'') : Thins l l'' where
  generations := h'.generations.trans h.generations
  births := h'.births.trans h.births
  objects slot hused := by
    have hsecond := h'.objects slot hused
    have hfirst := h.objects slot hsecond.used
    exact ⟨hfirst.used, hsecond.generation.trans hfirst.generation, hsecond.pid.trans hfirst.pid,
      hsecond.birth.trans hfirst.birth, fun hreaped => hsecond.reaped (hfirst.reaped hreaped)⟩

theorem thins_update (hgenerations : l'.generations = l.generations) (hbirths : l'.births = l.births)
    (hobjects : l'.objects = Function.update l.objects slot o') (hsame : o'.used = true → SameObject (l.objects slot) o') :
    Thins l l' := by
  refine ⟨hgenerations, hbirths, fun k hused => ?_⟩
  rw [hobjects] at hused ⊢
  by_cases hk : k = slot
  · subst hk
    rw [Function.update_self] at hused ⊢
    exact hsame hused
  · rw [Function.update_of_ne hk] at hused ⊢
    exact ⟨hused, rfl, rfl, rfl, id⟩

theorem thins_clear (l : Lifecycle) (slot : Fin objectCapacity) (live retained : Nat) (collected : List Object) :
    Thins l { l.setObject slot {} with liveObjects := live, retainedObjects := retained, collected := collected } :=
  thins_update rfl rfl rfl fun hused => nomatch hused

theorem thins_setObject (l : Lifecycle) (live : Nat) (h : SameObject (l.objects slot) o') :
    Thins l { l.setObject slot o' with liveObjects := live } := thins_update rfl rfl rfl fun _ => h

theorem thins_collect (l : Lifecycle) (key : ObjectKey) : Thins l (l.collect key) := by
  unfold collect
  split
  · exact .refl l
  · split
    · exact .refl l
    · exact thins_clear l key.slot l.liveObjects _ _

theorem thins_put (l : Lifecycle) (live : Nat) (key : ObjectKey) (h : SameObject (l.objects slot) o') :
    Thins l ({ l.setObject slot o' with liveObjects := live }.collect key) :=
  (thins_setObject l live h).trans (thins_collect _ key)

/-- An operation on the object of a key: it fails, clears the slot, or puts a version there that may be collected. -/
theorem thins_found {result : Option Lifecycle} (h : ∀ next, result = some next → Thins l next) : Thins l (result.getD l) := by
  cases hresult : result with
  | none => exact .refl l
  | some next => exact h next hresult

theorem thins_destroyUnstarted (l : Lifecycle) (key : ObjectKey) : Thins l ((l.destroyUnstarted key).getD l) := by
  refine thins_found fun next h => ?_
  unfold destroyUnstarted at h
  split at h
  · cases h
  · split at h
    · cases h
    · cases h
      exact thins_clear l key.slot _ _ l.collected

theorem thins_retain (l : Lifecycle) (key : ObjectKey) : Thins l ((l.retain key).getD l) := by
  refine thins_found fun next h => ?_
  unfold retain at h
  split at h
  · cases h
  · rename_i object hfind
    obtain ⟨-, rfl, hused, -⟩ := find_some hfind
    split at h
    · cases h
    · cases h
      refine thins_setObject l l.liveObjects ?_
      exact ⟨hused, rfl, rfl, rfl, id⟩

theorem thins_release (l : Lifecycle) (key : ObjectKey) : Thins l ((l.release key).getD l) := by
  refine thins_found fun next h => ?_
  unfold release at h
  split at h
  · cases h
  · rename_i object hfind
    obtain ⟨-, rfl, hused, -⟩ := find_some hfind
    split at h
    · cases h
    · cases h
      refine thins_put l l.liveObjects key ?_
      exact ⟨hused, rfl, rfl, rfl, id⟩

theorem thins_terminate (l : Lifecycle) (key : ObjectKey) (exitCode faultVector runtimeTicks contextSwitches : UInt32)
    (reason : TerminationReason) :
    Thins l ((l.terminate key exitCode faultVector runtimeTicks contextSwitches reason).getD l) := by
  refine thins_found fun next h => ?_
  unfold terminate at h
  split at h
  · cases h
  · rename_i object hfind
    obtain ⟨-, rfl, hused, -⟩ := find_some hfind
    split at h
    · cases h
    · cases h
      refine thins_put l (l.liveObjects - 1) key ?_
      exact ⟨hused, rfl, rfl, rfl, fun hreaped => by simpa using Or.inr hreaped⟩

theorem thins_reapParent (l : Lifecycle) (key : ObjectKey) (parentPid : Nat) : Thins l ((l.reapParent key parentPid).getD l) := by
  refine thins_found fun next h => ?_
  unfold reapParent at h
  split at h
  · cases h
  · rename_i object hfind
    obtain ⟨-, rfl, hused, -⟩ := find_some hfind
    split at h
    · cases h
    · cases h
      refine thins_put l l.liveObjects key ?_
      exact ⟨hused, rfl, rfl, rfl, fun _ => rfl⟩

theorem thins_reparent (l : Lifecycle) (oldParentPid newParentPid : Nat) : Thins l (l.reparent oldParentPid newParentPid) := by
  have hround : ∀ (l : Lifecycle) slot, Thins l (reparentSlot oldParentPid newParentPid l slot) := by
    intro l slot
    unfold reparentSlot
    dsimp only
    split
    · exact .refl l
    · rename_i hchild
      have hused : (l.objects slot).used = true := by simpa using (not_or.mp hchild).1
      split
      · refine thins_put l l.liveObjects _ ?_
        exact ⟨hused, rfl, rfl, rfl, fun _ => rfl⟩
      · refine thins_setObject l l.liveObjects ?_
        exact ⟨hused, rfl, rfl, rfl, id⟩
  unfold reparent
  generalize List.finRange objectCapacity = slots
  induction slots generalizing l with
  | nil => exact .refl l
  | cons slot slots ih => exact (hround l slot).trans (ih (reparentSlot oldParentPid newParentPid l slot))

theorem thins_reset (l : Lifecycle) : Thins l l.reset := ⟨rfl, rfl, fun _ hused => nomatch hused⟩

/-! ### The record of the creations -/

/-- The creations of a run, of which the used objects are some. The generation of a slot counts them. -/
structure Recorded (l : Lifecycle) (given : List Creation) : Prop where
  objects : ∀ slot, (l.objects slot).used = true →
    ⟨⟨slot, (l.objects slot).generation⟩, (l.objects slot).pid, (l.objects slot).birth⟩ ∈ given
  generation : ∀ c ∈ given, c.key.generation ≠ 0
  pid : ∀ c ∈ given, c.pid = encodePid c.key.slot c.key.generation
  earlier : ∀ c ∈ given, c.key.generation.toNat ≤ (l.generations c.key.slot).toNat
  born : ∀ c ∈ given, c.birth < l.births
  keys : ∀ c ∈ given, ∀ c' ∈ given, c.key = c'.key → c = c'
  births : ∀ c ∈ given, ∀ c' ∈ given, c.birth = c'.birth → c = c'
  count : ∀ slot, creations given slot = (l.generations slot).toNat

theorem recorded_initial : Recorded {} [] where
  objects _ hused := nomatch hused
  generation _ hc := nomatch hc
  pid _ hc := nomatch hc
  earlier _ hc := nomatch hc
  born _ hc := nomatch hc
  keys _ hc := nomatch hc
  births _ hc := nomatch hc
  count _ := rfl

theorem Recorded.thins (h : Recorded l given) (ht : Thins l l') : Recorded l' given where
  objects slot hused := by
    have hsame := ht.objects slot hused
    rw [hsame.generation, hsame.pid, hsame.birth]
    exact h.objects slot hsame.used
  generation := h.generation
  pid := h.pid
  earlier c hc := by
    rw [ht.generations]
    exact h.earlier c hc
  born c hc := by
    rw [ht.births]
    exact h.born c hc
  keys := h.keys
  births := h.births
  count slot := by
    rw [ht.generations]
    exact h.count slot

theorem nextGeneration_toNat {generation : UInt16} (h : generation.toNat + 1 < 65536) :
    (nextGeneration generation).toNat = generation.toNat + 1 := by
  have hsucc : (generation + 1).toNat = generation.toNat + 1 := by
    rw [UInt16.toNat_add]
    exact Nat.mod_eq_of_lt h
  have hne : generation + 1 ≠ 0 := fun hzero => by
    rw [hzero] at hsucc
    cases hsucc
  unfold nextGeneration
  rw [if_neg hne, hsucc]

theorem Recorded.create {parentPid pid : Nat} {taskSlot : Fin taskCapacity} (h : Recorded l given)
    (hc : l.create parentPid taskSlot = some (l', key, pid)) (hfew : creations given key.slot + 1 < 65536) :
    Recorded l' (given ++ [⟨key, pid, l.births⟩]) := by
  unfold Lifecycle.create at hc
  split at hc
  · cases hc
  rename_i slot hfree
  simp only [Option.some.injEq, Prod.mk.injEq] at hc
  obtain ⟨rfl, rfl, rfl⟩ := hc
  have hfew : creations given slot + 1 < 65536 := hfew
  rw [h.count slot] at hfew
  have hnext := nextGeneration_toNat hfew
  have hne := nextGeneration_ne_zero (l.generations slot)
  have hmem : ∀ {c : Creation}, c ∈ given ++ [⟨⟨slot, nextGeneration (l.generations slot)⟩,
      encodePid slot (nextGeneration (l.generations slot)), l.births⟩] →
      c ∈ given ∨ c = ⟨⟨slot, nextGeneration (l.generations slot)⟩, encodePid slot (nextGeneration (l.generations slot)), l.births⟩ := by
    intro c hc
    exact (List.mem_append.mp hc).imp_right List.mem_singleton.mp
  have hnew : ∀ c ∈ given, c.key ≠ ⟨slot, nextGeneration (l.generations slot)⟩ := by
    intro c hc hkey
    have hle := h.earlier c hc
    rw [hkey] at hle
    dsimp only at hle
    omega
  constructor
  · intro k hused
    by_cases hk : k = slot
    · subst hk
      refine List.mem_append_right _ (List.mem_singleton.mpr ?_)
      simp only [setObject, Function.update_self]
      rfl
    · simp only [setObject, Function.update_of_ne hk] at hused ⊢
      exact List.mem_append_left _ (h.objects k hused)
  · intro c hc
    rcases hmem hc with hc | rfl
    · exact h.generation c hc
    · exact hne
  · intro c hc
    rcases hmem hc with hc | rfl
    · exact h.pid c hc
    · rfl
  · intro c hc
    show c.key.generation.toNat ≤ (Function.update l.generations slot (nextGeneration (l.generations slot)) c.key.slot).toNat
    rcases hmem hc with hc | rfl
    · have hle := h.earlier c hc
      by_cases hslot : c.key.slot = slot
      · rw [hslot, Function.update_self, hnext]
        rw [hslot] at hle
        omega
      · rw [Function.update_of_ne hslot]
        exact hle
    · rw [Function.update_self]
  · intro c hc
    show c.birth < l.births + 1
    rcases hmem hc with hc | rfl
    · exact Nat.lt_succ_of_lt (h.born c hc)
    · exact Nat.lt_succ_self _
  · intro c hc c' hc' hkey
    rcases hmem hc with hc | rfl
    · rcases hmem hc' with hc' | rfl
      · exact h.keys c hc c' hc' hkey
      · exact absurd hkey (hnew c hc)
    · rcases hmem hc' with hc' | rfl
      · exact absurd hkey.symm (hnew c' hc')
      · rfl
  · intro c hc c' hc' hbirth
    rcases hmem hc with hc | rfl
    · rcases hmem hc' with hc' | rfl
      · exact h.births c hc c' hc' hbirth
      · exact absurd hbirth (h.born c hc).ne
    · rcases hmem hc' with hc' | rfl
      · exact absurd hbirth.symm (h.born c' hc').ne
      · rfl
  · intro k
    show creations _ k = (Function.update l.generations slot (nextGeneration (l.generations slot)) k).toNat
    have hold := h.count k
    unfold creations at hold ⊢
    rw [List.countP_append, hold]
    by_cases hk : k = slot
    · subst hk
      rw [Function.update_self, hnext]
      simp [Object.key]
    · rw [Function.update_of_ne hk]
      simp [Object.key, Ne.symm hk]

/-! ### Runs -/

theorem creations_le_step (s : Lifecycle × List Creation) (call : LifecycleCall) (slot : Fin objectCapacity) :
    creations s.2 slot ≤ creations (lifecycleStep s call).2 slot := by
  cases call with
  | create parentPid taskSlot =>
    unfold lifecycleStep
    dsimp only
    cases s.1.create parentPid taskSlot with
    | none => exact Nat.le_refl _
    | some result =>
      unfold creations
      dsimp only
      rw [List.countP_append]
      exact Nat.le_add_right _ _
  | _ => exact Nat.le_refl _

theorem Recorded.step {s : Lifecycle × List Creation} (h : Recorded s.1 s.2) (call : LifecycleCall)
    (hfew : ∀ slot, creations (lifecycleStep s call).2 slot < 65535) :
    Recorded (lifecycleStep s call).1 (lifecycleStep s call).2 := by
  cases call with
  | create parentPid taskSlot =>
    have hle := creations_le_step s (.create parentPid taskSlot)
    revert hfew hle
    unfold lifecycleStep
    dsimp only
    cases hcreate : s.1.create parentPid taskSlot with
    | none => exact fun _ _ => h
    | some result =>
      obtain ⟨l', key, pid⟩ := result
      intro hfew hle
      exact h.create hcreate (by have := hle key.slot; have := hfew key.slot; omega)
  | destroyUnstarted key => exact h.thins (thins_destroyUnstarted s.1 key)
  | retain key => exact h.thins (thins_retain s.1 key)
  | release key => exact h.thins (thins_release s.1 key)
  | terminate key exitCode faultVector runtimeTicks contextSwitches reason =>
    exact h.thins (thins_terminate s.1 key exitCode faultVector runtimeTicks contextSwitches reason)
  | reapParent key parentPid => exact h.thins (thins_reapParent s.1 key parentPid)
  | reparent oldParentPid newParentPid => exact h.thins (thins_reparent s.1 oldParentPid newParentPid)
  | reset => exact h.thins (thins_reset s.1)

theorem recorded_run (calls : List LifecycleCall) (hfew : ∀ slot, creations (lifecycleRun calls).2 slot < 65535) :
    Recorded (lifecycleRun calls).1 (lifecycleRun calls).2 := by
  induction calls using List.reverseRecOn with
  | nil => exact recorded_initial
  | append_singleton calls call ih =>
    have hsnoc : lifecycleRun (calls ++ [call]) = lifecycleStep (lifecycleRun calls) call := List.foldl_append
    rw [hsnoc] at hfew ⊢
    exact (ih fun slot => Nat.lt_of_le_of_lt (creations_le_step _ call slot) (hfew slot)).step call hfew

/-! ### What keys and pids find -/

theorem decodePid_encodePid {slot : Fin objectCapacity} {generation : UInt16} (h : generation ≠ 0) :
    decodePid (encodePid slot generation) = some (slot, generation) := by
  have hslot : slot.val < 16 := slot.isLt
  have hgeneration := generation.toNat_lt
  have hpos : 0 < generation.toNat := Nat.pos_of_ne_zero fun hzero => h (UInt16.toNat_inj.mp hzero)
  have hlow : ((generation.toNat - 1) * 256 + (slot.val + 1)) % 256 = slot.val + 1 := by omega
  have hhigh : ((generation.toNat - 1) * 256 + (slot.val + 1)) / 256 = generation.toNat - 1 := by omega
  unfold encodePid decodePid
  simp only [if_neg h, hlow, hhigh, Nat.sub_add_cancel hpos, UInt16.ofNat_toNat, Nat.add_sub_cancel]
  rw [dif_pos slot.isLt, if_neg (by omega)]

theorem find_iff (hne : key.generation ≠ 0) :
    l.find key = some o ↔ o = l.objects key.slot ∧ o.used = true ∧ o.generation = key.generation := by
  constructor
  · exact fun h => (find_some h).2
  · rintro ⟨rfl, hused, hgeneration⟩
    exact find_of_used hused hgeneration hne

theorem Recorded.findPid_eq (h : Recorded l given) {c : Creation} (hc : c ∈ given) : l.findPid c.pid = l.find c.key := by
  have hne := h.generation c hc
  have hpid : (l.objects c.key.slot).used = true → (l.objects c.key.slot).generation = c.key.generation →
      (l.objects c.key.slot).pid = c.pid := by
    intro hused hgeneration
    have hsame := h.keys _ (h.objects c.key.slot hused) c hc (by rw [hgeneration])
    rw [← hsame]
  unfold findPid find
  rw [h.pid c hc, decodePid_encodePid hne, ← h.pid c hc]
  dsimp only
  rw [if_neg hne]
  by_cases hfound : (l.objects c.key.slot).used = true ∧ (l.objects c.key.slot).generation = c.key.generation
  · rw [if_pos (by simp [hfound, hpid hfound.1 hfound.2]), if_pos (by simp [hfound])]
  · rw [if_neg (by simpa using fun hused hgeneration _ => hfound ⟨hused, hgeneration⟩), if_neg (by simpa using hfound)]

theorem Recorded.resolves (h : Recorded l given) {c : Creation} (hc : c ∈ given) : Resolves l c := by
  have hown : ∀ o, l.find c.key = some o → o.birth = c.birth := by
    intro o hfind
    obtain ⟨rfl, hused, hgeneration⟩ := (find_iff (h.generation c hc)).mp hfind
    have hsame := h.keys _ (h.objects c.key.slot hused) c hc (by rw [hgeneration])
    rw [← hsame]
  have hfind : (∃ o, l.find c.key = some o) ↔ l.Uses c := by
    constructor
    · rintro ⟨o, hfind⟩
      obtain ⟨rfl, hused, -⟩ := (find_iff (h.generation c hc)).mp hfind
      exact ⟨c.key.slot, hused, hown _ hfind⟩
    · rintro ⟨slot, hused, hbirth⟩
      have hsame := h.births _ (h.objects slot hused) c hc hbirth
      refine ⟨l.objects c.key.slot, (find_iff (h.generation c hc)).mpr ⟨rfl, ?_, ?_⟩⟩
      · rw [← hsame]
        exact hused
      · rw [← hsame]
  have hpid := h.findPid_eq hc
  exact ⟨hfind, hown, by rw [hpid]; exact hfind, by rw [hpid]; exact hown⟩

/-- After any calls that use no slot so often that its generation comes round: the key and the pid of every creation find its
    object exactly while this is used, and no two used objects have one pid. -/
theorem run_identities (calls : List LifecycleCall) (hfew : ∀ slot, creations (lifecycleRun calls).2 slot < 65535) :
    (∀ c ∈ (lifecycleRun calls).2, Resolves (lifecycleRun calls).1 c) ∧
    ∀ slot slot', ((lifecycleRun calls).1.objects slot).used = true → ((lifecycleRun calls).1.objects slot').used = true →
      ((lifecycleRun calls).1.objects slot).pid = ((lifecycleRun calls).1.objects slot').pid → slot = slot' := by
  have h := recorded_run calls hfew
  refine ⟨fun c hc => h.resolves hc, fun slot slot' hused hused' hpid => ?_⟩
  have hc := h.objects slot hused
  have hc' := h.objects slot' hused'
  have hpids := (h.pid _ hc).symm.trans (hpid.trans (h.pid _ hc'))
  exact (encodePid_injective (h.generation _ hc) (h.generation _ hc') hpids).1

/-- A slot that is used again. -/
def usedAgain : List LifecycleCall := [.create 0 0, .destroyUnstarted ⟨0, 1⟩, .create 0 1]

theorem run_identities_sample :
    (lifecycleRun usedAgain).2 = [⟨⟨0, 1⟩, 1, 0⟩, ⟨⟨0, 2⟩, 257, 1⟩] ∧ ∀ c ∈ (lifecycleRun usedAgain).2, Resolves (lifecycleRun usedAgain).1 c :=
  ⟨by decide, (run_identities usedAgain (by decide)).1⟩

/-! ### The books -/

variable {live : Nat}

/-- 1 for an object that has not been terminated. -/
def Object.alive (o : Object) : Nat := if o.used ∧ o.signaled = false then 1 else 0

def Object.retained (o : Object) : Nat := if o.used then 1 else 0

/-- Nothing refers to the object any more. -/
structure Object.Done (o : Object) : Prop where
  signaled : o.signaled = true
  parentReaped : o.parentReaped = true
  handleReferences : o.handleReferences = 0

/-- Without a parent there is nobody that has yet to learn of the end. -/
def Object.Orphaned (o : Object) : Prop := o.signaled = true → o.parentPid = 0 → o.parentReaped = true

/-- The counters are right; an object is kept while something refers to it, and no longer. -/
structure Booked (l : Lifecycle) : Prop where
  live : l.liveObjects = ∑ slot, (l.objects slot).alive
  retained : l.retainedObjects = ∑ slot, (l.objects slot).retained
  slot : ∀ slot, (l.objects slot).used = true → (l.objects slot).slot = slot ∧ (l.objects slot).generation ≠ 0
  kept : ∀ slot, (l.objects slot).used = true → ¬(l.objects slot).Done
  orphan : ∀ slot, (l.objects slot).used = true → (l.objects slot).Orphaned
  collected : ∀ o ∈ l.collected, o.Done

/-- One summand is exchanged. -/
theorem sum_update (f : Object → Nat) (objects : Fin objectCapacity → Object) (slot : Fin objectCapacity) (o : Object) :
    ∑ k, f (Function.update objects slot o k) + f (objects slot) = ∑ k, f (objects k) + f o := by
  have hothers : ∑ k ∈ Finset.univ.erase slot, f (Function.update objects slot o k) = ∑ k ∈ Finset.univ.erase slot, f (objects k) :=
    Finset.sum_congr rfl fun k hk => by rw [Function.update_of_ne (Finset.ne_of_mem_erase hk)]
  rw [← Finset.add_sum_erase _ _ (Finset.mem_univ slot), ← Finset.add_sum_erase _ (fun k => f (objects k)) (Finset.mem_univ slot), hothers,
    Function.update_self]
  omega

theorem Booked.counted (h : Booked l) (slot : Fin objectCapacity) :
    (l.objects slot).alive ≤ l.liveObjects ∧ (l.objects slot).retained ≤ l.retainedObjects := by
  rw [h.live, h.retained]
  exact ⟨Finset.single_le_sum (fun k _ => Nat.zero_le (l.objects k).alive) (Finset.mem_univ slot),
    Finset.single_le_sum (fun k _ => Nat.zero_le (l.objects k).retained) (Finset.mem_univ slot)⟩

/-- One slot changes, and the counters with it. -/
theorem Booked.update (h : Booked l) (o : Object) {l' : Lifecycle} (hobjects : l'.objects = Function.update l.objects slot o)
    (hused : o.used = true → o.slot = slot ∧ o.generation ≠ 0 ∧ ¬o.Done ∧ o.Orphaned)
    (hlive : l'.liveObjects + (l.objects slot).alive = l.liveObjects + o.alive)
    (hretained : l'.retainedObjects + (l.objects slot).retained = l.retainedObjects + o.retained)
    (hcollected : ∀ c ∈ l'.collected, c.Done) : Booked l' := by
  have hsame : ∀ k, k ≠ slot → l'.objects k = l.objects k := fun k hk => by rw [hobjects, Function.update_of_ne hk]
  have hself : l'.objects slot = o := by rw [hobjects, Function.update_self]
  refine ⟨?_, ?_, fun k hk => ?_, fun k hk => ?_, fun k hk => ?_, hcollected⟩
  · have hsum := sum_update Object.alive l.objects slot o
    rw [← h.live] at hsum
    rw [hobjects]
    omega
  · have hsum := sum_update Object.retained l.objects slot o
    rw [← h.retained] at hsum
    rw [hobjects]
    omega
  all_goals
    by_cases heq : k = slot
    · subst heq
      rw [hself] at hk ⊢
      obtain ⟨hslot, hgeneration, hdone, horphan⟩ := hused hk
      first | exact ⟨hslot, hgeneration⟩ | exact hdone | exact horphan
    · rw [hsame k heq] at hk ⊢
      first | exact h.slot k hk | exact h.kept k hk | exact h.orphan k hk

/-- A version of an object, which is collected if nothing refers to it any more. -/
theorem Booked.put (h : Booked l) (hold : (l.objects slot).used = true) (hused : o.used = true) (hslot : o.slot = slot)
    (hgeneration : o.generation ≠ 0) (hgen : o.generation = key.generation) (hkey : key.slot = slot)
    (horphan : o.Orphaned) (hlive : live + (l.objects slot).alive = l.liveObjects + o.alive) :
    Booked ({ l.setObject slot o with liveObjects := live }.collect key) := by
  subst hkey
  have hself : ({ l.setObject key.slot o with liveObjects := live } : Lifecycle).objects key.slot = o := Function.update_self ..
  have hretained : (l.objects key.slot).retained = 1 := if_pos hold
  have hcounted := (h.counted key.slot).2
  unfold collect
  rw [find_of_used (by rw [hself]; exact hused) (by rw [hself]; exact hgen) (hgen ▸ hgeneration), hself]
  dsimp only
  split
  · next hkept =>
    refine h.update o rfl (fun _ => ⟨hslot, hgeneration, (fun hdone => ?_), horphan⟩) hlive ?_ h.collected
    · simp [hdone.signaled, hdone.parentReaped, hdone.handleReferences] at hkept
    · rw [hretained, Object.retained, if_pos hused]
      rfl
  · next hdone =>
    simp only [not_or, Bool.not_eq_true, Bool.not_eq_false', not_not] at hdone
    refine h.update {} (Function.update_idem ..) nofun ?_ ?_ fun c hc => ?_
    · have hgone : o.alive = 0 := if_neg (by simp [hdone.1])
      rw [hgone] at hlive
      exact hlive
    · show l.retainedObjects - 1 + _ = l.retainedObjects + 0
      omega
    · rcases List.mem_append.mp hc with hc | hc
      · exact h.collected c hc
      · rw [List.mem_singleton.mp hc]
        exact ⟨hdone.1, hdone.2.1, hdone.2.2⟩

/-- An operation that fails changes nothing. -/
theorem Booked.getD {result : Option Lifecycle} (h : Booked l) (hresult : ∀ next, result = some next → Booked next) : Booked (result.getD l) := by
  cases hcase : result with
  | none => exact h
  | some next => exact hresult next hcase

theorem Booked.create {parentPid pid : Nat} {taskSlot : Fin taskCapacity} {next : Lifecycle} (h : Booked l)
    (hcreate : l.create parentPid taskSlot = some (next, key, pid)) : Booked next := by
  unfold Lifecycle.create at hcreate
  split at hcreate
  · cases hcreate
  · next slot hfree =>
    have hunused : (l.objects slot).used = false := by simpa using List.find?_some hfree
    cases hcreate
    refine h.update _ rfl (fun _ => ⟨rfl, nextGeneration_ne_zero _, (fun hdone => nomatch hdone.signaled), nofun⟩) ?_ ?_ h.collected
    · rw [Object.alive, Object.alive, if_neg (by simp [hunused]), if_pos ⟨rfl, rfl⟩]
    · rw [Object.retained, Object.retained, if_neg (by simp [hunused]), if_pos rfl]

theorem Booked.destroyUnstarted (h : Booked l) : Booked ((l.destroyUnstarted key).getD l) := by
  refine h.getD fun next hnext => ?_
  unfold Lifecycle.destroyUnstarted at hnext
  split at hnext
  · cases hnext
  · next o hfind =>
    obtain ⟨-, rfl, hused, -⟩ := find_some hfind
    obtain ⟨hlive, hretained⟩ := h.counted key.slot
    split at hnext
    · cases hnext
    · next hplain =>
      cases hnext
      have halive : (l.objects key.slot).alive = 1 := if_pos ⟨hused, by simpa using (not_or.mp hplain).1⟩
      have hone : (l.objects key.slot).retained = 1 := if_pos hused
      refine h.update {} rfl nofun ?_ ?_ h.collected
      · show l.liveObjects - 1 + _ = l.liveObjects + 0
        omega
      · show l.retainedObjects - 1 + _ = l.retainedObjects + 0
        omega

theorem Booked.retain (h : Booked l) : Booked ((l.retain key).getD l) := by
  refine h.getD fun next hnext => ?_
  unfold Lifecycle.retain at hnext
  split at hnext
  · cases hnext
  · next o hfind =>
    obtain ⟨-, rfl, hused, -⟩ := find_some hfind
    split at hnext
    · cases hnext
    · cases hnext
      obtain ⟨hslot, hgeneration⟩ := h.slot key.slot hused
      exact h.update _ rfl (fun _ => ⟨hslot, hgeneration, (fun hdone => nomatch hdone.handleReferences), h.orphan key.slot hused⟩) rfl rfl h.collected

theorem Booked.release (h : Booked l) : Booked ((l.release key).getD l) := by
  refine h.getD fun next hnext => ?_
  unfold Lifecycle.release at hnext
  split at hnext
  · cases hnext
  · next o hfind =>
    obtain ⟨-, rfl, hused, hgen⟩ := find_some hfind
    obtain ⟨hslot, hgeneration⟩ := h.slot key.slot hused
    split at hnext
    · cases hnext
    · cases hnext
      exact h.put hused hused hslot hgeneration hgen rfl (h.orphan key.slot hused) rfl

theorem Booked.terminate {exitCode faultVector runtimeTicks contextSwitches : UInt32} {reason : TerminationReason} (h : Booked l) :
    Booked ((l.terminate key exitCode faultVector runtimeTicks contextSwitches reason).getD l) := by
  refine h.getD fun next hnext => ?_
  unfold Lifecycle.terminate at hnext
  split at hnext
  · cases hnext
  · next o hfind =>
    obtain ⟨-, rfl, hused, hgen⟩ := find_some hfind
    obtain ⟨hslot, hgeneration⟩ := h.slot key.slot hused
    have hcounted := (h.counted key.slot).1
    split at hnext
    · cases hnext
    · next hplain =>
      cases hnext
      have halive : (l.objects key.slot).alive = 1 := if_pos ⟨hused, by simpa using (not_or.mp hplain).1⟩
      refine h.put hused hused hslot hgeneration hgen rfl (fun _ horphan => by simpa using Or.inl horphan) ?_
      rw [halive, Object.alive, if_neg (by simp)]
      omega

theorem Booked.reapParent {parentPid : Nat} (h : Booked l) : Booked ((l.reapParent key parentPid).getD l) := by
  refine h.getD fun next hnext => ?_
  unfold Lifecycle.reapParent at hnext
  split at hnext
  · cases hnext
  · next o hfind =>
    obtain ⟨-, rfl, hused, hgen⟩ := find_some hfind
    obtain ⟨hslot, hgeneration⟩ := h.slot key.slot hused
    split at hnext
    · cases hnext
    · cases hnext
      exact h.put hused hused hslot hgeneration hgen rfl (fun _ _ => rfl) rfl

theorem Booked.reparent {oldParentPid newParentPid : Nat} (h : Booked l) : Booked (l.reparent oldParentPid newParentPid) := by
  unfold Lifecycle.reparent
  generalize List.finRange objectCapacity = slots
  induction slots generalizing l with
  | nil => exact h
  | cons slot slots ih =>
    refine @ih (reparentSlot oldParentPid newParentPid l slot) ?_
    unfold reparentSlot
    dsimp only
    split
    · exact h
    · next hchild =>
      have hused : (l.objects slot).used = true := by simpa using (not_or.mp hchild).1
      obtain ⟨hslot, hgeneration⟩ := h.slot slot hused
      split
      · exact h.put hused hused hslot hgeneration rfl hslot (fun _ _ => rfl) rfl
      · next hparent =>
        refine h.update _ rfl (fun _ => ⟨hslot, hgeneration, (fun hdone => ?_), fun hsignaled horphan => ?_⟩) rfl rfl h.collected
        · exact h.kept slot hused ⟨hdone.1, hdone.2, hdone.3⟩
        · exact absurd ⟨horphan, hsignaled⟩ hparent

theorem booked_initial : Booked {} :=
  ⟨(Finset.sum_eq_zero fun _ _ => rfl).symm, (Finset.sum_eq_zero fun _ _ => rfl).symm, nofun, nofun, nofun, nofun⟩

theorem booked_reset (h : Booked l) : Booked l.reset :=
  ⟨(Finset.sum_eq_zero fun _ _ => rfl).symm, (Finset.sum_eq_zero fun _ _ => rfl).symm, nofun, nofun, nofun, h.collected⟩

/-! ### What parents were told -/

/-- The books, and the births and pids of the processes whose end their parent was told of: each is told once. -/
structure Books (l : Lifecycle) (delivered : List (Nat × Nat)) : Prop extends Booked l where
  born : ∀ slot, (l.objects slot).used = true → (l.objects slot).birth < l.births
  apart : ∀ slot slot', (l.objects slot).used = true → (l.objects slot').used = true →
    (l.objects slot).birth = (l.objects slot').birth → slot = slot'
  past : ∀ told ∈ delivered, told.1 < l.births
  known : ∀ slot, (l.objects slot).used = true → (l.objects slot).birth ∈ delivered.map Prod.fst → (l.objects slot).parentReaped = true
  once : (delivered.map Prod.fst).Nodup

variable {delivered : List (Nat × Nat)}

theorem Books.thin (h : Books l delivered) (hbooked : Booked l') (ht : Thins l l') : Books l' delivered where
  toBooked := hbooked
  born slot hused := by
    have hsame := ht.objects slot hused
    rw [hsame.birth, ht.births]
    exact h.born slot hsame.used
  apart slot slot' hused hused' heq := by
    have hsame := ht.objects slot hused
    have hsame' := ht.objects slot' hused'
    rw [hsame.birth, hsame'.birth] at heq
    exact h.apart slot slot' hsame.used hsame'.used heq
  past told htold := by
    rw [ht.births]
    exact h.past told htold
  known slot hused hmem := by
    have hsame := ht.objects slot hused
    rw [hsame.birth] at hmem
    exact hsame.reaped (h.known slot hsame.used hmem)
  once := h.once

/-- A new object is none of those whose end was told. -/
theorem Books.create {parentPid pid : Nat} {taskSlot : Fin taskCapacity} {next : Lifecycle} (h : Books l delivered)
    (hcreate : l.create parentPid taskSlot = some (next, key, pid)) : Books next delivered := by
  have hbooked := h.toBooked.create hcreate
  unfold Lifecycle.create at hcreate
  split at hcreate
  · cases hcreate
  · next slot hfree =>
    cases hcreate
    refine ⟨hbooked, fun k hk => ?_, fun k k' hk hk' heq => ?_, fun told htold => Nat.lt_succ_of_lt (h.past told htold), fun k hk hmem => ?_, h.once⟩
    all_goals simp only [setObject, Function.update_apply] at *
    · have hborn := h.born
      grind
    · have hborn := h.born
      have hapart := h.apart
      grind
    · have hpast := h.past
      have hknown := h.known
      grind

/-- A parent that is told of an end was not told of it before. -/
theorem Books.reap {parentPid : Nat} {next : Lifecycle} (h : Books l delivered) (hfind : l.find key = some o)
    (hreap : l.reapParent key parentPid = some next) : Books next (delivered ++ [(o.birth, o.pid)]) := by
  have hthin := thins_reapParent l key parentPid
  have hbooked : Booked ((l.reapParent key parentPid).getD l) := h.toBooked.reapParent
  rw [hreap, Option.getD_some] at hthin hbooked
  have hnext := h.thin hbooked hthin
  obtain ⟨-, rfl, hused, -⟩ := find_some hfind
  have hfirst : (l.objects key.slot).parentReaped = false ∧ ((next.objects key.slot).used = true → (next.objects key.slot).parentReaped = true) := by
    unfold Lifecycle.reapParent at hreap
    rw [hfind] at hreap
    dsimp only at hreap
    split at hreap
    · cases hreap
    · next hplain =>
      cases hreap
      have hversion := thins_collect (l.setObject key.slot { l.objects key.slot with parentReaped := true }) key
      refine ⟨by simpa using (not_or.mp (not_or.mp hplain).2).1, fun hkept => (hversion.objects key.slot hkept).reaped ?_⟩
      simp [setObject]
  have hnew : (l.objects key.slot).birth ∉ delivered.map Prod.fst := fun hmem => by
    have htold := h.known key.slot hused hmem
    rw [hfirst.1] at htold
    cases htold
  refine { hnext with past := fun told htold => ?_, known := fun slot hslot hmem => ?_, once := ?_ }
  · rcases List.mem_append.mp htold with htold | htold
    · exact hnext.past told htold
    · rw [List.mem_singleton.mp htold, hthin.births]
      exact h.born key.slot hused
  · rw [List.map_append, List.mem_append] at hmem
    rcases hmem with hmem | hmem
    · exact hnext.known slot hslot hmem
    · have hsame := hthin.objects slot hslot
      have hbirth : (next.objects slot).birth = (l.objects key.slot).birth := by simpa using hmem
      have hkey := h.apart slot key.slot hsame.used hused (hsame.birth.symm.trans hbirth)
      subst hkey
      exact hfirst.2 hslot
  · rw [List.map_append]
    exact h.once.append (List.nodup_singleton _) (by simpa using hnew)

end ZenovOS.Process
