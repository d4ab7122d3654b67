import ZenovOS.Process.Scheduler
import ZenovOS.Theorems.Process.Identities
import ZenovOS.Theorems.Process.SchedulerPolicy

/-! # Time sharing, and the process objects

What timer interrupts leave of a batch: a task goes on with the registers that it had, and under its own identity, and it needs no other
task to give way to it. And what every request, a system call among them, leaves of the books of the process objects. -/

namespace ZenovOS.Process
open SchedulerPolicy

/-- A task that does not run. It has a page table if it can run again, and its aging is within the limits of the policy. -/
structure Task.Rests (task : Task) : Prop where
  rests : task.state ≠ .running
  mapped : task.state ≠ .unused → task.state ≠ .zombie → task.addressSpace.mapped = true
  priority : task.dynamicPriority.toNat ≤ 3
  aging : task.dynamicPriority.toNat < 3 → task.waitTicks.toNat < 50

/-- A task that runs. -/
structure Task.Acts (task : Task) : Prop where
  runs : task.state = .running
  mapped : task.addressSpace.mapped = true
  priority : task.dynamicPriority.toNat ≤ 3
  quantum : task.quantumRemaining.toNat ≤ 6

section
variable {task : Task} {ticks : UInt32}

theorem clampPriority_le (priority : UInt8) : (clampPriority priority).toNat ≤ 3 := by
  unfold clampPriority
  split
  · exact Nat.le_refl 3
  · exact UInt8.le_iff_toNat_le.mp (UInt8.not_lt.mp ‹_›)

theorem quantumTicks_le (priority : UInt8) : (quantumTicks priority).toNat ≤ 6 := by
  have hclamp := clampPriority_le priority
  have hthree : minimumQuantumTicks.toNat = 3 := rfl
  unfold quantumTicks
  rw [UInt8.toNat_add]
  omega

/-- The ticks until a ready task has the top priority. -/
def toGrow (a : Candidate) : Nat := (3 - a.dynamicPriority.toNat) * 50 - a.waitTicks.toNat

theorem accountWait_spec {a : Candidate} (hpriority : a.dynamicPriority.toNat ≤ 3)
    (haging : a.dynamicPriority.toNat < 3 → a.waitTicks.toNat < 50) :
    (accountWait a).dynamicPriority.toNat ≤ 3 ∧ ((accountWait a).dynamicPriority.toNat < 3 → (accountWait a).waitTicks.toNat < 50) ∧
      (a.ready = true → toGrow (accountWait a) = toGrow a - 1 ∧ a.dynamicPriority ≤ (accountWait a).dynamicPriority) := by
  have hthree : maximumPriority.toNat = 3 := rfl
  have hfifty : agingTicks.toNat = 50 := rfl
  have hzero : (0 : UInt32).toNat = 0 := rfl
  unfold accountWait
  split
  · next hready => exact ⟨hpriority, fun _ => (by decide : 0 < 50), fun h => by simp [h] at hready⟩
  simp only [UInt32.le_iff_toNat_le, UInt8.le_iff_toNat_le, UInt8.lt_iff_toNat_lt, UInt32.toNat_add, UInt32.toNat_one, hthree, hfifty]
  split
  · next hold =>
    have hnext : (a.dynamicPriority + 1).toNat = a.dynamicPriority.toNat + 1 := by
      rw [UInt8.toNat_add, UInt8.toNat_one]
      omega
    simp only [toGrow, hnext, hzero]
    omega
  · next hyoung =>
    simp only [toGrow, UInt32.toNat_add, UInt32.toNat_one]
    omega

theorem Task.Rests.age (h : task.Rests) : (Scheduler.ageReadyTask task).Rests := by
  obtain ⟨hpriority, haging, -⟩ := accountWait_spec (a := task.candidate) h.priority h.aging
  exact ⟨h.rests, h.mapped, hpriority, haging⟩

theorem Task.Rests.wake (h : task.Rests) : (Scheduler.wakeSleeper ticks task).Rests := by
  unfold Scheduler.wakeSleeper
  split
  · next hsleeps =>
    exact ⟨TaskState.noConfusion, fun _ _ => h.mapped (by simp [hsleeps.1]) (by simp [hsleeps.1]), h.priority, fun _ => (by decide : 0 < 50)⟩
  · exact h

end

namespace Scheduler
variable {s : Scheduler} {c i next : Fin taskCapacity} {frame : SyscallFrame}

/-- The task `c` runs, and everything that the machine goes by is its own. -/
structure Runs (s : Scheduler) (c : Fin taskCapacity) : Prop where
  batch : s.schedulerRunning = true
  current : s.currentTask = some c
  space : s.activeAddressSpace = some c
  stack : s.kernelStack = some c
  identity : s.identity = ⟨(s.tasks c).capabilities, .zenov, 0, (s.tasks c).path, (s.tasks c).format⟩
  acts : (s.tasks c).Acts
  others : ∀ i, i ≠ c → (s.tasks i).Rests

/-- The registers of every task: those of the current one are in the machine. -/
def registers (s : Scheduler) (frame : SyscallFrame) (i : Fin taskCapacity) : SyscallFrame :=
  if s.currentTask = some i then frame else (s.tasks i).context

/-! ### A switch -/

/-- The task `next` in place of the one that ran. -/
def switched (s : Scheduler) (next : Fin taskCapacity) : Scheduler :=
  let task := activated (s.tasks next)
  { s with
    tasks := Function.update s.tasks next { task with contextSwitches := task.contextSwitches + 1 }
    activeAddressSpace := some next
    currentTask := some next
    kernelStack := some next
    identity := ⟨task.capabilities, .zenov, 0, task.path, task.format⟩ }

@[simp] theorem switched_self (s : Scheduler) (next : Fin taskCapacity) : (s.switched next).tasks next =
    { activated (s.tasks next) with contextSwitches := (s.tasks next).contextSwitches + 1 } := Function.update_self ..

theorem switched_of_ne (h : i ≠ next) : (s.switched next).tasks i = s.tasks i := Function.update_of_ne h ..

/-- The task `c` has stopped, with the registers `frame`, and none runs. -/
structure Paused (s : Scheduler) (c : Fin taskCapacity) (frame : SyscallFrame) : Prop where
  batch : s.schedulerRunning = true
  current : s.currentTask = some c
  alive : (s.tasks c).state ≠ .zombie
  saved : (s.tasks c).context = frame
  rest : ∀ i, (s.tasks i).Rests

theorem Paused.switchOr (h : s.Paused c frame) (hnext : (s.tasks next).state = .ready) :
    s.switchOr frame next = ⟨(s.tasks next).context, false, s.switched next⟩ := by
  have hmapped := (h.rest next).mapped (by simp [hnext]) (by simp [hnext])
  have hactivate : s.activateTask next =
      some (exposeTask { s.setTask next (activated (s.tasks next)) with activeAddressSpace := some next, currentTask := some next } next) := by
    simp [activateTask, hnext, hmapped]
  have halive : ((s.switched next).tasks c).state ≠ .zombie := by
    by_cases hc : c = next
    · subst hc
      simp [activated]
    · rw [switched_of_ne hc]
      exact h.alive
  unfold Scheduler.switchOr switchTo
  rw [hactivate, h.current]
  simp only [exposeTask, setTask, Function.update_self, Function.update_idem]
  show Return.mk _ false (if ((s.switched next).tasks c).state = .zombie then _ else s.switched next) = _
  rw [if_neg halive]
  rfl

theorem Paused.runs (h : s.Paused c frame) (hnext : (s.tasks next).state = .ready) : (s.switched next).Runs next where
  batch := h.batch
  current := rfl
  space := rfl
  stack := rfl
  identity := by
    rw [switched_self]
    rfl
  acts := by
    rw [switched_self]
    exact ⟨rfl, (h.rest next).mapped (by simp [hnext]) (by simp [hnext]), clampPriority_le _, quantumTicks_le _⟩
  others i hi := by
    rw [switched_of_ne hi]
    exact h.rest i

theorem Paused.registers (h : s.Paused c frame) : (s.switched next).registers (s.tasks next).context = s.registers frame := by
  funext i
  have hsame : s.registers frame i = (s.tasks i).context := by
    unfold Scheduler.registers
    split
    · next hi =>
      obtain rfl := Option.some.inj (h.current.symm.trans hi)
      exact h.saved.symm
    · rfl
  rw [hsame]
  by_cases hi : i = next
  · subst hi
    exact if_pos rfl
  · rw [Scheduler.registers, switched_of_ne hi]
    exact if_neg fun heq => hi (Option.some.inj heq).symm

/-! ### A tick of the timer -/

/-- The tick is counted, the sleepers are woken, and the ready tasks are older. -/
def ticked (s : Scheduler) (frame : SyscallFrame) (c : Fin taskCapacity) : Scheduler :=
  let s := { s with timerTicks := s.timerTicks + 1 }
  let s := s.setTask c { s.tasks c with context := frame, runtimeTicks := (s.tasks c).runtimeTicks + 1 }
  s.wakeSleepers.ageReadyTasks

/-- The task that ran is in this state, with this quantum. -/
def holding (s : Scheduler) (frame : SyscallFrame) (c : Fin taskCapacity) (state : TaskState) (quantum : UInt8) : Scheduler :=
  (s.ticked frame c).setTask c { s.tasks c with
    context := frame, runtimeTicks := (s.tasks c).runtimeTicks + 1, waitTicks := 0, state, quantumRemaining := quantum }

section
variable {state : TaskState} {quantum : UInt8}

@[simp] theorem holding_self : (s.holding frame c state quantum).tasks c = { s.tasks c with
    context := frame, runtimeTicks := (s.tasks c).runtimeTicks + 1, waitTicks := 0, state, quantumRemaining := quantum } := Function.update_self ..

theorem holding_of_ne (hi : i ≠ c) :
    (s.holding frame c state quantum).tasks i = ageReadyTask (wakeSleeper (s.timerTicks + 1) (s.tasks i)) := by
  simp [holding, ticked, setTask, wakeSleepers, ageReadyTasks, hi]

theorem holding_rests (h : s.Runs c) (hi : i ≠ c) : ((s.holding frame c state quantum).tasks i).Rests := by
  rw [holding_of_ne hi]
  exact (h.others i hi).wake.age

theorem holding_registers (h : s.Runs c) : (s.holding frame c state quantum).registers frame = s.registers frame := by
  funext i
  unfold registers
  by_cases hi : i = c
  · subst hi
    rw [if_pos h.current]
    exact if_pos h.current
  · have hother : s.currentTask ≠ some i := fun heq => hi (Option.some.inj (heq.symm.trans h.current))
    have hcontext : (wakeSleeper (s.timerTicks + 1) (s.tasks i)).context = (s.tasks i).context := by
      unfold wakeSleeper
      split <;> rfl
    rw [if_neg hother, holding_of_ne hi, ← hcontext]
    exact if_neg hother

theorem holding_runs (h : s.Runs c) (hquantum : quantum.toNat ≤ 6) : (s.holding frame c .running quantum).Runs c where
  batch := h.batch
  current := h.current
  space := h.space
  stack := h.stack
  identity := by
    rw [holding_self]
    exact h.identity
  acts := by
    rw [holding_self]
    exact ⟨rfl, h.acts.mapped, h.acts.priority, hquantum⟩
  others i hi := holding_rests h hi

theorem holding_paused (h : s.Runs c) : (s.holding frame c .ready quantum).Paused c frame where
  batch := h.batch
  current := h.current
  alive := by simp
  saved := by simp
  rest i := by
    by_cases hi : i = c
    · subst hi
      rw [holding_self]
      exact ⟨TaskState.noConfusion, fun _ _ => h.acts.mapped, h.acts.priority, fun _ => (by decide : 0 < 50)⟩
    · exact holding_rests h hi

end

/-- The quantum after the tick. -/
def shortened (s : Scheduler) (c : Fin taskCapacity) : UInt8 :=
  if 0 < (s.tasks c).quantumRemaining then (s.tasks c).quantumRemaining - 1 else 0

/-- The task `next` is ready, with the highest priority, and none like it is before it behind `c`. -/
def Best (s : Scheduler) (c next : Fin taskCapacity) : Prop :=
  (s.tasks next).state = .ready ∧ ∀ i, (s.tasks i).state = .ready →
    (s.tasks i).dynamicPriority ≤ (s.tasks next).dynamicPriority ∧
      ((s.tasks i).dynamicPriority = (s.tasks next).dynamicPriority → stepsTo (some c) next ≤ stepsTo (some c) i)

theorem selectReady_best (hready : (s.tasks i).state = .ready) : ∃ next, s.selectReady (some c) = some next ∧ s.Best c next := by
  have hfold := Search.foldl_keepFirst (fun i => (s.tasks i).candidate.ready) (fun i => (s.tasks i).candidate.dynamicPriority.toNat)
    (scan (some c))
  rw [← select_eq fun i => (s.tasks i).candidate, show select _ (some c) = s.selectReady (some c) from rfl] at hfold
  cases hbest : s.selectReady (some c) with
  | none =>
    rw [hbest] at hfold
    exact absurd hready (of_decide_eq_false (hfold i (mem_scan (some c) i)))
  | some next =>
    rw [hbest] at hfold
    exact ⟨next, rfl, of_decide_eq_true hfold.1, fun i hi => firstBest_scan hfold (decide_eq_true hi)⟩

/-- How a tick ends: the task goes on with what is left of its quantum, or with a new one, or gives way to another task. -/
inductive TickEnd (s : Scheduler) (frame : SyscallFrame) (c : Fin taskCapacity) : Return → Prop
  | left (h : 0 < s.shortened c) : TickEnd s frame c ⟨frame, false, s.holding frame c .running (s.shortened c)⟩
  | renewed (best : (s.holding frame c .ready (s.shortened c)).Best c c) :
    TickEnd s frame c ⟨frame, false, s.holding frame c .running (quantumTicks (s.tasks c).dynamicPriority)⟩
  | switched (next : Fin taskCapacity) (best : (s.holding frame c .ready (s.shortened c)).Best c next) :
    TickEnd s frame c ((s.holding frame c .ready (s.shortened c)).switchOr frame next)

theorem timerInterrupt_eq (h : s.Runs c) (huser : frame.cs &&& 3 = 3) : s.timerInterrupt frame =
    let t := s.ticked frame c
    let current := { t.tasks c with
      quantumRemaining := if 0 < (t.tasks c).quantumRemaining then (t.tasks c).quantumRemaining - 1 else 0 }
    let t := t.setTask c current
    if 0 < current.quantumRemaining ∧ !t.higherPriorityReady current.dynamicPriority then ⟨frame, false, t⟩
    else
      let t := t.setTask c { current with state := .ready }
      match t.selectReady (some c) with
      | none => ⟨frame, false, t.renewed c⟩
      | some next => if next = c then ⟨frame, false, t.renewed c⟩ else t.switchOr frame next := by
  obtain ⟨hbatch, hcurrent, -⟩ := h
  cases s
  cases hcurrent
  exact if_neg (by simp_all)

theorem timerInterrupt_end (h : s.Runs c) (huser : frame.cs &&& 3 = 3) : TickEnd s frame c (s.timerInterrupt frame) := by
  have hself : (s.ticked frame c).tasks c =
      { s.tasks c with context := frame, runtimeTicks := (s.tasks c).runtimeTicks + 1, waitTicks := 0, state := .running } := by
    simp [ticked, setTask, wakeSleepers, ageReadyTasks, wakeSleeper, ageReadyTask, accountWait, Task.candidate, h.acts.runs]
  have hshort : (if 0 < (s.tasks c).quantumRemaining then (s.tasks c).quantumRemaining - 1 else 0) = s.shortened c := rfl
  rw [timerInterrupt_eq h huser]
  simp only [hself, hshort, renewed, setTask, Function.update_idem, Function.update_self]
  split
  · next hleft => exact .left hleft.1
  · obtain ⟨next, hselect, hbest⟩ := selectReady_best (s := s.holding frame c .ready (s.shortened c)) (c := c)
      (show ((s.holding frame c .ready (s.shortened c)).tasks c).state = .ready by rw [holding_self])
    unfold holding setTask at hselect
    rw [hselect]
    dsimp only
    split
    · next hc => exact .renewed (hc ▸ hbest)
    · exact .switched next hbest

theorem toNat_shortened (s : Scheduler) (c : Fin taskCapacity) : (s.shortened c).toNat = (s.tasks c).quantumRemaining.toNat - 1 := by
  have hzero : (0 : UInt8).toNat = 0 := rfl
  unfold shortened
  split
  · next h =>
    have hone : (1 : UInt8) ≤ (s.tasks c).quantumRemaining := UInt8.le_iff_toNat_le.mpr (UInt8.lt_iff_toNat_lt.mp h)
    exact UInt8.toNat_sub_of_le _ _ hone
  · next h =>
    rw [UInt8.lt_iff_toNat_lt] at h
    omega

theorem TickEnd.goes_on {r : Return} (h : s.Runs c) (hend : TickEnd s frame c r) :
    r.abort = false ∧ (∃ c', r.scheduler.Runs c') ∧ r.scheduler.registers r.frame = s.registers frame := by
  cases hend with
  | left =>
    have hquantum : (s.shortened c).toNat ≤ 6 := by
      rw [toNat_shortened]
      exact (Nat.sub_le _ 1).trans h.acts.quantum
    exact ⟨rfl, ⟨c, holding_runs h hquantum⟩, holding_registers h⟩
  | renewed => exact ⟨rfl, ⟨c, holding_runs h (quantumTicks_le _)⟩, holding_registers h⟩
  | switched next best =>
    have hpaused : (s.holding frame c .ready (s.shortened c)).Paused c frame := holding_paused h
    rw [hpaused.switchOr best.1]
    exact ⟨rfl, ⟨next, hpaused.runs best.1⟩, hpaused.registers.trans (holding_registers h)⟩

/-! ### The start of a batch -/

theorem startSchedulerBatch_runs {t : Scheduler} (hrest : ∀ i, (s.tasks i).Rests) (h : s.startSchedulerBatch = some t) :
    ∃ c, t.Runs c := by
  unfold startSchedulerBatch at h
  dsimp only at h
  split at h
  · cases h
  · next first _ =>
    unfold activateTask at h
    dsimp only at h
    split at h
    · cases h
    · next hcan =>
      simp only [not_or, Bool.not_eq_true, Bool.not_eq_false'] at hcan
      cases h
      refine ⟨first, rfl, rfl, rfl, rfl, rfl, ?_, fun i hi => ?_⟩
      · simp only [exposeTask, setTask, Function.update_self]
        exact ⟨rfl, hcan.2.2, clampPriority_le _, quantumTicks_le _⟩
      · simp only [exposeTask, setTask, Function.update_of_ne hi]
        exact hrest i

theorem prepareTask_rests {t : Scheduler} {slot : Fin taskCapacity} {image : Image} {parentPid : Nat} {done : Bool}
    (hrest : ∀ i, (s.tasks i).Rests) (h : s.prepareTask slot image parentPid = (t, done)) : ∀ i, (t.tasks i).Rests := by
  have hrestore : ∀ (u : Scheduler) identity space, (u.restoreExecutionIdentity identity space).tasks = u.tasks := by
    intro u identity space
    unfold restoreExecutionIdentity
    split <;> rfl
  have hconfigured : ∀ {u t : Scheduler} {space entry initialStack initialEax capabilities path format parentPid},
      u.configureTask slot space entry initialStack initialEax capabilities path format parentPid = some t →
      (∀ i, (u.tasks i).Rests) → ∀ i, (t.tasks i).Rests := by
    intro u t space entry initialStack initialEax capabilities path format parentPid h hrest i
    unfold configureTask at h
    split at h
    · cases h
    split at h <;> cases h
    by_cases hi : i = slot
    · subst hi
      simp only [setTask, Function.update_self]
      exact ⟨TaskState.noConfusion, fun _ _ => rfl, (by decide : 1 ≤ 3), fun _ => (by decide : 0 < 50)⟩
    · simp only [setTask, setLifecycle, Function.update_of_ne hi]
      exact hrest i
  unfold prepareTask at h
  dsimp only at h
  intro i
  split at h
  · cases h
    exact hrest i
  split at h
  · cases h
    rw [hrestore]
    exact hrest i
  split at h
  · cases h
    rw [hrestore]
    exact hrest i
  split at h
  · cases h
    rw [hrestore]
    exact hrest i
  split at h <;> cases h <;> rw [hrestore]
  · exact hrest i
  · next hconfigure => exact hconfigured hconfigure hrest i

theorem prepareBatch_rests {t : Scheduler} {images : List (Fin taskCapacity × Image)} (hrest : ∀ i, (s.tasks i).Rests)
    (h : s.prepareBatch images = some t) : ∀ i, (t.tasks i).Rests := by
  induction images generalizing s with
  | nil =>
    cases h
    exact hrest
  | cons image rest ih =>
    unfold prepareBatch at h
    split at h
    · cases h
    · next hprepare => exact ih (prepareTask_rests hrest hprepare) h

theorem runTaskBatch_runs {t : Scheduler} {images : List Image} (h : s.runTaskBatch images = some t) : ∃ c, t.Runs c := by
  unfold runTaskBatch at h
  split at h
  · cases h
  obtain ⟨u, hbatch, hstart⟩ := Option.bind_eq_some_iff.mp h
  refine startSchedulerBatch_runs (prepareBatch_rests (fun i => ?_) hbatch) hstart
  exact ⟨TaskState.noConfusion, fun hunused => absurd rfl hunused, (by decide : 1 ≤ 3), fun _ => (by decide : 0 < 50)⟩

/-! ### Runs -/

/-- The scheduler and the frame that user mode goes on with, beside the registers that each task would have on a processor of its own. -/
structure Machine where
  scheduler : Scheduler
  frame : SyscallFrame
  own : Fin taskCapacity → SyscallFrame
  aborted : Bool

/-- A tick of the timer once the program that runs has changed its registers to `frame`. -/
def Machine.tick (m : Machine) (frame : SyscallFrame) : Machine :=
  let r := m.scheduler.timerInterrupt frame
  ⟨r.scheduler, r.frame, fun i => if m.scheduler.currentTask = some i then frame else m.own i, r.abort⟩

/-- A task runs, and every task has the registers that are its own. -/
structure Machine.Shared (m : Machine) (c : Fin taskCapacity) : Prop where
  runs : m.scheduler.Runs c
  registers : m.scheduler.registers m.frame = m.own
  goes : m.aborted = false

theorem Machine.Shared.tick {m : Machine} (h : m.Shared c) (huser : frame.cs &&& 3 = 3) : ∃ c', (m.tick frame).Shared c' := by
  obtain ⟨hgoes, ⟨c', hruns⟩, hregisters⟩ := (timerInterrupt_end h.runs huser).goes_on h.runs
  refine ⟨c', hruns, hregisters.trans (funext fun i => ?_), hgoes⟩
  show m.scheduler.registers frame i = if m.scheduler.currentTask = some i then frame else m.own i
  rw [← h.registers]
  unfold Scheduler.registers
  split <;> rfl

theorem Machine.Shared.ticks {m : Machine} {frames : List SyscallFrame} (h : m.Shared c) (huser : ∀ frame ∈ frames, frame.cs &&& 3 = 3) :
    ∃ c', (frames.foldl Machine.tick m).Shared c' := by
  induction frames generalizing m c with
  | nil => exact ⟨c, h⟩
  | cons frame frames ih =>
    obtain ⟨c', h'⟩ := h.tick (huser frame List.mem_cons_self)
    exact ih h' fun frame' hmem => huser frame' (List.mem_cons_of_mem _ hmem)

/-- The machine when a batch has been started. -/
def Machine.started (s : Scheduler) : Machine :=
  ⟨s, (s.currentTask.map fun c => (s.tasks c).context).getD zeroFrame, fun i => (s.tasks i).context, false⟩

theorem started_shared {t : Scheduler} {images : List Image} (h : s.runTaskBatch images = some t) : ∃ c, (Machine.started t).Shared c := by
  obtain ⟨c, hruns⟩ := runTaskBatch_runs h
  refine ⟨c, hruns, funext fun i => ?_, rfl⟩
  show t.registers ((t.currentTask.map fun c => (t.tasks c).context).getD zeroFrame) i = (t.tasks i).context
  unfold Scheduler.registers
  rw [hruns.current]
  split
  · next hi => rw [Option.some.inj hi, Option.map_some, Option.getD_some]
  · rfl

/-- After any ticks of a batch, whatever the programs have done to their registers: user mode goes on with one task, in its address space and
under its capabilities, its ABI and its path, and with the registers that it had when it was interrupted. -/
theorem ticks_shared {t : Scheduler} {images : List Image} {frames : List SyscallFrame} (h : s.runTaskBatch images = some t)
    (huser : ∀ frame ∈ frames, frame.cs &&& 3 = 3) :
    let m := frames.foldl Machine.tick (.started t)
    ∃ c, m.aborted = false ∧ m.scheduler.Runs c ∧ m.frame = m.own c := by
  obtain ⟨c₀, h₀⟩ := started_shared h
  obtain ⟨c, h⟩ := h₀.ticks huser
  refine ⟨c, h.goes, h.runs, ?_⟩
  rw [← h.registers, Scheduler.registers, if_pos h.runs.current]

/-- A scheduler without tasks. -/
def idle : Scheduler :=
  ⟨fun _ => {}, none, {}, AddressSpace.empty.toWindow, none, none, ⟨noCapabilities, .zenov, 0, [], []⟩, 0, false, false, false, []⟩

def sampleImages : List Image :=
  .replicate 2 ⟨1, true, ⟨noCapabilities, .zenov, 0, [], []⟩, ascii "/a", some AddressSpace.empty.toWindow, true, 0, 0, false⟩

theorem sample_starts : ∃ t, idle.runTaskBatch sampleImages = some t ∧ (t.tasks 1).state = .ready := by
  have hstarts : (idle.runTaskBatch sampleImages).any (fun t => (t.tasks 1).state = .ready) = true := by decide +kernel
  simpa only [Option.any_eq_true, decide_eq_true_eq] using hstarts

theorem ticks_shared_sample : ∃ t, idle.runTaskBatch sampleImages = some t ∧
    let m := [initialContext 4 8 0].foldl Machine.tick (.started t)
    ∃ c, m.aborted = false ∧ m.scheduler.Runs c ∧ m.frame = m.own c := by
  obtain ⟨t, ht, -⟩ := sample_starts
  exact ⟨t, ht, ticks_shared ht (by decide)⟩

/-! ### Waiting for a turn -/

/-- A bound for the ticks until the ready task `i` has its turn, while `c` runs: first it gets old, and then it is next when the tasks between
the two have had their quanta. -/
def patience (s : Scheduler) (c i : Fin taskCapacity) : Nat :=
  if (s.tasks i).dynamicPriority.toNat < 3 then 63 + toGrow (s.tasks i).candidate
  else 7 * stepsTo (some c) i + (s.tasks c).quantumRemaining.toNat

theorem stepsTo_task (c i : Fin taskCapacity) : stepsTo (some c) i = if c.val < i.val then i.val - c.val else 8 + i.val - c.val := by
  have hcast : position (some c) < i.val ↔ c.val < i.val := Int.ofNat_lt
  have hposition : position (some c) = c.val := rfl
  have height : taskCapacity = 8 := rfl
  unfold stepsTo
  simp only [hcast]
  split <;> omega

theorem stepsTo_between (hne : next ≠ i) (h : stepsTo (some c) next ≤ stepsTo (some c) i) :
    stepsTo (some next) i + 1 ≤ stepsTo (some c) i := by
  have hval : next.val ≠ i.val := fun heq => hne (Fin.ext heq)
  have hn : next.val < 8 := next.isLt
  have hi : i.val < 8 := i.isLt
  have hc : c.val < 8 := c.isLt
  rw [stepsTo_task] at h ⊢
  rw [stepsTo_task] at h ⊢
  split_ifs at * <;> omega

theorem patience_lt {t : Scheduler} {c' : Fin taskCapacity} (h : (s.tasks i).Rests) (hready : (s.tasks i).state = .ready)
    (haged : t.tasks i = ageReadyTask (s.tasks i)) (hquantum : (t.tasks c').quantumRemaining.toNat ≤ 6)
    (htop : ¬(s.tasks i).dynamicPriority.toNat < 3 →
      7 * stepsTo (some c') i + (t.tasks c').quantumRemaining.toNat < 7 * stepsTo (some c) i + (s.tasks c).quantumRemaining.toNat) :
    t.patience c' i < s.patience c i := by
  obtain ⟨-, -, hgrow⟩ := accountWait_spec (a := (s.tasks i).candidate) h.priority h.aging
  obtain ⟨hgrow, hhigher⟩ := hgrow (decide_eq_true hready)
  have haging := h.aging
  have hhigher : (s.tasks i).dynamicPriority.toNat ≤ (t.tasks i).dynamicPriority.toNat := haged ▸ UInt8.le_iff_toNat_le.mp hhigher
  have hgrow : toGrow (t.tasks i).candidate = toGrow (s.tasks i).candidate - 1 := haged ▸ hgrow
  have hsteps : stepsTo (some c') i ≤ 8 := (stepsTo_bounds _ i).2
  unfold patience
  by_cases hlow : (s.tasks i).dynamicPriority.toNat < 3
  · have hleft : 0 < (3 - (s.tasks i).dynamicPriority.toNat) * 50 - (s.tasks i).waitTicks.toNat := by omega
    have hleft : 0 < toGrow (s.tasks i).candidate := hleft
    rw [if_pos hlow, hgrow]
    split <;> omega
  · rw [if_neg hlow, if_neg (by omega)]
    exact htop hlow

theorem TickEnd.nearer {r : Return} (h : s.Runs c) (hi : i ≠ c) (hready : (s.tasks i).state = .ready) (hend : TickEnd s frame c r) :
    r.scheduler.Runs i ∨ ∃ c', r.scheduler.Runs c' ∧ i ≠ c' ∧ (r.scheduler.tasks i).state = .ready ∧
      r.scheduler.patience c' i < s.patience c i := by
  have hrests := h.others i hi
  have haged : ∀ state quantum, (s.holding frame c state quantum).tasks i = ageReadyTask (s.tasks i) := by
    intro state quantum
    rw [holding_of_ne hi, wakeSleeper, if_neg (by simp [hready])]
  have hpaused : (s.holding frame c .ready (s.shortened c)).Paused c frame := holding_paused h
  -- at the top priority the selection looks at the task, and takes none behind it
  have hturn : ∀ next, (s.holding frame c .ready (s.shortened c)).Best c next →
      ¬(s.tasks i).dynamicPriority.toNat < 3 → stepsTo (some c) next ≤ stepsTo (some c) i := by
    intro next hbest htop
    obtain ⟨hle, hsteps⟩ := hbest.2 i (by rw [haged]; exact hready)
    have hpriority := (hpaused.rest next).priority
    have hhigher := UInt8.le_iff_toNat_le.mp
      ((accountWait_spec (a := (s.tasks i).candidate) hrests.priority hrests.aging).2.2 (decide_eq_true hready)).2
    rw [haged] at hle hsteps
    exact hsteps (UInt8.le_antisymm hle (UInt8.le_iff_toNat_le.mpr (hpriority.trans ((not_lt.mp htop).trans hhigher))))
  cases hend with
  | left hleft =>
    have hshort := toNat_shortened s c
    have hpositive := UInt8.lt_iff_toNat_lt.mp hleft
    have hzero : (0 : UInt8).toNat = 0 := rfl
    have hquantum := h.acts.quantum
    refine .inr ⟨c, holding_runs h (by omega), hi, by rw [haged]; exact hready, patience_lt hrests hready (haged _ _) ?_ fun _ => ?_⟩
    all_goals rw [holding_self]
    · show (s.shortened c).toNat ≤ 6
      omega
    · show _ + (s.shortened c).toNat < _
      omega
  | renewed best =>
    have hruns : (s.holding frame c .running (quantumTicks (s.tasks c).dynamicPriority)).Runs c := holding_runs h (quantumTicks_le _)
    refine .inr ⟨c, hruns, hi, by rw [haged]; exact hready, patience_lt hrests hready (haged _ _) hruns.acts.quantum fun htop => ?_⟩
    have hsteps := hturn c best htop
    have hval : i.val ≠ c.val := fun heq => hi (Fin.ext heq)
    have hlt : i.val < 8 := i.isLt
    rw [stepsTo_task, stepsTo_task, if_neg (lt_irrefl _)] at hsteps
    split at hsteps <;> omega
  | switched next best =>
    rw [hpaused.switchOr best.1]
    have hruns := hpaused.runs best.1
    by_cases heq : next = i
    · exact .inl (heq ▸ hruns)
    · have hsame := switched_of_ne (s := s.holding frame c .ready (s.shortened c)) (Ne.symm heq)
      refine .inr ⟨next, hruns, Ne.symm heq, by rw [hsame, haged]; exact hready,
        patience_lt hrests hready (hsame.trans (haged _ _)) hruns.acts.quantum fun htop => ?_⟩
      have hsteps := stepsTo_between heq (hturn next best htop)
      exact lt_of_le_of_lt (Nat.add_le_add_left hruns.acts.quantum _) (by omega)

theorem ticks_within {m : Machine} {frames : List SyscallFrame} (h : m.Shared c) (huser : ∀ frame ∈ frames, frame.cs &&& 3 = 3)
    (hi : i ≠ c) (hready : (m.scheduler.tasks i).state = .ready) (hlong : m.scheduler.patience c i ≤ frames.length) :
    ∃ k ≤ m.scheduler.patience c i, ((frames.take k).foldl Machine.tick m).scheduler.currentTask = some i := by
  induction frames generalizing m c with
  | nil =>
    have hsteps := (stepsTo_bounds (some c) i).1
    unfold patience at hlong
    rw [List.length_nil] at hlong
    split at hlong <;> omega
  | cons frame frames ih =>
    have hframe := huser frame List.mem_cons_self
    have hnow : 0 < m.scheduler.patience c i := by
      have hsteps := (stepsTo_bounds (some c) i).1
      unfold patience
      split <;> omega
    rcases (timerInterrupt_end h.runs hframe).nearer h.runs hi hready with hruns | ⟨c', hruns, hi', hready', hless⟩
    · exact ⟨1, hnow, by rw [List.take_succ_cons, List.take_zero]; exact hruns.current⟩
    · obtain ⟨c₁, h₁⟩ := h.tick hframe
      obtain rfl : c₁ = c' := Option.some.inj (h₁.runs.current.symm.trans hruns.current)
      rw [List.length_cons] at hlong
      have hless : (m.tick frame).scheduler.patience c₁ i < m.scheduler.patience c i := hless
      obtain ⟨k, hk, hcurrent⟩ := ih h₁ (fun f hf => huser f (List.mem_cons_of_mem _ hf)) hi' hready' (by omega)
      exact ⟨k + 1, by omega, hcurrent⟩

/-- **No starvation.** Without any help from the other tasks of a batch, a ready task has its turn within 213 ticks. -/
theorem ticks_serve {t : Scheduler} {images : List Image} {earlier later : List SyscallFrame} (h : s.runTaskBatch images = some t)
    (hearlier : ∀ frame ∈ earlier, frame.cs &&& 3 = 3) (hlater : ∀ frame ∈ later, frame.cs &&& 3 = 3) :
    let m := earlier.foldl Machine.tick (.started t)
    (m.scheduler.tasks i).state = .ready → 213 ≤ later.length →
      ∃ k ≤ 213, ((later.take k).foldl Machine.tick m).scheduler.currentTask = some i := by
  intro m hready hlong
  obtain ⟨c₀, h₀⟩ := started_shared h
  obtain ⟨c, h⟩ : ∃ c, m.Shared c := h₀.ticks hearlier
  have hi : i ≠ c := by
    rintro rfl
    cases hready.symm.trans h.runs.acts.runs
  have hbound : m.scheduler.patience c i ≤ 213 := by
    have hsteps : stepsTo (some c) i ≤ 8 := (stepsTo_bounds _ i).2
    have hquantum := h.runs.acts.quantum
    have hgrow : toGrow (m.scheduler.tasks i).candidate ≤ 150 := (Nat.sub_le _ _).trans (Nat.mul_le_mul_right 50 (Nat.sub_le 3 _))
    unfold patience
    split <;> omega
  obtain ⟨k, hk, hcurrent⟩ := ticks_within h hlater hi hready (hbound.trans hlong)
  exact ⟨k, hk.trans hbound, hcurrent⟩

theorem ticks_serve_sample : ∃ t, idle.runTaskBatch sampleImages = some t ∧
    ∃ k ≤ 213, (((List.replicate 213 (initialContext 4 8 0)).take k).foldl Machine.tick (.started t)).scheduler.currentTask = some 1 := by
  obtain ⟨t, ht, hready⟩ := sample_starts
  have hnone : ∀ frame ∈ ([] : List SyscallFrame), frame.cs &&& 3 = 3 := nofun
  refine ⟨t, ht, ticks_serve ht hnone (fun frame hmem => ?_) hready List.length_replicate.ge⟩
  rw [List.eq_of_mem_replicate hmem]
  decide

end Scheduler

/-! ### The process objects -/

section
variable {l next : Lifecycle} {key : ObjectKey} {delivered : List (Nat × Nat)}

theorem Books.done {result : Option Lifecycle} (h : Books (result.getD l) delivered) (hresult : result = some next) : Books next delivered := by
  subst hresult
  exact h

theorem Books.release (h : Books l delivered) (key : ObjectKey) : Books ((l.release key).getD l) delivered :=
  h.thin h.toBooked.release (thins_release l key)

theorem Books.collect (h : Books l delivered) (key : ObjectKey) : Books (l.collect key) delivered := by
  unfold Lifecycle.collect
  split
  · exact h
  next o hfind =>
  obtain ⟨-, rfl, hused, -⟩ := Lifecycle.find_some hfind
  split
  · exact h
  next hdone =>
  -- what is in the table is not to be collected
  simp only [not_or, Bool.not_eq_true, Bool.not_eq_false', not_not] at hdone
  exact absurd ⟨hdone.1, hdone.2.1, hdone.2.2⟩ (h.kept key.slot hused)

theorem Books.detach (h : Books l delivered) (key : ObjectKey) : Books (Scheduler.detach l key) delivered := by
  unfold Scheduler.detach
  split
  · exact h
  next o hfind =>
  obtain ⟨-, rfl, hused, -⟩ := Lifecycle.find_some hfind
  obtain ⟨hslot, hgeneration⟩ := h.slot key.slot hused
  refine h.thin (h.toBooked.update _ rfl (fun _ => ⟨hslot, hgeneration, fun hdone => ?_, h.orphan key.slot hused⟩) rfl rfl h.collected)
    (thins_setObject l l.liveObjects ⟨hused, rfl, rfl, rfl, id⟩)
  exact h.kept key.slot hused ⟨hdone.1, hdone.2, hdone.3⟩

end

namespace Scheduler
variable {s t : Scheduler} {index slot parent : Fin taskCapacity} {key : ObjectKey} {frame : SyscallFrame}

/-- The books of what the scheduler has in its globals. -/
abbrev Kept (s : Scheduler) : Prop := Books s.lifecycle s.delivered

theorem Kept.left {α : Type} {result : Scheduler × α} {a : α} (h : result.1.Kept) (hresult : result = (t, a)) : t.Kept := by
  subst hresult
  exact h

theorem Kept.rounds {α : Type} {round : Scheduler → α → Scheduler} (hround : ∀ s a, Kept s → Kept (round s a)) (rest : List α) (h : s.Kept) :
    (rest.foldl round s).Kept := by
  induction rest generalizing s with
  | nil => exact h
  | cons a rest ih => exact ih (hround s a h)

theorem Kept.storeUser (h : s.Kept) (offset : Nat) (data : Bytes) : (s.storeUser offset data).Kept := by
  unfold Scheduler.storeUser
  split <;> exact h

theorem destroyTaskAddressSpace_books (s : Scheduler) (index : Fin taskCapacity) :
    (s.destroyTaskAddressSpace index).lifecycle = s.lifecycle ∧ (s.destroyTaskAddressSpace index).delivered = s.delivered := by
  unfold destroyTaskAddressSpace
  split <;> exact ⟨rfl, rfl⟩

theorem Kept.destroyed (h : s.Kept) (index : Fin taskCapacity) : (s.destroyTaskAddressSpace index).Kept := by
  obtain ⟨hlifecycle, hdelivered⟩ := destroyTaskAddressSpace_books s index
  rwa [Kept, hlifecycle, hdelivered]

theorem Kept.closeAllHandles (h : s.Kept) (index : Fin taskCapacity) : (s.closeAllHandles index).Kept := by
  refine h.rounds (fun s entry h => ?_) _
  unfold closeEntry
  dsimp only
  split
  · exact h
  split
  · exact h
  split
  · exact h
  · next hrelease => exact (h.release _).done hrelease

theorem Kept.finalizeTerminatedTask (h : s.Kept) : (s.finalizeTerminatedTask index).Kept := by
  have hdestroyed := h.destroyed index
  unfold Scheduler.finalizeTerminatedTask
  dsimp only [releaseTaskRuntime]
  split
  · exact h
  split
  · exact hdestroyed
  split
  · exact (hdestroyed.detach _).collect _
  · exact hdestroyed

/-- The child that is reaped is found as before once its task is gone. -/
theorem dropTask_find {o : Object} (h : s.Kept) (hfind : s.lifecycle.find key = some o) :
    (s.dropTask key o).Kept ∧ (s.dropTask key o).delivered = s.delivered ∧
      ∃ o', (s.dropTask key o).lifecycle.find key = some o' ∧ o'.birth = o.birth ∧ o'.pid = o.pid := by
  unfold dropTask
  split
  · exact ⟨h, rfl, o, hfind, rfl, rfl⟩
  split
  · exact ⟨h, rfl, o, hfind, rfl, rfl⟩
  next slot _ _ =>
  have hdelivered := (destroyTaskAddressSpace_books s slot).2
  have hdetach := h.detach key
  obtain ⟨hgeneration, rfl, hused, hgen⟩ := Lifecycle.find_some hfind
  refine ⟨?_, hdelivered, { s.lifecycle.objects key.slot with taskSlot := none }, ?_, rfl, rfl⟩
  · show Books _ (s.destroyTaskAddressSpace slot).delivered
    rwa [hdelivered]
  · show (Scheduler.detach s.lifecycle key).find key = _
    unfold Scheduler.detach
    rw [hfind, Lifecycle.find, if_neg hgeneration]
    simp [Lifecycle.setObject, hused, hgen]

theorem Kept.reapChildTask {parentPid : Nat} (h : s.Kept) (hreap : s.reapChildTask key parentPid = some t) : t.Kept := by
  unfold Scheduler.reapChildTask at hreap
  split at hreap
  · cases hreap
  next o hfind =>
  obtain ⟨hdrop, hdelivered, o', hfind', hbirth, hpid⟩ := dropTask_find h hfind
  split at hreap
  · cases hreap
  dsimp only at hreap
  split at hreap
  · cases hreap
  next hparent =>
  cases hreap
  have hbooks := hdrop.reap hfind' hparent
  rwa [hbirth, hpid] at hbooks

theorem Kept.reapFor {waiter : Task} {pid : Nat} (h : s.Kept) : (s.reapFor waiter key pid).1.Kept := by
  unfold Scheduler.reapFor
  split
  · exact h
  split
  · exact h
  · next hreap => exact h.reapChildTask hreap

theorem Kept.wakeWaiters (h : s.Kept) : (s.wakeWaiters key).Kept := by
  have hcomplete : ∀ (s : Scheduler) index, s.Kept → (s.completeWaiter index key).Kept := by
    intro s index h
    unfold completeWaiter
    dsimp only
    split
    · exact h
    split
    · exact h
    split
    · exact h
    next waiter _ =>
    have hreaped : ∀ pid, ((s.setTask index waiter).reapFor waiter key pid).1.Kept := fun _ => Kept.reapFor h
    exact hreaped _
  unfold Scheduler.wakeWaiters
  split
  · exact h
  split
  · exact h
  refine h.rounds (fun s index h => ?_) _
  unfold wakeWaiter
  dsimp only
  split
  · exact hcomplete s index h
  · exact h

theorem Kept.collectOrphanZombies (h : s.Kept) (index : Fin taskCapacity) : (s.collectOrphanZombies index).Kept := by
  refine h.rounds (fun s index h => ?_) _
  unfold collectOrphan
  split
  · exact h
  split
  · exact h.finalizeTerminatedTask
  split
  · exact h.finalizeTerminatedTask
  · exact h

theorem Kept.terminateTask {exitCode faultVector : UInt32} {reason : TerminationReason} (h : s.Kept) :
    (s.terminateTask index exitCode faultVector reason).1.Kept := by
  have hparted : (s.setLifecycle (s.lifecycle.reparent (s.tasks index).pid 0)).Kept := h.thin h.toBooked.reparent (thins_reparent ..)
  have hretired : (s.retire index exitCode faultVector).Kept := (hparted.collectOrphanZombies index).closeAllHandles index
  unfold Scheduler.terminateTask
  dsimp only
  split
  · exact h
  split
  · exact hretired
  · next hterminate => exact Kept.wakeWaiters ((hretired.thin hretired.toBooked.terminate (thins_terminate ..)).done hterminate)

theorem Kept.activateTask (hactivate : s.activateTask index = some t) (h : s.Kept) : t.Kept := by
  unfold Scheduler.activateTask at hactivate
  dsimp only at hactivate
  split at hactivate
  · cases hactivate
  · cases hactivate
    exact h

theorem Kept.switchTo {frame : SyscallFrame} (h : s.Kept) (hswitch : s.switchTo index = some (frame, t)) : t.Kept := by
  unfold Scheduler.switchTo at hswitch
  dsimp only at hswitch
  split at hswitch
  · cases hswitch
  next hactivate =>
  have hactive := Kept.activateTask hactivate h
  cases hswitch
  split
  · exact hactive
  split
  · exact Kept.finalizeTerminatedTask hactive
  · exact hactive

theorem Kept.switchOr (h : s.Kept) : (s.switchOr frame index).scheduler.Kept := by
  unfold Scheduler.switchOr
  split
  · exact h
  · next hswitch => exact h.switchTo hswitch

theorem Kept.timerInterrupt (h : s.Kept) : (s.timerInterrupt frame).scheduler.Kept := by
  unfold Scheduler.timerInterrupt
  extract_lets ticked
  split
  · exact h
  split
  · exact h
  extract_lets _ _ _ _ _ held
  have hheld : held.Kept := h
  clear_value held
  split
  · exact hheld
  split
  · exact hheld
  split
  · exact hheld
  · exact Kept.switchOr hheld

theorem Kept.endTask {exitCode faultVector : UInt32} {reason : TerminationReason} (h : s.Kept) :
    (s.endTask frame index exitCode faultVector reason).scheduler.Kept := by
  unfold Scheduler.endTask
  split
  · next hterminate =>
    have hended := Kept.left h.terminateTask hterminate
    exact hended
  next hterminate =>
  have hended := Kept.left h.terminateTask hterminate
  split
  · exact hended
  · exact hended.switchOr

theorem Kept.restored {identity : ExecutionIdentity} {space : Option (Fin taskCapacity)} (h : s.Kept) :
    (s.restoreExecutionIdentity identity space).Kept := by
  unfold restoreExecutionIdentity
  split <;> exact h

theorem Kept.configureTask {space : Window} {entry initialStack initialEax : UInt32} {capabilities : ActiveCapabilityProfile}
    {path format : Bytes} {parentPid : Nat}
    (hmade : s.configureTask slot space entry initialStack initialEax capabilities path format parentPid = some t) (h : s.Kept) : t.Kept := by
  unfold Scheduler.configureTask at hmade
  split at hmade
  · cases hmade
  split at hmade
  · cases hmade
  next hcreate =>
  cases hmade
  exact h.create hcreate

theorem Kept.prepareTask {image : Image} {parentPid : Nat} (h : s.Kept) : (s.prepareTask slot image parentPid).1.Kept := by
  unfold Scheduler.prepareTask
  dsimp only
  split
  · exact h
  split
  · exact Kept.restored h
  split
  · exact Kept.restored h
  split
  · exact Kept.restored h
  split
  · exact Kept.restored h
  · next hmade => exact (Kept.configureTask hmade h).restored

theorem Kept.discardPreparedTask (h : s.Kept) : (s.discardPreparedTask slot).Kept := by
  have hclosed := (h.destroyed slot).closeAllHandles slot
  unfold Scheduler.discardPreparedTask
  dsimp only
  split
  · exact h
  · exact hclosed.thin hclosed.toBooked.destroyUnstarted (thins_destroyUnstarted ..)

theorem Kept.giveHandle (h : s.Kept) : (s.giveHandle frame parent slot).1.Kept := by
  unfold Scheduler.giveHandle
  dsimp only
  split
  · exact h.discardPreparedTask
  next hretain =>
  have hretained := (h.thin h.toBooked.retain (thins_retain ..)).done hretain
  split
  · exact Kept.discardPreparedTask (hretained.release _)
  split
  · exact Kept.storeUser hretained ..
  split
  · exact Kept.discardPreparedTask hretained
  · exact Kept.discardPreparedTask (hretained.release _)

theorem Kept.syscallSpawnTask {images : Bytes → Image} (h : s.Kept) : (s.syscallSpawnTask images frame parent).1.Kept := by
  unfold Scheduler.syscallSpawnTask
  split
  · exact h
  split
  · exact h
  split
  · exact h
  split
  · exact h
  split
  · exact h
  split
  · next hprepare => exact Kept.left h.prepareTask hprepare
  next hprepare =>
  have hprepared := Kept.left h.prepareTask hprepare
  split
  · exact hprepared
  split <;> next hgive => exact Kept.left hprepared.giveHandle hgive

theorem Kept.block (h : s.Kept) : (s.block frame index).scheduler.Kept := by
  unfold Scheduler.block
  split
  · exact h
  split
  · exact h
  split
  · exact h
  · next hswitch => exact h.switchTo hswitch

theorem Kept.beginWait {reapChild anyChild : Bool} (h : s.Kept) : (s.beginWait frame index key reapChild anyChild).scheduler.Kept := by
  have hstored : ∀ status, (if frame.ecx ≠ 0 then s.storeUser frame.ecx.toNat status else s).Kept := fun status => by
    split
    · exact h.storeUser ..
    · exact h
  unfold Scheduler.beginWait
  dsimp only
  split
  · exact h
  split
  · exact h
  split
  · split
    · exact hstored _
    split
    · exact hstored _
    · next hreap => exact (hstored _).reapChildTask hreap
  split
  · exact h
  · exact Kept.block h

theorem Kept.syscallWaitChild (h : s.Kept) : (s.syscallWaitChild frame index).scheduler.Kept := by
  unfold Scheduler.syscallWaitChild
  split
  · exact h
  · exact h.beginWait

theorem Kept.syscallWaitProcessHandle (h : s.Kept) : (s.syscallWaitProcessHandle frame index).scheduler.Kept := by
  unfold Scheduler.syscallWaitProcessHandle
  split
  · exact h
  split
  · exact h
  · exact h.beginWait

theorem Kept.syscallCloseProcessHandle (h : s.Kept) : (s.syscallCloseProcessHandle frame index).1.Kept := by
  unfold Scheduler.syscallCloseProcessHandle
  dsimp only
  split
  · exact h
  split
  · exact h
  · next hrelease => exact (h.release _).done hrelease

theorem Kept.syscallQueryProcess (h : s.Kept) : (s.syscallQueryProcess frame index).1.Kept := by
  unfold Scheduler.syscallQueryProcess
  split
  · exact h
  split
  · exact h
  split
  · exact h
  · exact h.storeUser ..

theorem Kept.sleepTask (h : s.Kept) : (s.sleepTask frame index).scheduler.Kept := by
  unfold Scheduler.sleepTask
  dsimp only
  split
  · exact h
  · exact Kept.switchOr h

theorem Kept.yieldTask (h : s.Kept) : (s.yieldTask frame index).scheduler.Kept := by
  unfold Scheduler.yieldTask
  dsimp only
  split
  · exact h
  split
  · exact h
  · exact Kept.switchOr h

theorem Kept.schedulerSyscall {images : Bytes → Image} (h : s.Kept) : (s.schedulerSyscall images frame).scheduler.Kept := by
  unfold Scheduler.schedulerSyscall
  extract_lets returned
  split
  · exact h
  split
  · exact h
  split
  · exact h
  split
  · exact h.syscallSpawnTask
  split
  · exact h.syscallWaitChild
  split
  · exact h.syscallWaitProcessHandle
  split
  · exact h.syscallCloseProcessHandle
  split
  · exact h.syscallQueryProcess
  split
  · exact h.endTask
  extract_lets saved kept
  split
  · exact Kept.sleepTask h
  split
  · exact Kept.yieldTask h
  · exact h

theorem Kept.cleanupTaskTable (h : s.Kept) : s.cleanupTaskTable.Kept := by
  have hround : ∀ s index, Kept s → (cleanupTask s index).Kept := fun s index h => (h.destroyed index).closeAllHandles index
  unfold Scheduler.cleanupTaskTable
  extract_lets cleaned
  have hcleaned : cleaned.Kept := Kept.rounds hround _ h
  clear_value cleaned
  exact hcleaned.thin (booked_reset hcleaned.toBooked) (thins_reset _)

/-- What the kernel asks of the scheduler: the parts of the start and the end of a batch, and the interrupts. -/
inductive Request
  | resetTaskTable
  | prepareTask (slot : Fin taskCapacity) (image : Image)
  | prepareInternalProbeTask (slot : Fin taskCapacity) (space : Option Window) (initialEax : UInt32) (path format digest : Bytes)
  | startSchedulerBatch
  | timerInterrupt (frame : SyscallFrame)
  | userException (frame : SyscallFrame) (vector : UInt32)
  | schedulerSyscall (images : Bytes → Image) (frame : SyscallFrame)
  | cleanupTaskTable
  | userWindowCleanup

def serve (s : Scheduler) : Request → Scheduler
  | .resetTaskTable => s.resetTaskTable
  | .prepareTask slot image => (s.prepareTask slot image 0).1
  | .prepareInternalProbeTask slot space initialEax path format digest =>
    (s.prepareInternalProbeTask slot space initialEax path format digest).getD s
  | .startSchedulerBatch => s.startSchedulerBatch.getD s
  | .timerInterrupt frame => (s.timerInterrupt frame).scheduler
  | .userException frame vector => (s.userException frame vector).scheduler
  | .schedulerSyscall images frame => (s.schedulerSyscall images frame).scheduler
  | .cleanupTaskTable => s.cleanupTaskTable
  | .userWindowCleanup => s.userWindowCleanup

theorem Kept.getD {result : Option Scheduler} (h : s.Kept) (hresult : ∀ t, result = some t → t.Kept) : (result.getD s).Kept := by
  cases hcase : result with
  | none => exact h
  | some t => exact hresult t hcase

theorem Kept.serve (h : s.Kept) (request : Request) : (s.serve request).Kept := by
  have hreset : ∀ {s : Scheduler}, s.Kept → s.resetTaskTable.Kept := fun h => h.thin (booked_reset h.toBooked) (thins_reset _)
  cases request with
  | resetTaskTable => exact hreset h
  | prepareTask slot image => exact h.prepareTask
  | prepareInternalProbeTask slot space initialEax path format digest =>
    refine h.getD fun t hmade => ?_
    unfold prepareInternalProbeTask at hmade
    split at hmade
    · cases hmade
    dsimp only at hmade
    split at hmade
    · cases hmade
    · exact Kept.configureTask hmade h
  | startSchedulerBatch =>
    refine h.getD fun t hstart => ?_
    unfold startSchedulerBatch at hstart
    dsimp only at hstart
    split at hstart
    · cases hstart
    · exact Kept.activateTask hstart h
  | timerInterrupt frame => exact h.timerInterrupt
  | userException frame vector =>
    show (s.userException frame vector).scheduler.Kept
    unfold userException
    split
    · exact h
    split
    · exact h
    · exact h.endTask
  | schedulerSyscall images frame => exact h.schedulerSyscall
  | cleanupTaskTable => exact h.cleanupTaskTable
  | userWindowCleanup =>
    have hcancelled : s.cancelCurrent.Kept := by
      unfold cancelCurrent
      split
      · exact h
      split
      · exact h.terminateTask
      · exact h
    show s.userWindowCleanup.Kept
    unfold userWindowCleanup
    extract_lets _ stopped cleaned
    have hcleaned : cleaned.Kept := Kept.cleanupTaskTable (show stopped.Kept from hcancelled)
    clear_value cleaned
    exact hreset hcleaned

/-- From the start of the kernel, whatever it asks of the scheduler in whatever order: the two counters are those of the processes that
run and of all that are kept; none is kept that has ended, that its parent knows of and that no handle is open on; no ended process waits
for a parent it does not have; only processes that nothing referred to were collected; and no parent is told twice of the end of a child. -/
theorem served_books (s : Scheduler) (requests : List Request) :
    let served := requests.foldl serve { s with lifecycle := {}, delivered := [] }
    Books served.lifecycle served.delivered :=
  Kept.rounds (fun _ request h => h.serve request) requests ⟨booked_initial, nofun, nofun, nofun, nofun, List.nodup_nil⟩

end Scheduler
end ZenovOS.Process
