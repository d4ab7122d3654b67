import Mathlib.Data.List.FinRange
import Mathlib.Tactic.Ring

/-! # The scheduling policy

`scheduler_policy.inc`: priorities with aging, and round robin among the ready tasks of the highest one. -/

namespace ZenovOS.Process.SchedulerPolicy

abbrev priorityLevels : UInt8 := 4
abbrev defaultPriority : UInt8 := 1
abbrev maximumPriority : UInt8 := priorityLevels - 1
abbrev agingTicks : UInt32 := 50
abbrev minimumQuantumTicks : UInt8 := 3

structure Candidate where
  ready : Bool
  basePriority : UInt8
  dynamicPriority : UInt8
  waitTicks : UInt32
  deriving DecidableEq

def clampPriority (priority : UInt8) : UInt8 := if maximumPriority < priority then maximumPriority else priority

def quantumTicks (priority : UInt8) : UInt8 := minimumQuantumTicks + clampPriority priority

def accountWait (candidate : Candidate) : Candidate :=
  if !candidate.ready then { candidate with waitTicks := 0 }
  else if agingTicks ≤ candidate.waitTicks + 1 ∧ candidate.dynamicPriority < maximumPriority then
    { candidate with dynamicPriority := candidate.dynamicPriority + 1, waitTicks := 0 }
  else { candidate with waitTicks := candidate.waitTicks + 1 }

def resetAfterRun (candidate : Candidate) : Candidate :=
  { candidate with dynamicPriority := clampPriority candidate.basePriority, waitTicks := 0 }

/-- One round of the loop of `select`: the index so far with its priority. -/
def selectIndex {count : Nat} (candidates : Fin count → Candidate) (selected : Option (Fin count × UInt8)) (index : Fin count) :
    Option (Fin count × UInt8) :=
  let candidate := candidates index
  if !candidate.ready then selected
  else
    match selected with
    | none => some (index, candidate.dynamicPriority)
    | some (found, best) =>
      if best < candidate.dynamicPriority then some (index, candidate.dynamicPriority) else some (found, best)

/-- The index of `current`; before the first task it is -1. -/
def position {count : Nat} (current : Option (Fin count)) : Int := current.elim (-1) fun index => index.val

/-- The index that the loop looks at in the round for `distance + 1`. -/
def indexAt {count : Nat} (current : Option (Fin count)) (distance : Fin count) : Fin count where
  val := ((position current + (distance.val + 1) + count) % count).toNat
  isLt := by
    have hpos : (0 : Int) < count := Int.natCast_pos.mpr distance.pos
    have hlt := Int.emod_lt_of_pos (position current + (distance.val + 1) + count) hpos
    have hnonneg := Int.emod_nonneg (position current + (distance.val + 1) + count) hpos.ne'
    omega

def select {count : Nat} (candidates : Fin count → Candidate) (current : Option (Fin count)) : Option (Fin count) :=
  (((List.finRange count).map (indexAt current)).foldl (selectIndex candidates) none).map (·.1)

end ZenovOS.Process.SchedulerPolicy
