import ZenovOS.Lib.Bytes
import ZenovOS.Lib.Mach
import Mathlib.Logic.Function.Basic

/-! # A store of files that its first broken request takes away

A file is written, renamed or removed as a whole or not at all. How a request goes is not the program's to
choose. One that is turned down changes nothing. One that breaks in the device may have taken effect, and
takes the store away: every request after it fails until the machine starts again. -/

namespace ZenovOS

/-- How a request goes. -/
inductive Reply
  | passes
  | refused
  /-- The device fails. `reported` says whether a request that can still be reported as done is. -/
  | breaks (landed reported : Bool)
  /-- The machine stops. -/
  | cut (landed : Bool)
  deriving DecidableEq

structure Drive (κ : Type) where
  files : κ → Option Bytes
  mounted : Bool
  capacity : Nat
  generation : Nat
  replies : List Reply

abbrev lastGeneration : Nat := 0xFFFFFFFF

namespace Drive
variable {κ : Type}

/-- The reply to the next request; past the end of the list every request passes. -/
def upcoming (d : Drive κ) : Reply := d.replies.headD .passes

/-- The store after a request that left `files`. -/
def after (d : Drive κ) (files : κ → Option Bytes) : Drive κ := { d with files, replies := d.replies.tail }

/-- The store after a request that broke. -/
def lost (d : Drive κ) (files : κ → Option Bytes) : Drive κ := { d.after files with mounted := false }

/-- The files after a request that took effect or not. -/
def landing (d : Drive κ) (files : κ → Option Bytes) (landed : Bool) : κ → Option Bytes := if landed then files else d.files

/-- A request that is to leave `files`. -/
def request (pending : Bool) (files : κ → Option Bytes) : Mach (Drive κ) Bool := fun d =>
  match d.upcoming with
  | .passes => (some true, d.after files)
  | .refused => (some false, d.after d.files)
  | .breaks landed reported => (some (pending && landed && reported), d.lost (d.landing files landed))
  | .cut landed => (none, d.lost (d.landing files landed))

/-- Read a file into a buffer of `capacity` bytes. What is there is read, unless the device fails. -/
def read (path : κ) (capacity : Nat) : Mach (Drive κ) (Option Bytes) := fun d =>
  if !d.mounted then (some none, d)
  else
    match d.files path with
    | none => (some none, d)
    | some data =>
      if capacity < data.length then (some none, d)
      else
        match d.upcoming with
        | .breaks _ _ => (some none, d.lost d.files)
        | .cut _ => (none, d.lost d.files)
        | _ => (some (some data), d.after d.files)

/-- Look a file up. -/
def query (d : Drive κ) (path : κ) : Option Bytes := if d.mounted then d.files path else none

/-- Make what was written durable. -/
def sync : Mach (Drive κ) Bool := fun d =>
  if !d.mounted ∨ d.generation = lastGeneration then (some false, d)
  else
    match d.upcoming with
    | .breaks _ _ => (some false, d.lost d.files)
    | .cut _ => (none, d.lost d.files)
    | _ => (some true, { d.after d.files with generation := d.generation + 1 })

section Changes
variable [DecidableEq κ]

/-- Replace a file. -/
def write (path : κ) (data : Bytes) : Mach (Drive κ) Bool := do
  let d ← Mach.get
  if !d.mounted ∨ d.capacity < data.length then pure false
  else request true (Function.update d.files path (some data))

end Changes

/-- The store when the machine has started again. -/
def reboot (d : Drive κ) (replies : List Reply) : Drive κ := { d with mounted := true, replies }

/-! ### Rules -/

open Mach

variable {d : Drive κ} {files : κ → Option Bytes} {path : κ} {C : Drive κ → Prop}

theorem wp_request {pending : Bool} {Q : Bool → Drive κ → Prop} :
    wp (request pending files) Q C d ↔
      match d.upcoming with
      | .passes => Q true (d.after files)
      | .refused => Q false (d.after d.files)
      | .breaks landed reported => Q (pending && landed && reported) (d.lost (d.landing files landed))
      | .cut landed => C (d.lost (d.landing files landed)) := by
  unfold wp request
  cases d.upcoming <;> rfl

theorem wp_read {capacity : Nat} {Q : Option Bytes → Drive κ → Prop}
    (hsome : ∀ data, d.mounted = true → d.files path = some data → data.length ≤ capacity → Q (some data) (d.after d.files))
    (hnone : d.mounted = true → (∀ data, d.files path = some data → capacity < data.length) → Q none d)
    (hlost : d.mounted = true → Q none (d.lost d.files)) (hoff : d.mounted = false → Q none d)
    (hcut : d.mounted = true → C (d.lost d.files)) : wp (read path capacity) Q C d := by
  unfold wp read
  cases hm : d.mounted with
  | false => exact hoff hm
  | true =>
    cases hf : d.files path with
    | none => exact hnone hm fun data h => by rw [hf] at h; cases h
    | some data =>
      dsimp only [Bool.not_true, Bool.false_eq_true, if_false]
      by_cases hc : capacity < data.length
      · rw [if_pos hc]
        refine hnone hm fun data' h => ?_
        rw [hf] at h
        cases h
        exact hc
      · rw [if_neg hc]
        have hread := hsome data hm hf (Nat.le_of_not_lt hc)
        cases d.upcoming with
        | passes => exact hread
        | refused => exact hread
        | breaks _ _ => exact hlost hm
        | cut _ => exact hcut hm

theorem wp_sync {Q : Bool → Drive κ → Prop} (hoff : d.mounted = false ∨ d.generation = lastGeneration → Q false d)
    (hon : d.mounted = true → d.generation ≠ lastGeneration → match d.upcoming with
      | .breaks _ _ => Q false (d.lost d.files)
      | .cut _ => C (d.lost d.files)
      | _ => Q true { d.after d.files with generation := d.generation + 1 }) : wp sync Q C d := by
  unfold wp sync
  by_cases h : !d.mounted ∨ d.generation = lastGeneration
  · rw [if_pos h]
    refine hoff ?_
    simpa using h
  · rw [if_neg h]
    simp only [Bool.not_eq_true', not_or, Bool.not_eq_false] at h
    have hrequest := hon h.1 h.2
    revert hrequest
    cases d.upcoming <;> exact id

section ChangeRules
variable [DecidableEq κ]

theorem wp_write {data : Bytes} {Q : Bool → Drive κ → Prop} (hoff : d.mounted = false ∨ d.capacity < data.length → Q false d)
    (hon : d.mounted = true → data.length ≤ d.capacity → match d.upcoming with
      | .passes => Q true (d.after (Function.update d.files path (some data)))
      | .refused => Q false (d.after d.files)
      | .breaks landed reported =>
        Q (landed && reported) (d.lost (d.landing (Function.update d.files path (some data)) landed))
      | .cut landed => C (d.lost (d.landing (Function.update d.files path (some data)) landed))) :
    wp (write path data) Q C d := by
  unfold write
  rw [wp_bind, wp_get]
  refine wp_ite (fun h => hoff ?_) fun h => ?_
  · simpa using h
  · simp only [Bool.not_eq_true', not_or, Bool.not_eq_false, Nat.not_lt] at h
    rw [wp_request]
    simpa only [Bool.true_and] using hon h.1 h.2

end ChangeRules

end Drive
end ZenovOS
