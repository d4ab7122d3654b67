import ZenovOS.Lib.Bytes
import ZenovOS.Lib.Mach
import Mathlib.Logic.Function.Basic

/-! # A store of files whose writes are atomic

Each request is answered in a way that is not the program's to choose: it passes, it fails, or the
machine stops in it. A write replaces a whole file or nothing, and one that fails or is cut off may have
replaced it. -/

namespace ZenovOS

/-- How a request to the store goes. -/
inductive Answer
  | passes
  | fails (landed : Bool)
  | cut (landed : Bool)
  deriving DecidableEq

structure FileStore (κ : Type) where
  files : κ → Option Bytes
  answers : List Answer

namespace FileStore
variable {κ : Type}

/-- Every request passes. -/
def Calm (s : FileStore κ) : Prop := s.answers = []

/-- The next answer, and the store after it. -/
def next (s : FileStore κ) : Answer × FileStore κ :=
  match s.answers with
  | [] => (.passes, s)
  | a :: rest => (a, { s with answers := rest })

@[simp] theorem next_files (s : FileStore κ) : s.next.2.files = s.files := by
  unfold next
  split <;> rfl

theorem next_calm {s : FileStore κ} (h : s.Calm) : s.next = (.passes, s) := by
  unfold next
  rw [h]

theorem next_cases (s : FileStore κ) :
    (∃ s', s.next = (.passes, s') ∧ s'.files = s.files ∧ (s.Calm → s'.Calm)) ∨
      (¬s.Calm ∧ ∃ a s', s.next = (a, s') ∧ a ≠ .passes ∧ s'.files = s.files) := by
  have hf := next_files s
  rcases hn : s.next with ⟨a, s'⟩
  rw [hn] at hf
  by_cases ha : a = .passes
  · subst ha
    refine .inl ⟨s', rfl, hf, fun hc => ?_⟩
    rw [next_calm hc] at hn
    cases hn
    exact hc
  · refine .inr ⟨fun hc => ?_, a, s', rfl, ha, hf⟩
    rw [next_calm hc] at hn
    cases hn
    exact ha rfl

/-- Read a file into a buffer of `capacity` bytes. -/
def read (path : κ) (capacity : Nat) : Mach (FileStore κ) (Option Bytes) := fun s =>
  match s.next with
  | (.passes, s') => (some ((s.files path).filter fun b => b.length ≤ capacity), s')
  | (.fails _, s') => (some none, s')
  | (.cut _, s') => (none, s')

/-- Make what was written durable. -/
def sync : Mach (FileStore κ) Bool := fun s =>
  match s.next with
  | (.passes, s') => (some true, s')
  | (.fails _, s') => (some false, s')
  | (.cut _, s') => (none, s')

open Mach

theorem wp_read {s : FileStore κ} {path : κ} {capacity : Nat} {Q : Option Bytes → FileStore κ → Prop}
    {C : FileStore κ → Prop}
    (hsome : ∀ b s', s.files path = some b → b.length ≤ capacity → s'.files = s.files → (s.Calm → s'.Calm) → Q (some b) s')
    (hnone : ∀ s', s'.files = s.files → (s.Calm → s'.Calm ∧ ∀ b, s.files path = some b → capacity < b.length) → Q none s')
    (hcut : ¬s.Calm → ∀ s', s'.files = s.files → C s') : wp (read path capacity) Q C s := by
  unfold wp read
  obtain ⟨s', hn, hf, hc⟩ | ⟨hcalm, a, s', hn, ha, hf⟩ := next_cases s
  · rw [hn]
    dsimp only
    cases hb : s.files path with
    | none => exact hnone s' hf fun h => ⟨hc h, fun b hb' => by rw [hb] at hb'; cases hb'⟩
    | some b =>
      by_cases hle : b.length ≤ capacity
      · rw [Option.filter_some, if_pos (by simpa using hle)]
        exact hsome b s' hb hle hf hc
      · rw [Option.filter_some, if_neg (by simpa using hle)]
        refine hnone s' hf fun h => ⟨hc h, fun b' hb' => ?_⟩
        rw [hb] at hb'
        cases hb'
        exact Nat.not_le.mp hle
  · rw [hn]
    cases a with
    | passes => exact absurd rfl ha
    | fails _ => exact hnone s' hf fun h => absurd h hcalm
    | cut _ => exact hcut hcalm s' hf

theorem wp_sync {s : FileStore κ} {Q : Bool → FileStore κ → Prop} {C : FileStore κ → Prop}
    (hok : ∀ s', s'.files = s.files → (s.Calm → s'.Calm) → Q true s')
    (hfail : ¬s.Calm → ∀ s', s'.files = s.files → Q false s')
    (hcut : ¬s.Calm → ∀ s', s'.files = s.files → C s') : wp sync Q C s := by
  unfold wp sync
  obtain ⟨s', hn, hf, hc⟩ | ⟨hcalm, a, s', hn, ha, hf⟩ := next_cases s
  · rw [hn]
    exact hok s' hf hc
  · rw [hn]
    cases a with
    | passes => exact absurd rfl ha
    | fails _ => exact hfail hcalm s' hf
    | cut _ => exact hcut hcalm s' hf

variable [DecidableEq κ]

/-- The store after a write that took place or not. -/
def put (s : FileStore κ) (path : κ) (data : Bytes) (landed : Bool) : FileStore κ :=
  if landed then { s with files := Function.update s.files path (some data) } else s

/-- Replace a file. -/
def write (path : κ) (data : Bytes) : Mach (FileStore κ) Bool := fun s =>
  match s.next with
  | (.passes, s') => (some true, s'.put path data true)
  | (.fails landed, s') => (some false, s'.put path data landed)
  | (.cut landed, s') => (none, s'.put path data landed)

theorem put_files (s : FileStore κ) (path : κ) (data : Bytes) (landed : Bool) :
    (s.put path data landed).files = s.files ∨
      (s.put path data landed).files = Function.update s.files path (some data) := by
  cases landed
  · exact .inl rfl
  · exact .inr rfl

theorem wp_write {s : FileStore κ} {path : κ} {data : Bytes} {Q : Bool → FileStore κ → Prop} {C : FileStore κ → Prop}
    (hok : ∀ s', s'.files = Function.update s.files path (some data) → (s.Calm → s'.Calm) → Q true s')
    (hfail : ¬s.Calm → ∀ s', s'.files = s.files ∨ s'.files = Function.update s.files path (some data) → Q false s')
    (hcut : ¬s.Calm → ∀ s', s'.files = s.files ∨ s'.files = Function.update s.files path (some data) → C s') :
    wp (write path data) Q C s := by
  unfold wp write
  obtain ⟨s', hn, hf, hc⟩ | ⟨hcalm, a, s', hn, ha, hf⟩ := next_cases s
  · rw [hn]
    exact hok _ (by rw [← hf]; rfl) hc
  · rw [hn]
    cases a with
    | passes => exact absurd rfl ha
    | fails landed => exact hfail hcalm _ (by rw [← hf]; exact put_files s' path data landed)
    | cut landed => exact hcut hcalm _ (by rw [← hf]; exact put_files s' path data landed)

/-! ### Runs along the answers

The rules above say what a request can do. Where it matters which answer it gets, these say it. -/

/-- The answer to the next request; past the end of the list every request passes. -/
def upcoming (answers : List Answer) : Answer := answers.headD .passes

omit [DecidableEq κ] in
theorem next_eq (s : FileStore κ) : s.next = (upcoming s.answers, { s with answers := s.answers.tail }) := by
  unfold next upcoming
  split
  · rename_i h
    cases s
    cases h
    rfl
  · rename_i h
    rw [h]
    rfl

/-- The store after the next request, with the files it leaves. -/
def after (s : FileStore κ) (files : κ → Option Bytes) : FileStore κ := ⟨files, s.answers.tail⟩

/-- The files after a write that took place or not. -/
def landing (files : κ → Option Bytes) (path : κ) (data : Bytes) (landed : Bool) : κ → Option Bytes :=
  if landed then Function.update files path (some data) else files

omit [DecidableEq κ] in
theorem wp_read_answer {s : FileStore κ} {path : κ} {capacity : Nat} {Q : Option Bytes → FileStore κ → Prop}
    {C : FileStore κ → Prop} : wp (read path capacity) Q C s ↔
      match upcoming s.answers with
      | .passes => Q ((s.files path).filter fun b => b.length ≤ capacity) (s.after s.files)
      | .fails _ => Q none (s.after s.files)
      | .cut _ => C (s.after s.files) := by
  unfold wp read
  rw [next_eq]
  cases upcoming s.answers <;> rfl

omit [DecidableEq κ] in
theorem wp_sync_answer {s : FileStore κ} {Q : Bool → FileStore κ → Prop} {C : FileStore κ → Prop} :
    wp sync Q C s ↔
      match upcoming s.answers with
      | .passes => Q true (s.after s.files)
      | .fails _ => Q false (s.after s.files)
      | .cut _ => C (s.after s.files) := by
  unfold wp sync
  rw [next_eq]
  cases upcoming s.answers <;> rfl

theorem wp_write_answer {s : FileStore κ} {path : κ} {data : Bytes} {Q : Bool → FileStore κ → Prop}
    {C : FileStore κ → Prop} : wp (write path data) Q C s ↔
      match upcoming s.answers with
      | .passes => Q true (s.after (landing s.files path data true))
      | .fails landed => Q false (s.after (landing s.files path data landed))
      | .cut landed => C (s.after (landing s.files path data landed)) := by
  unfold wp write
  rw [next_eq]
  rcases upcoming s.answers with _ | (_ | _) | (_ | _) <;> rfl

end FileStore
end ZenovOS
