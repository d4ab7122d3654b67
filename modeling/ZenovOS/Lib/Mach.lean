import Mathlib.Tactic.Ring

/-! # Programs whose run can be cut off

A program over a store `σ` ends with a value, or the machine stops in the middle of it. What the run
did to the store is there in both cases, so a crash leaves an intermediate store behind.

`Mach.wp m Q C s` says what a run of `m` from `s` leaves: `Q` of the value and the store when it ends,
`C` of the store when it is cut off. The lemmas are the rules by which it is computed along a program. -/

namespace ZenovOS

/-- A program over the store `σ`: it ends with a value, or is cut off (`none`). -/
def Mach (σ α : Type) : Type := σ → Option α × σ

namespace Mach
variable {σ τ α β : Type}

def ret (a : α) : Mach σ α := fun s => (some a, s)

def andThen (m : Mach σ α) (f : α → Mach σ β) : Mach σ β := fun s =>
  match m s with
  | (some a, s') => f a s'
  | (none, s') => (none, s')

instance : Monad (Mach σ) where
  pure := ret
  bind := andThen

/-- The store. -/
def get : Mach σ σ := fun s => (some s, s)

def modify (f : σ → σ) : Mach σ Unit := fun s => (some (), f s)

/-- The machine stops here. -/
def stop : Mach σ α := fun s => (none, s)

/-- Run a program over a part of a larger store. -/
def zoom (part : τ → σ) (put : τ → σ → τ) (m : Mach σ α) : Mach τ α := fun t =>
  ((m (part t)).1, put t (m (part t)).2)

/-- A run of `m` from `s` ends with `Q`, or is cut off with `C`. -/
def wp (m : Mach σ α) (Q : α → σ → Prop) (C : σ → Prop) (s : σ) : Prop :=
  match m s with
  | (some a, s') => Q a s'
  | (none, s') => C s'

section Rules
variable {Q : α → σ → Prop} {C : σ → Prop} {s : σ}

@[simp] theorem wp_pure {a : α} : wp (pure a : Mach σ α) Q C s ↔ Q a s := Iff.rfl

@[simp] theorem wp_bind {m : Mach σ β} {f : β → Mach σ α} :
    wp (m >>= f) Q C s ↔ wp m (fun b => wp (f b) Q C) C s := by
  show wp (andThen m f) Q C s ↔ _
  unfold wp andThen
  rcases m s with ⟨_ | b, s'⟩ <;> rfl

@[simp] theorem wp_get {Q : σ → σ → Prop} : wp (get : Mach σ σ) Q C s ↔ Q s s := Iff.rfl

@[simp] theorem wp_modify {Q : Unit → σ → Prop} {f : σ → σ} : wp (modify f) Q C s ↔ Q () (f s) := Iff.rfl

@[simp] theorem wp_zoom {part : τ → σ} {put : τ → σ → τ} {m : Mach σ α} {Q : α → τ → Prop} {C : τ → Prop} {t : τ} :
    wp (zoom part put m) Q C t ↔ wp m (fun a s' => Q a (put t s')) (fun s' => C (put t s')) (part t) := by
  unfold wp zoom
  rcases m (part t) with ⟨_ | a, s'⟩ <;> rfl

theorem wp_ite {c : Prop} [Decidable c] {m n : Mach σ α} (ht : c → wp m Q C s) (hf : ¬c → wp n Q C s) :
    wp (if c then m else n) Q C s := by
  split
  · exact ht ‹_›
  · exact hf ‹_›

theorem wp_mono {m : Mach σ α} {Q' : α → σ → Prop} {C' : σ → Prop} (h : wp m Q C s)
    (hQ : ∀ a s', Q a s' → Q' a s') (hC : ∀ s', C s' → C' s') : wp m Q' C' s := by
  unfold wp at h ⊢
  rcases hm : m s with ⟨_ | a, s'⟩ <;> rw [hm] at h
  · exact hC s' h
  · exact hQ a s' h

theorem wp_and {m : Mach σ α} {Q' : α → σ → Prop} {C' : σ → Prop} (h : wp m Q C s) (h' : wp m Q' C' s) :
    wp m (fun a s' => Q a s' ∧ Q' a s') (fun s' => C s' ∧ C' s') s := by
  unfold wp at *
  rcases hm : m s with ⟨_ | a, s'⟩ <;> rw [hm] at h h'
  · exact ⟨h, h'⟩
  · exact ⟨h, h'⟩

theorem wp_always {m : Mach σ α} (hQ : ∀ a s', Q a s') (hC : ∀ s', C s') : wp m Q C s := by
  unfold wp
  split
  · exact hQ _ _
  · exact hC _

theorem wp_self (m : Mach σ α) (s : σ) : wp m (fun a s' => m s = (some a, s')) (fun s' => m s = (none, s')) s := by
  unfold wp
  rcases m s with ⟨_ | a, s'⟩ <;> rfl

theorem wp_seq {m : Mach σ β} {f : β → Mach σ α} {R : β → σ → Prop} {C' : σ → Prop} (hm : wp m R C' s)
    (hC : ∀ s', C' s' → C s') (hf : ∀ b s', R b s' → wp (f b) Q C s') : wp (m >>= f) Q C s :=
  wp_bind.mpr (wp_mono hm hf hC)

theorem wp_ended {m : Mach σ α} {a : α} {s' : σ} (h : wp m Q C s) (hm : m s = (some a, s')) : Q a s' := by
  unfold wp at h
  rw [hm] at h
  exact h

theorem wp_cut {m : Mach σ α} {s' : σ} (h : wp m Q C s) (hm : m s = (none, s')) : C s' := by
  unfold wp at h
  rw [hm] at h
  exact h

theorem run_of_fst {m : Mach σ α} {r : Option α} (h : (m s).1 = r) : m s = (r, (m s).2) := by
  rw [← h]

theorem wp_left {m : Mach σ α} {r : Option α} {s' : σ} {P : σ → Prop} (h : wp m (fun _ => P) P s) (hm : m s = (r, s')) :
    P s' := by
  cases r with
  | none => exact wp_cut h hm
  | some a => exact wp_ended h hm

theorem bind_run {m : Mach σ β} {f : β → Mach σ α} {b : β} {s' : σ} (h : m s = (some b, s')) : (m >>= f) s = f b s' := by
  show andThen m f s = _
  unfold andThen
  rw [h]

theorem bind_ended {m : Mach σ β} {f : β → Mach σ α} {a : α} {s' : σ} (h : (m >>= f) s = (some a, s')) :
    ∃ b s₁, m s = (some b, s₁) ∧ f b s₁ = (some a, s') := by
  have h : andThen m f s = (some a, s') := h
  unfold andThen at h
  rcases hm : m s with ⟨_ | b, s₁⟩ <;> rw [hm] at h
  · cases h
  · exact ⟨b, s₁, rfl, h⟩

theorem wp_ends {m : Mach σ α} (h : wp m Q (fun _ => False) s) : ∃ a s', m s = (some a, s') ∧ Q a s' := by
  unfold wp at h
  rcases hm : m s with ⟨_ | a, s'⟩ <;> rw [hm] at h
  · exact h.elim
  · exact ⟨a, s', rfl, h⟩

end Rules

/-! ### Programs that end with a value or an error -/

/-- A run of `m` ends with the value `a` and `Q a`, or with an error and `E`, or is cut off with `C`. -/
def wpExcept {ε : Type} (m : ExceptT ε (Mach σ) α) (Q : α → σ → Prop) (E : ε → σ → Prop) (C : σ → Prop) (s : σ) : Prop :=
  wp m.run (fun r s' => match r with | .ok a => Q a s' | .error e => E e s') C s

section ExceptRules
variable {ε : Type} {Q : α → σ → Prop} {E : ε → σ → Prop} {C : σ → Prop} {s : σ}

@[simp] theorem wpExcept_pure {a : α} : wpExcept (pure a : ExceptT ε (Mach σ) α) Q E C s ↔ Q a s := Iff.rfl

@[simp] theorem wpExcept_lift {m : Mach σ α} :
    wpExcept (ExceptT.lift m : ExceptT ε (Mach σ) α) Q E C s ↔ wp m Q C s := by
  have hrun : (ExceptT.lift m : ExceptT ε (Mach σ) α).run s = andThen m (fun a => ret (Except.ok a)) s := rfl
  unfold wpExcept wp
  rw [hrun]
  unfold andThen
  rcases m s with ⟨_ | a, s'⟩ <;> rfl

@[simp] theorem wpExcept_bind {m : ExceptT ε (Mach σ) β} {f : β → ExceptT ε (Mach σ) α} :
    wpExcept (m >>= f) Q E C s ↔ wpExcept m (fun b => wpExcept (f b) Q E C) E C s := by
  have hrun : (m >>= f).run s = andThen m.run (ExceptT.bindCont f) s := rfl
  unfold wpExcept wp
  rw [hrun]
  unfold andThen
  rcases m.run s with ⟨_ | (e | b), s'⟩ <;> rfl

theorem wpExcept_ite {c : Prop} [Decidable c] {m n : ExceptT ε (Mach σ) α} (ht : c → wpExcept m Q E C s)
    (hf : ¬c → wpExcept n Q E C s) : wpExcept (if c then m else n) Q E C s := by
  split
  · exact ht ‹_›
  · exact hf ‹_›

end ExceptRules

end Mach
end ZenovOS
