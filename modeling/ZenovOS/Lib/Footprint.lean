import ZenovOS.Lib.Mach

/-! # The cells a program touches

A store has cells beside the rest of it. A program is confined to some of them if neither its value nor what it leaves
depends on another cell, and it changes no other. -/

namespace ZenovOS

/-- The cells of a store, which can be looked at and replaced all at once. -/
structure Cells (σ ι β : Type) where
  get : σ → ι → β
  set : (ι → β) → σ → σ
  get_set : ∀ c s, get (set c s) = c
  set_get : ∀ s, set (get s) s = s

namespace Mach
variable {σ ι β α α' : Type} {C : Cells σ ι β} {P P' : ι → Prop}

/-- With other values in the cells outside `P` the program ends as before, and these values are still there. -/
def Confined (C : Cells σ ι β) (P : ι → Prop) (m : Mach σ α) : Prop :=
  ∀ s c, (∀ i, P i → c i = C.get s i) →
    ∃ c', m (C.set c s) = ((m s).1, C.set c' (m s).2) ∧ ∀ i, (P i → c' i = C.get (m s).2 i) ∧ (¬P i → c' i = c i)

theorem confined_pure (a : α) : Confined C P (pure a : Mach σ α) :=
  fun _ c hc => ⟨c, rfl, fun i => ⟨hc i, fun _ => rfl⟩⟩

theorem Confined.bind {m : Mach σ α} {f : α → Mach σ α'} (hm : Confined C P m) (hf : ∀ a, Confined C P (f a)) : Confined C P (m >>= f) := by
  intro s c hc
  obtain ⟨c₁, hrun, hc₁⟩ := hm s c hc
  have hbind : ∀ t, (m >>= f) t = andThen m f t := fun _ => rfl
  rw [hbind, hbind]
  unfold andThen
  rw [hrun]
  rcases hms : m s with ⟨_ | a, s₁⟩
  · rw [hms] at hc₁
    exact ⟨c₁, rfl, hc₁⟩
  · rw [hms] at hc₁
    obtain ⟨c₂, hrun₂, hc₂⟩ := hf a s₁ c₁ fun i hi => (hc₁ i).1 hi
    exact ⟨c₂, hrun₂, fun i => ⟨(hc₂ i).1, fun hi => ((hc₂ i).2 hi).trans ((hc₁ i).2 hi)⟩⟩

theorem confined_get_bind {f : σ → Mach σ α} (hf : ∀ s, Confined C P (f s)) (hcells : ∀ s c, f (C.set c s) = f s) :
    Confined C P (get >>= f) := by
  intro s c hc
  have hget : ∀ t, (get >>= f) t = f t t := fun _ => rfl
  rw [hget, hget, hcells]
  exact hf s s c hc

theorem confined_modify {f : σ → σ} (hf : ∀ s c, f (C.set c s) = C.set c (f s)) : Confined C P (modify f) := by
  intro s c hc
  have hsame : C.get (f s) = C.get s := by
    have hset := hf s (C.get s)
    rw [C.set_get] at hset
    rw [hset, C.get_set]
  refine ⟨c, ?_, fun i => ⟨fun hi => ?_, fun _ => rfl⟩⟩
  · show (some (), f (C.set c s)) = _
    rw [hf]
    rfl
  · show c i = C.get (f s) i
    rw [hsame, hc i hi]

end Mach
end ZenovOS
