import Mathlib.Logic.Equiv.Defs
import Mathlib.Logic.Function.Basic
import Mathlib.Tactic.Ring

/-! # Ownership

Items are taken from a stock into slots and given back. No item is in two slots or at once in a slot and in the
stock, and none is lost; with all slots empty the stock is what it was. -/

namespace ZenovOS.Ledger
variable {σ ι : Type}

/-- The stock `free` and the slots hold the items of `initial`, each in one place. -/
structure Balanced (initial free : ι → Prop) (own : σ → Option ι) : Prop where
  apart : ∀ s x, own s = some x → ¬free x
  unique : ∀ s t x, own s = some x → own t = some x → s = t
  total : ∀ x, initial x ↔ free x ∨ ∃ s, own s = some x

variable {initial free free' : ι → Prop} {own : σ → Option ι} {s : σ} {x : ι}

theorem Balanced.empty : Balanced initial initial (fun _ : σ => none) where
  apart _ _ h := by cases h
  unique _ _ _ h := by cases h
  total x := by
    refine ⟨.inl, fun h => h.elim id ?_⟩
    rintro ⟨_, h⟩
    cases h

theorem Balanced.take [DecidableEq σ] (h : Balanced initial free own) (hs : own s = none) (hx : free x)
    (hfree : ∀ y, free' y ↔ free y ∧ y ≠ x) : Balanced initial free' (Function.update own s (some x)) where
  apart t y hy hf := by
    rw [hfree] at hf
    by_cases ht : t = s
    · subst ht
      rw [Function.update_self] at hy
      exact hf.2 (Option.some.inj hy).symm
    · rw [Function.update_of_ne ht] at hy
      exact h.apart t y hy hf.1
  unique t u y ht hu := by
    by_cases hts : t = s
    · by_cases hus : u = s
      · rw [hts, hus]
      · subst hts
        rw [Function.update_self] at ht
        rw [Function.update_of_ne hus] at hu
        obtain rfl := Option.some.inj ht
        exact absurd hx (h.apart u x hu)
    · rw [Function.update_of_ne hts] at ht
      by_cases hus : u = s
      · subst hus
        rw [Function.update_self] at hu
        obtain rfl := Option.some.inj hu
        exact absurd hx (h.apart t x ht)
      · rw [Function.update_of_ne hus] at hu
        exact h.unique t u y ht hu
  total y := by
    rw [h.total, hfree]
    constructor
    · rintro (hf | ⟨t, ht⟩)
      · by_cases hyx : y = x
        · exact .inr ⟨s, by rw [Function.update_self, hyx]⟩
        · exact .inl ⟨hf, hyx⟩
      · have hts : t ≠ s := by
          rintro rfl
          rw [hs] at ht
          cases ht
        exact .inr ⟨t, by rw [Function.update_of_ne hts, ht]⟩
    · rintro (⟨hf, -⟩ | ⟨t, ht⟩)
      · exact .inl hf
      · by_cases hts : t = s
        · subst hts
          rw [Function.update_self] at ht
          exact .inl (Option.some.inj ht ▸ hx)
        · rw [Function.update_of_ne hts] at ht
          exact .inr ⟨t, ht⟩

theorem Balanced.give [DecidableEq σ] (h : Balanced initial free own) (hs : own s = some x) (hfree : ∀ y, free' y ↔ free y ∨ y = x) :
    Balanced initial free' (Function.update own s none) where
  apart t y hy hf := by
    have hts : t ≠ s := by
      rintro rfl
      rw [Function.update_self] at hy
      cases hy
    rw [Function.update_of_ne hts] at hy
    rcases (hfree y).mp hf with hf | rfl
    · exact h.apart t y hy hf
    · exact hts (h.unique t s y hy hs)
  unique t u y ht hu := by
    have hne : ∀ v, Function.update own s none v = some y → v ≠ s := by
      rintro v hv rfl
      rw [Function.update_self] at hv
      cases hv
    rw [Function.update_of_ne (hne t ht)] at ht
    rw [Function.update_of_ne (hne u hu)] at hu
    exact h.unique t u y ht hu
  total y := by
    rw [h.total, hfree]
    constructor
    · rintro (hf | ⟨t, ht⟩)
      · exact .inl (.inl hf)
      · by_cases hts : t = s
        · subst hts
          exact .inl (.inr (Option.some.inj (ht.symm.trans hs)))
        · exact .inr ⟨t, by rw [Function.update_of_ne hts, ht]⟩
    · rintro ((hf | rfl) | ⟨t, ht⟩)
      · exact .inl hf
      · exact .inr ⟨s, hs⟩
      · by_cases hts : t = s
        · subst hts
          rw [Function.update_self] at ht
          cases ht
        · rw [Function.update_of_ne hts] at ht
          exact .inr ⟨t, ht⟩

theorem Balanced.whole (h : Balanced initial free own) (hnone : ∀ s, own s = none) (x : ι) : free x ↔ initial x := by
  rw [h.total]
  refine ⟨.inl, fun hx => hx.elim id ?_⟩
  rintro ⟨s, hs⟩
  rw [hnone] at hs
  cases hs

/-- How many of the slots hold an item. -/
def held (own : σ → Option ι) (slots : List σ) : Nat := slots.countP fun s => (own s).isSome

variable {slots : List σ} {own' : σ → Option ι}

theorem held_congr (h : ∀ s ∈ slots, own' s = own s) : held own' slots = held own slots :=
  List.countP_congr fun s hs => by rw [h s hs]

theorem held_eq_zero (h : ∀ s ∈ slots, own s = none) : held own slots = 0 := by
  refine List.countP_eq_zero.mpr fun s hs => ?_
  rw [h s hs]
  exact Bool.false_ne_true

theorem held_of_notMem [DecidableEq σ] {item : Option ι} (h : s ∉ slots) : held (Function.update own s item) slots = held own slots :=
  held_congr fun t ht => Function.update_of_ne (fun he : t = s => h (he ▸ ht)) _ _

theorem held_take [DecidableEq σ] (hnodup : slots.Nodup) (hmem : s ∈ slots) (hs : own s = none) :
    held (Function.update own s (some x)) slots = held own slots + 1 := by
  induction slots with
  | nil => cases hmem
  | cons t rest ih =>
    obtain ⟨hnew, hnodup⟩ := List.nodup_cons.mp hnodup
    unfold held at ih ⊢
    rw [List.countP_cons, List.countP_cons]
    rcases List.mem_cons.mp hmem with rfl | hmem
    · have hrest : rest.countP (fun u => (Function.update own s (some x) u).isSome) = rest.countP fun u => (own u).isSome :=
        held_of_notMem hnew
      rw [hrest, Function.update_self, hs]
      rfl
    · have hts : t ≠ s := fun he => hnew (he ▸ hmem)
      rw [ih hnodup hmem, Function.update_of_ne hts]
      exact Nat.add_right_comm _ _ _

end ZenovOS.Ledger
