import Mathlib.Data.List.Forall2
import Mathlib.Tactic.Ring

/-! # Checks that throw

A check of a program that throws: `refuse` ends a run with a text where its condition holds. The lemmas take a
run that has returned apart, one check after the other, and run a check that holds. -/

namespace ZenovOS

variable {ε α β : Type}

/-- `throw Error(text)` where a condition holds. -/
def refuse (condition : Prop) [Decidable condition] (text : ε) : Except ε Unit := if condition then .error text else .ok ()

theorem refuse_ok {c : Prop} [Decidable c] {text : ε} {u : Unit} : refuse c text = .ok u ↔ ¬c := by
  unfold refuse
  split
  · exact ⟨fun h => (nomatch h), fun h => absurd ‹_› h⟩
  · exact ⟨fun _ => ‹_›, fun _ => rfl⟩

theorem refuse_pass {c : Prop} [Decidable c] (h : ¬c) (text : ε) : refuse c text = .ok () := if_neg h

theorem bind_ok {m : Except ε α} {f : α → Except ε β} {b : β} (h : (m >>= f) = .ok b) : ∃ a, m = .ok a ∧ f a = .ok b := by
  cases m with
  | error e => cases h
  | ok a => exact ⟨a, rfl, h⟩

@[simp] theorem ok_bind (a : α) (f : α → Except ε β) : ((Except.ok a : Except ε α) >>= f) = f a := rfl

theorem check_ok_iff {m : Except ε Unit} {f : Unit → Except ε β} {b : β} : (m >>= f) = .ok b ↔ m = .ok () ∧ f () = .ok b := by
  constructor
  · intro h
    obtain ⟨⟨⟩, hm, hf⟩ := bind_ok h
    exact ⟨hm, hf⟩
  · rintro ⟨rfl, h⟩
    exact h

theorem refused {c : Prop} [Decidable c] {text : ε} {f : Unit → Except ε β} {b : β} (h : (refuse c text >>= f) = .ok b) :
    ¬c ∧ f () = .ok b := by
  obtain ⟨⟨⟩, hrefuse, hrest⟩ := bind_ok h
  exact ⟨refuse_ok.mp hrefuse, hrest⟩

theorem refuse_bind {c : Prop} [Decidable c] {text : ε} {f : Unit → Except ε β} (h : ¬c) : (refuse c text >>= f) = f () := by
  rw [refuse_pass h]
  rfl

theorem foldlM_keeps {P : α → Prop} {f : α → β → Except ε α} {l : List β} {a b : α}
    (hstep : ∀ a x b, x ∈ l → P a → f a x = .ok b → P b) (h : l.foldlM f a = .ok b) (ha : P a) : P b := by
  induction l generalizing a with
  | nil =>
    cases h
    exact ha
  | cons x l ih =>
    rw [List.foldlM_cons] at h
    obtain ⟨c, hc, h⟩ := bind_ok h
    exact ih (fun a y b hy => hstep a y b (List.mem_cons_of_mem x hy)) h (hstep a x c List.mem_cons_self ha hc)

theorem foldlM_rounds {f : α → β → Except ε α} {l : List β} {a b : α} (h : l.foldlM f a = .ok b) : ∀ x ∈ l, ∃ c d, f c x = .ok d := by
  induction l generalizing a with
  | nil => exact fun x hx => (nomatch hx)
  | cons y l ih =>
    rw [List.foldlM_cons] at h
    obtain ⟨c, hc, h⟩ := bind_ok h
    intro x hx
    rcases List.mem_cons.mp hx with rfl | hx
    · exact ⟨a, c, hc⟩
    · exact ih h x hx

/-! ### Errors that do not occur -/

/-- The run does not end with this error. -/
def Avoids (bad : ε) (m : Except ε α) : Prop := m ≠ .error bad

theorem avoids_ok {bad : ε} (a : α) : Avoids bad (Except.ok a : Except ε α) := nofun

theorem avoids_refuse {bad text : ε} (hne : text ≠ bad) (c : Prop) [Decidable c] : Avoids bad (refuse c text) := by
  unfold refuse
  split
  · exact fun h => hne (Except.error.inj h)
  · exact nofun

theorem Avoids.bind {bad : ε} {m : Except ε α} {f : α → Except ε β} (hm : Avoids bad m) (hf : ∀ a, m = .ok a → Avoids bad (f a)) :
    Avoids bad (m >>= f) := by
  cases m with
  | error e => exact fun h => hm (congrArg Except.error (Except.error.inj h))
  | ok a => exact hf a rfl

theorem avoids_ite {bad : ε} {c : Prop} [Decidable c] {m n : Except ε α} (hm : c → Avoids bad m) (hn : ¬c → Avoids bad n) :
    Avoids bad (if c then m else n) := by
  split
  · exact hm ‹_›
  · exact hn ‹_›

theorem avoids_check {bad text : ε} (hne : text ≠ bad) {c : Prop} [Decidable c] {f : Unit → Except ε β} (hf : ¬c → Avoids bad (f ())) :
    Avoids bad (refuse c text >>= f) := (avoids_refuse hne c).bind fun _ h => hf (refuse_ok.mp h)

theorem avoids_foldlM {bad : ε} {f : α → β → Except ε α} {l : List β} (hf : ∀ a, ∀ x ∈ l, Avoids bad (f a x)) (a : α) :
    Avoids bad (l.foldlM f a) := by
  induction l generalizing a with
  | nil => exact avoids_ok a
  | cons x l ih =>
    rw [List.foldlM_cons]
    exact (hf a x List.mem_cons_self).bind fun b _ => ih (fun c y hy => hf c y (List.mem_cons_of_mem x hy)) b

theorem avoids_foldlM_keeps {bad : ε} {P : α → Prop} {f : α → β → Except ε α} {l : List β} {a : α} (ha : P a)
    (hf : ∀ a, P a → ∀ x ∈ l, Avoids bad (f a x) ∧ ∀ b, f a x = .ok b → P b) : Avoids bad (l.foldlM f a) := by
  induction l generalizing a with
  | nil => exact avoids_ok a
  | cons x l ih =>
    rw [List.foldlM_cons]
    obtain ⟨hround, hkeep⟩ := hf a ha x List.mem_cons_self
    exact hround.bind fun b hb => ih (hkeep b hb) fun c hc y hy => hf c hc y (List.mem_cons_of_mem x hy)

theorem avoids_mapM {bad : ε} {f : α → Except ε β} {l : List α} (hf : ∀ x ∈ l, Avoids bad (f x)) : Avoids bad (l.mapM f) := by
  induction l with
  | nil => exact avoids_ok []
  | cons x l ih =>
    rw [List.mapM_cons]
    exact (hf x List.mem_cons_self).bind fun b _ => (ih fun y hy => hf y (List.mem_cons_of_mem x hy)).bind fun bs _ => avoids_ok _

end ZenovOS

/-! ## Runs that agree

Two runs agree where they end with the same error, or with results that are related. -/

namespace ZenovOS

variable {ε α α' β β' γ γ' : Type} {R : α → α' → Prop} {S : β → β' → Prop} {T : γ → γ' → Prop}

inductive Agree (R : α → α' → Prop) : Except ε α → Except ε α' → Prop
  | ok {a a'} (h : R a a') : Agree R (.ok a) (.ok a')
  | error (e : ε) : Agree R (.error e) (.error e)

namespace Agree

theorem refl {R : α → α → Prop} (h : ∀ a, R a a) (m : Except ε α) : Agree R m m := by
  cases m with
  | ok a => exact .ok (h a)
  | error e => exact .error e

theorem bind {m : Except ε α} {m' : Except ε α'} {f : α → Except ε β} {f' : α' → Except ε β'} (hm : Agree R m m')
    (hf : ∀ a a', R a a' → Agree S (f a) (f' a')) : Agree S (m >>= f) (m' >>= f') := by
  cases hm with
  | ok h => exact hf _ _ h
  | error e => exact .error e

theorem foldlM {f : α → γ → Except ε α} {f' : α' → γ' → Except ε α'} {l : List γ} {l' : List γ'} {a : α} {a' : α'}
    (hl : List.Forall₂ T l l') (ha : R a a') (hf : ∀ a a' x x', R a a' → T x x' → Agree R (f a x) (f' a' x')) :
    Agree R (l.foldlM f a) (l'.foldlM f' a') := by
  induction hl generalizing a a' with
  | nil => exact .ok ha
  | cons hx _ ih =>
    rw [List.foldlM_cons, List.foldlM_cons]
    exact (hf a a' _ _ ha hx).bind fun b b' hb => ih hb

theorem mapM {f : α → Except ε β} {f' : α' → Except ε β'} {l : List α} {l' : List α'} (hl : List.Forall₂ R l l')
    (hf : ∀ a a', R a a' → Agree S (f a) (f' a')) : Agree (List.Forall₂ S) (l.mapM f) (l'.mapM f') := by
  induction hl with
  | nil => exact .ok .nil
  | cons hx _ ih =>
    rw [List.mapM_cons, List.mapM_cons]
    exact (hf _ _ hx).bind fun b b' hb => ih.bind fun bs bs' hbs => .ok (.cons hb hbs)

theorem map_eq {m : Except ε α} {m' : Except ε α'} {f : α → β} {f' : α' → β} (h : Agree R m m') (hf : ∀ a a', R a a' → f a = f' a') :
    m.map f = m'.map f' := by
  cases h with
  | ok h => exact congrArg Except.ok (hf _ _ h)
  | error e => rfl

end Agree
end ZenovOS
