import Mathlib.Data.List.Basic
import Mathlib.Tactic.Ring

/-! # Hash chains

Each record of a log stores the hash of itself and of the hash before it. Two logs of one length with the
same last hash then have the same records, or show two different inputs of the hash with the same value. -/

namespace ZenovOS.HashChain
variable {ρ η ι κ : Type}

section Chain
variable (hash : ρ → η → η) (stored : ρ → η)

/-- Each record stores its hash with the one before it; `previous` stands before the first. -/
def Linked : η → List ρ → Prop
  | _, [] => True
  | previous, r :: rest => hash r previous = stored r ∧ Linked (stored r) rest

/-- The last stored hash; `previous` if there is no record. -/
def head : η → List ρ → η
  | previous, [] => previous
  | _, r :: rest => head (stored r) rest

variable {hash stored}

theorem head_append (previous : η) (a b : List ρ) :
    head stored previous (a ++ b) = head stored (head stored previous a) b := by
  induction a generalizing previous with
  | nil => rfl
  | cons r a ih => exact ih _

@[simp] theorem head_snoc (previous : η) (a : List ρ) (r : ρ) : head stored previous (a ++ [r]) = stored r := by
  rw [head_append]
  rfl

theorem head_of_forall {P : η → Prop} {previous : η} {a : List ρ} (hp : P previous) (h : ∀ r ∈ a, P (stored r)) :
    P (head stored previous a) := by
  induction a generalizing previous with
  | nil => exact hp
  | cons r a ih => exact ih (h r List.mem_cons_self) fun r hr => h r (List.mem_cons_of_mem _ hr)

theorem linked_append {previous : η} {a b : List ρ} :
    Linked hash stored previous (a ++ b) ↔ Linked hash stored previous a ∧ Linked hash stored (head stored previous a) b := by
  induction a generalizing previous with
  | nil => exact ⟨fun h => ⟨trivial, h⟩, And.right⟩
  | cons r a ih =>
    simp only [List.cons_append, Linked, head, ih]
    exact and_assoc.symm

theorem Linked.drop {previous : η} {a : List ρ} (h : Linked hash stored previous a) (n : Nat) :
    Linked hash stored (head stored previous (a.take n)) (a.drop n) := by
  rw [← List.take_append_drop n a] at h
  exact (linked_append.mp h).2

/-! ### A chain seen in another form -/

variable {ρ' η' : Type} {hash' : ρ' → η' → η'} {stored' : ρ' → η'} {f : ρ → ρ'} {g : η → η'} {a : List ρ}

theorem head_map (hstored : ∀ r ∈ a, stored' (f r) = g (stored r)) (previous : η) :
    head stored' (g previous) (a.map f) = g (head stored previous a) := by
  induction a generalizing previous with
  | nil => rfl
  | cons r a ih =>
    rw [List.map_cons, head, head, hstored r List.mem_cons_self]
    exact ih (fun r hr => hstored r (List.mem_cons_of_mem _ hr)) _

/-- A chain whose hashes and records are taken to another form is linked there; `P` holds of the hashes
    that can stand before a record. -/
theorem Linked.map {P : η → Prop} (hstored : ∀ r ∈ a, stored' (f r) = g (stored r)) (hP : ∀ r ∈ a, P (stored r))
    (hhash : ∀ r ∈ a, ∀ p, P p → hash' (f r) (g p) = g (hash r p)) {previous : η} (hprevious : P previous)
    (h : Linked hash stored previous a) : Linked hash' stored' (g previous) (a.map f) := by
  induction a generalizing previous with
  | nil => trivial
  | cons r a ih =>
    refine ⟨?_, ?_⟩
    · rw [hhash r List.mem_cons_self previous hprevious, h.1, hstored r List.mem_cons_self]
    · rw [hstored r List.mem_cons_self]
      exact ih (fun r hr => hstored r (List.mem_cons_of_mem _ hr)) (fun r hr => hP r (List.mem_cons_of_mem _ hr))
        (fun r hr => hhash r (List.mem_cons_of_mem _ hr)) (hP r List.mem_cons_self) h.2

end Chain

section Collision
variable (encode : ρ → η → ι) (digest : ι → η) (stored : ρ → η)

/-- At some place the two chains give the hash different inputs and get the same value. -/
def Collide (p q : η) (a b : List ρ) : Prop :=
  ∃ (n : Nat) (r s : ρ), a[n]? = some r ∧ b[n]? = some s ∧
    encode r (head stored p (a.take n)) ≠ encode s (head stored q (b.take n)) ∧
    digest (encode r (head stored p (a.take n))) = digest (encode s (head stored q (b.take n)))

variable {encode digest stored}

theorem Collide.cons {p q : η} {r s : ρ} {a b : List ρ} (h : Collide encode digest stored (stored r) (stored s) a b) :
    Collide encode digest stored p q (r :: a) (s :: b) := by
  obtain ⟨n, r', s', hr, hs, hne, heq⟩ := h
  exact ⟨n + 1, r', s', hr, hs, hne, heq⟩

variable (encode digest) in
theorem agree_or_collide {content : ρ → κ}
    (hencode : ∀ {r s : ρ} {p q : η}, encode r p = encode s q → content r = content s ∧ p = q)
    {p q : η} {a b : List ρ} (ha : Linked (fun r p => digest (encode r p)) stored p a)
    (hb : Linked (fun r p => digest (encode r p)) stored q b) (hlen : a.length = b.length)
    (hhead : head stored p a = head stored q b) :
    (p = q ∧ a.map content = b.map content) ∨ Collide encode digest stored p q a b := by
  induction a generalizing p q b with
  | nil =>
    obtain rfl := List.length_eq_zero_iff.mp hlen.symm
    exact .inl ⟨hhead, rfl⟩
  | cons r a ih =>
    obtain _ | ⟨s, b⟩ := b
    · cases hlen
    obtain ⟨hr, ha⟩ := ha
    obtain ⟨hs, hb⟩ := hb
    rcases ih ha hb (Nat.succ.inj hlen) hhead with ⟨hstored, hcontent⟩ | hcollide
    · have hdigest : digest (encode r p) = digest (encode s q) := hr.trans (hstored.trans hs.symm)
      by_cases he : encode r p = encode s q
      · obtain ⟨hrs, hpq⟩ := hencode he
        exact .inl ⟨hpq, by rw [List.map_cons, List.map_cons, hrs, hcontent]⟩
      · exact .inr ⟨0, r, s, rfl, rfl, he, hdigest⟩
    · exact .inr hcollide.cons

end Collision
end ZenovOS.HashChain
