import Mathlib.Data.List.Lex
import Mathlib.Data.Set.Basic
import Mathlib.Logic.Relation
import Mathlib.Order.Basic

/-! # Three-way comparisons

A comparison gives a negative number, zero or a positive one. `OrderOn cmp S` says that `cmp` is a total
preorder on `S`: ties aside, an order. What is best in a list, and what a rising sequence leads to, is
determined by that. `mixed` is a comparison that goes by one rule where both sides have a measure, and by
another elsewhere. -/

namespace ZenovOS.Comparison

variable {α β : Type} {cmp : α → α → Int} {S : Set α}

/-- Exchanging the sides turns the sign. -/
def Swaps (cmp : α → α → Int) : Prop := ∀ x y, (cmp y x).sign = -(cmp x y).sign

def TransOn (cmp : α → α → Int) (S : Set α) : Prop :=
  ∀ x ∈ S, ∀ y ∈ S, ∀ z ∈ S, cmp x y ≤ 0 → cmp y z ≤ 0 → cmp x z ≤ 0

structure OrderOn (cmp : α → α → Int) (S : Set α) : Prop where
  swaps : Swaps cmp
  trans : TransOn cmp S

theorem Swaps.pos_iff (h : Swaps cmp) (x y : α) : 0 < cmp y x ↔ cmp x y < 0 := by
  rw [← Int.sign_eq_one_iff_pos, ← Int.sign_eq_neg_one_iff_neg, h x y]
  omega

theorem Swaps.nonpos_iff (h : Swaps cmp) (x y : α) : cmp y x ≤ 0 ↔ 0 ≤ cmp x y := by
  have := h.pos_iff x y
  omega

namespace OrderOn
variable {x y z : α}

theorem lt_of_lt_of_le (h : OrderOn cmp S) (hx : x ∈ S) (hy : y ∈ S) (hz : z ∈ S) (hxy : cmp x y < 0)
    (hyz : cmp y z ≤ 0) : cmp x z < 0 := by
  by_contra hno
  have hzx : cmp z x ≤ 0 := (h.swaps.nonpos_iff x z).mpr (by omega)
  have hyx : cmp y x ≤ 0 := h.trans y hy z hz x hx hyz hzx
  have := (h.swaps.nonpos_iff x y).mp hyx
  omega

end OrderOn

/-! ### The best of a list -/

section Best
variable {ι : Type}

/-- Keep `best`, unless `item` has a greater key. -/
def better (cmp : α → α → Int) (key : ι → α) (best : Option ι) (item : ι) : Option ι :=
  match best with
  | none => some item
  | some old => if 0 < cmp (key item) (key old) then some item else some old

/-- `best` is one of the items, and none of them has a greater key. -/
def Greatest (cmp : α → α → Int) (key : ι → α) (items : List ι) (best : ι) : Prop :=
  best ∈ items ∧ ∀ item ∈ items, cmp (key item) (key best) ≤ 0

theorem greatest_better {key : ι → α} {seen : List ι} {best item : ι} (h : OrderOn cmp S)
    (hbest : Greatest cmp key seen best) (hseen : ∀ i ∈ seen, key i ∈ S) (hitem : key item ∈ S) :
    ∃ next, better cmp key (some best) item = some next ∧ Greatest cmp key (seen ++ [item]) next := by
  have hself : cmp (key item) (key item) ≤ 0 := by
    have := h.swaps.nonpos_iff (key item) (key item)
    omega
  unfold better
  dsimp only
  split
  next hgt =>
    refine ⟨item, rfl, by simp, fun i hi => ?_⟩
    rcases List.mem_append.mp hi with hi | hi
    · have hlt : cmp (key best) (key item) < 0 := (h.swaps.pos_iff (key best) (key item)).mp hgt
      exact h.trans _ (hseen i hi) _ (hseen best hbest.1) _ hitem (hbest.2 i hi) (by omega)
    · rw [List.mem_singleton] at hi
      rw [hi]
      exact hself
  next hle =>
    refine ⟨best, rfl, by simp [hbest.1], fun i hi => ?_⟩
    rcases List.mem_append.mp hi with hi | hi
    · exact hbest.2 i hi
    · rw [List.mem_singleton] at hi
      rw [hi]
      omega

theorem foldl_better {key : ι → α} (h : OrderOn cmp S) :
    ∀ (rest seen : List ι) (best : ι), Greatest cmp key seen best → (∀ i ∈ seen ++ rest, key i ∈ S) →
      ∃ last, rest.foldl (better cmp key) (some best) = some last ∧ Greatest cmp key (seen ++ rest) last
  | [], seen, best, hbest, _ => ⟨best, rfl, by simpa using hbest⟩
  | item :: rest, seen, best, hbest, hall => by
    obtain ⟨next, hnext, hgreatest⟩ := greatest_better h hbest (fun i hi => hall i (by simp [hi])) (hall item (by simp))
    obtain ⟨last, hlast, hend⟩ := foldl_better h rest (seen ++ [item]) next hgreatest (by simpa using hall)
    refine ⟨last, ?_, by simpa using hend⟩
    rw [List.foldl_cons, hnext, hlast]

theorem foldl_better_none {key : ι → α} {items : List ι} (h : OrderOn cmp S) (hne : items ≠ [])
    (hall : ∀ i ∈ items, key i ∈ S) :
    ∃ last, items.foldl (better cmp key) none = some last ∧ Greatest cmp key items last := by
  obtain ⟨item, rest, rfl⟩ := List.exists_cons_of_ne_nil hne
  have hself : Greatest cmp key [item] item := by
    refine ⟨by simp, fun i hi => ?_⟩
    rw [List.mem_singleton.mp hi]
    have := h.swaps.nonpos_iff (key item) (key item)
    omega
  exact foldl_better h rest [item] item hself hall

end Best

/-! ### Rising sequences -/

/-- One step up within `S`. -/
def Rises (cmp : α → α → Int) (S : Set α) (x y : α) : Prop := y ∈ S ∧ 0 < cmp y x

theorem OrderOn.rising {x y : α} (h : OrderOn cmp S) (hx : x ∈ S) (hxy : Relation.TransGen (Rises cmp S) x y) :
    y ∈ S ∧ 0 < cmp y x := by
  induction hxy with
  | single hstep => exact hstep
  | tail _ hstep ih =>
    obtain ⟨hmem, hup⟩ := ih
    refine ⟨hstep.1, (h.swaps.pos_iff _ _).mpr ?_⟩
    have hfirst := (h.swaps.pos_iff _ _).mp hup
    have hsecond := (h.swaps.pos_iff _ _).mp hstep.2
    exact h.lt_of_lt_of_le hx hmem hstep.1 hfirst (by omega)

/-! ### A comparison by two rules -/

section Mixed
variable {measure : α → Option β} {num : β → β → Int} {text : α → α → Int}

/-- By measure where both sides have one, else by `text`. -/
def mixed (measure : α → Option β) (num : β → β → Int) (text : α → α → Int) (x y : α) : Int :=
  match measure x, measure y with
  | some a, some b => num a b
  | _, _ => text x y

/-- Nothing without a measure lies between two measures that are not in that order. -/
def Consistent (measure : α → Option β) (num : β → β → Int) (text : α → α → Int) (S : Set α) : Prop :=
  ∀ p ∈ S, ∀ n ∈ S, ∀ q ∈ S, ∀ a b, measure p = some a → measure n = none → measure q = some b →
    text p n < 0 → text n q < 0 → num a b < 0

theorem mixed_measured {x y : α} {a b : β} (hx : measure x = some a) (hy : measure y = some b) :
    mixed measure num text x y = num a b := by
  unfold mixed
  rw [hx, hy]

theorem mixed_left {x y : α} (hx : measure x = none) : mixed measure num text x y = text x y := by
  unfold mixed
  rw [hx]

theorem mixed_right {x y : α} (hy : measure y = none) : mixed measure num text x y = text x y := by
  unfold mixed
  rw [hy]
  cases measure x <;> rfl

theorem mixed_swaps (hnum : Swaps num) (htext : Swaps text) : Swaps (mixed measure num text) := by
  intro x y
  rcases hx : measure x with _ | a
  · rw [mixed_left hx, mixed_right hx]
    exact htext x y
  · rcases hy : measure y with _ | b
    · rw [mixed_left hy, mixed_right hy]
      exact htext x y
    · rw [mixed_measured hx hy, mixed_measured hy hx]
      exact hnum a b

/-- **When two rules make one order.** Where each rule is an order, and `text` has ties only between equals,
    the mixed comparison is transitive if and only if the rules are consistent. -/
theorem mixed_transOn_iff (hnum : OrderOn num Set.univ) (htext : OrderOn text S)
    (hties : ∀ x ∈ S, ∀ y ∈ S, text x y = 0 → x = y) :
    TransOn (mixed measure num text) S ↔ Consistent measure num text S := by
  -- a member with a measure and one without are never tied
  have hstrict : ∀ x ∈ S, ∀ y ∈ S, (measure x).isSome ≠ (measure y).isSome → text x y ≤ 0 → text x y < 0 := by
    intro x hx y hy hne hle
    by_contra hno
    have hxy := hties x hx y hy (by omega)
    rw [hxy] at hne
    exact hne rfl
  constructor
  · intro h p hp n hn q hq a b hma hmn hmb hpn hnq
    by_contra hno
    have hqp : mixed measure num text q p ≤ 0 := by
      rw [mixed_measured hmb hma, hnum.swaps.nonpos_iff a b]
      omega
    have hpn' : mixed measure num text p n ≤ 0 := by
      rw [mixed_right hmn]
      omega
    have hqn := h q hq p hp n hn hqp hpn'
    rw [mixed_right hmn, htext.swaps.nonpos_iff n q] at hqn
    omega
  · intro h x hx y hy z hz hxy hyz
    rcases hmx : measure x with _ | a <;> rcases hmy : measure y with _ | b <;> rcases hmz : measure z with _ | c
    · rw [mixed_left hmx] at hxy ⊢
      rw [mixed_left hmy] at hyz
      exact htext.trans x hx y hy z hz hxy hyz
    · rw [mixed_left hmx] at hxy ⊢
      rw [mixed_left hmy] at hyz
      exact htext.trans x hx y hy z hz hxy hyz
    · rw [mixed_left hmx] at hxy ⊢
      rw [mixed_right hmz] at hyz
      exact htext.trans x hx y hy z hz hxy hyz
    · -- `x` has no measure: were it above `z`, it would lie between `z` and `y`
      rw [mixed_left hmx] at hxy ⊢
      rw [mixed_measured hmy hmz] at hyz
      by_contra hno
      have hzx : text z x < 0 := (htext.swaps.pos_iff z x).mp (by omega)
      have hlt := h z hz x hx y hy c b hmz hmx hmy hzx (hstrict x hx y hy (by simp [hmx, hmy]) hxy)
      rw [← hnum.swaps.pos_iff c b] at hlt
      omega
    · rw [mixed_right hmy] at hxy
      rw [mixed_left hmy] at hyz
      rw [mixed_right hmz]
      exact htext.trans x hx y hy z hz hxy hyz
    · -- `y` lies between
      rw [mixed_right hmy] at hxy
      rw [mixed_left hmy] at hyz
      rw [mixed_measured hmx hmz]
      have hlt := h x hx y hy z hz a c hmx hmy hmz (hstrict x hx y hy (by simp [hmx, hmy]) hxy)
        (hstrict y hy z hz (by simp [hmz, hmy]) hyz)
      omega
    · -- `z` has no measure: were it below `x`, it would lie between `y` and `x`
      rw [mixed_measured hmx hmy] at hxy
      rw [mixed_right hmz] at hyz ⊢
      by_contra hno
      have hzx : text z x < 0 := (htext.swaps.pos_iff z x).mp (by omega)
      have hlt := h y hy z hz x hx b a hmy hmz hmx (hstrict y hy z hz (by simp [hmy, hmz]) hyz) hzx
      rw [← hnum.swaps.pos_iff b a] at hlt
      omega
    · rw [mixed_measured hmx hmy] at hxy
      rw [mixed_measured hmy hmz] at hyz
      rw [mixed_measured hmx hmz]
      exact hnum.trans a trivial b trivial c trivial hxy hyz

end Mixed
end ZenovOS.Comparison
