import Mathlib.Data.List.Induction
import Mathlib.Data.List.Sort
import Mathlib.Tactic.Ring
import ZenovOS.Lib.Comparison

/-! # Rankings

A ranking says which of two items comes first, and ties are a relation that it respects: nothing comes between two items that are
tied. Rankings are compared one after the other, each where the one before has a tie. Where only equal items are tied, what is best in
a list and how a list is sorted do not depend on the order of its items. -/

namespace ZenovOS

variable {α β : Type} {r s : α → α → Prop}

/-- What comes before something else comes before anything in between, or that comes before it. -/
structure Ranking (r : α → α → Prop) : Prop where
  asymm : ∀ x y, r x y → ¬r y x
  cut : ∀ x y z, r x z → r x y ∨ r y z

namespace Ranking

theorem irrefl (h : Ranking r) (x : α) : ¬r x x := fun hx => h.asymm x x hx hx

theorem trans (h : Ranking r) {x y z : α} (hxy : r x y) (hyz : r y z) : r x z := by
  rcases h.cut x z y hxy with hxz | hzy
  · exact hxz
  · exact absurd hzy (h.asymm y z hyz)

theorem key {r : β → β → Prop} (h : Ranking r) (f : α → β) : Ranking fun x y => r (f x) (f y) :=
  ⟨fun x y => h.asymm (f x) (f y), fun x y z => h.cut (f x) (f y) (f z)⟩

theorem flip (h : Ranking r) : Ranking fun x y => r y x :=
  ⟨fun x y hxy => h.asymm y x hxy, fun x y z hzx => (h.cut z y x hzx).symm⟩

/-- The second where the first has a tie. -/
def Lex (r s : α → α → Prop) (x y : α) : Prop := r x y ∨ ¬r x y ∧ ¬r y x ∧ s x y

theorem lex (hr : Ranking r) (hs : Ranking s) : Ranking (Lex r s) := by
  constructor
  · rintro x y (hxy | ⟨hxy, hyx, hs'⟩) (hyx' | ⟨-, hxy', hs''⟩)
    · exact hr.asymm x y hxy hyx'
    · exact absurd hxy hxy'
    · exact hyx hyx'
    · exact hs.asymm x y hs' hs''
  · rintro x y z (hxz | ⟨hxz, hzx, hs'⟩)
    · exact (hr.cut x y z hxz).imp .inl .inl
    · by_cases hxy : r x y
      · exact .inl (.inl hxy)
      by_cases hyz : r y z
      · exact .inr (.inl hyz)
      -- with neither before, `y` is tied with both
      have hyx : ¬r y x := fun hyx => (hr.cut y z x hyx).elim hyz hzx
      have hzy : ¬r z y := fun hzy => (hr.cut z x y hzy).elim hzx hxy
      exact (hs.cut x y z hs').imp (fun h => .inr ⟨hxy, hyx, h⟩) fun h => .inr ⟨hyz, hzy, h⟩

theorem lex_tied {x y : α} (hxy : ¬Lex r s x y) (hyx : ¬Lex r s y x) : (¬r x y ∧ ¬r y x) ∧ ¬s x y ∧ ¬s y x := by
  have hr : ¬r x y := fun h => hxy (.inl h)
  have hr' : ¬r y x := fun h => hyx (.inl h)
  exact ⟨⟨hr, hr'⟩, fun h => hxy (.inr ⟨hr, hr', h⟩), fun h => hyx (.inr ⟨hr', hr, h⟩)⟩

end Ranking

theorem ranking_lt [LinearOrder α] : Ranking fun x y : α => x < y :=
  ⟨fun _ _ => lt_asymm, fun _ y _ hxz => (lt_or_ge _ y).imp id fun hyx => lt_of_le_of_lt hyx hxz⟩

/-! ### Strings -/

section Strings
variable [LT α] [LE α] [Std.IsLinearOrder α] [Std.LawfulOrderLT α]

theorem ranking_list : Ranking fun x y : List α => x < y :=
  ⟨fun _ _ => List.lt_asymm, fun x y z hxz => by
    by_cases hxy : x < y
    · exact .inl hxy
    · exact .inr (List.lt_of_le_of_lt (List.not_lt.mp hxy) hxz)⟩

theorem list_tied {x y : List α} (hxy : ¬x < y) (hyx : ¬y < x) : x = y := List.le_antisymm (List.not_lt.mp hyx) (List.not_lt.mp hxy)

omit [Std.IsLinearOrder α] in
theorem append_lt_append_iff {x y z : List α} (h : x.length = y.length) : x ++ z < y ++ z ↔ x < y := by
  induction x generalizing y with
  | nil =>
    obtain rfl := List.length_eq_zero_iff.mp h.symm
    exact ⟨fun hz => absurd hz (List.lt_irrefl z), fun hz => absurd hz (List.lt_irrefl [])⟩
  | cons a x ih =>
    obtain ⟨b, y, rfl⟩ := List.exists_cons_of_length_eq_add_one h.symm
    rw [List.cons_append, List.cons_append, List.cons_lt_cons_iff, List.cons_lt_cons_iff, ih (Nat.succ.inj h)]

end Strings

/-! ### Lists of items -/

section Items
variable {less : α → α → Bool}

/-- Only equal items of the list are tied. -/
def Distinguishes (less : α → α → Bool) (l : List α) : Prop :=
  ∀ x ∈ l, ∀ y ∈ l, less x y = false → less y x = false → x = y

theorem foldl_least (h : Ranking fun x y => less x y = true) (l : List α) (least : α) :
    ∀ x ∈ least :: l, less x (l.foldl (fun least x => if less x least then x else least) least) = false := by
  induction l generalizing least with
  | nil =>
    intro x hx
    obtain rfl := List.mem_singleton.mp hx
    exact Bool.eq_false_iff.mpr (h.irrefl x)
  | cons a l ih =>
    rw [List.foldl_cons]
    have hrest := ih (if less a least then a else least)
    generalize l.foldl (fun least x => if less x least then x else least) (if less a least then a else least) = last at hrest
    have hkept := hrest _ List.mem_cons_self
    -- what is not kept is not less than what is kept
    have hboth : less least last = false ∧ less a last = false := by
      split at hkept
      · next hless =>
        exact ⟨Bool.eq_false_iff.mpr fun hlast => Bool.eq_false_iff.mp hkept (h.trans hless hlast), hkept⟩
      · next hless =>
        exact ⟨hkept, Bool.eq_false_iff.mpr fun hlast => (h.cut a least last hlast).elim hless (Bool.eq_false_iff.mp hkept)⟩
    intro x hx
    rcases List.mem_cons.mp hx with rfl | hx
    · exact hboth.1
    rcases List.mem_cons.mp hx with rfl | hx
    · exact hboth.2
    · exact hrest x (List.mem_cons_of_mem _ hx)

theorem Ranking.total_not (h : Ranking fun x y => less x y = true) : Std.Total fun x y => (!less y x) = true :=
  ⟨fun x y => by
    have := h.asymm x y
    cases hxy : less x y <;> simp_all⟩

theorem Ranking.trans_not (h : Ranking fun x y => less x y = true) : IsTrans α fun x y => (!less y x) = true :=
  ⟨fun x y z hyx hzy => by
    have := h.cut z y x
    simp_all⟩

theorem insertionSort_eq_of_perm (h : Ranking fun x y => less x y = true) {l l' : List α} (hties : Distinguishes less l) (hp : l.Perm l') :
    l.insertionSort (fun x y => !less y x) = l'.insertionSort (fun x y => !less y x) := by
  have := h.total_not
  have := h.trans_not
  have hsorted := (List.perm_insertionSort (fun x y => !less y x) l).trans
    (hp.trans (List.perm_insertionSort (fun x y => !less y x) l').symm)
  refine List.Perm.eq_of_pairwise (fun x y hx hy hxy hyx => ?_) (List.pairwise_insertionSort _ l) (List.pairwise_insertionSort _ l') hsorted
  have hx : x ∈ l := (List.perm_insertionSort _ l).mem_iff.mp hx
  have hy : y ∈ l := hp.mem_iff.mpr ((List.perm_insertionSort _ l').mem_iff.mp hy)
  exact hties x hx y hy (by simpa using hyx) (by simpa using hxy)

namespace Comparison

/-- The comparison that goes with a ranking. -/
def ofLess (less : α → α → Bool) (x y : α) : Int := if less x y then -1 else if less y x then 1 else 0

theorem ofLess_pos_iff (h : Ranking fun x y => less x y = true) {x y : α} : 0 < ofLess less x y ↔ less y x = true := by
  unfold ofLess
  have := h.asymm x y
  split_ifs <;> simp_all

theorem orderOn_ofLess (h : Ranking fun x y => less x y = true) (S : Set α) : OrderOn (ofLess less) S where
  swaps x y := by
    have := h.asymm x y
    unfold ofLess
    split_ifs <;> simp_all
  trans x _ y _ z _ hxy hyz := by
    by_contra hxz
    have hzx := (ofLess_pos_iff h).mp (Int.not_le.mp hxz)
    rcases h.cut z y x hzx with hzy | hyx
    · exact absurd ((ofLess_pos_iff h).mpr hzy) (Int.not_lt.mpr hyz)
    · exact absurd ((ofLess_pos_iff h).mpr hyx) (Int.not_lt.mpr hxy)

theorem greatest_ofLess_unique {ι : Type} {key : ι → α} {items items' : List ι} {best best' : ι} (h : Ranking fun x y => less x y = true)
    (hties : Distinguishes less (items.map key)) (hsame : ∀ i ∈ items', key i ∈ items.map key) (hsame' : ∀ i ∈ items, key i ∈ items'.map key)
    (hbest : Greatest (ofLess less) key items best) (hbest' : Greatest (ofLess less) key items' best') : key best = key best' := by
  obtain ⟨i, hi, hki⟩ := List.mem_map.mp (hsame best' hbest'.1)
  obtain ⟨i', hi', hki'⟩ := List.mem_map.mp (hsame' best hbest.1)
  have hle := hbest.2 i hi
  have hle' := hbest'.2 i' hi'
  rw [hki] at hle
  rw [hki'] at hle'
  refine hties _ (List.mem_map_of_mem hbest.1) _ (hsame best' hbest'.1) ?_ ?_
  · rw [← Bool.not_eq_true, ← ofLess_pos_iff h]
    omega
  · rw [← Bool.not_eq_true, ← ofLess_pos_iff h]
    omega

end Comparison
end Items
end ZenovOS

/-! ## Orders in which everything finds what it needs

Items give things and need things. `Present` is what there is behind some items, on top of what there is at the
start, and `Ordered` says of a list of items that each one finds what it needs before it. -/

namespace ZenovOS.Precedence

variable {α κ : Type} (gives : α → κ → Prop) (needs : α → (κ → Prop) → Prop) {base : κ → Prop} {l : List α} {a : α}

/-- What there is behind the items of `l`. -/
def Present (base : κ → Prop) (l : List α) (c : κ) : Prop := base c ∨ ∃ a ∈ l, gives a c

/-- Each item of the list finds what it needs before it. -/
def Ordered (base : κ → Prop) (l : List α) : Prop := ∀ k a, l[k]? = some a → needs a (Present gives base (l.take k))

variable {gives needs}

theorem present_nil {c : κ} : Present gives base [] c ↔ base c := by simp [Present]

theorem present_snoc {c : κ} : Present gives base (l ++ [a]) c ↔ Present gives base l c ∨ gives a c := by
  simp [Present, or_and_right, exists_or, or_assoc]

theorem ordered_nil : Ordered gives needs base [] := by
  intro k a h
  rw [List.getElem?_nil] at h
  cases h

theorem Ordered.snoc (h : Ordered gives needs base l) (ha : needs a (Present gives base l)) :
    Ordered gives needs base (l ++ [a]) := by
  intro k b hk
  rcases Nat.lt_trichotomy k l.length with hlt | rfl | hgt
  · rw [List.getElem?_append_left hlt] at hk
    rw [List.take_append_of_le_length (Nat.le_of_lt hlt)]
    exact h k b hk
  · rw [List.getElem?_concat_length] at hk
    obtain rfl := Option.some.inj hk
    rwa [List.take_left]
  · rw [List.getElem?_eq_none (by rw [List.length_append, List.length_singleton]; omega)] at hk
    cases hk

end ZenovOS.Precedence

/-! ## The first of the best

A search that keeps what it has found until something better comes ends with the first of the best. -/

namespace ZenovOS.Search

variable {α κ : Type} [LinearOrder κ] (allowed : α → Bool) (key : α → κ)

/-- One step of the search. -/
def keepFirst (found : Option α) (x : α) : Option α :=
  if !allowed x then found
  else
    match found with
    | none => some x
    | some best => if key best < key x then some x else some best

/-- Nothing allowed stands before `x` that is as good, and nothing behind it that is better. -/
def FirstBest (l : List α) (x : α) : Prop :=
  allowed x = true ∧ ∃ before after, l = before ++ x :: after ∧
    (∀ y ∈ before, allowed y = true → key y < key x) ∧ ∀ y ∈ after, allowed y = true → key y ≤ key x

variable {allowed key} {l : List α} {a x : α}

theorem FirstBest.le (h : FirstBest allowed key l x) {y : α} (hy : y ∈ l) (hallowed : allowed y = true) : key y ≤ key x := by
  obtain ⟨-, before, after, rfl, hbefore, hafter⟩ := h
  rcases List.mem_append.mp hy with hy | hy
  · exact le_of_lt (hbefore y hy hallowed)
  · rcases List.mem_cons.mp hy with rfl | hy
    · exact le_refl _
    · exact hafter y hy hallowed

theorem FirstBest.snoc (h : FirstBest allowed key l x) (ha : allowed a = true → key a ≤ key x) : FirstBest allowed key (l ++ [a]) x := by
  obtain ⟨hx, before, after, rfl, hbefore, hafter⟩ := h
  refine ⟨hx, before, after ++ [a], by rw [List.append_assoc, List.cons_append], hbefore, ?_⟩
  intro y hy hallowed
  rcases List.mem_append.mp hy with hy | hy
  · exact hafter y hy hallowed
  · obtain rfl := List.mem_singleton.mp hy
    exact ha hallowed

theorem firstBest_last (ha : allowed a = true) (hl : ∀ y ∈ l, allowed y = true → key y < key a) : FirstBest allowed key (l ++ [a]) a :=
  ⟨ha, l, [], rfl, hl, fun _ hy => absurd hy List.not_mem_nil⟩

variable (allowed key) in
theorem foldl_keepFirst (l : List α) :
    match l.foldl (keepFirst allowed key) none with
    | none => ∀ y ∈ l, allowed y = false
    | some x => FirstBest allowed key l x := by
  induction l using List.reverseRecOn with
  | nil => exact fun y hy => absurd hy List.not_mem_nil
  | append_singleton l a ih =>
    rw [List.foldl_append]
    generalize l.foldl (keepFirst allowed key) none = found at ih
    simp only [List.foldl_cons, List.foldl_nil, keepFirst]
    cases ha : allowed a with
    | false =>
      cases found with
      | none =>
        intro y hy
        rcases List.mem_append.mp hy with hy | hy
        · exact ih y hy
        · rwa [List.mem_singleton.mp hy]
      | some x => exact ih.snoc fun h => absurd (ha.symm.trans h) Bool.false_ne_true
    | true =>
      cases found with
      | none => exact firstBest_last ha fun y hy h => absurd ((ih y hy).symm.trans h) Bool.false_ne_true
      | some x =>
        by_cases hlt : key x < key a
        · simp only [Bool.not_true, Bool.false_eq_true, if_false, if_pos hlt]
          exact firstBest_last ha fun y hy h => lt_of_le_of_lt (ih.le hy h) hlt
        · simp only [Bool.not_true, Bool.false_eq_true, if_false, if_neg hlt]
          exact ih.snoc fun _ => not_lt.mp hlt

end ZenovOS.Search
