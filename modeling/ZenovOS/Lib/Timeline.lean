import Mathlib.Data.List.Forall2

/-! # Undo histories

Edits are made one behind the other; the last ones can be undone and, until a new edit is made, redone. A timeline has all of them. A history
keeps a record of each edit and has room for a bounded number: it forgets the oldest. -/

namespace ZenovOS

/-- An edit: how many were made before it, and the states it led from and to. -/
structure Edited (S : Type*) where
  number : Nat
  before : S
  after : S

structure Timeline (S : Type*) where
  /-- The edits in effect, the last one first. -/
  past : List (Edited S)
  /-- The edits undone, the last undone first. -/
  future : List (Edited S)
  /-- How many were made. -/
  made : Nat

namespace Timeline

variable {S D R : Type*}

def start : Timeline S := ⟨[], [], 0⟩

def edit (t : Timeline S) (before after : S) : Timeline S :=
  { past := ⟨t.made, before, after⟩ :: t.past, future := [], made := t.made + 1 }

def undo (t : Timeline S) : Timeline S :=
  match t.past with
  | [] => t
  | e :: older => { t with past := older, future := e :: t.future }

def redo (t : Timeline S) : Timeline S :=
  match t.future with
  | [] => t
  | e :: later => { t with past := e :: t.past, future := later }

section
variable (doc : S → D)

/-- Each edit left the document that the next one started from, the last one the document `now`. -/
def Backward : List (Edited S) → D → Prop
  | [], _ => True
  | e :: older, now => doc e.after = now ∧ Backward older (doc e.before)

/-- The same of the edits undone: the last one undone started from the document `now`. -/
def Forward : List (Edited S) → D → Prop
  | [], _ => True
  | e :: later, now => doc e.before = now ∧ Forward later (doc e.after)

/-- Two stacks of records, the last one first, are the history of a timeline. They have a record of each edit undone and of each edit in
effect but the oldest, and what is forgotten is not among the last `capacity` edits made. -/
structure Kept (capacity : Nat) (Records : R → Edited S → Prop) (undo redo : List R) (now : D) (t : Timeline S) : Prop where
  undone : List.Forall₂ Records undo (t.past.take undo.length)
  redone : List.Forall₂ Records redo t.future
  room : undo.length + redo.length ≤ capacity
  back : Backward doc t.past now
  forth : Forward doc t.future now
  newestFirst : (t.made :: (t.future.reverse ++ t.past).map Edited.number).Pairwise (· > ·)
  forgotten : ∀ e ∈ t.past.drop undo.length, e.number + capacity ≤ t.made

end

/-- Of numbers that fall from `top` on, each is as far below it as it stands behind. -/
theorem add_index_lt {top x : Nat} {l : List Nat} (h : (top :: l).Pairwise (· > ·)) {i : Nat} (hx : l[i]? = some x) : x + i < top := by
  induction l generalizing top i with
  | nil => simp at hx
  | cons y l ih =>
    obtain ⟨htop, hrest⟩ := List.pairwise_cons.mp h
    have hy : y < top := htop y List.mem_cons_self
    cases i with
    | zero =>
      obtain rfl : y = x := by simpa using hx
      exact hy
    | succ i =>
      have hbelow : x + i < y := ih hrest (by simpa using hx)
      omega

namespace Kept

variable {doc : S → D} {capacity : Nat} {Records : R → Edited S → Prop} {undo redo : List R} {now : D} {t : Timeline S} {r : R}

theorem start : Kept doc capacity Records [] [] now Timeline.start :=
  ⟨List.Forall₂.nil, List.Forall₂.nil, Nat.zero_le _, trivial, trivial, by simp [Timeline.start], by simp [Timeline.start]⟩

theorem length_le (h : Kept doc capacity Records undo redo now t) : undo.length ≤ t.past.length := by
  have hlen := h.undone.length_eq
  rw [List.length_take] at hlen
  omega

theorem edit (h : Kept doc capacity Records undo redo now t) {before after : S} (hr : Records r ⟨t.made, before, after⟩)
    (hnow : doc before = now) : Kept doc capacity Records ((r :: undo).take capacity) [] (doc after) (t.edit before after) := by
  have hpast : (t.made :: t.past.map Edited.number).Pairwise (· > ·) := by
    refine h.newestFirst.sublist (List.Sublist.cons_cons _ ?_)
    rw [List.map_append]
    exact List.sublist_append_right ..
  have hnew : ((t.edit before after).made :: (t.edit before after).past.map Edited.number).Pairwise (· > ·) := by
    refine List.pairwise_cons.mpr ⟨?_, hpast⟩
    simp only [Timeline.edit, List.map_cons, List.mem_cons, List.mem_map]
    rintro n (rfl | ⟨e, he, rfl⟩)
    · exact Nat.lt_succ_self _
    · exact Nat.lt_succ_of_lt ((List.pairwise_cons.mp hpast).1 _ (List.mem_map_of_mem he))
  refine ⟨?_, List.Forall₂.nil, List.length_take_le .., ⟨rfl, hnow ▸ h.back⟩, trivial, by simpa [Timeline.edit] using hnew, ?_⟩
  · have hall : List.Forall₂ Records (r :: undo) ((⟨t.made, before, after⟩ :: t.past).take (r :: undo).length) :=
      List.Forall₂.cons hr h.undone
    have hcut := List.forall₂_take capacity hall
    rw [List.take_take] at hcut
    rwa [List.length_take]
  · intro e he
    obtain ⟨i, hi⟩ := List.mem_iff_getElem?.mp he
    rw [List.getElem?_drop, List.length_take, List.length_cons] at hi
    rcases Nat.lt_or_ge undo.length capacity with hlt | hge
    · -- Nothing is forgotten now.
      rw [Nat.min_eq_right (by omega), Nat.add_right_comm, Timeline.edit, List.getElem?_cons_succ, ← List.getElem?_drop] at hi
      exact Nat.le_succ_of_le (h.forgotten e (List.mem_of_getElem? hi))
    · rw [Nat.min_eq_left (by omega)] at hi
      have hlt := add_index_lt hnew (i := capacity + i) (x := e.number) (by rw [List.getElem?_map, hi]; rfl)
      simp only [Timeline.edit] at hlt ⊢
      omega

theorem undo_step (h : Kept doc capacity Records (r :: undo) redo now t) :
    ∃ e older, t.past = e :: older ∧ Records r e ∧ doc e.after = now ∧ Kept doc capacity Records undo (r :: redo) (doc e.before) t.undo := by
  cases hpast : t.past with
  | nil => simpa [hpast] using h.length_le
  | cons e older =>
    have hundone := h.undone
    have hback := h.back
    have hforgotten := h.forgotten
    rw [hpast] at hundone hback hforgotten
    obtain ⟨hr, holder⟩ := List.forall₂_cons.mp hundone
    have hroom := h.room
    refine ⟨e, older, rfl, hr, hback.1, ?_⟩
    rw [Timeline.undo, hpast]
    exact ⟨holder, List.Forall₂.cons hr h.redone, by simp only [List.length_cons] at hroom ⊢; omega, hback.2,
      ⟨rfl, hback.1.symm ▸ h.forth⟩, by simpa [hpast] using h.newestFirst, hforgotten⟩

theorem redo_step (h : Kept doc capacity Records undo (r :: redo) now t) :
    ∃ e later, t.future = e :: later ∧ Records r e ∧ doc e.before = now ∧ Kept doc capacity Records (r :: undo) redo (doc e.after) t.redo := by
  have hredone := h.redone
  cases hfuture : t.future with
  | nil => simp [hfuture] at hredone
  | cons e later =>
    have hforth := h.forth
    rw [hfuture] at hredone hforth
    obtain ⟨hr, hlater⟩ := List.forall₂_cons.mp hredone
    have hroom := h.room
    refine ⟨e, later, rfl, hr, hforth.1, ?_⟩
    rw [Timeline.redo, hfuture]
    exact ⟨List.Forall₂.cons hr h.undone, hlater, by simp only [List.length_cons] at hroom ⊢; omega, ⟨rfl, hforth.1.symm ▸ h.back⟩,
      hforth.2, by simpa [hfuture] using h.newestFirst, h.forgotten⟩

theorem lt_of_recent (h : Kept doc capacity Records undo redo now t) {i : Nat} {e : Edited S} (he : t.past[i]? = some e)
    (hrecent : t.made < e.number + capacity) : i < undo.length := by
  by_contra hge
  have hmem : e ∈ t.past.drop undo.length := by
    refine List.mem_of_getElem? (i := i - undo.length) ?_
    rw [List.getElem?_drop, Nat.add_sub_cancel' (Nat.le_of_not_lt hge), he]
  exact absurd (h.forgotten e hmem) (Nat.not_le_of_lt hrecent)

end Kept
end Timeline
end ZenovOS
