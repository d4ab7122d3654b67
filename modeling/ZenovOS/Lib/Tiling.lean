import Mathlib.Data.List.Basic
import Mathlib.Tactic.Ring

/-! # Tilings

A region that is cut into chunks without gaps, and the doubly linked list of the headers at their starts.
A header is a function of the chunk and of the two addresses that it is linked to. -/

namespace ZenovOS.Tiling
variable {α β : Type} (size : α → Nat)

def span (chunks : List α) : Nat := (chunks.map size).sum

/-- The address of the last chunk; `previous` if there is none. -/
def last : Nat → Nat → List α → Nat
  | previous, _, [] => previous
  | _, address, c :: chunks => last address (address + size c) chunks

/-- The address behind a chunk; `stop` if no chunk is there. -/
def behind (stop address : Nat) : List α → Nat
  | [] => stop
  | _ :: _ => address

/-- The chunks from `address` on are in memory, each linked to the one before it and the one behind it. -/
def Linked (header : Nat → Nat → α → β) (memory : Nat → β) (stop : Nat) : Nat → Nat → List α → Prop
  | _, _, [] => True
  | previous, address, c :: chunks =>
    memory address = header previous (behind stop (address + size c) chunks) c ∧
      Linked header memory stop address (address + size c) chunks

variable {size} {header : Nat → Nat → α → β} {memory memory' : Nat → β} {stop previous address : Nat}

@[simp] theorem span_nil : span size [] = 0 := rfl

@[simp] theorem span_cons (c : α) (chunks : List α) : span size (c :: chunks) = size c + span size chunks := by
  simp [span]

@[simp] theorem span_append (a b : List α) : span size (a ++ b) = span size a + span size b := by
  simp [span]

@[simp] theorem behind_nil : behind (α := α) stop address [] = stop := rfl

@[simp] theorem behind_cons (c : α) (chunks : List α) : behind stop address (c :: chunks) = address := rfl

theorem last_append (a b : List α) :
    last size previous address (a ++ b) = last size (last size previous address a) (address + span size a) b := by
  induction a generalizing previous address with
  | nil => rfl
  | cons c a ih =>
    rw [List.cons_append, last, ih, last, span_cons, Nat.add_assoc]

theorem last_snoc (a : List α) (c : α) : last size previous address (a ++ [c]) = address + span size a := by
  rw [last_append]
  rfl

theorem behind_append {a b : List α} (h : a ≠ []) : behind stop address (a ++ b) = address := by
  cases a with
  | nil => exact absurd rfl h
  | cons c a => rfl

theorem linked_append {a b : List α} :
    Linked size header memory stop previous address (a ++ b) ↔
      Linked size header memory (behind stop (address + span size a) b) previous address a ∧
        Linked size header memory stop (last size previous address a) (address + span size a) b := by
  induction a generalizing previous address with
  | nil => exact ⟨fun h => ⟨trivial, h⟩, And.right⟩
  | cons c a ih =>
    have hbehind : behind stop (address + size c) (a ++ b) =
        behind (behind stop (address + span size (c :: a)) b) (address + size c) a := by
      cases a with
      | nil => cases b <;> simp
      | cons d a => rfl
    rw [List.cons_append, Linked, hbehind, ih, Linked, last, span_cons, Nat.add_assoc, and_assoc]

theorem Linked.congr (hsize : ∀ c, 0 < size c) {chunks : List α}
    (hmemory : ∀ x, address ≤ x → x < address + span size chunks → memory' x = memory x)
    (h : Linked size header memory stop previous address chunks) :
    Linked size header memory' stop previous address chunks := by
  induction chunks generalizing previous address with
  | nil => trivial
  | cons c chunks ih =>
    have hc := hsize c
    rw [span_cons] at hmemory
    refine ⟨(hmemory address (Nat.le_refl _) (by omega)).trans h.1, ih (fun x hx hlt => ?_) h.2⟩
    exact hmemory x (by omega) (by omega)

theorem Linked.relink (hsize : ∀ c, 0 < size c) {chunks : List α} {before : Nat}
    (hmemory : ∀ x, address < x → x < address + span size chunks → memory' x = memory x)
    (hfirst : ∀ c next, memory address = header previous next c → memory' address = header before next c)
    (h : Linked size header memory stop previous address chunks) :
    Linked size header memory' stop before address chunks := by
  cases chunks with
  | nil => trivial
  | cons c chunks =>
    have hc := hsize c
    rw [span_cons] at hmemory
    refine ⟨hfirst c _ h.1, h.2.congr hsize fun x hx hlt => ?_⟩
    exact hmemory x (by omega) (by omega)

theorem Linked.replace (hsize : ∀ c, 0 < size c) {pre mid post new : List α} (hnew : new ≠ []) (hmid : mid ≠ [])
    (hspan : span size new = span size mid)
    (hpre : ∀ x, address ≤ x → x < address + span size pre → memory' x = memory x)
    (h : Linked size header memory stop previous address (pre ++ (mid ++ post)))
    (hfill : Linked size header memory' (behind stop (address + span size pre + span size mid) post)
      (last size previous address pre) (address + span size pre) new)
    (hpost : Linked size header memory' stop (last size (last size previous address pre) (address + span size pre) new)
      (address + span size pre + span size mid) post) :
    Linked size header memory' stop previous address (pre ++ (new ++ post)) := by
  rw [linked_append, behind_append hmid] at h
  rw [linked_append, behind_append hnew, linked_append, hspan]
  exact ⟨h.1.congr hsize hpre, hfill, hpost⟩

theorem disjoint_of_split {pre post pre' post' : List α} {c c' : α} (h : pre ++ c :: post = pre' ++ c' :: post')
    (hne : span size pre ≠ span size pre') :
    span size pre + size c ≤ span size pre' ∨ span size pre' + size c' ≤ span size pre := by
  rcases List.append_eq_append_iff.mp h with ⟨mid, rfl, hmid⟩ | ⟨mid, rfl, hmid⟩
  · left
    cases mid with
    | nil => simp at hne
    | cons d mid =>
      obtain ⟨rfl, -⟩ := List.cons.inj hmid
      simp
  · right
    cases mid with
    | nil => simp at hne
    | cons d mid =>
      obtain ⟨rfl, -⟩ := List.cons.inj hmid
      simp

theorem eq_of_span_eq (hsize : ∀ c, 0 < size c) {pre post pre' post' : List α} {c c' : α}
    (h : pre ++ c :: post = pre' ++ c' :: post') (hspan : span size pre = span size pre') : c = c' := by
  rcases List.append_eq_append_iff.mp h with ⟨mid, rfl, hmid⟩ | ⟨mid, rfl, hmid⟩
  · cases mid with
    | nil => exact (List.cons.inj hmid).1
    | cons d mid =>
      have := hsize d
      simp at hspan
      omega
  · cases mid with
    | nil => exact (List.cons.inj hmid).1.symm
    | cons d mid =>
      have := hsize d
      simp at hspan
      omega

end ZenovOS.Tiling
