import Mathlib.Data.List.Basic
import Mathlib.Tactic.Ring

/-! # Hash trees

A level of a tree joins the nodes of the level below in pairs, and a last node that is alone with itself; the root is
left when there is one node. A level can be computed over the array it is read from. Two trees with one hash have the
same leaves, or show two different inputs of the hash with the same value. -/

namespace ZenovOS.Merkle
variable {α β : Type}

/-! ### Levels -/

/-- The level over some nodes. -/
def pairs (join : α → α → α) : List α → List α
  | [] => []
  | [a] => [join a a]
  | a :: b :: rest => join a b :: pairs join rest

theorem length_pairs (join : α → α → α) (nodes : List α) : (pairs join nodes).length = (nodes.length + 1) / 2 := by
  induction nodes using pairs.induct with
  | case1 => simp [pairs]
  | case2 a => simp [pairs]
  | case3 a b rest ih =>
    rw [pairs, List.length_cons, ih, List.length_cons, List.length_cons]
    omega

/-- The node that the levels over some nodes end with. -/
def root (join : α → α → α) : List α → Option α
  | [] => none
  | [a] => some a
  | a :: b :: rest => root join (join a b :: pairs join rest)
termination_by nodes => nodes.length
decreasing_by
  rw [List.length_cons, length_pairs, List.length_cons, List.length_cons]
  omega

theorem root_cons (join : α → α → α) (a b : α) (rest : List α) : root join (a :: b :: rest) = root join (pairs join (a :: b :: rest)) := by
  rw [root, pairs]

theorem root_ne_none {join : α → α → α} {nodes : List α} (h : nodes ≠ []) : ∃ a, root join nodes = some a := by
  induction nodes using root.induct join with
  | case1 => exact absurd rfl h
  | case2 a => exact ⟨a, by rw [root]⟩
  | case3 a b rest ih =>
    rw [root]
    exact ih (List.cons_ne_nil _ _)

section Map
variable {join : α → α → α} {join' : β → β → β} {f : α → β}

theorem pairs_map (h : ∀ a b, f (join a b) = join' (f a) (f b)) (nodes : List α) : pairs join' (nodes.map f) = (pairs join nodes).map f := by
  induction nodes using pairs.induct with
  | case1 => rfl
  | case2 a => rw [List.map_singleton, pairs, pairs, List.map_singleton, h]
  | case3 a b rest ih => rw [List.map_cons, List.map_cons, pairs, pairs, List.map_cons, ih, h]

theorem root_map (h : ∀ a b, f (join a b) = join' (f a) (f b)) (nodes : List α) : root join' (nodes.map f) = (root join nodes).map f := by
  induction nodes using root.induct join with
  | case1 => rw [List.map_nil, root, root, Option.map_none]
  | case2 a => rw [List.map_singleton, root, root, Option.map_some]
  | case3 a b rest ih => rw [List.map_cons, List.map_cons, root, root, ← ih, List.map_cons, h, pairs_map h]

end Map

/-! ### Levels in place -/

section InPlace
variable (join : α → α → α) (d : α)

/-- Node `i` of the level over the first `count` nodes is written over node `i`. -/
def joinAt (count : Nat) (nodes : List α) (i : Nat) : List α :=
  let left := i * 2
  let right := if left + 1 < count then left + 1 else left
  nodes.set i (join (nodes.getD left d) (nodes.getD right d))

/-- The level over the first `count` nodes is written over the first half of them. -/
def levelInPlace (count : Nat) (nodes : List α) : List α := (List.range ((count + 1) / 2)).foldl (joinAt join d count) nodes

/-- The levels until one node is left; `rounds` bounds them. -/
def levelsInPlace : Nat → Nat → List α → List α
  | 0, _, nodes => nodes
  | rounds + 1, count, nodes =>
    if count ≤ 1 then nodes else levelsInPlace rounds ((count + 1) / 2) (levelInPlace join d count nodes)

variable {join d} {count : Nat} {nodes : List α}

theorem getElem?_pairs (join : α → α → α) (d : α) (nodes : List α) (i : Nat) (h : i * 2 < nodes.length) :
    (pairs join nodes)[i]? = some (join (nodes.getD (i * 2) d) (nodes.getD (if i * 2 + 1 < nodes.length then i * 2 + 1 else i * 2) d)) := by
  induction nodes using pairs.induct generalizing i with
  | case1 => cases h
  | case2 a =>
    obtain rfl : i = 0 := by
      rw [List.length_singleton] at h
      omega
    rfl
  | case3 a b rest ih =>
    cases i with
    | zero =>
      rw [if_pos (by rw [List.length_cons, List.length_cons]; omega)]
      rfl
    | succ i =>
      rw [List.length_cons, List.length_cons] at h ⊢
      have hshift : (if (i + 1) * 2 + 1 < rest.length + 1 + 1 then (i + 1) * 2 + 1 else (i + 1) * 2) =
          (if i * 2 + 1 < rest.length then i * 2 + 1 else i * 2) + 2 := by
        split <;> split <;> omega
      rw [pairs, List.getElem?_cons_succ, ih i (by omega), hshift, Nat.succ_mul]
      rfl

theorem foldl_joinAt (hcount : count ≤ nodes.length) {k : Nat} (hk : k ≤ (count + 1) / 2) :
    (List.range k).foldl (joinAt join d count) nodes = (pairs join (nodes.take count)).take k ++ nodes.drop k := by
  have hlen : (nodes.take count).length = count := List.length_take_of_le hcount
  induction k with
  | zero => rfl
  | succ k ih =>
    have hread : ∀ j, k ≤ j → j < count →
        ((pairs join (nodes.take count)).take k ++ nodes.drop k).getD j d = (nodes.take count).getD j d := by
      intro j hj hjc
      have hfirst : ((pairs join (nodes.take count)).take k).length = k := by
        rw [List.length_take, length_pairs, hlen]
        omega
      rw [List.getD_eq_getElem?_getD, List.getElem?_append_right (by omega), hfirst, List.getElem?_drop, Nat.add_sub_cancel' hj,
        List.getD_eq_getElem?_getD, List.getElem?_take_of_lt hjc]
    obtain ⟨right, hright⟩ : ∃ right, right = if k * 2 + 1 < count then k * 2 + 1 else k * 2 := ⟨_, rfl⟩
    have hbounds : k ≤ right ∧ right < count := by
      rw [hright]
      split <;> omega
    have hnode := getElem?_pairs join d (nodes.take count) k (by omega)
    rw [hlen, ← hright] at hnode
    rw [List.range_succ, List.foldl_append, ih (by omega), List.foldl_cons, List.foldl_nil, joinAt]
    rw [← hright, hread (k * 2) (by omega) (by omega), hread right hbounds.1 hbounds.2]
    generalize join ((nodes.take count).getD (k * 2) d) ((nodes.take count).getD right d) = node at hnode ⊢
    have hfirst : ((pairs join (nodes.take count)).take k).length = k := by
      rw [List.length_take, length_pairs, hlen]
      omega
    have hdrop : nodes.drop k = nodes.get ⟨k, by omega⟩ :: nodes.drop (k + 1) := List.drop_eq_getElem_cons (by omega)
    rw [hdrop, List.set_append_right _ _ (by omega), hfirst, Nat.sub_self, List.set_cons_zero, List.take_add_one, hnode]
    simp

theorem length_levelInPlace (hcount : count ≤ nodes.length) : (levelInPlace join d count nodes).length = nodes.length := by
  rw [levelInPlace, foldl_joinAt hcount (Nat.le_refl _), List.length_append, List.length_take, length_pairs, List.length_take_of_le hcount,
    List.length_drop]
  omega

theorem take_levelInPlace (join : α → α → α) (d : α) (hcount : count ≤ nodes.length) :
    (levelInPlace join d count nodes).take ((count + 1) / 2) = pairs join (nodes.take count) := by
  have hlen : (pairs join (nodes.take count)).length = (count + 1) / 2 := by rw [length_pairs, List.length_take_of_le hcount]
  rw [levelInPlace, foldl_joinAt hcount (Nat.le_refl _), List.take_of_length_le (Nat.le_of_eq hlen), ← hlen, List.take_left]

theorem head?_levelsInPlace {rounds : Nat} (hpos : 0 < count) (hcount : count ≤ nodes.length) (hrounds : count ≤ rounds) :
    (levelsInPlace join d rounds count nodes).head? = root join (nodes.take count) := by
  induction rounds generalizing count nodes with
  | zero => omega
  | succ rounds ih =>
    have hlen : (nodes.take count).length = count := List.length_take_of_le hcount
    rw [levelsInPlace]
    split
    · rename_i hone
      obtain rfl : count = 1 := by omega
      cases nodes with
      | nil => cases hcount
      | cons a nodes =>
        rw [List.take_succ_cons, List.take_zero, root]
        rfl
    · have hlevel := take_levelInPlace join d hcount
      rw [ih (by omega) (by rw [length_levelInPlace hcount]; omega) (by omega), hlevel]
      obtain ⟨a, b, rest, htake⟩ : ∃ a b rest, nodes.take count = a :: b :: rest := by
        match htake : nodes.take count with
        | [] =>
          rw [htake] at hlen
          have hzero : 0 = count := hlen
          omega
        | [a] =>
          rw [htake] at hlen
          have hone : 1 = count := hlen
          omega
        | a :: b :: rest => exact ⟨a, b, rest, rfl⟩
      rw [htake, root_cons]

end InPlace

/-! ### Trees -/

/-- A tree over leaves that have an input of the hash each. -/
inductive Tree (ι : Type)
  | leaf (input : ι)
  | node (left right : Tree ι)

namespace Tree
variable {ι η : Type} (digest : ι → η) (encode : η → η → ι)

def leaves : Tree ι → List ι
  | leaf a => [a]
  | node l r => l.leaves ++ r.leaves

/-- The input of the hash at the top of a tree. -/
def input : Tree ι → ι
  | leaf a => a
  | node l r => encode (digest l.input) (digest r.input)

/-- All inputs of the hash in a tree. -/
def inputs : Tree ι → List ι
  | leaf a => [a]
  | node l r => encode (digest (l.input digest encode)) (digest (r.input digest encode)) :: (l.inputs ++ r.inputs)

/-- Some input of one tree is another than some input of the other, and has the same hash. -/
def Collide (t u : Tree ι) : Prop :=
  ∃ a ∈ t.inputs digest encode, ∃ b ∈ u.inputs digest encode, a ≠ b ∧ digest a = digest b

variable {digest encode}

theorem input_mem_inputs (t : Tree ι) : t.input digest encode ∈ t.inputs digest encode := by
  cases t with
  | leaf a => exact List.mem_singleton.mpr rfl
  | node l r => exact List.mem_cons_self

theorem collide_of_ne {t u : Tree ι} (h : digest (t.input digest encode) = digest (u.input digest encode))
    (hne : t.input digest encode ≠ u.input digest encode) : Collide digest encode t u :=
  ⟨_, t.input_mem_inputs, _, u.input_mem_inputs, hne, h⟩

theorem Collide.left {l r l' r' : Tree ι} (h : Collide digest encode l l') : Collide digest encode (node l r) (node l' r') := by
  obtain ⟨a, ha, b, hb, hne, heq⟩ := h
  exact ⟨a, List.mem_cons_of_mem _ (List.mem_append_left _ ha), b, List.mem_cons_of_mem _ (List.mem_append_left _ hb), hne, heq⟩

theorem Collide.right {l r l' r' : Tree ι} (h : Collide digest encode r r') : Collide digest encode (node l r) (node l' r') := by
  obtain ⟨a, ha, b, hb, hne, heq⟩ := h
  exact ⟨a, List.mem_cons_of_mem _ (List.mem_append_right _ ha), b, List.mem_cons_of_mem _ (List.mem_append_right _ hb), hne, heq⟩

/-- Trees of one hash have the same leaves, whatever their shapes, or the hash collides in them. No leaf may be encoded
    as two hashes are. -/
theorem leaves_eq_or_collide (hencode : ∀ a b c d : ι, encode (digest a) (digest b) = encode (digest c) (digest d) →
      digest a = digest c ∧ digest b = digest d) {t u : Tree ι} (ht : ∀ a ∈ t.leaves, ∀ x y, a ≠ encode x y)
    (hu : ∀ a ∈ u.leaves, ∀ x y, a ≠ encode x y) (h : digest (t.input digest encode) = digest (u.input digest encode)) :
    t.leaves = u.leaves ∨ Collide digest encode t u := by
  induction t generalizing u with
  | leaf a =>
    cases u with
    | leaf b =>
      by_cases hab : a = b
      · exact .inl (by rw [hab])
      · exact .inr (collide_of_ne h hab)
    | node l r => exact .inr (collide_of_ne h (ht a (List.mem_singleton.mpr rfl) _ _))
  | node l r ihl ihr =>
    cases u with
    | leaf b => exact .inr (collide_of_ne h fun heq => hu b (List.mem_singleton.mpr rfl) _ _ heq.symm)
    | node l' r' =>
      by_cases hin : (node l r).input digest encode = (node l' r').input digest encode
      · obtain ⟨hleft, hright⟩ := hencode _ _ _ _ hin
        have hl := ihl (fun a ha => ht a (List.mem_append_left _ ha)) (fun a ha => hu a (List.mem_append_left _ ha)) hleft
        have hr := ihr (fun a ha => ht a (List.mem_append_right _ ha)) (fun a ha => hu a (List.mem_append_right _ ha)) hright
        rcases hl with hl | hl
        · rcases hr with hr | hr
          · exact .inl (by rw [leaves, leaves, hl, hr])
          · exact .inr hr.right
        · exact .inr hl.left
      · exact .inr (collide_of_ne h hin)

theorem mem_leaves_pairs {nodes : List (Tree ι)} {a : ι} :
    (∃ t ∈ pairs node nodes, a ∈ t.leaves) ↔ ∃ t ∈ nodes, a ∈ t.leaves := by
  induction nodes using pairs.induct with
  | case1 => rfl
  | case2 t => simp [pairs, leaves]
  | case3 t u rest ih =>
    simp only [pairs, List.mem_cons, exists_eq_or_imp, ih, leaves, List.mem_append, or_assoc]

theorem mem_leaves_root {nodes : List (Tree ι)} {t : Tree ι} (h : root node nodes = some t) {a : ι} :
    a ∈ t.leaves ↔ ∃ u ∈ nodes, a ∈ u.leaves := by
  induction nodes using root.induct (node : Tree ι → Tree ι → Tree ι) with
  | case1 => rw [root] at h; cases h
  | case2 u =>
    rw [root] at h
    rw [Option.some.inj h]
    simp
  | case3 u v rest ih =>
    rw [root] at h
    rw [ih h, ← pairs, mem_leaves_pairs]

end Tree
end ZenovOS.Merkle
