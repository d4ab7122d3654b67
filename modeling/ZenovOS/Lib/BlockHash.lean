import Mathlib.Data.List.Basic
import Mathlib.Tactic.Ring

/-! # Hashing in blocks

A hash function takes its message in blocks of one size: what is open waits in a block, and a full block is compressed
into the state. A message may come symbol by symbol, or in pieces as large as the block has room for. -/

namespace ZenovOS.BlockHash

variable {σ α : Type} (size : Nat) (compress : σ → List α → σ)

/-- One symbol; a context is a state and the open block. -/
def feed (c : σ × List α) (a : α) : σ × List α :=
  let block := c.2 ++ [a]
  if block.length = size then (compress c.1 block, []) else (c.1, block)

/-- A message, piece by piece. -/
def absorb : Nat → σ × List α → List α → σ × List α
  | 0, c, _ => c
  | left + 1, c, data =>
    if data = [] then c
    else
      let chunk := min (size - c.2.length) data.length
      let block := c.2 ++ data.take chunk
      absorb left (if block.length = size then (compress c.1 block, []) else (c.1, block)) (data.drop chunk)

variable {size compress}

theorem foldl_feed {c : σ × List α} {data : List α} (h : c.2.length + data.length < size) :
    data.foldl (feed size compress) c = (c.1, c.2 ++ data) := by
  induction data generalizing c with
  | nil =>
    rw [List.append_nil]
    rfl
  | cons a data ih =>
    rw [List.length_cons] at h
    have hfeed : feed size compress c a = (c.1, c.2 ++ [a]) := if_neg (by rw [List.length_append, List.length_singleton]; omega)
    rw [List.foldl_cons, hfeed, ih (by rw [List.length_append, List.length_singleton]; omega), List.append_assoc, List.singleton_append]

theorem foldl_feed_full {c : σ × List α} {data : List α} (h : c.2.length + data.length = size) (hne : data ≠ []) :
    data.foldl (feed size compress) c = (compress c.1 (c.2 ++ data), []) := by
  obtain ⟨front, a, rfl⟩ := List.eq_nil_or_concat data |>.resolve_left hne
  rw [List.concat_eq_append, List.length_append, List.length_singleton] at h
  have hfront : front.foldl (feed size compress) c = (c.1, c.2 ++ front) := foldl_feed (by omega)
  rw [List.concat_eq_append, List.foldl_append, hfront, List.foldl_cons, List.foldl_nil, ← List.append_assoc]
  exact if_pos (by rw [List.length_append, List.length_append, List.length_singleton]; omega)

theorem absorb_eq (left : Nat) {c : σ × List α} {data : List α} (hleft : data.length ≤ left) (hroom : c.2.length < size) :
    absorb size compress left c data = data.foldl (feed size compress) c := by
  induction left generalizing c data with
  | zero =>
    obtain rfl := List.eq_nil_of_length_eq_zero (Nat.le_zero.mp hleft)
    rfl
  | succ left ih =>
    rw [absorb]
    split
    · rename_i hnil
      rw [hnil]
      rfl
    · rename_i hne
      have hpos := List.length_pos_iff.mpr hne
      dsimp only
      generalize hchunk : min (size - c.2.length) data.length = chunk
      have hrest : (data.drop chunk).length ≤ left := by
        rw [List.length_drop]
        omega
      have htake : (data.take chunk).length = chunk := by
        rw [List.length_take]
        omega
      have hsplit : data.foldl (feed size compress) c = (data.drop chunk).foldl (feed size compress) ((data.take chunk).foldl (feed size compress) c) := by
        rw [← List.foldl_append, List.take_append_drop]
      rw [hsplit]
      split
      · rename_i hfull
        rw [List.length_append, htake] at hfull
        have hnonempty : data.take chunk ≠ [] := List.ne_nil_of_length_pos (by omega)
        rw [foldl_feed_full (by rw [htake]; exact hfull) hnonempty]
        exact ih hrest (Nat.lt_of_le_of_lt (Nat.zero_le _) hroom)
      · rename_i hopen
        rw [List.length_append, htake] at hopen
        have hpiece : (data.take chunk).foldl (feed size compress) c = (c.1, c.2 ++ data.take chunk) :=
          foldl_feed (by rw [htake]; omega)
        rw [hpiece]
        refine ih hrest ?_
        show (c.2 ++ data.take chunk).length < size
        rw [List.length_append, htake]
        omega

theorem length_foldl_feed {c : σ × List α} (data : List α) (h : c.2.length < size) :
    (data.foldl (feed size compress) c).2.length = (c.2.length + data.length) % size := by
  induction data generalizing c with
  | nil => exact (Nat.mod_eq_of_lt h).symm
  | cons a data ih =>
    rw [List.foldl_cons, List.length_cons]
    by_cases hfull : c.2.length + 1 = size
    · have hfeed : feed size compress c a = (compress c.1 (c.2 ++ [a]), []) := if_pos (by rw [List.length_append, List.length_singleton, hfull])
      rw [hfeed, ih (by show 0 < size; omega)]
      show (0 + data.length) % size = _
      rw [Nat.zero_add, ← Nat.add_mod_left size data.length, ← hfull]
      congr 1
      omega
    · have hfeed : feed size compress c a = (c.1, c.2 ++ [a]) := if_neg (by rw [List.length_append, List.length_singleton]; exact hfull)
      have hlen : (c.2 ++ [a]).length = c.2.length + 1 := by rw [List.length_append, List.length_singleton]
      rw [hfeed, ih (by rw [hlen]; omega)]
      show ((c.2 ++ [a]).length + data.length) % size = _
      rw [hlen]
      congr 1
      omega

theorem foldl_feed_blocks (hsize : 0 < size) {s : σ} {data : List α} {n : Nat} (h : data.length = size * n) :
    data.foldl (feed size compress) (s, []) =
      ((List.range n).foldl (fun s i => compress s ((data.drop (size * i)).take size)) s, []) := by
  induction n generalizing data with
  | zero =>
    obtain rfl := List.eq_nil_of_length_eq_zero h
    rfl
  | succ n ih =>
    rw [Nat.mul_succ] at h
    have hfront : (data.take (size * n)).length = size * n := by
      rw [List.length_take]
      omega
    have hlast : (data.drop (size * n)).length = size := by
      rw [List.length_drop]
      omega
    have hsame : ∀ i ∈ List.range n, ((data.take (size * n)).drop (size * i)).take size = (data.drop (size * i)).take size := by
      intro i hi
      have hle : size * i + size ≤ size * n := by
        rw [← Nat.mul_succ]
        exact Nat.mul_le_mul_left size (List.mem_range.mp hi)
      rw [List.drop_take, List.take_take, Nat.min_eq_left (by omega)]
    have hne : data.drop (size * n) ≠ [] := List.ne_nil_of_length_pos (by omega)
    have hblocks : (List.range n).foldl (fun s i => compress s (((data.take (size * n)).drop (size * i)).take size)) s =
        (List.range n).foldl (fun s i => compress s ((data.drop (size * i)).take size)) s :=
      List.foldl_ext _ _ _ fun t i hi => by rw [hsame i hi]
    rw [List.range_succ, List.foldl_append, List.foldl_cons, List.foldl_nil, ← hblocks,
      List.take_of_length_le (Nat.le_of_eq hlast)]
    conv_lhs => rw [← List.take_append_drop (size * n) data, List.foldl_append, ih hfront]
    rw [foldl_feed_full (by show 0 + _ = _; rw [hlast, Nat.zero_add]) hne]
    rfl

end ZenovOS.BlockHash
