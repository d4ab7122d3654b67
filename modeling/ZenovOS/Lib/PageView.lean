import ZenovOS.Lib.Bytes
import ZenovOS.Lib.Ledger

/-! # Images in a window of pages

A window of memory is mapped page by page. Pieces of an image are placed in it one after the other, on pages that can
be written, and then each page gets the right that its pieces ask for. Where the pieces are apart, and those on one page
ask for the same right, the window holds the image. -/

namespace ZenovOS

/-- What is known of a window: which pages are mapped and whether they can be written, and what bytes are there. -/
structure PageView where
  page : Nat → Option Bool
  byte : Nat → Option UInt8

namespace PageView

/-- Nothing is mapped. -/
def empty : PageView := ⟨fun _ => none, fun _ => none⟩

/-- The pages from `first` up to `stop` are mapped, to be written or not. -/
def setPages (w : PageView) (first stop : Nat) (write : Bool) : PageView :=
  { w with page := fun k => if first ≤ k ∧ k < stop then some write else w.page k }

def store (w : PageView) (offset : Nat) (data : Bytes) : PageView :=
  { w with byte := fun o => if offset ≤ o ∧ o < offset + data.length then data[o - offset]? else w.byte o }

/-- How many of the first `n` pages are mapped. -/
def mapped (w : PageView) (n : Nat) : Nat := Ledger.held w.page (List.range n)

theorem page_setPages (w : PageView) (first stop : Nat) (write : Bool) (k : Nat) :
    (w.setPages first stop write).page k = if first ≤ k ∧ k < stop then some write else w.page k := rfl

@[simp] theorem byte_setPages (w : PageView) (first stop : Nat) (write : Bool) : (w.setPages first stop write).byte = w.byte := rfl

@[simp] theorem page_store (w : PageView) (offset : Nat) (data : Bytes) : (w.store offset data).page = w.page := rfl

theorem page_setPage (w : PageView) (k : Nat) (write : Bool) : (w.setPages k (k + 1) write).page = Function.update w.page k (some write) := by
  funext m
  rw [page_setPages]
  by_cases hm : m = k
  · rw [hm, Function.update_self, if_pos (by omega)]
  · rw [Function.update_of_ne hm, if_neg (by omega)]

theorem mapped_setPage_none {w : PageView} {k n : Nat} {write : Bool} (hn : k < n) (hk : w.page k = none) :
    (w.setPages k (k + 1) write).mapped n = w.mapped n + 1 := by
  unfold mapped
  rw [page_setPage]
  exact Ledger.held_take List.nodup_range (List.mem_range.mpr hn) hk

theorem mapped_setPage_some {w : PageView} {k n : Nat} {write : Bool} (hk : w.page k ≠ none) :
    (w.setPages k (k + 1) write).mapped n = w.mapped n := by
  refine List.countP_congr fun m _ => ?_
  rw [page_setPage]
  by_cases hm : m = k
  · rw [hm, Function.update_self, Option.isSome_iff_ne_none.mpr hk, Option.isSome_some]
  · rw [Function.update_of_ne hm]

theorem setPages_succ {first stop : Nat} (w : PageView) (write : Bool) (h : first < stop) :
    (w.setPages first (first + 1) write).setPages (first + 1) stop write = w.setPages first stop write := by
  refine congrArg (PageView.mk · w.byte) (funext fun k => ?_)
  rw [page_setPages]
  by_cases hfirst : k = first
  · rw [if_neg (by omega), if_pos (by omega), if_pos (by omega)]
  · by_cases hk : first + 1 ≤ k ∧ k < stop
    · rw [if_pos hk, if_pos (by omega)]
    · rw [if_neg hk, if_neg (by omega), if_neg (by omega)]

theorem setPages_empty {first stop : Nat} (w : PageView) (write : Bool) (h : stop ≤ first) : w.setPages first stop write = w :=
  congrArg (PageView.mk · w.byte) (funext fun _ => if_neg (by omega))

theorem byte_store_in (w : PageView) {offset i : Nat} {data : Bytes} (h : i < data.length) :
    (w.store offset data).byte (offset + i) = some data[i] := by
  have hin : offset ≤ offset + i ∧ offset + i < offset + data.length := by omega
  show (if _ then _ else _) = _
  rw [if_pos hin, Nat.add_sub_cancel_left, List.getElem?_eq_getElem h]

theorem byte_store_out (w : PageView) {offset o : Nat} {data : Bytes} (h : o < offset ∨ offset + data.length ≤ o) :
    (w.store offset data).byte o = w.byte o := if_neg (by omega)

theorem store_nil (w : PageView) (offset : Nat) : w.store offset [] = w := by
  have hbyte : (w.store offset []).byte = w.byte := by
    funext o
    exact w.byte_store_out (by simp; omega)
  rw [show w.store offset [] = ⟨w.page, (w.store offset []).byte⟩ from rfl, hbyte]

theorem store_append (w : PageView) (offset : Nat) (a b : Bytes) :
    (w.store offset a).store (offset + a.length) b = w.store offset (a ++ b) := by
  have hbyte : ((w.store offset a).store (offset + a.length) b).byte = (w.store offset (a ++ b)).byte := by
    funext o
    show (if _ then _ else if _ then _ else _) = if _ then _ else _
    rw [List.length_append]
    by_cases hb : offset + a.length ≤ o ∧ o < offset + a.length + b.length
    · rw [if_pos hb, if_pos (by omega), List.getElem?_append_right (by omega)]
      congr 1
      omega
    · rw [if_neg hb]
      by_cases ha : offset ≤ o ∧ o < offset + a.length
      · rw [if_pos ha, if_pos (by omega), List.getElem?_append_left (by omega)]
      · rw [if_neg ha, if_neg (by omega)]
  exact congrArg (PageView.mk w.page) hbyte

/-! ### Pieces -/

/-- A piece of an image: its bytes, from `start` on, and whether they can be written. -/
structure Piece where
  start : Nat
  content : Bytes
  write : Bool

section Pieces
variable {P : Nat} {w : PageView} {p q : Piece} {ps : List Piece} {k : Nat}

def Piece.first (P : Nat) (p : Piece) : Nat := p.start / P
def Piece.stop (P : Nat) (p : Piece) : Nat := (p.start + p.content.length + P - 1) / P

/-- Some of the piece is on the page. -/
def Piece.Covers (P : Nat) (p : Piece) (k : Nat) : Prop := p.first P ≤ k ∧ k < p.stop P

instance : Decidable (p.Covers P k) := inferInstanceAs (Decidable (_ ∧ _))

theorem Piece.covers_iff (hP : 0 < P) (hne : 0 < p.content.length) :
    p.Covers P k ↔ ∃ o, p.start ≤ o ∧ o < p.start + p.content.length ∧ o / P = k := by
  unfold Piece.Covers Piece.first Piece.stop
  constructor
  · rintro ⟨hfirst, hstop⟩
    -- the first byte of the piece that is on the page
    refine ⟨max p.start (k * P), Nat.le_max_left _ _, ?_, ?_⟩
    · have hlt : (k + 1) * P ≤ p.start + p.content.length + P - 1 := (Nat.le_div_iff_mul_le hP).mp hstop
      rw [Nat.succ_mul] at hlt
      exact Nat.max_lt.mpr ⟨by omega, by omega⟩
    · have hlt : p.start < (k + 1) * P := (Nat.div_lt_iff_lt_mul hP).mp (Nat.lt_succ_of_le hfirst)
      rw [Nat.succ_mul] at hlt
      refine Nat.div_eq_of_lt_le (Nat.le_max_right _ _) ?_
      rw [Nat.succ_mul]
      exact Nat.max_lt.mpr ⟨hlt, Nat.lt_add_of_pos_right hP⟩
  · rintro ⟨o, hstart, hend, rfl⟩
    refine ⟨Nat.div_le_div_right hstart, ?_⟩
    rw [Nat.lt_iff_add_one_le, Nat.le_div_iff_mul_le hP, Nat.succ_mul]
    have := Nat.div_mul_le_self o P
    omega

/-- The pieces are apart. -/
def Piece.Apart (p q : Piece) : Prop :=
  p.start + p.content.length ≤ q.start ∨ q.start + q.content.length ≤ p.start

def place (P : Nat) (w : PageView) (p : Piece) : PageView := (w.setPages (p.first P) (p.stop P) true).store p.start p.content

/-- The pages of a piece get the right that it asks for. -/
def grant (P : Nat) (w : PageView) (p : Piece) : PageView := w.setPages (p.first P) (p.stop P) p.write

theorem page_place (w : PageView) (p : Piece) (k : Nat) : (w.place P p).page k = if p.Covers P k then some true else w.page k := rfl

theorem page_grant (w : PageView) (p : Piece) (k : Nat) : (w.grant P p).page k = if p.Covers P k then some p.write else w.page k := rfl

theorem page_places (w : PageView) (ps : List Piece) (k : Nat) :
    (ps.foldl (place P) w).page k = if ∃ p ∈ ps, p.Covers P k then some true else w.page k := by
  induction ps generalizing w with
  | nil => simp
  | cons p ps ih =>
    rw [List.foldl_cons, ih, page_place]
    by_cases hp : p.Covers P k
    · simp [hp]
    · simp [hp]

theorem byte_places_out {o : Nat} (h : ∀ p ∈ ps, o < p.start ∨ p.start + p.content.length ≤ o) :
    (ps.foldl (place P) w).byte o = w.byte o := by
  induction ps generalizing w with
  | nil => rfl
  | cons p ps ih =>
    rw [List.foldl_cons, ih fun q hq => h q (List.mem_cons_of_mem p hq)]
    exact (w.setPages _ _ _).byte_store_out (h p List.mem_cons_self)

theorem byte_places (hapart : ps.Pairwise Piece.Apart) (hp : p ∈ ps) {i : Nat} (hi : i < p.content.length) :
    (ps.foldl (place P) w).byte (p.start + i) = some p.content[i] := by
  induction ps generalizing w with
  | nil => cases hp
  | cons q ps ih =>
    obtain ⟨hrest, hapart⟩ := List.pairwise_cons.mp hapart
    rw [List.foldl_cons]
    rcases List.mem_cons.mp hp with rfl | hp
    · rw [byte_places_out fun r hr => ?_]
      · exact (w.setPages _ _ _).byte_store_in hi
      · have hor := hrest r hr
        unfold Piece.Apart at hor
        omega
    · exact ih hapart hp

theorem page_grants_out (h : ∀ p ∈ ps, ¬p.Covers P k) : (ps.foldl (grant P) w).page k = w.page k := by
  induction ps generalizing w with
  | nil => rfl
  | cons p ps ih =>
    rw [List.foldl_cons, ih fun q hq => h q (List.mem_cons_of_mem p hq), page_grant, if_neg (h p List.mem_cons_self)]

theorem page_grants (hsame : ∀ q ∈ ps, q.Covers P k → q.write = p.write) (hp : p ∈ ps) (hk : p.Covers P k) :
    (ps.foldl (grant P) w).page k = some p.write := by
  induction ps generalizing w p with
  | nil => cases hp
  | cons q ps ih =>
    rw [List.foldl_cons]
    by_cases hlater : ∃ r ∈ ps, r.Covers P k
    · obtain ⟨r, hr, hrk⟩ := hlater
      have hwrite := hsame r (List.mem_cons_of_mem q hr) hrk
      rw [← hwrite]
      refine ih (fun t ht htk => ?_) hr hrk
      rw [hwrite, hsame t (List.mem_cons_of_mem q ht) htk]
    · -- the piece is the last one on its page
      have hnone : ∀ r ∈ ps, ¬r.Covers P k := fun r hr hrk => hlater ⟨r, hr, hrk⟩
      obtain rfl := (List.mem_cons.mp hp).resolve_right fun hp => hnone p hp hk
      rw [page_grants_out hnone, page_grant, if_pos hk]

theorem byte_grants (w : PageView) (ps : List Piece) : (ps.foldl (grant P) w).byte = w.byte := by
  induction ps generalizing w with
  | nil => rfl
  | cons p ps ih => rw [List.foldl_cons, ih, grant, byte_setPages]

end Pieces
end PageView
end ZenovOS
