import ZenovOS.Lib.Bytes

/-! # Writes to a memory of bytes

A memory gives a byte at each address. Writes that are apart are all read back once they are done, in whatever order, and nothing
else has changed. -/

namespace ZenovOS
open Bytes

namespace ByteMemory

/-- The `n` bytes at an address. -/
def load (m : Nat → UInt8) (at_ n : Nat) : Bytes := (List.range n).map fun i => m (at_ + i)

/-- The number of four bytes at an address. -/
def loadWord (m : Nat → UInt8) (at_ : Nat) : UInt32 := UInt32.ofNat (toNat (load m at_ 4))

/-- The numbers of four bytes from an address on. -/
def loadWords (m : Nat → UInt8) (at_ n : Nat) : List UInt32 := (List.range n).map fun i => loadWord m (at_ + 4 * i)

/-- The string at an address, which ends before the given limit. -/
def loadString (m : Nat → UInt8) (at_ limit : Nat) : Option Bytes :=
  if 0 ∈ load m at_ (limit - at_) then some (cstr (load m at_ (limit - at_))) else none

end ByteMemory

/-- Some bytes, and where they are written. -/
structure Write where
  start : Nat
  data : Bytes
  deriving DecidableEq

namespace Write
open ByteMemory

def stop (w : Write) : Nat := w.start + w.data.length

def put (w : Write) (m : Nat → UInt8) : Nat → UInt8 :=
  fun a => if w.start ≤ a ∧ a < w.stop then w.data.getD (a - w.start) 0 else m a

/-- All the writes, one after the other. -/
def putAll (ws : List Write) (m : Nat → UInt8) : Nat → UInt8 := ws.foldl (fun m w => w.put m) m

def Within (lo hi : Nat) (w : Write) : Prop := lo ≤ w.start ∧ w.stop ≤ hi

def Apart (v w : Write) : Prop := v.stop ≤ w.start ∨ w.stop ≤ v.start

theorem Within.mono {lo hi lo' hi' : Nat} {w : Write} (h : w.Within lo hi) (hlo : lo' ≤ lo) (hhi : hi ≤ hi') : w.Within lo' hi' :=
  ⟨Nat.le_trans hlo h.1, Nat.le_trans h.2 hhi⟩

theorem Within.apart {lo mid hi : Nat} {v w : Write} (hv : v.Within mid hi) (hw : w.Within lo mid) : v.Apart w :=
  .inr (Nat.le_trans hw.2 hv.1)

@[simp] theorem putAll_cons (w : Write) (ws : List Write) (m : Nat → UInt8) : putAll (w :: ws) m = putAll ws (w.put m) := rfl

theorem putAll_outside {ws : List Write} {m : Nat → UInt8} {a : Nat} (h : ∀ w ∈ ws, a < w.start ∨ w.stop ≤ a) : putAll ws m a = m a := by
  induction ws generalizing m with
  | nil => rfl
  | cons w ws ih =>
    have hw := h w List.mem_cons_self
    have hput : w.put m a = m a := if_neg (by omega)
    rw [putAll_cons, ih fun v hv => h v (List.mem_cons_of_mem w hv), hput]

theorem load_put {w : Write} {m : Nat → UInt8} : load (w.put m) w.start w.data.length = w.data := by
  apply List.ext_getElem
  · simp [load]
  · intro i hi hdata
    have hin : w.start ≤ w.start + i ∧ w.start + i < w.stop := by
      unfold stop
      omega
    have hread : w.put m (w.start + i) = w.data.getD (w.start + i - w.start) 0 := if_pos hin
    simp only [load, List.getElem_map, List.getElem_range]
    rw [hread, Nat.add_sub_cancel_left, List.getD_eq_getElem?_getD, List.getElem?_eq_getElem hdata, Option.getD_some]

theorem load_putAll {ws : List Write} (hapart : ws.Pairwise Apart) {w : Write} (hw : w ∈ ws) (m : Nat → UInt8) :
    load (putAll ws m) w.start w.data.length = w.data := by
  induction ws generalizing m with
  | nil => exact absurd hw List.not_mem_nil
  | cons v ws ih =>
    rw [List.pairwise_cons] at hapart
    rw [putAll_cons]
    rcases List.mem_cons.mp hw with rfl | hw
    · have hkept : load (putAll ws (w.put m)) w.start w.data.length = load (w.put m) w.start w.data.length := by
        unfold load
        refine List.map_congr_left fun i hi => putAll_outside fun v hv => ?_
        have hi := List.mem_range.mp hi
        have hv := hapart.1 v hv
        unfold Apart stop at hv
        unfold stop
        omega
      rw [hkept, load_put]
    · exact ih hapart.2 hw (v.put m)

theorem loadWord_putAll {ws : List Write} (hapart : ws.Pairwise Apart) {at_ : Nat} {x : UInt32} (hw : ⟨at_, le 4 x.toNat⟩ ∈ ws)
    (m : Nat → UInt8) : loadWord (putAll ws m) at_ = x := by
  have hload := load_putAll hapart hw m
  rw [length_le] at hload
  unfold loadWord
  rw [hload, ofNat_toNat_le32]

theorem loadString_putAll {ws : List Write} (hapart : ws.Pairwise Apart) {at_ limit : Nat} {text : Bytes} (htext : 0 ∉ text)
    (hw : ⟨at_, text ++ [0]⟩ ∈ ws) (hlimit : at_ + (text ++ [0]).length ≤ limit) (m : Nat → UInt8) :
    loadString (putAll ws m) at_ limit = some text := by
  have hload := load_putAll hapart hw m
  have hsplit : load (putAll ws m) at_ (limit - at_) =
      text ++ 0 :: load (putAll ws m) (at_ + (text ++ [0]).length) (limit - at_ - (text ++ [0]).length) := by
    have hlen : limit - at_ = (text ++ [0]).length + (limit - at_ - (text ++ [0]).length) := by omega
    have happend : load (putAll ws m) at_ (limit - at_) = load (putAll ws m) at_ (text ++ [0]).length ++
        load (putAll ws m) (at_ + (text ++ [0]).length) (limit - at_ - (text ++ [0]).length) := by
      nth_rewrite 1 [hlen]
      unfold load
      rw [List.range_add, List.map_append, List.map_map]
      simp only [Function.comp_def, Nat.add_assoc]
    rw [happend, hload, List.append_assoc, List.singleton_append]
  unfold loadString
  rw [hsplit, cstr_append_zero htext]
  exact if_pos (List.mem_append_right _ List.mem_cons_self)

/-! ### A row of words -/

/-- The words from an address on, each written by itself. -/
def words : Nat → List UInt32 → List Write
  | _, [] => []
  | at_, x :: xs => ⟨at_, le 4 x.toNat⟩ :: words (at_ + 4) xs

theorem mem_words {at_ i : Nat} {xs : List UInt32} {x : UInt32} (h : xs[i]? = some x) : ⟨at_ + 4 * i, le 4 x.toNat⟩ ∈ words at_ xs := by
  induction xs generalizing at_ i with
  | nil => exact absurd h (by simp)
  | cons y xs ih =>
    cases i with
    | zero =>
      obtain rfl : y = x := Option.some.inj h
      exact List.mem_cons_self
    | succ i =>
      have hadd : at_ + 4 * (i + 1) = at_ + 4 + 4 * i := by omega
      rw [hadd]
      exact List.mem_cons_of_mem _ (ih h)

theorem words_within {at_ : Nat} {xs : List UInt32} {w : Write} (hw : w ∈ words at_ xs) : w.Within at_ (at_ + 4 * xs.length) := by
  induction xs generalizing at_ with
  | nil => exact absurd hw List.not_mem_nil
  | cons x xs ih =>
    rw [List.length_cons]
    rcases List.mem_cons.mp hw with rfl | hw
    · refine ⟨Nat.le_refl at_, ?_⟩
      have hstop : stop ⟨at_, le 4 x.toNat⟩ = at_ + 4 := by rw [stop, length_le]
      omega
    · exact (ih hw).mono (by omega) (by omega)

theorem words_apart {at_ : Nat} {xs : List UInt32} : (words at_ xs).Pairwise Apart := by
  induction xs generalizing at_ with
  | nil => exact List.Pairwise.nil
  | cons x xs ih =>
    refine List.pairwise_cons.mpr ⟨fun w hw => .inl ?_, ih⟩
    rw [stop, length_le]
    exact (words_within hw).1

theorem append_words {ws : List Write} {at_ mid hi : Nat} {xs : List UInt32} (hwithin : ∀ w ∈ ws, w.Within mid hi)
    (hapart : ws.Pairwise Apart) (hmid : at_ + 4 * xs.length ≤ mid) (hhi : mid ≤ hi) :
    (∀ w ∈ ws ++ words at_ xs, w.Within at_ hi) ∧ (ws ++ words at_ xs).Pairwise Apart := by
  constructor
  · intro w hw
    rcases List.mem_append.mp hw with hw | hw
    · exact (hwithin w hw).mono (by omega) (Nat.le_refl hi)
    · exact (words_within hw).mono (Nat.le_refl at_) (Nat.le_trans hmid hhi)
  · refine List.pairwise_append.mpr ⟨hapart, words_apart, fun v hv w hw => ?_⟩
    exact (hwithin v hv).apart ((words_within hw).mono (Nat.le_refl at_) hmid)

theorem loadWords_putAll {ws : List Write} (hapart : ws.Pairwise Apart) {at_ : Nat} {xs : List UInt32} (hws : ∀ w ∈ words at_ xs, w ∈ ws)
    (m : Nat → UInt8) : loadWords (putAll ws m) at_ xs.length = xs := by
  apply List.ext_getElem
  · simp [loadWords]
  · intro i hi hxs
    simp only [loadWords, List.getElem_map, List.getElem_range]
    exact loadWord_putAll hapart (hws _ (mem_words (List.getElem?_eq_getElem hxs))) m

end Write

/-! ### Writes to a buffer -/

namespace Write
open ByteMemory

/-- The write to a buffer that has room for it. -/
def into (b : Bytes) (w : Write) : Bytes := overwrite b w.start w.data

/-- A buffer as a memory. -/
def memory (b : Bytes) : Nat → UInt8 := fun a => b.getD a 0

theorem length_into {b : Bytes} {w : Write} (h : w.stop ≤ b.length) : (into b w).length = b.length := length_overwrite h

theorem memory_into {b : Bytes} {w : Write} (h : w.stop ≤ b.length) : memory (into b w) = w.put (memory b) :=
  funext fun a => getD_overwrite h a

theorem length_intoAll {ws : List Write} {b : Bytes} (h : ∀ w ∈ ws, w.stop ≤ b.length) : (ws.foldl into b).length = b.length := by
  induction ws generalizing b with
  | nil => rfl
  | cons w ws ih =>
    have hlength := length_into (h w List.mem_cons_self)
    rw [List.foldl_cons, ih fun v hv => hlength ▸ h v (List.mem_cons_of_mem w hv), hlength]

theorem memory_intoAll {ws : List Write} {b : Bytes} (h : ∀ w ∈ ws, w.stop ≤ b.length) : memory (ws.foldl into b) = putAll ws (memory b) := by
  induction ws generalizing b with
  | nil => rfl
  | cons w ws ih =>
    have hw := h w List.mem_cons_self
    rw [List.foldl_cons, putAll_cons, ih fun v hv => length_into hw ▸ h v (List.mem_cons_of_mem w hv), memory_into hw]

theorem slice_eq_load {b : Bytes} {off n : Nat} (h : off + n ≤ b.length) : slice b off n = load (memory b) off n := by
  apply List.ext_getElem
  · rw [length_slice h, load, List.length_map, List.length_range]
  · intro i hi hload
    rw [length_slice h] at hi
    have hget := @getD_slice b off n i hi
    rw [List.getD_eq_getElem?_getD, List.getElem?_eq_getElem, Option.getD_some] at hget
    simp only [load, List.getElem_map, List.getElem_range]
    exact hget

theorem slice_intoAll {ws : List Write} {b : Bytes} (hstop : ∀ w ∈ ws, w.stop ≤ b.length) (hapart : ws.Pairwise Apart) {w : Write}
    (hw : w ∈ ws) : slice (ws.foldl into b) w.start w.data.length = w.data := by
  rw [slice_eq_load (by rw [length_intoAll hstop]; exact hstop w hw), memory_intoAll hstop, load_putAll hapart hw]

end Write
end ZenovOS
