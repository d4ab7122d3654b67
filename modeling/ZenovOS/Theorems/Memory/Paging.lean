import Mathlib.Logic.Equiv.Basic
import ZenovOS.Lib.Ledger
import ZenovOS.Memory.Paging
import ZenovOS.Theorems.Memory.Frames

/-! # Address spaces own their frames

A frame that an address space has taken is its table or is mapped by one entry of a table. What each operation
does to the owners is said first; then every run, and what is left when all address spaces are destroyed. -/

namespace ZenovOS.Memory.Paging
open Pmm Ledger Align Bitmap

/-! ### Entries -/

/-- An entry that maps frame `f`, writable or not. -/
def Flagged (f v : Nat) : Prop := v = f * 4096 + 5 ∨ v = f * 4096 + 7

variable {f v : Nat}

theorem or_flags {c d : Nat} (hc : c < 4096) (hd : d < 4096) : f * 4096 + c ||| d = f * 4096 + (c ||| d) := by
  have hor : c ||| d < 4096 := Nat.or_lt_two_pow (n := 12) hc hd
  have hleft := Nat.two_pow_add_eq_or_of_lt (i := 12) hc f
  have hright := Nat.two_pow_add_eq_or_of_lt (i := 12) hor f
  rw [Nat.mul_comm f 4096]
  exact (congrArg (· ||| d) hleft).trans ((Nat.or_assoc _ _ _).trans hright.symm)

theorem isPresent_eq (v : Nat) : isPresent v = decide (v % 2 = 1) := by
  have hmod : v &&& present = v % 2 := Nat.and_one_is_mod v
  rw [isPresent, hmod]
  exact decide_eq_decide.mpr (by omega)

theorem Flagged.present (h : Flagged f v) : isPresent v = true := by
  rw [isPresent_eq, decide_eq_true_eq]
  rcases h with rfl | rfl <;> omega

theorem not_present_zero : isPresent 0 = false := by decide

theorem Flagged.div (h : Flagged f v) : v / pageSize = f := by
  show v / 4096 = f
  rcases h with rfl | rfl <;> omega

theorem entryFrame_eq (hv : v < 4294967296) : entryFrame v = v / 4096 * 4096 := and_mask (k := 12) hv (by decide)

theorem Flagged.frame (h : Flagged f v) (hf : f < 32768) : entryFrame v = f * pageSize := by
  have hdiv : v / 4096 < 1048576 := by
    rw [show v / 4096 = f from h.div]
    exact Nat.lt_trans hf (by decide)
  have hlt : v < 1048576 * 4096 := (Nat.div_lt_iff_lt_mul page_pos).mp hdiv
  rw [entryFrame_eq hlt, show v / 4096 = f from h.div]

theorem flagged_fresh : f * pageSize ||| present ||| user = f * 4096 + 5 := by
  have hone := or_flags (f := f) (d := 1) page_pos (by omega)
  rw [Nat.add_zero, Nat.zero_or] at hone
  have hor : 1 ||| 4 = 5 := rfl
  show f * 4096 ||| 1 ||| 4 = _
  rw [hone, or_flags (by omega) (by omega), hor]

theorem flagged_new : Flagged f (f * pageSize ||| present ||| user) := .inl flagged_fresh

theorem Flagged.write_eq (h : Flagged f v) : v ||| writable = f * 4096 + 7 := by
  rcases h with rfl | rfl
  · exact or_flags (by decide) (by decide)
  · exact or_flags (by decide) (by decide)

theorem Flagged.write (h : Flagged f v) : Flagged f (v ||| writable) := .inr h.write_eq

theorem Flagged.protect_eq (h : Flagged f v) (hf : f < 32768) (write : Bool) : protectEntry write v = f * 4096 + if write then 7 else 5 := by
  cases write with
  | true => exact h.write_eq
  | false =>
    have hkeep : f * 4096 &&& (2 ^ 32 - 1 - 2) = f * 4096 := by
      have hlt : f * 4096 < 2 ^ 32 := by omega
      have hmask := and_mask (k := 12) hlt (by decide)
      rw [show f * 4096 / 2 ^ 12 * 2 ^ 12 = f * 4096 by omega] at hmask
      rw [← hmask, Nat.and_assoc]
      rfl
    have hclear : ∀ c, c < 4096 → f * 4096 + c &&& (2 ^ 32 - 1 - 2) = f * 4096 + (c &&& (2 ^ 32 - 1 - 2)) := by
      intro c hc
      have hand : c &&& (2 ^ 32 - 1 - 2) < 4096 := Nat.lt_of_le_of_lt Nat.and_le_left hc
      have hleft := Nat.two_pow_add_eq_or_of_lt (i := 12) hc f
      have hright := Nat.two_pow_add_eq_or_of_lt (i := 12) hand f
      rw [Nat.mul_comm (2 ^ 12)] at hleft hright
      rw [show f * 4096 + c = f * 4096 ||| c from hleft, Nat.and_or_distrib_right, hkeep]
      exact hright.symm
    show v &&& (2 ^ 32 - 1 - 2) = _
    rcases h with rfl | rfl
    · exact hclear 5 (by decide)
    · exact hclear 7 (by decide)

theorem Flagged.protect (h : Flagged f v) (hf : f < 32768) (write : Bool) : Flagged f (protectEntry write v) := by
  rw [h.protect_eq hf]
  cases write with
  | false => exact .inl rfl
  | true => exact .inr rfl

theorem pageRange_eq {offset length : Nat} (hlength : 0 < length) (h : offset + length ≤ processWindowBytes) :
    pageRange (UInt32.ofNat offset) (UInt32.ofNat length) = some (offset / pageSize, (offset + length + pageSize - 1) / pageSize) := by
  have hend : offset + length ≤ 1048576 := h
  have hoffset : (UInt32.ofNat offset).toNat = offset := UInt32.toNat_ofNat_of_lt' (show offset < 4294967296 by omega)
  have hlen : (UInt32.ofNat length).toNat = length := UInt32.toNat_ofNat_of_lt' (show length < 4294967296 by omega)
  have hsum : (UInt32.ofNat offset + UInt32.ofNat length).toNat = offset + length := by
    rw [UInt32.toNat_add, hoffset, hlen]
    exact Nat.mod_eq_of_lt (by omega)
  have hne : UInt32.ofNat length ≠ 0 := by
    intro hzero
    have := congrArg UInt32.toNat hzero
    rw [hlen, UInt32.toNat_zero] at this
    omega
  have hstop : (offset + length + pageSize - 1) % 2 ^ 32 = offset + length + 4095 := Nat.mod_eq_of_lt (show offset + length + 4096 - 1 < 4294967296 by omega)
  unfold pageRange
  rw [hoffset, hlen, hsum, hstop, if_neg (not_or.mpr ⟨hne, not_or.mpr ⟨Nat.not_le.mpr (show offset < 1048576 by omega),
    Nat.not_lt.mpr (show length ≤ 1048576 - offset by omega)⟩⟩)]
  have hmask : ∀ x, x < 4294967296 → x &&& (2 ^ 32 - pageSize) = x / 4096 * 4096 := fun x hx => and_mask (k := 12) hx (by decide)
  have hfloor : entryFrame offset = offset / 4096 * 4096 := hmask offset (by omega)
  rw [hfloor, hmask _ (by omega)]
  show some (offset / 4096 * 4096 / 4096, (offset + length + 4095) / 4096 * 4096 / 4096) = _
  rw [Nat.mul_div_cancel _ page_pos, Nat.mul_div_cancel _ page_pos]
  rfl

theorem pageRange_spec {offset length : UInt32} {first stop : Nat} (h : pageRange offset length = some (first, stop)) :
    first + (stop - first) ≤ processPageCount := by
  unfold pageRange at h
  split at h
  · cases h
  · rename_i hrange
    simp only [not_or, Nat.not_le, Nat.not_lt] at hrange
    obtain ⟨-, hoffset, hlength⟩ := hrange
    have hoffset : offset.toNat < 1048576 := hoffset
    have hlength : length.toNat ≤ 1048576 - offset.toNat := hlength
    have hsum : (offset + length).toNat = offset.toNat + length.toNat := by
      rw [UInt32.toNat_add]
      exact Nat.mod_eq_of_lt (by omega)
    have hfirst : entryFrame offset.toNat = offset.toNat / 4096 * 4096 := entryFrame_eq (by omega)
    have hstop : (offset.toNat + length.toNat + pageSize - 1) % 2 ^ 32 &&& (2 ^ 32 - pageSize) =
        (offset.toNat + length.toNat + 4095) / 4096 * 4096 := by
      have hmod : (offset.toNat + length.toNat + 4096 - 1) % 4294967296 = offset.toNat + length.toNat + 4095 :=
        Nat.mod_eq_of_lt (by omega)
      show (offset.toNat + length.toNat + 4096 - 1) % 4294967296 &&& _ = _
      rw [hmod]
      exact entryFrame_eq (by omega)
    obtain ⟨rfl, rfl⟩ := Prod.mk.inj (Option.some.inj h)
    rw [hsum, hfirst, hstop, Nat.mul_div_cancel _ page_pos, Nat.mul_div_cancel _ page_pos]
    show _ ≤ 256
    omega

/-! ### Owners -/

/-- What holds a frame: an address space its table, or an entry of that table the page it maps. -/
inductive Slot
  | table (i : Nat)
  | page (i k : Nat)
  deriving DecidableEq

/-- The address space that a slot is part of. -/
def Slot.space : Slot → Nat
  | .table i => i
  | .page i _ => i

/-- Nothing but address space `i` has changed: neither what the others own nor the words there. -/
structure Elsewhere (i : Nat) (own own' : Slot → Option Nat) (s s' : Paging) : Prop where
  owners : ∀ x, x.space ≠ i → own' x = own x
  words : ∀ x f, x.space ≠ i → own x = some f → ∀ k, s'.word (f * pageSize) k = s.word (f * pageSize) k
  spaces : ∀ j, j ≠ i → s'.space j = s.space j
  legacy : s'.legacyUserTable = s.legacyUserTable

theorem Elsewhere.refl (i : Nat) (own : Slot → Option Nat) (s : Paging) : Elsewhere i own own s s :=
  ⟨fun _ _ => rfl, fun _ _ _ _ _ => rfl, fun _ _ => rfl, rfl⟩

theorem Elsewhere.trans {i : Nat} {own own' own'' : Slot → Option Nat} {s s' s'' : Paging} (h : Elsewhere i own own' s s')
    (h' : Elsewhere i own' own'' s' s'') : Elsewhere i own own'' s s'' where
  owners x hx := (h'.owners x hx).trans (h.owners x hx)
  words x f hx hf k := (h'.words x f hx ((h.owners x hx).trans hf) k).trans (h.words x f hx hf k)
  spaces j hj := (h'.spaces j hj).trans (h.spaces j hj)
  legacy := h'.legacy.trans h.legacy

theorem Elsewhere.update {i : Nat} {own : Slot → Option Nat} {s s' : Paging} {y : Slot} {item : Option Nat} (hy : y.space = i)
    (hwords : ∀ x f, x.space ≠ i → own x = some f → ∀ k, s'.word (f * pageSize) k = s.word (f * pageSize) k)
    (hspaces : ∀ j, j ≠ i → s'.space j = s.space j) (hlegacy : s'.legacyUserTable = s.legacyUserTable) :
    Elsewhere i own (Function.update own y item) s s' :=
  ⟨fun x hx => Function.update_of_ne (fun he : x = y => hx (he ▸ hy)) _ _, hwords, hspaces, hlegacy⟩

/-- Entry `k` of a table, for a slot that holds this. -/
def Entry (k v : Nat) : Option Nat → Prop
  | none => v = 0
  | some f => k < processPageCount ∧ Flagged f v

/-- The tables and entries of `s` hold the frames that `own` gives, and these come from the free frames of `p`. -/
structure Core (p : Pmm) (s : Paging) (own : Slot → Option Nat) : Prop where
  start : Counted p
  counted : Counted s.pmm
  balanced : Balanced (fun f => p.isUsed f = false) (fun f => s.pmm.isUsed f = false) own
  empty : ∀ i, own (.table i) = none → (s.space i).tablePhysical = 0 ∧ ∀ k, own (.page i k) = none
  table : ∀ i t, own (.table i) = some t → (s.space i).tablePhysical = t * pageSize
  entry : ∀ i t k, own (.table i) = some t → Entry k (s.word (t * pageSize) k) (own (.page i k))
  on : ∀ i t, own (.table i) = some t → s.pmm.initialized = true
  active : ∀ i, s.activeAddressSpace = some i → own (.table i) ≠ none

variable {p : Pmm} {s s' : Paging} {own : Slot → Option Nat} {i j k t g : Nat}

theorem Core.managed (h : Core p s own) {x : Slot} (hx : own x = some f) : Managed f :=
  h.start.managed f ((h.balanced.total f).mpr (.inr ⟨x, hx⟩))

theorem Core.used (h : Core p s own) {x : Slot} (hx : own x = some f) : s.pmm.isUsed f = true :=
  Bool.not_eq_false _ ▸ h.balanced.apart x f hx

theorem Core.ne_zero (h : Core p s own) (ht : own (.table i) = some t) : (s.space i).tablePhysical ≠ 0 := by
  have hbounds := (h.managed ht).bounds
  rw [h.table i t ht]
  exact Nat.mul_ne_zero (by omega) (by decide)

theorem Core.none_iff (h : Core p s own) : own (.table i) = none ↔ (s.space i).tablePhysical = 0 := by
  refine ⟨fun hnone => (h.empty i hnone).1, fun hzero => ?_⟩
  cases ht : own (.table i) with
  | none => rfl
  | some t => exact absurd hzero (h.ne_zero ht)

theorem Core.frames_ne (h : Core p s own) {x y : Slot} (hx : own x = some f) (hy : own y = some g) (hne : x ≠ y) :
    f * pageSize ≠ g * pageSize := by
  intro he
  obtain rfl : f = g := Nat.mul_right_cancel page_pos he
  exact hne (h.balanced.unique x y f hx hy)

theorem Core.same (h : Core p s own) (ht : own (.table i) = some t) (hg : own (.table j) = some g)
    (he : g * pageSize = t * pageSize) : j = i := by
  obtain rfl : g = t := Nat.mul_right_cancel page_pos he
  exact Slot.table.inj (h.balanced.unique _ _ _ hg ht)

theorem Core.apart (h : Core p s own) (hf : own (.page i k) = some f) (hg : own (.table j) = some g) : g * pageSize ≠ f * pageSize := by
  intro he
  obtain rfl : g = f := Nat.mul_right_cancel page_pos he
  cases h.balanced.unique _ _ _ hf hg

theorem Core.entry_some (h : Core p s own) (ht : own (.table i) = some t) (hf : own (.page i k) = some f) :
    k < processPageCount ∧ Flagged f (s.word (t * pageSize) k) := by
  have hentry := h.entry i t k ht
  rwa [hf] at hentry

theorem Core.entry_none (h : Core p s own) (ht : own (.table i) = some t) (hnone : own (.page i k) = none) :
    s.word (t * pageSize) k = 0 := by
  have hentry := h.entry i t k ht
  rwa [hnone] at hentry

theorem Core.present_iff (h : Core p s own) (ht : own (.table i) = some t) :
    isPresent (s.word (t * pageSize) k) = (own (.page i k)).isSome := by
  cases hk : own (.page i k) with
  | none => rw [h.entry_none ht hk, not_present_zero, Option.isSome_none]
  | some f => rw [(h.entry_some ht hk).2.present, Option.isSome_some]

theorem Core.setPage (h : Core p s own) (ht : own (.table i) = some t) (item : Option Nat)
    (hcounted : Counted s'.pmm) (hon : s'.pmm.initialized = s.pmm.initialized)
    (hbalanced : Balanced (fun f => p.isUsed f = false) (fun f => s'.pmm.isUsed f = false) (Function.update own (.page i k) item))
    (hspace : ∀ j, (s'.space j).tablePhysical = (s.space j).tablePhysical) (hactive : s'.activeAddressSpace = s.activeAddressSpace)
    (hentry : Entry k (s'.word (t * pageSize) k) item)
    (hrest : ∀ j g m, own (.table j) = some g → (j = i → m ≠ k) → s'.word (g * pageSize) m = s.word (g * pageSize) m) :
    Core p s' (Function.update own (.page i k) item) := by
  have htable : ∀ j, Function.update own (.page i k) item (.table j) = own (.table j) := fun j => Function.update_of_ne Slot.noConfusion _ _
  refine ⟨h.start, hcounted, hbalanced, fun j hj => ?_, fun j g hg => ?_, fun j g m hg => ?_, fun j g hg => ?_, fun j hj => ?_⟩
  · rw [htable] at hj
    obtain ⟨hzero, hnone⟩ := h.empty j hj
    refine ⟨(hspace j).trans hzero, fun m => ?_⟩
    have hne : Slot.page j m ≠ .page i k := by
      rintro ⟨⟩
      rw [ht] at hj
      cases hj
    rw [Function.update_of_ne hne]
    exact hnone m
  · rw [htable] at hg
    exact (hspace j).trans (h.table j g hg)
  · rw [htable] at hg
    by_cases hne : Slot.page j m = .page i k
    · obtain ⟨rfl, rfl⟩ := Slot.page.inj hne
      obtain rfl : g = t := Option.some.inj (hg.symm.trans ht)
      rw [Function.update_self]
      exact hentry
    · rw [Function.update_of_ne hne, hrest j g m hg fun he hm => hne (by rw [he, hm])]
      exact h.entry j g m hg
  · rw [htable] at hg
    exact hon.trans (h.on j g hg)
  · rw [htable]
    exact h.active j (hactive.symm.trans hj)

theorem Core.setFlags (h : Core p s own) (ht : own (.table i) = some t) (hk : own (.page i k) = some f) {v : Nat} (hv : Flagged f v) :
    Core p (s.storeEntry (t * pageSize) k v) own := by
  have hself : Function.update own (.page i k) (some f) = own := Function.update_eq_self_iff.mpr hk.symm
  have hword : (s.storeEntry (t * pageSize) k v).word (t * pageSize) k = v := if_pos ⟨rfl, rfl⟩
  rw [← hself]
  refine h.setPage ht (some f) h.counted rfl ?_ (fun _ => rfl) rfl ?_ fun j g m hg hm => if_neg fun he => hm (h.same ht hg he.1) he.2
  · rw [hself]
    exact h.balanced
  · rw [hword]
    exact ⟨(h.entry_some ht hk).1, hv⟩

theorem Core.give (h : Core p s own) {x : Slot} (hx : own x = some f) (hon : s.pmm.initialized = true) :
    ∃ pmm, s.pmm.freeFrame (f * pageSize) = (pmm, true) ∧ Counted pmm ∧ pmm.initialized = s.pmm.initialized ∧
      Balanced (fun g => p.isUsed g = false) (fun g => pmm.isUsed g = false) (Function.update own x none) := by
  have hcounted := counted_openFrame h.counted (h.used hx) (h.managed hx)
  refine ⟨_, freeFrame_eq hon (h.managed hx) (h.used hx), ⟨hcounted.available, hcounted.managed⟩, rfl, h.balanced.give hx fun y => ?_⟩
  show (s.pmm.openFrame f).isUsed y = false ↔ _
  rw [isUsed_openFrame, Bool.and_eq_false_iff, decide_eq_false_iff_not, not_not]
  exact or_comm

theorem Core.take (h : Core p s own) {x : Slot} (hx : own x = none) :
    s.pmm.allocateFrame = (s.pmm, 0) ∨
    ∃ f pmm, s.pmm.allocateFrame = (pmm, f * pageSize) ∧ f * pageSize ≠ 0 ∧ s.pmm.isUsed f = false ∧ Counted pmm ∧
      s.pmm.initialized = true ∧ pmm.initialized = s.pmm.initialized ∧
      Balanced (fun g => p.isUsed g = false) (fun g => pmm.isUsed g = false) (Function.update own x (some f)) := by
  rcases allocateFrame_spec h.counted with ⟨hnone, -⟩ | ⟨f, hon, hf, hsome⟩
  · exact .inl hnone
  · have hbounds := (h.counted.managed f hf).bounds
    refine .inr ⟨f, _, hsome, Nat.mul_ne_zero (by omega) (by decide), hf, counted_takeFrame h.counted hf, hon, rfl, ?_⟩
    refine h.balanced.take hx hf fun y => ?_
    rw [isUsed_takeFrame, Bool.or_eq_false_iff, decide_eq_false_iff_not]
    exact and_comm

theorem Core.fresh (h : Core p s own) (hf : s.pmm.isUsed f = false) {x : Slot} (hg : own x = some g) : g * pageSize ≠ f * pageSize := by
  intro he
  obtain rfl : g = f := Nat.mul_right_cancel page_pos he
  exact h.balanced.apart _ _ hg hf

/-! ### Clearing -/

def releasePage (i : Nat) (own : Slot → Option Nat) (k : Nat) : Slot → Option Nat := Function.update own (.page i k) none

/-- What `own` leaves when the pages of address space `i` are given back. -/
def emptied (own : Slot → Option Nat) (i : Nat) : Slot → Option Nat
  | .table j => own (.table j)
  | .page j k => if j = i then none else own (.page j k)

theorem core_clearPage (h : Core p s own) (ht : own (.table i) = some t) :
    Core p (clearPage (t * pageSize) s k) (releasePage i own k) := by
  unfold clearPage releasePage
  dsimp only
  rw [h.present_iff ht]
  cases hk : own (.page i k) with
  | none =>
    rw [Function.update_eq_self_iff.mpr hk.symm]
    exact h
  | some f =>
    obtain ⟨-, hflag⟩ := h.entry_some ht hk
    obtain ⟨pmm, hfree, hcounted, hon, hbalanced⟩ := h.give hk (h.on i t ht)
    have hword : ∀ j g m, own (.table j) = some g →
        (((s.storeEntry (t * pageSize) k 0).zeroFrame (f * pageSize)).word (g * pageSize) m) =
          (s.storeEntry (t * pageSize) k 0).word (g * pageSize) m := fun j g m hg => if_neg (h.apart hk hg)
    rw [hflag.frame (h.managed hk).bounds.2, Option.isSome_some, if_neg (by decide)]
    show Core p { (s.storeEntry (t * pageSize) k 0).zeroFrame (f * pageSize) with pmm := (s.pmm.freeFrame (f * pageSize)).1 } _
    rw [hfree]
    refine h.setPage ht none hcounted hon hbalanced (fun _ => rfl) rfl ?_ fun j g m hg hm => ?_
    · exact (hword i t k ht).trans (if_pos ⟨rfl, rfl⟩)
    · exact (hword j g m hg).trans (if_neg fun he => hm (h.same ht hg he.1) he.2)

theorem elsewhere_clearPage (h : Core p s own) (ht : own (.table i) = some t) :
    Elsewhere i own (releasePage i own k) s (clearPage (t * pageSize) s k) := by
  unfold clearPage releasePage
  dsimp only
  rw [h.present_iff ht]
  cases hk : own (.page i k) with
  | none =>
    rw [Function.update_eq_self_iff.mpr hk.symm]
    exact .refl i own s
  | some f =>
    rw [(h.entry_some ht hk).2.frame (h.managed hk).bounds.2, Option.isSome_some, if_neg (by decide)]
    refine .update rfl (fun x g hx hg m => ?_) (fun _ _ => rfl) rfl
    have htable : g * pageSize ≠ t * pageSize := h.frames_ne hg ht fun he => hx (he ▸ rfl)
    have hpage : g * pageSize ≠ f * pageSize := h.frames_ne hg hk fun he => hx (he ▸ rfl)
    show (if g * pageSize = f * pageSize then 0 else if g * pageSize = t * pageSize ∧ m = k then 0 else s.word (g * pageSize) m) = _
    rw [if_neg hpage, if_neg fun he => htable he.1]

theorem core_clearPages (h : Core p s own) (ht : own (.table i) = some t) (pages : List Nat) :
    Core p (pages.foldl (clearPage (t * pageSize)) s) (pages.foldl (releasePage i) own) := by
  induction pages generalizing s own with
  | nil => exact h
  | cons k pages ih => exact ih (core_clearPage h ht) ((Function.update_of_ne Slot.noConfusion _ _).trans ht)

theorem elsewhere_clearPages (h : Core p s own) (ht : own (.table i) = some t) (pages : List Nat) :
    Elsewhere i own (pages.foldl (releasePage i) own) s (pages.foldl (clearPage (t * pageSize)) s) := by
  induction pages generalizing s own with
  | nil => exact .refl i own s
  | cons k pages ih =>
    exact (elsewhere_clearPage h ht).trans (ih (core_clearPage h ht) ((Function.update_of_ne Slot.noConfusion _ _).trans ht))

theorem cleared_eq (own : Slot → Option Nat) (i : Nat) (pages : List Nat) (x : Slot) :
    pages.foldl (releasePage i) own x = if ∃ k ∈ pages, x = .page i k then none else own x := by
  induction pages generalizing own with
  | nil => simp
  | cons k pages ih =>
    rw [List.foldl_cons, ih, releasePage]
    by_cases hx : x = .page i k
    · subst hx
      simp
    · rw [Function.update_of_ne hx]
      simp [hx]

theorem Core.beyond (h : Core p s own) (hk : processPageCount ≤ k) : own (.page i k) = none := by
  cases ht : own (.table i) with
  | none => exact (h.empty i ht).2 k
  | some t =>
    cases hf : own (.page i k) with
    | none => rfl
    | some f => exact absurd (h.entry_some ht hf).1 (Nat.not_lt.mpr hk)

theorem Core.emptied_eq (h : Core p s own) :
    (List.range processPageCount).foldl (releasePage i) own = emptied own i := by
  funext x
  rw [cleared_eq]
  cases x with
  | table j => exact if_neg fun ⟨_, _, he⟩ => Slot.noConfusion he
  | page j k =>
    by_cases hj : j = i
    · subst hj
      rw [emptied, if_pos rfl]
      by_cases hk : k < processPageCount
      · rw [if_pos ⟨k, List.mem_range.mpr hk, rfl⟩]
      · rw [h.beyond (Nat.not_lt.mp hk), ite_self]
    · rw [emptied, if_neg hj, if_neg]
      rintro ⟨_, -, ⟨⟩⟩
      exact hj rfl

theorem Core.emptied_self (h : Core p s own) (ht : own (.table i) = none) : emptied own i = own := by
  funext x
  cases x with
  | table j => rfl
  | page j k =>
    by_cases hj : j = i
    · rw [emptied, if_pos hj, hj, (h.empty i ht).2]
    · rw [emptied, if_neg hj]

theorem clearPage_frame (table k : Nat) (s : Paging) :
    (clearPage table s k).space = s.space ∧ (clearPage table s k).activeAddressSpace = s.activeAddressSpace ∧
      (clearPage table s k).legacyUserTable = s.legacyUserTable := by
  unfold clearPage
  dsimp only
  split <;> exact ⟨rfl, rfl, rfl⟩

theorem clearPages_frame (table : Nat) (pages : List Nat) (s : Paging) :
    (pages.foldl (clearPage table) s).space = s.space ∧
      (pages.foldl (clearPage table) s).activeAddressSpace = s.activeAddressSpace ∧
      (pages.foldl (clearPage table) s).legacyUserTable = s.legacyUserTable := by
  induction pages generalizing s with
  | nil => exact ⟨rfl, rfl, rfl⟩
  | cons k pages ih =>
    obtain ⟨hspace, hactive, hlegacy⟩ := clearPage_frame table k s
    obtain ⟨hspace', hactive', hlegacy'⟩ := ih (clearPage table s k)
    exact ⟨hspace'.trans hspace, hactive'.trans hactive, hlegacy'.trans hlegacy⟩

theorem clear_active (s : Paging) (i : Nat) : (s.clear i).activeAddressSpace = s.activeAddressSpace := by
  unfold clear
  dsimp only
  split
  · rfl
  · exact (clearPages_frame _ _ s).2.1

/-! ### The operations -/

/-- The legacy table maps its own frames only. -/
def Legacy (table : Nat → Nat) : Prop := ∀ k, table k = 0 ∨ k < processPageCount ∧ Flagged (0x600 + k) (table k)

/-- The entries of a table. -/
def entries (i : Nat) : List Slot := (List.range (pageSize / 4)).map (Slot.page i)

structure Sound (p : Pmm) (s : Paging) (own : Slot → Option Nat) : Prop extends Core p s own where
  mapped : ∀ i, (s.space i).mappedPages = held own (entries i)
  legacy : Legacy s.legacyUserTable

theorem space_setSpace (s : Paging) (i : Nat) (x : AddressSpace) : (s.setSpace i x).space i = x := if_pos rfl

theorem space_setSpace_ne (s : Paging) (x : AddressSpace) (h : j ≠ i) : (s.setSpace i x).space j = s.space j := if_neg h

theorem entries_nodup (i : Nat) : (entries i).Nodup :=
  List.Pairwise.map (Slot.page i) (fun _ _ hne h => hne (Slot.page.inj h).2) List.nodup_range

theorem mem_entries {x : Slot} : x ∈ entries i ↔ ∃ k < pageSize / 4, x = .page i k := by
  unfold entries
  simp only [List.mem_map, List.mem_range]
  exact ⟨fun ⟨k, hk, he⟩ => ⟨k, hk, he.symm⟩, fun ⟨k, hk, he⟩ => ⟨k, hk, he.symm⟩⟩

theorem Core.congr (h : Core p s own) (hpmm : s'.pmm = s.pmm) (hword : s'.word = s.word)
    (hspace : ∀ j, (s'.space j).tablePhysical = (s.space j).tablePhysical)
    (hactive : ∀ j, s'.activeAddressSpace = some j → own (.table j) ≠ none) : Core p s' own where
  start := h.start
  counted := hpmm ▸ h.counted
  balanced := hpmm ▸ h.balanced
  empty j hj := ⟨(hspace j).trans (h.empty j hj).1, (h.empty j hj).2⟩
  table j t ht := (hspace j).trans (h.table j t ht)
  entry j t k ht := hword ▸ h.entry j t k ht
  on j t ht := hpmm ▸ h.on j t ht
  active := hactive

theorem sound_clear (h : Sound p s own) (i : Nat) : Sound p (s.clear i) (emptied own i) := by
  unfold clear
  dsimp only
  cases ht : own (.table i) with
  | none =>
    rw [if_pos (h.empty i ht).1, h.emptied_self ht]
    exact h
  | some t =>
    obtain ⟨hspace, hactive, hlegacy⟩ := clearPages_frame (t * pageSize) (List.range processPageCount) s
    have hcore := core_clearPages h.toCore ht (List.range processPageCount)
    rw [h.emptied_eq] at hcore
    rw [if_neg (h.ne_zero ht), h.table i t ht]
    refine ⟨hcore.congr rfl rfl (fun j => ?_) hcore.active, fun j => ?_, hlegacy.symm ▸ h.legacy⟩
    · by_cases hj : j = i
      · rw [hj, space_setSpace]
      · rw [space_setSpace_ne _ _ hj]
    · by_cases hj : j = i
      · have hzero : held (emptied own i) (entries j) = 0 := held_eq_zero fun x hx => by
          obtain ⟨k, -, rfl⟩ := mem_entries.mp hx
          rw [emptied, if_pos hj]
        rw [hzero, hj, space_setSpace]
      · have hkeep : held (emptied own i) (entries j) = held own (entries j) := held_congr fun x hx => by
          obtain ⟨k, -, rfl⟩ := mem_entries.mp hx
          rw [emptied, if_neg hj]
        rw [hkeep, space_setSpace_ne _ _ hj, hspace]
        exact h.mapped j

theorem elsewhere_clear (h : Sound p s own) (i : Nat) : Elsewhere i own (emptied own i) s (s.clear i) := by
  unfold clear
  dsimp only
  cases ht : own (.table i) with
  | none =>
    obtain ⟨hzero, hnone⟩ := h.empty i ht
    rw [if_pos hzero, h.emptied_self ht]
    exact .refl i own s
  | some t =>
    have hpages := elsewhere_clearPages h.toCore ht (List.range processPageCount)
    rw [h.emptied_eq] at hpages
    rw [if_neg (h.ne_zero ht), h.table i t ht]
    exact ⟨hpages.owners, hpages.words, fun j hj => (space_setSpace_ne _ _ hj).trans (hpages.spaces j hj), hpages.legacy⟩

theorem held_table (own : Slot → Option Nat) (i j : Nat) (item : Option Nat) :
    held (Function.update own (.table i) item) (entries j) = held own (entries j) :=
  held_of_notMem fun hx => by
    obtain ⟨_, -, he⟩ := mem_entries.mp hx
    cases he

theorem sound_created (h : Sound p s own) (hi : own (.table i) = none) {pmm : Pmm} (hf : s.pmm.isUsed f = false) (hcounted : Counted pmm)
    (hon : pmm.initialized = true)
    (hbalanced : Balanced (fun g => p.isUsed g = false) (fun g => pmm.isUsed g = false) (Function.update own (.table i) (some f))) :
    Sound p (({ s with pmm } : Paging).setSpace i ⟨f * pageSize, 0⟩ |>.zeroFrame (f * pageSize)) (Function.update own (.table i) (some f)) := by
  have hpage : ∀ j k, Function.update own (.table i) (some f) (.page j k) = own (.page j k) :=
    fun j k => Function.update_of_ne Slot.noConfusion _ _
  have hother : ∀ j, j ≠ i → Function.update own (.table i) (some f) (.table j) = own (.table j) :=
    fun j hj => Function.update_of_ne (fun he => hj (Slot.table.inj he)) _ _
  refine ⟨⟨h.start, hcounted, hbalanced, fun j hj => ?_, fun j t ht => ?_, fun j t k ht => ?_, fun _ _ _ => hon, fun j hj he => ?_⟩,
    fun j => ?_, h.legacy⟩
  · by_cases hji : j = i
    · rw [hji, Function.update_self] at hj
      cases hj
    · rw [hother j hji] at hj
      simp only [hpage]
      exact ⟨(congrArg AddressSpace.tablePhysical (if_neg hji)).trans (h.empty j hj).1, (h.empty j hj).2⟩
  · by_cases hji : j = i
    · rw [hji, Function.update_self] at ht
      obtain rfl := Option.some.inj ht
      exact congrArg AddressSpace.tablePhysical (if_pos hji)
    · rw [hother j hji] at ht
      exact (congrArg AddressSpace.tablePhysical (if_neg hji)).trans (h.table j t ht)
  · rw [hpage]
    by_cases hji : j = i
    · subst hji
      rw [Function.update_self] at ht
      obtain rfl := Option.some.inj ht
      rw [(h.empty j hi).2]
      exact if_pos rfl
    · rw [hother j hji] at ht
      have hword : ((({ s with pmm } : Paging).setSpace i ⟨f * pageSize, 0⟩).zeroFrame (f * pageSize)).word (t * pageSize) k =
          s.word (t * pageSize) k := if_neg (h.fresh hf ht)
      rw [hword]
      exact h.entry j t k ht
  · by_cases hji : j = i
    · rw [hji, Function.update_self] at he
      cases he
    · rw [hother j hji] at he
      exact h.active j hj he
  · rw [held_table]
    by_cases hji : j = i
    · have hzero : held own (entries j) = 0 := held_eq_zero fun x hx => by
        obtain ⟨k, -, rfl⟩ := mem_entries.mp hx
        rw [hji]
        exact (h.empty i hi).2 k
      rw [hzero]
      exact congrArg AddressSpace.mappedPages (if_pos hji)
    · exact (congrArg AddressSpace.mappedPages (if_neg hji)).trans (h.mapped j)

theorem sound_create (h : Sound p s own) (i : Nat) :
    ∃ own', Sound p (s.create i).1 own' ∧ Elsewhere i own own' s (s.create i).1 ∧
      (s.create i).1.activeAddressSpace = s.activeAddressSpace := by
  unfold create
  split
  · exact ⟨own, h, .refl i own s, rfl⟩
  · rename_i hfresh
    simp only [ne_eq, not_or, not_not] at hfresh
    have hi := h.none_iff.mpr hfresh.1
    dsimp only
    rcases h.take hi with hnone | ⟨f, pmm, hsome, hne, hf, hcounted, hstart, hon, hbalanced⟩
    · rw [hnone, if_pos rfl]
      exact ⟨own, h, .refl i own s, rfl⟩
    · rw [hsome]
      dsimp only
      rw [if_neg hne]
      refine ⟨_, sound_created h hi hf hcounted (hon.trans hstart) hbalanced, .update rfl (fun x g hx hg m => ?_) (fun j hj => ?_) rfl, rfl⟩
      · exact if_neg (h.fresh hf hg)
      · exact space_setSpace_ne _ _ hj

theorem sound_destroyed (h : Sound p s own) (ht : own (.table i) = some t) (hpages : ∀ k, own (.page i k) = none)
    (hactive : s.activeAddressSpace ≠ some i) :
    Sound p { (s.zeroFrame (t * pageSize)).setSpace i ⟨0, 0⟩ with pmm := (s.pmm.freeFrame (t * pageSize)).1 }
      (Function.update own (.table i) none) := by
  obtain ⟨pmm, hfree, hcounted, hon, hbalanced⟩ := h.give ht (h.on i t ht)
  have hpage : ∀ j k, Function.update own (.table i) none (.page j k) = own (.page j k) :=
    fun j k => Function.update_of_ne Slot.noConfusion _ _
  have hother : ∀ j, j ≠ i → Function.update own (.table i) none (.table j) = own (.table j) :=
    fun j hj => Function.update_of_ne (fun he => hj (Slot.table.inj he)) _ _
  have hheld : ∀ j g, Function.update own (.table i) none (.table j) = some g → j ≠ i := by
    rintro j g hg rfl
    rw [Function.update_self] at hg
    cases hg
  rw [hfree]
  refine ⟨⟨h.start, hcounted, hbalanced, fun j hj => ?_, fun j g hg => ?_, fun j g k hg => ?_, fun j g hg => ?_, fun j hj => ?_⟩,
    fun j => ?_, h.legacy⟩
  · simp only [hpage]
    by_cases hji : j = i
    · subst hji
      exact ⟨congrArg AddressSpace.tablePhysical (if_pos rfl), hpages⟩
    · rw [hother j hji] at hj
      exact ⟨(congrArg AddressSpace.tablePhysical (if_neg hji)).trans (h.empty j hj).1, (h.empty j hj).2⟩
  · have hji := hheld j g hg
    rw [hother j hji] at hg
    exact (congrArg AddressSpace.tablePhysical (if_neg hji)).trans (h.table j g hg)
  · have hji := hheld j g hg
    rw [hother j hji] at hg
    have hword : (s.zeroFrame (t * pageSize)).word (g * pageSize) k = s.word (g * pageSize) k := if_neg fun he => hji (h.same ht hg he)
    rw [hpage]
    exact hword.symm ▸ h.entry j g k hg
  · have hji := hheld j g hg
    rw [hother j hji] at hg
    exact hon.trans (h.on j g hg)
  · have hji : j ≠ i := fun he => hactive (he ▸ hj)
    rw [hother j hji]
    exact h.active j hj
  · rw [held_table]
    by_cases hji : j = i
    · subst hji
      have hzero : held own (entries j) = 0 := held_eq_zero fun x hx => by
        obtain ⟨k, -, rfl⟩ := mem_entries.mp hx
        exact hpages k
      rw [hzero]
      exact congrArg AddressSpace.mappedPages (if_pos rfl)
    · exact (congrArg AddressSpace.mappedPages (if_neg hji)).trans (h.mapped j)

theorem sound_destroy (h : Sound p s own) (i : Nat) :
    ∃ own', Sound p (s.destroy i) own' ∧ Elsewhere i own own' s (s.destroy i) ∧ own' (.table i) = none ∧
      (s.destroy i).activeAddressSpace = if s.activeAddressSpace = some i then none else s.activeAddressSpace := by
  unfold destroy
  split
  · rename_i hzero
    have hi := h.none_iff.mpr hzero
    exact ⟨own, h, .refl i own s, hi, (if_neg fun hactive => h.active i hactive hi).symm⟩
  · rename_i hne
    obtain ⟨t, ht⟩ := Option.ne_none_iff_exists'.mp fun hnone => hne (h.none_iff.mp hnone)
    have hrest : ∃ s', (if s.activeAddressSpace = some i then { s with activeAddressSpace := none } else s) = s' ∧
        Sound p s' own ∧ Elsewhere i own own s s' ∧
          s'.activeAddressSpace = if s.activeAddressSpace = some i then none else s.activeAddressSpace := by
      refine ⟨_, rfl, ?_⟩
      split
      · exact ⟨⟨h.congr rfl rfl (fun _ => rfl) (fun j hj => nomatch hj), h.mapped, h.legacy⟩,
          ⟨fun _ _ => rfl, fun _ _ _ _ _ => rfl, fun _ _ => rfl, rfl⟩, rfl⟩
      · exact ⟨h, .refl i own s, rfl⟩
    obtain ⟨s', hs', hsound, hother, hactive⟩ := hrest
    have hclear := sound_clear hsound i
    have htable : emptied own i (.table i) = some t := ht
    have hleft : (s'.clear i).activeAddressSpace ≠ some i := by
      rw [clear_active, hactive]
      split
      · exact fun hc => nomatch hc
      · assumption
    dsimp only
    rw [hs', hclear.table i t htable]
    refine ⟨_, sound_destroyed hclear htable (fun k => if_pos rfl) hleft, (hother.trans (elsewhere_clear hsound i)).trans ?_,
      Function.update_self .., (clear_active s' i).trans hactive⟩
    refine .update rfl (fun x g hx hg m => if_neg ?_) (fun j hj => space_setSpace_ne _ _ hj) rfl
    exact hclear.frames_ne hg htable fun he => hx (he ▸ rfl)

theorem sound_destroyed_tables (h : Sound p s own) (i : Nat) :
    ∃ own', Sound p (s.destroy i) own' ∧ ∀ j, own' (.table j) ≠ none → own (.table j) ≠ none ∧ j ≠ i := by
  obtain ⟨own', hsound, hother, hi, -⟩ := sound_destroy h i
  refine ⟨own', hsound, fun j hj => ?_⟩
  have hji : j ≠ i := by
    rintro rfl
    exact hj hi
  exact ⟨hother.owners (.table j) hji ▸ hj, hji⟩

theorem sound_mapped (h : Sound p s own) (ht : own (.table i) = some t) (hk : own (.page i k) = none) (hlt : k < processPageCount)
    {pmm : Pmm} (hf : s.pmm.isUsed f = false) (hcounted : Counted pmm) (hon : pmm.initialized = s.pmm.initialized)
    (hbalanced : Balanced (fun g => p.isUsed g = false) (fun g => pmm.isUsed g = false) (Function.update own (.page i k) (some f))) :
    Sound p ((({ s with pmm } : Paging).zeroFrame (f * pageSize) |>.setSpace i
        { s.space i with mappedPages := (s.space i).mappedPages + 1 }).storeEntry (t * pageSize) k (f * pageSize ||| present ||| user))
      (Function.update own (.page i k) (some f)) := by
  refine ⟨h.setPage ht (some f) hcounted hon hbalanced (fun j => ?_) rfl ?_ fun j g m hg hm => ?_, fun j => ?_, h.legacy⟩
  · by_cases hj : j = i
    · have hself : ∀ (q : Paging) (x : AddressSpace), (q.setSpace i x).space j = x := fun q x => if_pos hj
      exact (congrArg AddressSpace.tablePhysical (hself _ _)).trans (by rw [hj])
    · exact congrArg AddressSpace.tablePhysical (if_neg hj)
  · refine ⟨hlt, ?_⟩
    have hword : ∀ q : Paging, (q.storeEntry (t * pageSize) k (f * pageSize ||| present ||| user)).word (t * pageSize) k =
        f * pageSize ||| present ||| user := fun q => if_pos ⟨rfl, rfl⟩
    rw [hword]
    exact flagged_new
  · have hother : ∀ q : Paging, (q.storeEntry (t * pageSize) k (f * pageSize ||| present ||| user)).word (g * pageSize) m =
        q.word (g * pageSize) m := fun q => if_neg fun he => hm (h.same ht hg he.1) he.2
    rw [hother]
    exact if_neg (h.fresh hf hg)
  · by_cases hj : j = i
    · subst hj
      have hmem : Slot.page j k ∈ entries j := mem_entries.mpr ⟨k, Nat.lt_of_lt_of_le hlt (by decide), rfl⟩
      rw [held_take (entries_nodup j) hmem hk, ← h.mapped j]
      exact congrArg AddressSpace.mappedPages (if_pos rfl)
    · have hmem : Slot.page i k ∉ entries j := by
        intro hx
        obtain ⟨_, -, he⟩ := mem_entries.mp hx
        exact hj (Slot.page.inj he).1.symm
      rw [held_of_notMem hmem]
      exact (congrArg AddressSpace.mappedPages (if_neg hj)).trans (h.mapped j)

theorem sound_write (h : Sound p s own) (ht : own (.table i) = some t) (hk : own (.page i k) = some f) (write : Bool) :
    Sound p (if write then s.storeEntry (t * pageSize) k (s.word (t * pageSize) k ||| writable) else s) own := by
  cases write with
  | false => exact h
  | true => exact ⟨h.setFlags ht hk (h.entry_some ht hk).2.write, h.mapped, h.legacy⟩

theorem elsewhere_store (h : Core p s own) (ht : own (.table i) = some t) (k entry : Nat) :
    Elsewhere i own own s (s.storeEntry (t * pageSize) k entry) where
  owners _ _ := rfl
  words _ _ hx hg _ := if_neg fun he => h.frames_ne hg ht (fun hxt => hx (hxt ▸ rfl)) he.1
  spaces _ _ := rfl
  legacy := rfl

theorem elsewhere_write (h : Core p s own) (ht : own (.table i) = some t) (k : Nat) (write : Bool) :
    Elsewhere i own own s (if write then s.storeEntry (t * pageSize) k (s.word (t * pageSize) k ||| writable) else s) := by
  cases write with
  | false => exact .refl i own s
  | true => exact elsewhere_store h ht k _

theorem elsewhere_mapped (h : Core p s own) (ht : own (.table i) = some t) (hf : s.pmm.isUsed f = false) (pmm : Pmm) (space : AddressSpace)
    (entry : Nat) : Elsewhere i own (Function.update own (.page i k) (some f)) s
      ((({ s with pmm } : Paging).zeroFrame (f * pageSize) |>.setSpace i space).storeEntry (t * pageSize) k entry) := by
  refine .update rfl (fun x g hx hg m => ?_) (fun j hj => if_neg hj) rfl
  have htable : g * pageSize ≠ t * pageSize := h.frames_ne hg ht fun he => hx (he ▸ rfl)
  show (if g * pageSize = t * pageSize ∧ m = k then entry else if g * pageSize = f * pageSize then 0 else s.word (g * pageSize) m) = _
  rw [if_neg fun he => htable he.1, if_neg (h.fresh hf hg)]

theorem sound_mapPages {left page : Nat} {write : Bool} (h : Sound p s own) (ht : own (.table i) = some t)
    (hrange : page + left ≤ processPageCount) :
    ∃ own', Sound p (mapPages i write left page s).1 own' ∧ Elsewhere i own own' s (mapPages i write left page s).1 ∧
      ∀ j, own' (.table j) = own (.table j) := by
  induction left generalizing page s own with
  | zero => exact ⟨own, h, .refl i own s, fun _ => rfl⟩
  | succ left ih =>
    have hnext : page + 1 + left ≤ processPageCount := by rwa [Nat.add_right_comm]
    rw [mapPages, h.table i t ht]
    dsimp only
    rw [h.present_iff ht]
    cases hk : own (.page i page) with
    | some f =>
      rw [Option.isSome_some, if_pos rfl]
      obtain ⟨own', hsound, hother, hown⟩ := ih (sound_write h ht hk write) ht hnext
      exact ⟨own', hsound, (elsewhere_write h.toCore ht page write).trans hother, hown⟩
    | none =>
      rw [Option.isSome_none, if_neg Bool.false_ne_true]
      rcases h.take hk with hnone | ⟨f, pmm, hsome, hne, hf, hcounted, -, hon, hbalanced⟩
      · rw [hnone, if_pos rfl]
        exact ⟨own, h, .refl i own s, fun _ => rfl⟩
      · rw [hsome]
        dsimp only
        rw [if_neg hne]
        have hlt : page < processPageCount := Nat.lt_of_lt_of_le (Nat.lt_add_of_pos_right (Nat.succ_pos left)) hrange
        have hmapped := sound_mapped h ht hk hlt hf hcounted hon hbalanced
        have htable : ∀ j, Function.update own (.page i page) (some f) (.table j) = own (.table j) :=
          fun j => Function.update_of_ne Slot.noConfusion _ _
        obtain ⟨own', hsound, hother, hown⟩ := ih (sound_write hmapped ((htable i).trans ht) (Function.update_self _ _ _) write)
          ((htable i).trans ht) hnext
        have hfresh := (elsewhere_mapped h.toCore ht hf pmm { s.space i with mappedPages := (s.space i).mappedPages + 1 }
          (f * pageSize ||| present ||| user)).trans (elsewhere_write hmapped.toCore ((htable i).trans ht) page write)
        exact ⟨own', hsound, hfresh.trans hother,
          fun j => (hown j).trans (htable j)⟩

theorem legacy_map {table : Nat → Nat} (h : Legacy table) (hk : k < processPageCount) (write : Bool) :
    Legacy (mapLegacy write table k) := by
  intro m
  unfold mapLegacy
  split
  · rename_i hm
    subst hm
    right
    refine ⟨hk, ?_⟩
    have hentry : Flagged (0x600 + m) (if isPresent (table m) then table m else legacyUserPhysicalBase + m * pageSize ||| present ||| user) := by
      have hbase : legacyUserPhysicalBase + m * pageSize = (0x600 + m) * pageSize := (Nat.add_mul 0x600 m 4096).symm
      split
      · rename_i hpresent
        rcases h m with hzero | ⟨-, hflag⟩
        · rw [hzero, not_present_zero] at hpresent
          cases hpresent
        · exact hflag
      · rw [hbase]
        exact flagged_new
    cases write with
    | true => exact hentry.write
    | false => exact hentry
  · exact h m

theorem legacy_maps {table : Nat → Nat} {pages : List Nat} (h : Legacy table) (hpages : ∀ k ∈ pages, k < processPageCount) (write : Bool) :
    Legacy (pages.foldl (mapLegacy write) table) := by
  induction pages generalizing table with
  | nil => exact h
  | cons k pages ih =>
    exact ih (legacy_map h (hpages k List.mem_cons_self) write) fun m hm => hpages m (List.mem_cons_of_mem k hm)

theorem legacy_protect {left page : Nat} {table : Nat → Nat} {write : Bool} (h : Legacy table) :
    Legacy (protectLegacy write left page table).1 := by
  induction left generalizing page table with
  | zero => exact h
  | succ left ih =>
    rw [protectLegacy]
    split
    · exact h
    · rename_i hpresent
      refine ih fun m => ?_
      split
      · rename_i hm
        subst hm
        rcases h m with hzero | ⟨hm, hflag⟩
        · rw [hzero, not_present_zero] at hpresent
          exact absurd rfl hpresent
        · have hm' : m < 256 := hm
          exact .inr ⟨hm, hflag.protect (by omega) write⟩
      · exact h m

theorem sound_protectPages {left page : Nat} {write : Bool} (h : Sound p s own) (ht : own (.table i) = some t) :
    Sound p (protectPages (t * pageSize) write left page s).1 own ∧
      Elsewhere i own own s (protectPages (t * pageSize) write left page s).1 := by
  induction left generalizing page s with
  | zero => exact ⟨h, .refl i own s⟩
  | succ left ih =>
    rw [protectPages]
    rw [h.present_iff ht]
    cases hk : own (.page i page) with
    | none => exact ⟨h, .refl i own s⟩
    | some f =>
      rw [Option.isSome_some, if_neg (by decide)]
      obtain ⟨hsound, hother⟩ := ih ⟨h.setFlags ht hk ((h.entry_some ht hk).2.protect (h.managed hk).bounds.2 write), h.mapped, h.legacy⟩
      exact ⟨hsound, (elsewhere_store h.toCore ht page _).trans hother⟩

theorem sound_activate (h : Sound p s own) (pointer : Option Nat) : Sound p (s.activate pointer).1 own := by
  unfold activate
  cases pointer with
  | none => exact ⟨h.congr rfl rfl (fun _ => rfl) (fun j hj => nomatch hj), h.mapped, h.legacy⟩
  | some i =>
    dsimp only
    split
    · exact h
    · rename_i hne
      refine ⟨h.congr rfl rfl (fun _ => rfl) fun j hj => ?_, h.mapped, h.legacy⟩
      obtain rfl := Option.some.inj hj
      exact fun hnone => hne (h.none_iff.mp hnone)

theorem sound_clearUser (h : Sound p s own) : ∃ own', Sound p s.clearUser own' ∧ (∀ j, own' (.table j) = own (.table j)) ∧
    ∀ i, s.activeAddressSpace = some i → Elsewhere i own own' s s.clearUser := by
  unfold clearUser
  cases hactive : s.activeAddressSpace with
  | none =>
    refine ⟨own, ⟨h.congr rfl rfl (fun _ => rfl) (fun j hj => nomatch hj), h.mapped, fun _ => .inl rfl⟩, fun _ => rfl, nofun⟩
  | some i =>
    refine ⟨emptied own i, sound_clear h i, fun _ => rfl, fun j hj => ?_⟩
    obtain rfl := Option.some.inj hj
    exact elsewhere_clear h i

theorem sound_mapUser (h : Sound p s own) (offset length : UInt32) (write : Bool) :
    ∃ own', Sound p (s.mapUser offset length write).1 own' ∧ (∀ j, own' (.table j) = own (.table j)) ∧
      ∀ i, s.activeAddressSpace = some i → Elsewhere i own own' s (s.mapUser offset length write).1 := by
  unfold mapUser
  cases hrange : pageRange offset length with
  | none => exact ⟨own, h, fun _ => rfl, fun i _ => .refl i own s⟩
  | some range =>
    obtain ⟨first, stop⟩ := range
    have hle := pageRange_spec hrange
    dsimp only
    cases hactive : s.activeAddressSpace with
    | none =>
      refine ⟨own, ⟨h.congr rfl rfl (fun _ => rfl) (fun j hj => nomatch hj), h.mapped, legacy_maps h.legacy (fun k hk => ?_) write⟩,
        fun _ => rfl, nofun⟩
      exact Nat.lt_of_lt_of_le (List.mem_range'_1.mp hk).2 hle
    | some i =>
      dsimp only
      split
      · exact ⟨own, h, fun _ => rfl, fun j _ => .refl j own s⟩
      · obtain ⟨t, ht⟩ := Option.ne_none_iff_exists'.mp (h.active i hactive)
        obtain ⟨own', hsound, hother, hown⟩ := sound_mapPages h ht hle
        refine ⟨own', hsound, hown, fun j hj => ?_⟩
        obtain rfl := Option.some.inj hj
        exact hother

theorem sound_protectUser (h : Sound p s own) (offset length : UInt32) (write : Bool) :
    Sound p (s.protectUser offset length write).1 own ∧
      ∀ i, s.activeAddressSpace = some i → Elsewhere i own own s (s.protectUser offset length write).1 := by
  unfold protectUser
  cases hrange : pageRange offset length with
  | none => exact ⟨h, fun i _ => .refl i own s⟩
  | some range =>
    obtain ⟨first, stop⟩ := range
    dsimp only
    cases hactive : s.activeAddressSpace with
    | none => exact ⟨⟨h.congr rfl rfl (fun _ => rfl) (fun j hj => nomatch hj), h.mapped, legacy_protect h.legacy⟩, nofun⟩
    | some i =>
      obtain ⟨t, ht⟩ := Option.ne_none_iff_exists'.mp (h.active i hactive)
      dsimp only
      rw [if_neg (h.ne_zero ht), h.table i t ht]
      obtain ⟨hsound, hother⟩ := sound_protectPages h ht
      refine ⟨hsound, fun j hj => ?_⟩
      obtain rfl := Option.some.inj hj
      exact hother

/-! ### Every run -/

/-- A call. -/
inductive Op
  | create (i : Nat)
  | clear (i : Nat)
  | destroy (i : Nat)
  | activate (pointer : Option Nat)
  | clearUser
  | mapUser (offset length : UInt32) (write : Bool)
  | protectUser (offset length : UInt32) (write : Bool)

def apply (s : Paging) : Op → Paging
  | .create i => (s.create i).1
  | .clear i => s.clear i
  | .destroy i => s.destroy i
  | .activate pointer => (s.activate pointer).1
  | .clearUser => s.clearUser
  | .mapUser offset length write => (s.mapUser offset length write).1
  | .protectUser offset length write => (s.protectUser offset length write).1

/-- No address space, over an allocator and a memory. -/
def fresh (p : Pmm) (word : Nat → Nat → Nat) : Paging := ⟨p, word, fun _ => 0, fun _ => ⟨0, 0⟩, none⟩

theorem sound_fresh (h : Counted p) (word : Nat → Nat → Nat) : Sound p (fresh p word) fun _ => none where
  start := h
  counted := h
  balanced := Balanced.empty
  empty _ _ := ⟨rfl, fun _ => rfl⟩
  table _ _ ht := nomatch ht
  entry _ _ _ ht := nomatch ht
  on _ _ ht := nomatch ht
  active _ hj := nomatch hj
  mapped _ := (held_eq_zero fun _ _ => rfl).symm
  legacy _ := .inl rfl

/-- A call keeps the books; only `create` adds a table, and `destroy` takes its own away. -/
theorem sound_apply (h : Sound p s own) (op : Op) :
    ∃ own', Sound p (s.apply op) own' ∧ ∀ j, own' (.table j) ≠ none → op ≠ .destroy j ∧ (own (.table j) ≠ none ∨ op = .create j) := by
  cases op with
  | create i =>
    obtain ⟨own', hsound, hother, -⟩ := sound_create h i
    refine ⟨own', hsound, fun j hj => ⟨Op.noConfusion, ?_⟩⟩
    by_cases hji : j = i
    · exact .inr (hji ▸ rfl)
    · exact .inl (hother.owners (.table j) hji ▸ hj)
  | clear i => exact ⟨emptied own i, sound_clear h i, fun j hj => ⟨Op.noConfusion, .inl hj⟩⟩
  | destroy i =>
    obtain ⟨own', hsound, hown⟩ := sound_destroyed_tables h i
    exact ⟨own', hsound, fun j hj => ⟨fun he => (hown j hj).2 (Op.destroy.inj he).symm, .inl (hown j hj).1⟩⟩
  | activate pointer => exact ⟨own, sound_activate h pointer, fun j hj => ⟨Op.noConfusion, .inl hj⟩⟩
  | clearUser =>
    obtain ⟨own', hsound, hown, -⟩ := sound_clearUser h
    exact ⟨own', hsound, fun j hj => ⟨Op.noConfusion, .inl (hown j ▸ hj)⟩⟩
  | mapUser offset length write =>
    obtain ⟨own', hsound, hown, -⟩ := sound_mapUser h offset length write
    exact ⟨own', hsound, fun j hj => ⟨Op.noConfusion, .inl (hown j ▸ hj)⟩⟩
  | protectUser offset length write =>
    exact ⟨own, (sound_protectUser h offset length write).1, fun j hj => ⟨Op.noConfusion, .inl hj⟩⟩

theorem sound_run (h : Sound p s own) (ops : List Op) :
    ∃ own', Sound p (ops.foldl apply s) own' ∧ ∀ j, own' (.table j) ≠ none → own (.table j) ≠ none ∨ .create j ∈ ops := by
  induction ops generalizing s own with
  | nil => exact ⟨own, h, fun _ => .inl⟩
  | cons op ops ih =>
    obtain ⟨own', hsound, hown⟩ := sound_apply h op
    obtain ⟨own'', hsound', hown'⟩ := ih hsound
    refine ⟨own'', hsound', fun j hj => ?_⟩
    rcases hown' j hj with hj | hmem
    · exact (hown j hj).2.imp_right fun he : op = .create j => he ▸ List.mem_cons_self
    · exact .inr (List.mem_cons_of_mem op hmem)

theorem sound_destroys (h : Sound p s own) (spaces : List Nat) :
    ∃ own', Sound p ((spaces.map Op.destroy).foldl apply s) own' ∧ ∀ j, own' (.table j) ≠ none → own (.table j) ≠ none ∧ j ∉ spaces := by
  induction spaces generalizing s own with
  | nil => exact ⟨own, h, fun _ hj => ⟨hj, List.not_mem_nil⟩⟩
  | cons i spaces ih =>
    obtain ⟨own', hsound, hown⟩ := sound_destroyed_tables h i
    obtain ⟨own'', hsound', hown'⟩ := ih hsound
    refine ⟨own'', hsound', fun j hj => ?_⟩
    obtain ⟨hj, hnot⟩ := hown' j hj
    exact ⟨(hown j hj).1, fun hmem => (List.mem_cons.mp hmem).elim (hown j hj).2 hnot⟩

theorem Core.free_eq (h : Core p s own) (hnone : ∀ j, own (.table j) = none) (f : Nat) : s.pmm.isUsed f = p.isUsed f := by
  have hempty : ∀ x, own x = none := by
    intro x
    cases x with
    | table j => exact hnone j
    | page j k => exact (h.empty j (hnone j)).2 k
  have hfree := h.balanced.whole hempty f
  exact Bool.eq_iff_iff.mpr (by rw [← Bool.not_eq_false, ← Bool.not_eq_false, hfree])

/-! ### What the tables map -/

/-- An entry: of an address space's table, or of the legacy one. -/
inductive Place
  | user (i k : Nat)
  | legacy (k : Nat)

def entryAt (s : Paging) : Place → Nat
  | .user i k => if (s.space i).tablePhysical = 0 then 0 else s.word (s.space i).tablePhysical k
  | .legacy k => s.legacyUserTable k

/-- The frame that an entry maps. -/
def maps (s : Paging) (place : Place) : Option Nat :=
  if isPresent (s.entryAt place) then some (entryFrame (s.entryAt place)) else none

/-- The number of present entries in the table of an address space. -/
def presentEntries (s : Paging) (i : Nat) : Nat := (List.range (pageSize / 4)).countP fun k => isPresent (s.entryAt (.user i k))

theorem Core.entryAt_none (h : Core p s own) (ht : own (.table i) = none) : s.entryAt (.user i k) = 0 := if_pos (h.empty i ht).1

theorem Core.entryAt_some (h : Core p s own) (ht : own (.table i) = some t) : s.entryAt (.user i k) = s.word (t * pageSize) k := by
  rw [entryAt, if_neg (h.ne_zero ht), h.table i t ht]

theorem Core.presentAt (h : Core p s own) (i k : Nat) : isPresent (s.entryAt (.user i k)) = (own (.page i k)).isSome := by
  cases ht : own (.table i) with
  | none => rw [h.entryAt_none ht, (h.empty i ht).2, not_present_zero, Option.isSome_none]
  | some t => rw [h.entryAt_some ht, h.present_iff ht]

theorem Core.maps_user (h : Core p s own) {address : Nat} (hmap : s.maps (.user i k) = some address) :
    ∃ f, own (.page i k) = some f ∧ address = f * pageSize := by
  unfold maps at hmap
  rw [h.presentAt] at hmap
  cases hk : own (.page i k) with
  | none =>
    rw [hk] at hmap
    cases hmap
  | some f =>
    cases ht : own (.table i) with
    | none =>
      rw [(h.empty i ht).2] at hk
      cases hk
    | some t =>
      rw [hk, Option.isSome_some, if_pos rfl, h.entryAt_some ht, (h.entry_some ht hk).2.frame (h.managed hk).bounds.2] at hmap
      exact ⟨f, rfl, (Option.some.inj hmap).symm⟩

theorem Legacy.maps {address : Nat} (h : Legacy s.legacyUserTable) (hmap : s.maps (.legacy k) = some address) :
    k < 256 ∧ address = (0x600 + k) * pageSize := by
  unfold Paging.maps at hmap
  rcases h k with hzero | ⟨hk, hflag⟩
  · rw [entryAt, hzero, not_present_zero] at hmap
    cases hmap
  · have hk' : k < 256 := hk
    rw [entryAt, hflag.present, if_pos rfl, hflag.frame (by omega)] at hmap
    exact ⟨hk, (Option.some.inj hmap).symm⟩

theorem Sound.maps_inj (h : Sound p s own) {a b : Place} {address : Nat} (ha : s.maps a = some address) (hb : s.maps b = some address) :
    a = b := by
  have hmixed : ∀ i k m, s.maps (.user i k) = some address → s.maps (.legacy m) ≠ some address := by
    intro i k m hu hl
    obtain ⟨f, hf, rfl⟩ := h.maps_user hu
    obtain ⟨hm, he⟩ := h.legacy.maps hl
    have hbounds := (h.managed hf).bounds
    have hfm : f = 0x600 + m := Nat.mul_right_cancel page_pos he
    omega
  cases a with
  | user i k =>
    cases b with
    | user j m =>
      obtain ⟨f, hf, rfl⟩ := h.maps_user ha
      obtain ⟨g, hg, he⟩ := h.maps_user hb
      obtain rfl : f = g := Nat.mul_right_cancel page_pos he
      obtain ⟨rfl, rfl⟩ := Slot.page.inj (h.balanced.unique _ _ _ hf hg)
      rfl
    | legacy m => exact absurd hb (hmixed i k m ha)
  | legacy k =>
    cases b with
    | user j m => exact absurd ha (hmixed j m k hb)
    | legacy m =>
      obtain ⟨-, rfl⟩ := h.legacy.maps ha
      obtain ⟨-, he⟩ := h.legacy.maps hb
      have hkm : 0x600 + k = 0x600 + m := Nat.mul_right_cancel page_pos he
      rw [Nat.add_left_cancel hkm]

theorem Sound.maps_ne_table (h : Sound p s own) {a : Place} {address : Nat} (ha : s.maps a = some address) (i : Nat) :
    (s.space i).tablePhysical ≠ address := by
  cases ht : own (.table i) with
  | none =>
    rw [(h.empty i ht).1]
    cases a with
    | user j k =>
      obtain ⟨f, hf, rfl⟩ := h.maps_user ha
      have hbounds := (h.managed hf).bounds
      exact (Nat.mul_ne_zero (by omega) (by decide)).symm
    | legacy k =>
      obtain ⟨-, rfl⟩ := h.legacy.maps ha
      exact (Nat.mul_ne_zero (by omega) (by decide)).symm
  | some t =>
    rw [h.table i t ht]
    cases a with
    | user j k =>
      obtain ⟨f, hf, rfl⟩ := h.maps_user ha
      exact h.apart hf ht
    | legacy k =>
      obtain ⟨hk, rfl⟩ := h.legacy.maps ha
      have hbounds := (h.managed ht).bounds
      intro he
      have htk : t = 0x600 + k := Nat.mul_right_cancel page_pos he
      omega

theorem Sound.mapped_eq (h : Sound p s own) (i : Nat) : (s.space i).mappedPages = s.presentEntries i := by
  rw [h.mapped, held, entries, List.countP_map, presentEntries]
  exact List.countP_congr fun k _ => by rw [h.presentAt, Function.comp_apply]

/-- After any calls, over an allocator after any run: a frame is mapped by one entry at most, and by none if it is a
    table; no two address spaces have one table; the pages are counted; and when all address spaces that were
    created are destroyed, in any order, the frames that are free are those of the start. -/
theorem run_owned (boot : BootInfo) (p : Pmm) (outstanding : List Nat) (hr : Pmm.Run boot p outstanding) (word : Nat → Nat → Nat)
    (ops : List Op) :
    let s := ops.foldl apply (fresh p word)
    (∀ a b address, s.maps a = some address → s.maps b = some address → a = b) ∧
    (∀ a address i, s.maps a = some address → (s.space i).tablePhysical ≠ address) ∧
    (∀ i j, (s.space i).tablePhysical ≠ 0 → (s.space i).tablePhysical = (s.space j).tablePhysical → i = j) ∧
    (∀ i, (s.space i).mappedPages = s.presentEntries i) ∧
    ∀ spaces : List Nat, (∀ i, .create i ∈ ops → i ∈ spaces) →
      ∀ f, ((spaces.map Op.destroy).foldl apply s).pmm.isUsed f = p.isUsed f := by
  intro s
  obtain ⟨own, hsound, hown⟩ := sound_run (sound_fresh (books_run hr).counted word) ops
  refine ⟨fun a b address => hsound.maps_inj, fun a address i ha => hsound.maps_ne_table ha i, fun i j hne he => ?_, hsound.mapped_eq,
    fun spaces hall => ?_⟩
  · have hsome : ∀ m, (s.space m).tablePhysical ≠ 0 → ∃ t, own (.table m) = some t := fun m hm =>
      Option.ne_none_iff_exists'.mp fun hnone => hm (hsound.none_iff.mp hnone)
    obtain ⟨t, ht⟩ := hsome i hne
    obtain ⟨u, hu⟩ := hsome j (he ▸ hne)
    rw [hsound.table i t ht, hsound.table j u hu] at he
    exact hsound.same hu ht he
  · obtain ⟨own', hsound', hown'⟩ := sound_destroys hsound spaces
    refine hsound'.free_eq fun j => ?_
    by_contra hj
    obtain ⟨hj, hnot⟩ := hown' j hj
    exact hnot (hall j ((hown j hj).resolve_left fun hne => hne rfl))

/-- A memory map with 16 usable frames. -/
def sixteenFrames : BootInfo := ⟨bootMagic, [⟨0x00C00000, 0, 0x10000, 0, 1⟩]⟩

theorem run_owned_sample :
    let s := [Op.create 0, .activate (some 0), .mapUser 0 0x2000 true].foldl apply (fresh (init sixteenFrames) fun _ _ => 0)
    (∀ a b address, s.maps a = some address → s.maps b = some address → a = b) ∧
    (∀ a address i, s.maps a = some address → (s.space i).tablePhysical ≠ address) ∧
    (∀ i j, (s.space i).tablePhysical ≠ 0 → (s.space i).tablePhysical = (s.space j).tablePhysical → i = j) ∧
    (∀ i, (s.space i).mappedPages = s.presentEntries i) ∧
    ∀ spaces : List Nat, (∀ i, .create i ∈ [Op.create 0, .activate (some 0), .mapUser 0 0x2000 true] → i ∈ spaces) →
      ∀ f, ((spaces.map Op.destroy).foldl apply s).pmm.isUsed f = (init sixteenFrames).isUsed f :=
  run_owned sixteenFrames (init sixteenFrames) [] .init (fun _ _ => 0) [.create 0, .activate (some 0), .mapUser 0 0x2000 true]

end ZenovOS.Memory.Paging
