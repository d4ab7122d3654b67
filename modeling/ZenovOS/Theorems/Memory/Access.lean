import ZenovOS.Lib.PageView
import ZenovOS.Theorems.Memory.Paging

/-! # The user window

The current table and the frames behind it show a window of pages. What each operation does to the window is what the
operation on windows does, as long as there are frames for the pages that may be mapped. -/

namespace ZenovOS.Memory.Paging
open Pmm Ledger Align Bitmap

/-! ### Bytes of a word -/

theorem wordByte_set {word i j b : Nat} (hi : i < 4) (hj : j < 4) (hb : b < 256) :
    wordByte (setWordByte word i b) j = if j = i then b else wordByte word j := by
  unfold wordByte setWordByte
  have hi' : i = 0 ∨ i = 1 ∨ i = 2 ∨ i = 3 := by omega
  have hj' : j = 0 ∨ j = 1 ∨ j = 2 ∨ j = 3 := by omega
  rcases hi' with rfl | rfl | rfl | rfl <;> rcases hj' with rfl | rfl | rfl | rfl <;> simp <;> omega

/-! ### Pages of the current table -/

/-- Where the current table has the entry of a page. -/
def place (s : Paging) (k : Nat) : Place :=
  match s.activeAddressSpace with
  | some i => .user i k
  | none => .legacy k

/-- Whether a page is mapped, and for writing. -/
def pageState (s : Paging) (k : Nat) : Option Bool :=
  if isPresent (s.currentEntry k) then some (decide (s.currentEntry k / 2 % 2 = 1)) else none

variable {p : Pmm} {s s' : Paging} {own : Slot → Option Nat} {i k m f e : Nat} {need : Nat → Bool} {v : PageView}

theorem currentEntry_eq (s : Paging) (k : Nat) : s.currentEntry k = s.entryAt (s.place k) := by
  unfold currentEntry currentUserTable place
  cases s.activeAddressSpace with
  | none => rfl
  | some i =>
    by_cases hzero : (s.space i).tablePhysical = 0
    · simp only [entryAt, if_pos hzero]
    · simp only [entryAt, if_neg hzero]

theorem Sound.current (h : Sound p s own) (k : Nat) :
    s.currentEntry k = 0 ∨ k < processPageCount ∧ ∃ f < frameCount, Flagged f (s.currentEntry k) := by
  rw [currentEntry_eq]
  unfold place
  cases hactive : s.activeAddressSpace with
  | none =>
    rcases h.legacy k with hzero | ⟨hk, hflag⟩
    · exact .inl hzero
    · have hk' : k < 256 := hk
      exact .inr ⟨hk, _, show 0x600 + k < 32768 by omega, hflag⟩
  | some i =>
    obtain ⟨t, ht⟩ := Option.ne_none_iff_exists'.mp (h.active i hactive)
    dsimp only
    rw [h.entryAt_some ht]
    cases hk : own (.page i k) with
    | none => exact .inl (h.entry_none ht hk)
    | some f => exact .inr ⟨(h.entry_some ht hk).1, f, (h.managed hk).bounds.2, (h.entry_some ht hk).2⟩

theorem pageState_none (h : s.pageState k = none) : isPresent (s.currentEntry k) = false := by
  unfold pageState at h
  split at h
  · cases h
  · exact Bool.eq_false_iff.mpr ‹_›

theorem pageState_flagged (write : Bool) (h : s.currentEntry k = f * 4096 + if write then 7 else 5) : s.pageState k = some write := by
  unfold pageState
  rw [isPresent_eq, h]
  cases write with
  | false =>
    rw [if_pos (by simp; omega)]
    simp
    omega
  | true =>
    rw [if_pos (by simp; omega)]
    simp
    omega

theorem Sound.state_some (h : Sound p s own) {write : Bool} (hk : s.pageState k = some write) :
    k < processPageCount ∧ ∃ f < frameCount, s.currentEntry k = f * 4096 + if write then 7 else 5 := by
  rcases h.current k with hzero | ⟨hlt, f, hf, hflag⟩
  · rw [pageState, hzero, not_present_zero] at hk
    cases hk
  · refine ⟨hlt, f, hf, ?_⟩
    rcases hflag with he | he
    · obtain rfl := Option.some.inj ((pageState_flagged false he).symm.trans hk)
      exact he
    · obtain rfl := Option.some.inj ((pageState_flagged true he).symm.trans hk)
      exact he

theorem Sound.state_none (h : Sound p s own) (hk : s.pageState k = none) : s.currentEntry k = 0 := by
  rcases h.current k with hzero | ⟨-, f, hf, hflag⟩
  · exact hzero
  · have := pageState_none hk
    rw [hflag.present] at this
    cases this

theorem and_low (x n : Nat) : x &&& (2 ^ n - 1) = x % 2 ^ n := Nat.and_two_pow_sub_one_eq_mod x n

theorem Sound.canStore_of (h : Sound p s own) {o : Nat} (ho : s.pageState (o / pageSize) = some true) : s.canStore o = true := by
  obtain ⟨-, f, -, he⟩ := h.state_some ho
  unfold canStore
  rw [he]
  have hmod := and_low (f * 4096 + 7) 2
  rw [decide_eq_true_eq]
  show f * 4096 + 7 &&& 3 = 3
  rw [show (3 : Nat) = 2 ^ 2 - 1 from rfl, hmod]
  omega

theorem Sound.writableAt_iff (h : Sound p s own) {o : Nat} (ho : o < processWindowBytes) :
    s.writableAt o = true ↔ s.pageState (o / pageSize) = some true := by
  have htable : s.writableAt o = decide (s.currentEntry (o / pageSize) &&& 7 = 7) := by
    unfold writableAt currentEntry
    cases s.currentUserTable with
    | none => simp
    | some table =>
      dsimp only
      rw [decide_eq_true ho, Bool.true_and]
      rfl
  rw [htable, decide_eq_true_eq]
  have hmod := and_low (s.currentEntry (o / pageSize)) 3
  rw [show (7 : Nat) = 2 ^ 3 - 1 from rfl, hmod]
  cases hstate : s.pageState (o / pageSize) with
  | none =>
    rw [h.state_none hstate]
    simp
  | some write =>
    obtain ⟨-, f, -, he⟩ := h.state_some hstate
    rw [he]
    cases write with
    | false => simp; omega
    | true => simp; omega

theorem maps_place (h : s.pageState k ≠ none) : s.maps (s.place k) = some (entryFrame (s.currentEntry k)) := by
  unfold maps
  rw [← currentEntry_eq, if_pos]
  by_contra hpresent
  exact h (if_neg hpresent)

theorem Sound.maps_ne_free (h : Sound p s own) {place : Place} (hf : s.pmm.isUsed f = false) : s.maps place ≠ some (f * pageSize) := by
  intro hmap
  cases place with
  | user i k =>
    obtain ⟨g, hg, he⟩ := h.maps_user hmap
    obtain rfl : f = g := Nat.mul_right_cancel page_pos he
    exact h.balanced.apart _ _ hg hf
  | legacy k =>
    obtain ⟨hk, he⟩ := h.legacy.maps hmap
    have hfk : f = 0x600 + k := Nat.mul_right_cancel page_pos he
    have hbounds := (h.counted.managed f hf).bounds
    omega

/-- Another entry for a page in the current table. -/
def putEntry (s : Paging) (k entry : Nat) : Paging :=
  match s.activeAddressSpace with
  | some i => s.storeEntry (s.space i).tablePhysical k entry
  | none => { s with legacyUserTable := fun m => if m = k then entry else s.legacyUserTable m }

theorem putEntry_frame (s : Paging) (k entry : Nat) :
    (s.putEntry k entry).activeAddressSpace = s.activeAddressSpace ∧ (s.putEntry k entry).pmm = s.pmm := by
  unfold putEntry
  split <;> exact ⟨rfl, rfl⟩

theorem Sound.currentEntry_put (h : Sound p s own) (k entry m : Nat) :
    (s.putEntry k entry).currentEntry m = if m = k then entry else s.currentEntry m := by
  unfold currentEntry currentUserTable putEntry
  cases hactive : s.activeAddressSpace with
  | none => simp
  | some i =>
    obtain ⟨t, ht⟩ := Option.ne_none_iff_exists'.mp (h.active i hactive)
    have hne := h.ne_zero ht
    simp [storeEntry, hactive, hne]

theorem Sound.word_put (h : Sound p s own) {a address : Nat} {place : Place} (ha : s.maps place = some address) (k entry : Nat) :
    (s.putEntry k entry).word address a = s.word address a := by
  unfold putEntry
  cases hactive : s.activeAddressSpace with
  | none => rfl
  | some i => exact if_neg fun he => h.maps_ne_table ha i he.1.symm

theorem Sound.put (h : Sound p s own) (hk : s.pageState k ≠ none) (hf : Flagged f (s.currentEntry k)) (he : Flagged f e) :
    Sound p (s.putEntry k e) own := by
  unfold putEntry
  cases hactive : s.activeAddressSpace with
  | none =>
    refine ⟨h.congr rfl rfl (fun _ => rfl) (fun j hj => nomatch hj), h.mapped, fun m => ?_⟩
    show (if m = k then e else s.legacyUserTable m) = 0 ∨ _ ∧ Flagged _ (if m = k then e else s.legacyUserTable m)
    split
    · rename_i hm
      subst hm
      have hcurrent : s.currentEntry m = s.legacyUserTable m := by
        rw [currentEntry_eq, place, hactive]
        rfl
      rw [hcurrent] at hf
      rcases h.legacy m with hzero | ⟨hm, hflag⟩
      · rw [pageState, hcurrent, hzero, not_present_zero] at hk
        exact absurd rfl hk
      · obtain rfl : f = 0x600 + m := hf.div.symm.trans hflag.div
        exact .inr ⟨hm, he⟩
    · exact h.legacy m
  | some i =>
    obtain ⟨t, ht⟩ := Option.ne_none_iff_exists'.mp (h.active i hactive)
    have hcurrent : s.currentEntry k = s.word (t * pageSize) k := by
      rw [currentEntry_eq, place, hactive]
      exact h.entryAt_some ht
    dsimp only
    rw [h.table i t ht]
    cases hown : own (.page i k) with
    | none =>
      rw [pageState, hcurrent, h.entry_none ht hown, not_present_zero] at hk
      exact absurd rfl hk
    | some g =>
      have hflag := (h.entry_some ht hown).2
      rw [hcurrent] at hf
      obtain rfl : f = g := hf.div.symm.trans hflag.div
      exact ⟨h.setFlags ht hown he, h.mapped, h.legacy⟩

/-! ### What the window shows -/

/-- The current table shows the window `v`; only pages that are needed are mapped, and there are frames for all of them. -/
structure Shows (p : Pmm) (need : Nat → Bool) (s : Paging) (v : PageView) : Prop where
  sound : ∃ own, Sound p s own
  page : ∀ k, s.pageState k = v.page k
  byte : ∀ o b, v.byte o = some b → s.userByte o = some b
  within : ∀ k, v.page k ≠ none → need k = true
  frames : s.activeAddressSpace ≠ none → (List.range processPageCount).countP need ≤ s.pmm.availableFrames + v.mapped processPageCount

theorem Shows.entry_present (h : Shows p need s v) (hk : v.page k ≠ none) : isPresent (s.currentEntry k) = true := by
  by_contra hnot
  have hstate : s.pageState k = none := if_neg hnot
  exact hk ((h.page k).symm.trans hstate)

theorem userByte_congr {o : Nat} (hpresent : isPresent (s'.currentEntry (o / pageSize)) = isPresent (s.currentEntry (o / pageSize)))
    (hframe : entryFrame (s'.currentEntry (o / pageSize)) = entryFrame (s.currentEntry (o / pageSize)))
    (hword : ∀ a, s'.word (entryFrame (s.currentEntry (o / pageSize))) a = s.word (entryFrame (s.currentEntry (o / pageSize))) a) :
    s'.userByte o = s.userByte o := by
  unfold userByte
  dsimp only
  rw [hpresent, hframe, hword]

theorem userByte_mapped {o : Nat} {b : UInt8} (h : s.userByte o = some b) : s.pageState (o / pageSize) ≠ none := by
  unfold userByte at h
  unfold pageState
  dsimp only at h
  split at h
  · rw [if_pos ‹_›]
    exact Option.some_ne_none _
  · cases h

theorem Shows.flags (h : Shows p need s v) {old write : Bool} (hk : v.page k = some old)
    (he : ∀ f, Flagged f (s.currentEntry k) → f < frameCount → e = f * 4096 + if write then 7 else 5) :
    Shows p need (s.putEntry k e) (v.setPages k (k + 1) write) := by
  obtain ⟨own, hsound⟩ := h.sound
  have hstate : s.pageState k = some old := (h.page k).trans hk
  obtain ⟨-, f, hf, hold⟩ := hsound.state_some hstate
  have hflag : Flagged f (s.currentEntry k) := by
    cases old with
    | false => exact .inl hold
    | true => exact .inr hold
  have hnew := he f hflag hf
  have hflag' : Flagged f e := by
    cases write with
    | false => exact .inl hnew
    | true => exact .inr hnew
  have hcurrent := hsound.currentEntry_put k e
  have hmapped : s.pageState k ≠ none := hstate ▸ Option.some_ne_none old
  obtain ⟨hactive, hpmm⟩ := putEntry_frame s k e
  refine ⟨⟨own, hsound.put hmapped hflag hflag'⟩, fun m => ?_, fun o b hb => ?_, fun m hm => ?_, fun hon => ?_⟩
  · rw [PageView.page_setPages]
    split
    · rename_i hm
      obtain rfl : m = k := by omega
      exact pageState_flagged write ((hcurrent m).trans (if_pos rfl) |>.trans hnew)
    · rename_i hm
      have hne : m ≠ k := by omega
      rw [← h.page m, pageState, pageState, hcurrent, if_neg hne]
  · have hold := h.byte o b hb
    rw [← hold]
    have hmaps := maps_place (userByte_mapped hold)
    by_cases hm : o / pageSize = k
    · refine userByte_congr ?_ ?_ fun a => hsound.word_put hmaps k e
      · rw [hcurrent, if_pos hm, hm, hflag.present, hflag'.present]
      · rw [hcurrent, if_pos hm, hm, hflag.frame hf, hflag'.frame hf]
    · refine userByte_congr ?_ ?_ fun a => hsound.word_put hmaps k e
      · rw [hcurrent, if_neg hm]
      · rw [hcurrent, if_neg hm]
  · rw [PageView.page_setPages] at hm
    split at hm
    · rename_i hmk
      obtain rfl : m = k := by omega
      exact h.within m (hk ▸ Option.some_ne_none old)
    · exact h.within m hm
  · rw [hpmm, PageView.mapped_setPage_some (hk ▸ Option.some_ne_none old)]
    exact h.frames (hactive ▸ hon)

/-! ### A page more -/

theorem Shows.fresh (h : Shows p need s v) (hk : v.page k = none) (hneed : need k = true) {own' : Slot → Option Nat} (write : Bool)
    (hsound' : Sound p s' own') (hactive : s'.activeAddressSpace = s.activeAddressSpace)
    (hcurrent : ∀ m, s'.currentEntry m = if m = k then f * 4096 + (if write then 7 else 5) else s.currentEntry m)
    (hword : ∀ place address a, s.maps place = some address → s'.word address a = s.word address a)
    (hframes : s.activeAddressSpace ≠ none → s.pmm.availableFrames = s'.pmm.availableFrames + 1) :
    Shows p need s' (v.setPages k (k + 1) write) := by
  have hstate : s.pageState k = none := (h.page k).trans hk
  have hlt : k < processPageCount := by
    rcases hsound'.current k with hzero | ⟨hlt, -⟩
    · rw [hcurrent, if_pos rfl] at hzero
      cases write <;> simp at hzero
    · exact hlt
  refine ⟨⟨own', hsound'⟩, fun m => ?_, fun o b hb => ?_, fun m hm => ?_, fun hon => ?_⟩
  · rw [PageView.page_setPages]
    split
    · rename_i hm
      obtain rfl : m = k := by omega
      exact pageState_flagged write ((hcurrent m).trans (if_pos rfl))
    · rename_i hm
      have hne : m ≠ k := by omega
      rw [← h.page m, pageState, pageState, hcurrent, if_neg hne]
  · have hold := h.byte o b hb
    rw [← hold]
    have hmapped := userByte_mapped hold
    have hne : o / pageSize ≠ k := by
      rintro rfl
      exact hmapped hstate
    refine userByte_congr ?_ ?_ fun a => hword _ _ a (maps_place hmapped)
    · rw [hcurrent, if_neg hne]
    · rw [hcurrent, if_neg hne]
  · rw [PageView.page_setPages] at hm
    split at hm
    · rename_i hmk
      obtain rfl : m = k := by omega
      exact hneed
    · exact h.within m hm
  · have hbudget := h.frames (hactive ▸ hon)
    rw [hframes (hactive ▸ hon)] at hbudget
    rw [PageView.mapped_setPage_none hlt hk]
    omega

theorem Shows.frame (h : Shows p need s v) (hsound : Sound p s own) (hactive : s.activeAddressSpace = some i) (hk : v.page k = none)
    (hlt : k < processPageCount) (hneed : need k = true) :
    ∃ f, s.pmm.isUsed f = false ∧ s.pmm.allocateFrame = (s.pmm.takeFrame f, f * pageSize) := by
  obtain ⟨t, ht⟩ := Option.ne_none_iff_exists'.mp (hsound.active i hactive)
  have hpos : s.pmm.availableFrames ≠ 0 := by
    have hbudget := h.frames (hactive ▸ Option.some_ne_none i)
    have hmore : (v.setPages k (k + 1) true).mapped processPageCount ≤ (List.range processPageCount).countP need := by
      refine List.countP_mono_left fun m _ hm => ?_
      rw [PageView.page_setPage] at hm
      by_cases hmk : m = k
      · exact hmk ▸ hneed
      · rw [Function.update_of_ne hmk] at hm
        exact h.within m (Option.isSome_iff_ne_none.mp hm)
    rw [PageView.mapped_setPage_none hlt hk] at hmore
    omega
  rcases allocateFrame_spec hsound.counted with ⟨-, hall⟩ | ⟨f, -, hf, hsome⟩
  · exact absurd (hsound.counted.available.trans (clearCount_eq_zero fun f _ => hall (hsound.on i t ht) f)) hpos
  · exact ⟨f, hf, hsome⟩

/-- A round of `map_user` in an address space has found a frame for a page. -/
def withFrame (s : Paging) (pmm : Pmm) (i k f : Nat) : Paging :=
  (({ s with pmm } : Paging).zeroFrame (f * pageSize) |>.setSpace i
    { s.space i with mappedPages := (s.space i).mappedPages + 1 }).storeEntry (s.space i).tablePhysical k (f * pageSize ||| present ||| user)

theorem Shows.withFrame (h : Shows p need s v) (hactive : s.activeAddressSpace = some i) (hk : v.page k = none)
    (hlt : k < processPageCount) (hneed : need k = true) :
    ∃ pmm f, s.pmm.allocateFrame = (pmm, f * pageSize) ∧ f * pageSize ≠ 0 ∧ isPresent (s.word (s.space i).tablePhysical k) = false ∧
      Shows p need (s.withFrame pmm i k f) (v.setPages k (k + 1) false) := by
  obtain ⟨own, hsound⟩ := h.sound
  obtain ⟨t, ht⟩ := Option.ne_none_iff_exists'.mp (hsound.active i hactive)
  obtain ⟨f, hclear, hframe⟩ := h.frame hsound hactive hk hlt hneed
  have hbounds := (hsound.counted.managed f hclear).bounds
  have htable := hsound.table i t ht
  have hentry : ∀ m, s.currentEntry m = s.word (t * pageSize) m := fun m => by
    rw [currentEntry_eq, place, hactive]
    exact hsound.entryAt_some ht
  have hempty : s.word (t * pageSize) k = 0 := (hentry k).symm.trans (hsound.state_none ((h.page k).trans hk))
  have hown : own (.page i k) = none := by
    have hpresent := hsound.present_iff (k := k) ht
    rw [hempty, not_present_zero] at hpresent
    exact Option.isSome_eq_false_iff.mp hpresent.symm |> Option.isNone_iff_eq_none.mp
  rcases hsound.take hown with hnone | ⟨f', pmm, hsome, hne, hf, hcounted, -, hon, hbalanced⟩
  · have hzero : f * 4096 = 0 := congrArg Prod.snd (hframe.symm.trans hnone)
    omega
  obtain ⟨hpmm, hff⟩ := Prod.mk.inj (hframe.symm.trans hsome)
  obtain rfl : f = f' := Nat.mul_right_cancel page_pos hff
  have hmapped : Sound p (s.withFrame pmm i k f) (Function.update own (.page i k) (some f)) := by
    unfold Paging.withFrame
    rw [htable]
    exact sound_mapped hsound ht hown hlt hf hcounted hon hbalanced
  have hword : ∀ a m, (s.withFrame pmm i k f).word a m =
      if a = t * pageSize ∧ m = k then f * pageSize ||| present ||| user else if a = f * pageSize then 0 else s.word a m := by
    intro a m
    rw [← htable]
    rfl
  have hspace : ((s.withFrame pmm i k f).space i).tablePhysical = t * pageSize :=
    hmapped.table i t ((Function.update_of_ne Slot.noConfusion _ _).trans ht)
  refine ⟨pmm, f, hsome, hne, ?_, h.fresh (f := f) hk hneed false hmapped rfl (fun m => ?_) (fun place address a ha => ?_) fun _ => ?_⟩
  · rw [htable, hempty, not_present_zero]
  · have htf : t * pageSize ≠ f * pageSize := hsound.fresh hf ht
    have hcurrent : (s.withFrame pmm i k f).currentEntry m = (s.withFrame pmm i k f).word (t * pageSize) m := by
      have hstill : (s.withFrame pmm i k f).activeAddressSpace = some i := hactive
      rw [currentEntry, currentUserTable, hstill]
      dsimp only
      rw [hspace, if_neg (htable ▸ hsound.ne_zero ht)]
    rw [hcurrent, hword, if_neg htf]
    by_cases hm : m = k
    · rw [if_pos ⟨rfl, hm⟩, if_pos hm]
      exact flagged_fresh
    · rw [if_neg fun he => hm he.2, if_neg hm, hentry]
  · rw [hword, if_neg fun he => hsound.maps_ne_table ha i (htable.trans he.1.symm), if_neg]
    rintro rfl
    exact hsound.maps_ne_free hf ha
  · show _ = pmm.availableFrames + 1
    have hpos := hsound.counted.pos hclear
    rw [← hpmm]
    show _ = s.pmm.availableFrames - 1 + 1
    omega

theorem Shows.setWritable (h : Shows p need s v) {old : Bool} (hk : v.page k = some old) :
    Shows p need (s.putEntry k (s.currentEntry k ||| writable)) (v.setPages k (k + 1) true) :=
  h.flags hk fun _ hflag _ => hflag.write_eq

theorem setPages_again (v : PageView) (k : Nat) (old write : Bool) :
    (v.setPages k (k + 1) old).setPages k (k + 1) write = v.setPages k (k + 1) write := by
  refine congrArg (PageView.mk · v.byte) (funext fun m => ?_)
  by_cases hm : k ≤ m ∧ m < k + 1
  · rw [if_pos hm, if_pos hm]
  · rw [if_neg hm, if_neg hm, PageView.page_setPages, if_neg hm]

theorem Shows.currentEntry_active (h : Shows p need s v) (hactive : s.activeAddressSpace = some i) (k : Nat) :
    s.currentEntry k = s.word (s.space i).tablePhysical k ∧ (s.space i).tablePhysical ≠ 0 := by
  obtain ⟨own, hsound⟩ := h.sound
  obtain ⟨t, ht⟩ := Option.ne_none_iff_exists'.mp (hsound.active i hactive)
  have hne := hsound.ne_zero ht
  refine ⟨?_, hne⟩
  unfold currentEntry currentUserTable
  rw [hactive]
  dsimp only
  rw [if_neg hne]

/-- A round of `map_user` in an address space: the page is mapped, by now or before, and becomes writable. -/
theorem Shows.mapRound {page : Nat} (h : Shows p need s v) (hactive : s.activeAddressSpace = some i) (hlt : page < processPageCount)
    (hneed : need page = true) (left : Nat) :
    ∃ q, Shows p need q (v.setPages page (page + 1) true) ∧ q.activeAddressSpace = some i ∧
      mapPages i true (left + 1) page s = mapPages i true left (page + 1) q := by
  have hmark : ∀ q : Paging, ∀ u : PageView, ∀ old, Shows p need q u → u.page page = some old → q.activeAddressSpace = some i →
      Shows p need (q.storeEntry (q.space i).tablePhysical page (q.word (q.space i).tablePhysical page ||| writable))
        (u.setPages page (page + 1) true) := by
    intro q u old hq hold hon
    have hnext := hq.setWritable hold
    obtain ⟨hword, -⟩ := hq.currentEntry_active hon page
    rwa [hword, putEntry, hon] at hnext
  obtain ⟨hentry, -⟩ := h.currentEntry_active hactive page
  cases hk : v.page page with
  | some old =>
    have hpresent : isPresent (s.word (s.space i).tablePhysical page) = true := hentry ▸ h.entry_present (hk ▸ Option.some_ne_none old)
    refine ⟨_, hmark s v old h hk hactive, hactive, ?_⟩
    rw [Paging.mapPages]
    dsimp only
    rw [if_pos hpresent, if_pos rfl]
  | none =>
    obtain ⟨pmm, f, hsome, hne, hempty, hshows⟩ := h.withFrame hactive hk hlt hneed
    have hnext := hmark _ _ false hshows (by rw [PageView.page_setPages, if_pos (by omega)]) hactive
    rw [setPages_again v page false true] at hnext
    have htable : ((s.withFrame pmm i page f).space i).tablePhysical = (s.space i).tablePhysical := by
      simp [Paging.withFrame, storeEntry, setSpace]
    refine ⟨_, hnext, hactive, ?_⟩
    rw [Paging.mapPages, hsome]
    dsimp only
    rw [hempty, if_neg Bool.false_ne_true, if_neg hne, if_pos rfl, htable]
    rfl

theorem Shows.mapPages {left page : Nat} (h : Shows p need s v) (hactive : s.activeAddressSpace = some i)
    (hrange : page + left ≤ processPageCount) (hneed : ∀ k, page ≤ k → k < page + left → need k = true) :
    (mapPages i true left page s).2 = true ∧ Shows p need (mapPages i true left page s).1 (v.setPages page (page + left) true) := by
  induction left generalizing page s v with
  | zero => exact ⟨rfl, by rwa [PageView.setPages_empty v true (by omega)]⟩
  | succ left ih =>
    have hroom : page + 1 + left ≤ processPageCount := by rwa [Nat.add_right_comm]
    obtain ⟨q, hq, hon, hround⟩ := h.mapRound hactive (by omega) (hneed page (by omega) (by omega)) left
    have hrest := ih hq hon hroom fun k hk hlt => hneed k (by omega) (by omega)
    rw [Nat.add_right_comm, Nat.add_assoc, PageView.setPages_succ v true (by omega)] at hrest
    rw [hround]
    exact hrest

theorem currentEntry_legacy (hactive : s.activeAddressSpace = none) (k : Nat) : s.currentEntry k = s.legacyUserTable k := by
  rw [currentEntry_eq, place, hactive]
  rfl

/-- A round of `map_user` in the legacy table, where the frame of a page is fixed. -/
theorem Shows.mapLegacyPage (h : Shows p need s v) (hactive : s.activeAddressSpace = none) (hlt : k < processPageCount)
    (hneed : need k = true) :
    Shows p need { s with legacyUserTable := mapLegacy true s.legacyUserTable k } (v.setPages k (k + 1) true) := by
  have hcurrent := currentEntry_legacy hactive
  cases hk : v.page k with
  | some old =>
    have hpresent : isPresent (s.legacyUserTable k) = true := hcurrent k ▸ h.entry_present (hk ▸ Option.some_ne_none old)
    have hnext := h.setWritable hk
    rw [putEntry, hactive, hcurrent] at hnext
    have hmap : mapLegacy true s.legacyUserTable k = fun m => if m = k then s.legacyUserTable k ||| writable else s.legacyUserTable m := by
      funext m
      unfold mapLegacy
      rw [if_pos hpresent, if_pos rfl]
    rw [hmap]
    exact hactive ▸ hnext
  | none =>
    obtain ⟨own, hsound⟩ := h.sound
    have hempty : s.legacyUserTable k = 0 := (hcurrent k).symm.trans (hsound.state_none ((h.page k).trans hk))
    have hactive' : ({ s with legacyUserTable := mapLegacy true s.legacyUserTable k } : Paging).activeAddressSpace = none := hactive
    have hsound' : Sound p { s with legacyUserTable := mapLegacy true s.legacyUserTable k } own :=
      ⟨hsound.congr rfl rfl (fun _ => rfl) (fun j hj => nomatch hactive.symm.trans hj), hsound.mapped, legacy_map hsound.legacy hlt true⟩
    refine h.fresh (f := 0x600 + k) hk hneed true hsound' rfl (fun m => ?_) (fun _ _ _ _ => rfl) fun hon => absurd hactive hon
    rw [currentEntry_legacy hactive', hcurrent]
    show mapLegacy true s.legacyUserTable k m = _
    unfold mapLegacy
    split
    · have hbase : legacyUserPhysicalBase + k * pageSize = (0x600 + k) * pageSize := (Nat.add_mul 0x600 k 4096).symm
      rw [hempty, not_present_zero, if_neg Bool.false_ne_true, if_pos rfl, hbase]
      exact flagged_new.write_eq
    · rfl

theorem Shows.mapLegacy {left page : Nat} (h : Shows p need s v) (hactive : s.activeAddressSpace = none)
    (hrange : page + left ≤ processPageCount) (hneed : ∀ k, page ≤ k → k < page + left → need k = true) :
    Shows p need { s with legacyUserTable := (List.range' page left).foldl (mapLegacy true) s.legacyUserTable }
      (v.setPages page (page + left) true) := by
  induction left generalizing page s v with
  | zero => rwa [PageView.setPages_empty v true (by omega)]
  | succ left ih =>
    have hroom : page + 1 + left ≤ processPageCount := by rwa [Nat.add_right_comm]
    have hnext := h.mapLegacyPage hactive (show page < processPageCount by omega) (hneed page (by omega) (by omega))
    have hrest := ih hnext hactive hroom fun k hk hlt => hneed k (by omega) (by omega)
    rw [Nat.add_right_comm, Nat.add_assoc, PageView.setPages_succ v true (by omega)] at hrest
    exact hrest

theorem Shows.mapUser {offset length : Nat} (h : Shows p need s v) (hlength : 0 < length) (hrange : offset + length ≤ processWindowBytes)
    (hneed : ∀ k, offset / pageSize ≤ k → k < (offset + length + pageSize - 1) / pageSize → need k = true) :
    (s.mapUser (UInt32.ofNat offset) (UInt32.ofNat length) true).2 = true ∧
    Shows p need (s.mapUser (UInt32.ofNat offset) (UInt32.ofNat length) true).1
      (v.setPages (offset / pageSize) ((offset + length + pageSize - 1) / pageSize) true) := by
  have hpages := pageRange_eq hlength hrange
  have hle := pageRange_spec hpages
  have hstop : offset / pageSize + ((offset + length + pageSize - 1) / pageSize - offset / pageSize) =
      (offset + length + pageSize - 1) / pageSize := Nat.add_sub_cancel' (Nat.div_le_div_right (by omega))
  have hneed' : ∀ k, offset / pageSize ≤ k →
      k < offset / pageSize + ((offset + length + pageSize - 1) / pageSize - offset / pageSize) → need k = true := by
    rwa [hstop]
  unfold Paging.mapUser
  rw [hpages]
  dsimp only
  cases hactive : s.activeAddressSpace with
  | none =>
    have hmap := h.mapLegacy hactive hle hneed'
    rw [hstop, hactive] at hmap
    exact ⟨rfl, hmap⟩
  | some i =>
    have hmap := h.mapPages hactive hle hneed'
    rw [hstop] at hmap
    dsimp only
    rw [if_neg (h.currentEntry_active hactive 0).2]
    exact hmap

/-! ### Protection -/

theorem Shows.protectEntry (h : Shows p need s v) {old : Bool} (hk : v.page k = some old) (write : Bool) :
    Shows p need (s.putEntry k (protectEntry write (s.currentEntry k))) (v.setPages k (k + 1) write) :=
  h.flags hk fun _ hflag hf => hflag.protect_eq hf write

theorem later_mapped {left page : Nat} (write : Bool) (h : ∀ k, page ≤ k → k < page + (left + 1) → v.page k ≠ none) :
    ∀ k, page + 1 ≤ k → k < page + 1 + left → (v.setPages page (page + 1) write).page k ≠ none := by
  intro k hfirst hlt
  rw [PageView.page_setPages, if_neg (by omega)]
  exact h k (by omega) (by omega)

theorem Shows.protectPages {left page : Nat} (h : Shows p need s v) (write : Bool) (hactive : s.activeAddressSpace = some i)
    (hmapped : ∀ k, page ≤ k → k < page + left → v.page k ≠ none) :
    (protectPages (s.space i).tablePhysical write left page s).2 = true ∧
    Shows p need (protectPages (s.space i).tablePhysical write left page s).1 (v.setPages page (page + left) write) := by
  induction left generalizing page s v with
  | zero => exact ⟨rfl, by rwa [PageView.setPages_empty v write (by omega)]⟩
  | succ left ih =>
    have hk := hmapped page (by omega) (by omega)
    obtain ⟨old, hold⟩ := Option.ne_none_iff_exists'.mp hk
    have hlater := later_mapped write hmapped
    obtain ⟨hentry, -⟩ := h.currentEntry_active hactive page
    have hnext := h.protectEntry hold write
    rw [putEntry, hactive, hentry] at hnext
    have hrest := ih hnext hactive hlater
    rw [Nat.add_right_comm, Nat.add_assoc, PageView.setPages_succ v write (by omega)] at hrest
    rw [Paging.protectPages, ← hentry, h.entry_present hk, if_neg (by decide), hentry]
    exact hrest

theorem Shows.protectLegacy {left page : Nat} (h : Shows p need s v) (write : Bool) (hactive : s.activeAddressSpace = none)
    (hmapped : ∀ k, page ≤ k → k < page + left → v.page k ≠ none) :
    (protectLegacy write left page s.legacyUserTable).2 = true ∧
    Shows p need { s with legacyUserTable := (protectLegacy write left page s.legacyUserTable).1 } (v.setPages page (page + left) write) := by
  induction left generalizing page s v with
  | zero => exact ⟨rfl, by rwa [PageView.setPages_empty v write (by omega)]⟩
  | succ left ih =>
    have hk := hmapped page (by omega) (by omega)
    obtain ⟨old, hold⟩ := Option.ne_none_iff_exists'.mp hk
    have hlater := later_mapped write hmapped
    have hnext := h.protectEntry hold write
    rw [putEntry, hactive, currentEntry_legacy hactive] at hnext
    dsimp only at hnext
    have hrest := ih hnext rfl hlater
    rw [Nat.add_right_comm, Nat.add_assoc, PageView.setPages_succ v write (by omega)] at hrest
    rw [Paging.protectLegacy, ← currentEntry_legacy hactive, h.entry_present hk, if_neg (by decide), currentEntry_legacy hactive, hactive]
    exact hrest

theorem Shows.protectUser {offset length : Nat} (h : Shows p need s v) (write : Bool) (hlength : 0 < length)
    (hrange : offset + length ≤ processWindowBytes)
    (hmapped : ∀ k, offset / pageSize ≤ k → k < (offset + length + pageSize - 1) / pageSize → v.page k ≠ none) :
    (s.protectUser (UInt32.ofNat offset) (UInt32.ofNat length) write).2 = true ∧
    Shows p need (s.protectUser (UInt32.ofNat offset) (UInt32.ofNat length) write).1
      (v.setPages (offset / pageSize) ((offset + length + pageSize - 1) / pageSize) write) := by
  have hpages := pageRange_eq hlength hrange
  have hstop : offset / pageSize + ((offset + length + pageSize - 1) / pageSize - offset / pageSize) =
      (offset + length + pageSize - 1) / pageSize := Nat.add_sub_cancel' (Nat.div_le_div_right (by omega))
  have hmapped' : ∀ k, offset / pageSize ≤ k →
      k < offset / pageSize + ((offset + length + pageSize - 1) / pageSize - offset / pageSize) → v.page k ≠ none := by
    rwa [hstop]
  unfold Paging.protectUser
  rw [hpages]
  dsimp only
  cases hactive : s.activeAddressSpace with
  | none =>
    have hprotect := h.protectLegacy write hactive hmapped'
    rw [hstop, hactive] at hprotect
    exact hprotect
  | some i =>
    have hprotect := h.protectPages write hactive hmapped'
    rw [hstop] at hprotect
    dsimp only
    rw [if_neg (h.currentEntry_active hactive 0).2]
    exact hprotect

/-! ### Stores -/

theorem Sound.storeByte (h : Sound p s own) {o : Nat} (ho : s.pageState (o / pageSize) ≠ none) (b : UInt8) :
    Sound p (s.storeByte o b) own := by
  have hmaps := maps_place ho
  have hword : ∀ j g m, own (.table j) = some g → (s.storeByte o b).word (g * pageSize) m = s.word (g * pageSize) m := by
    intro j g m hg
    refine if_neg fun he => ?_
    exact h.maps_ne_table hmaps j ((h.table j g hg).trans he.1)
  refine ⟨⟨h.start, h.counted, h.balanced, h.empty, h.table, fun j g m hg => ?_, h.on, h.active⟩, h.mapped, h.legacy⟩
  rw [hword j g m hg]
  exact h.entry j g m hg

theorem Sound.currentEntry_store (h : Sound p s own) {o : Nat} (ho : s.pageState (o / pageSize) ≠ none) (b : UInt8) (m : Nat) :
    (s.storeByte o b).currentEntry m = s.currentEntry m := by
  have hmaps := maps_place ho
  rw [currentEntry_eq, currentEntry_eq]
  have hplace : (s.storeByte o b).place m = s.place m := rfl
  rw [hplace]
  cases s.place m with
  | legacy k => rfl
  | user i k =>
    have hkeep : (s.storeByte o b).word (s.space i).tablePhysical k = s.word (s.space i).tablePhysical k :=
      if_neg fun he => h.maps_ne_table hmaps i he.1
    show (if _ then _ else (s.storeByte o b).word (s.space i).tablePhysical k) = _
    rw [hkeep]
    rfl

theorem Sound.userByte_store (h : Sound p s own) {o a : Nat} (ho : s.pageState (o / pageSize) ≠ none) (b : UInt8)
    (ha : s.pageState (a / pageSize) ≠ none) : (s.storeByte o b).userByte a = if a = o then some b else s.userByte a := by
  have hframe : entryFrame (s.currentEntry (a / pageSize)) = entryFrame (s.currentEntry (o / pageSize)) → a / pageSize = o / pageSize := by
    intro he
    have hsame := h.maps_inj (he ▸ maps_place ha) (maps_place ho)
    unfold place at hsame
    split at hsame
    · exact (Place.user.inj hsame).2
    · exact Place.legacy.inj hsame
  have hpresent : isPresent (s.currentEntry (a / pageSize)) = true := by
    by_contra hnot
    exact ha (if_neg hnot)
  unfold userByte
  dsimp only
  rw [h.currentEntry_store ho, if_pos hpresent, if_pos hpresent]
  show some (UInt8.ofNat (wordByte (if _ ∧ _ then setWordByte _ _ _ else _) _)) = _
  by_cases hword : entryFrame (s.currentEntry (a / pageSize)) = entryFrame (s.currentEntry (o / pageSize)) ∧
      a % pageSize / 4 = o % pageSize / 4
  · rw [if_pos hword, wordByte_set (Nat.mod_lt _ (by decide)) (Nat.mod_lt _ (by decide)) b.toNat_lt]
    have hpage : a / 4096 = o / 4096 := hframe hword.1
    have hin : a % 4096 / 4 = o % 4096 / 4 := hword.2
    by_cases hao : a = o
    · rw [if_pos hao, if_pos (by rw [hao]), UInt8.ofNat_toNat]
    · rw [if_neg hao, if_neg (by omega)]
  · have hao : a ≠ o := by
      rintro rfl
      exact hword ⟨rfl, rfl⟩
    rw [if_neg hword, if_neg hao]

theorem Shows.storeByte (h : Shows p need s v) {o : Nat} (ho : v.page (o / pageSize) = some true) (b : UInt8) :
    s.canStore o = true ∧ Shows p need (s.storeByte o b) (v.store o [b]) := by
  obtain ⟨own, hsound⟩ := h.sound
  have hstate : s.pageState (o / pageSize) = some true := (h.page _).trans ho
  have hmapped : s.pageState (o / pageSize) ≠ none := hstate ▸ Option.some_ne_none true
  refine ⟨hsound.canStore_of hstate, ⟨own, hsound.storeByte hmapped b⟩, fun k => ?_, fun a c hc => ?_, h.within, h.frames⟩
  · rw [PageView.page_store, ← h.page k, pageState, pageState, hsound.currentEntry_store hmapped]
  · by_cases hao : a = o
    · subst hao
      have hself : (v.store a [b]).byte (a + 0) = some [b][0] := v.byte_store_in Nat.one_pos
      obtain rfl : b = c := Option.some.inj (hself.symm.trans hc)
      rw [hsound.userByte_store hmapped b hmapped, if_pos rfl]
    · rw [PageView.byte_store_out v (by simp; omega)] at hc
      have hold := h.byte a c hc
      rw [hsound.userByte_store hmapped b (userByte_mapped hold), if_neg hao, hold]

theorem Shows.storeUser {offset : Nat} {data : Bytes} (h : Shows p need s v)
    (hwrite : ∀ o, offset ≤ o → o < offset + data.length → v.page (o / pageSize) = some true) :
    ∃ s', storeUser offset data s = (some (), s') ∧ Shows p need s' (v.store offset data) := by
  induction data generalizing offset s v with
  | nil => exact ⟨s, rfl, by rwa [PageView.store_nil]⟩
  | cons b data ih =>
    rw [List.length_cons] at hwrite
    obtain ⟨hcan, hnext⟩ := h.storeByte (hwrite offset (Nat.le_refl _) (by omega)) b
    have hlater : ∀ o, offset + 1 ≤ o → o < offset + 1 + data.length → v.page (o / pageSize) = some true :=
      fun o hfirst hlt => hwrite o (by omega) (by omega)
    obtain ⟨s', hrun, hshows⟩ := ih hnext hlater
    refine ⟨s', ?_, ?_⟩
    · have hstep : Paging.storeUser offset (b :: data) s =
          (if s.canStore offset then (do Mach.modify fun s => s.storeByte offset b; Paging.storeUser (offset + 1) data : Mach Paging Unit)
            else Mach.stop) s := rfl
      rw [hstep, if_pos hcan]
      exact hrun
    · have happend := v.store_append offset [b] data
      rw [List.length_singleton, List.singleton_append] at happend
      rwa [happend] at hshows

/-! ### The empty window -/

theorem clearUser_active (s : Paging) : s.clearUser.activeAddressSpace = s.activeAddressSpace := by
  unfold clearUser
  split
  · exact clear_active s _
  · rfl

/-- There are frames for `n` pages once the window is cleared; the legacy table needs none. -/
def Enough (s : Paging) (n : Nat) : Prop := s.activeAddressSpace ≠ none → n ≤ s.clearUser.pmm.availableFrames

theorem Sound.shows_clearUser (h : Sound p s own) (hframes : s.Enough ((List.range processPageCount).countP need)) :
    Shows p need s.clearUser PageView.empty := by
  have hstate : ∀ k, s.clearUser.pageState k = none := by
    intro k
    refine if_neg ?_
    rw [currentEntry_eq, place, clearUser_active]
    unfold clearUser
    cases hactive : s.activeAddressSpace with
    | none => exact Bool.eq_false_iff.mp not_present_zero
    | some i =>
      dsimp only
      rw [(sound_clear h i).presentAt, emptied, if_pos rfl]
      exact Bool.false_ne_true
  obtain ⟨own', hsound, -, -⟩ := sound_clearUser h
  refine ⟨⟨own', hsound⟩, hstate, (fun _ _ hb => by cases hb), fun _ hk => absurd rfl hk, fun hon => ?_⟩
  rw [clearUser_active] at hon
  exact Nat.le_add_right_of_le (hframes hon)

/-! ### After a success -/

/-- The current table shows the window; nothing is said about frames for more pages. -/
abbrev Shown (p : Pmm) (s : Paging) (v : PageView) : Prop := Shows p (fun k => (v.page k).isSome) s v

theorem Shows.shown (h : Shows p need s v) : Shown p s v :=
  ⟨h.sound, h.page, h.byte, fun _ hk => Option.isSome_iff_ne_none.mpr hk, fun _ => Nat.le_add_left _ _⟩

theorem Sound.shown_clearUser (h : Sound p s own) : Shown p s.clearUser PageView.empty :=
  h.shows_clearUser fun _ => (List.countP_eq_zero.mpr fun _ _ => Bool.false_ne_true).trans_le (Nat.zero_le _)

theorem Shown.needsOne (h : Shown p s v) (hk : v.page k = none) (hlt : k < processPageCount)
    (hfree : s.activeAddressSpace ≠ none → 0 < s.pmm.availableFrames) : Shows p (fun m => (v.page m).isSome || m = k) s v := by
  refine ⟨h.sound, h.page, h.byte, fun m hm => ?_, fun hon => ?_⟩
  · rw [Bool.or_eq_true]
    exact .inl (Option.isSome_iff_ne_none.mpr hm)
  · have hone : (List.range processPageCount).countP (fun m => (v.page m).isSome || m = k) = v.mapped processPageCount + 1 := by
      have hmore : (v.setPages k (k + 1) true).mapped processPageCount = v.mapped processPageCount + 1 := PageView.mapped_setPage_none hlt hk
      rw [← hmore]
      unfold PageView.mapped Ledger.held
      refine List.countP_congr fun m _ => ?_
      rw [PageView.page_setPage]
      by_cases hm : m = k
      · simp [hm]
      · simp [hm]
    have hpos := hfree hon
    omega

theorem Shown.mapPages {left page : Nat} (h : Shown p s v) (hactive : s.activeAddressSpace = some i) (hrange : page + left ≤ processPageCount)
    (hok : (Paging.mapPages i true left page s).2 = true) :
    Shown p (Paging.mapPages i true left page s).1 (v.setPages page (page + left) true) := by
  induction left generalizing page s v with
  | zero =>
    rw [PageView.setPages_empty v true (by omega)]
    exact h
  | succ left ih =>
    have hround : ∃ q, Shown p q (v.setPages page (page + 1) true) ∧ q.activeAddressSpace = some i ∧
        Paging.mapPages i true (left + 1) page s = Paging.mapPages i true left (page + 1) q := by
      cases hk : v.page page with
      | some old =>
        obtain ⟨q, hq, hon, hround⟩ := h.mapRound hactive (show page < processPageCount by omega) (by rw [hk]; rfl) left
        exact ⟨q, hq.shown, hon, hround⟩
      | none =>
        have hfree : 0 < s.pmm.availableFrames := by
          obtain ⟨own, hsound⟩ := h.sound
          rcases allocateFrame_spec hsound.counted with ⟨hnone, -⟩ | ⟨f, -, hf, -⟩
          · have hempty : isPresent (s.word (s.space i).tablePhysical page) = false := by
              rw [← (h.currentEntry_active hactive page).1, hsound.state_none ((h.page page).trans hk)]
              exact not_present_zero
            rw [Paging.mapPages, hnone] at hok
            dsimp only at hok
            rw [hempty, if_neg Bool.false_ne_true, if_pos rfl] at hok
            cases hok
          · exact hsound.counted.pos hf
        obtain ⟨q, hq, hon, hround⟩ :=
          (h.needsOne hk (by omega) fun _ => hfree).mapRound hactive (show page < processPageCount by omega) (by simp) left
        exact ⟨q, hq.shown, hon, hround⟩
    obtain ⟨q, hq, hon, hround⟩ := hround
    rw [hround] at hok ⊢
    have hrest := ih hq hon (by omega) hok
    rwa [Nat.add_right_comm, Nat.add_assoc, PageView.setPages_succ v true (by omega)] at hrest

theorem Shown.mapUser {offset length : Nat} (h : Shown p s v) (hlength : 0 < length) (hrange : offset + length ≤ processWindowBytes)
    (hok : (s.mapUser (UInt32.ofNat offset) (UInt32.ofNat length) true).2 = true) :
    Shown p (s.mapUser (UInt32.ofNat offset) (UInt32.ofNat length) true).1
      (v.setPages (offset / pageSize) ((offset + length + pageSize - 1) / pageSize) true) := by
  cases hactive : s.activeAddressSpace with
  | none =>
    have hall : Shows p (fun _ => true) s v := ⟨h.sound, h.page, h.byte, fun _ _ => rfl, fun hon => absurd hactive hon⟩
    exact (hall.mapUser hlength hrange fun _ _ _ => rfl).2.shown
  | some i =>
    have hpages := pageRange_eq hlength hrange
    have hle := pageRange_spec hpages
    have hstop : offset / pageSize + ((offset + length + pageSize - 1) / pageSize - offset / pageSize) =
        (offset + length + pageSize - 1) / pageSize := Nat.add_sub_cancel' (Nat.div_le_div_right (by omega))
    unfold Paging.mapUser at hok ⊢
    rw [hpages] at hok ⊢
    dsimp only at hok ⊢
    rw [hactive] at hok ⊢
    dsimp only at hok ⊢
    rw [if_neg (h.currentEntry_active hactive 0).2] at hok ⊢
    have hmap := h.mapPages hactive hle hok
    rw [hstop] at hmap
    exact hmap

/-! ### Every state -/

/-- The states of the address spaces: calls, and stores of the kernel and of programs to pages that they can write. -/
inductive Reached : Paging → Prop
  | fresh {boot : BootInfo} {p : Pmm} {outstanding : List Nat} (hr : Pmm.Run boot p outstanding) (word : Nat → Nat → Nat) : Reached (fresh p word)
  | call {s : Paging} (h : Reached s) (op : Op) : Reached (s.apply op)
  | store {s : Paging} (h : Reached s) {offset : Nat} (ho : s.canStore offset = true) (b : UInt8) : Reached (s.storeByte offset b)

theorem pageState_of_canStore {o : Nat} (h : s.canStore o = true) : s.pageState (o / pageSize) ≠ none := by
  unfold canStore at h
  rw [decide_eq_true_eq] at h
  have hmod : s.currentEntry (o / pageSize) % 4 = 3 := (and_low (s.currentEntry (o / pageSize)) 2).symm.trans h
  have hpresent : isPresent (s.currentEntry (o / pageSize)) = true := by
    rw [isPresent_eq, decide_eq_true_eq]
    omega
  unfold pageState
  rw [if_pos hpresent]
  exact Option.some_ne_none _

theorem Reached.sound (h : Reached s) : ∃ p own, Sound p s own := by
  induction h with
  | fresh hr word => exact ⟨_, _, sound_fresh (books_run hr).counted word⟩
  | call _ op ih =>
    obtain ⟨p, own, hsound⟩ := ih
    obtain ⟨own', hsound', -⟩ := sound_apply hsound op
    exact ⟨p, own', hsound'⟩
  | store _ ho b ih =>
    obtain ⟨p, own, hsound⟩ := ih
    exact ⟨p, own, hsound.storeByte (pageState_of_canStore ho) b⟩

end ZenovOS.Memory.Paging
