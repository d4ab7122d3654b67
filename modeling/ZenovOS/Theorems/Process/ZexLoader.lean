import ZenovOS.Theorems.Process.ElfLoader

/-! # The guard and the loader of ZEX programs

`zex_valid` lets through two kinds of files that `load_zex` refuses: those whose sizes overflow in their sum, and those
with memory behind an image that ends inside a page. For no file does the loader leave the window. -/

namespace ZenovOS.Process
open Bytes Memory Memory.Paging Pmm Security Mach PageView ForeignImport

variable {p : Pmm} {s t t' : Paging} {v : PageView} {file data : Bytes} {offset length : Nat}

/-! ### Steps in the window -/

/-- The state is reached by steps that clear, map, protect and store in the window and nowhere else. -/
inductive InWindow (s : Paging) : Paging → Prop
  | start : InWindow s s
  | clear {t : Paging} : InWindow s t → InWindow s t.clearUser
  | map {t : Paging} (offset length : UInt32) (write : Bool) : InWindow s t → offset.toNat + length.toNat ≤ processWindowBytes →
      InWindow s (t.mapUser offset length write).1
  | protect {t : Paging} (offset length : UInt32) (write : Bool) : InWindow s t → offset.toNat + length.toNat ≤ processWindowBytes →
      InWindow s (t.protectUser offset length write).1
  | store {t : Paging} (offset : Nat) (b : UInt8) : InWindow s t → offset < processWindowBytes → t.canStore offset = true →
      InWindow s (t.storeByte offset b)

theorem pageRange_some {offset length : UInt32} (h : pageRange offset length ≠ none) : offset.toNat + length.toNat ≤ processWindowBytes := by
  unfold pageRange at h
  split at h
  · exact absurd rfl h
  · omega

theorem InWindow.mapUser (h : InWindow s t) (offset length : UInt32) (write : Bool) : InWindow s (t.mapUser offset length write).1 := by
  by_cases hrange : pageRange offset length = none
  · unfold Paging.mapUser
    rw [hrange]
    exact h
  · exact .map offset length write h (pageRange_some hrange)

theorem InWindow.protectUser (h : InWindow s t) (offset length : UInt32) (write : Bool) :
    InWindow s (t.protectUser offset length write).1 := by
  by_cases hrange : pageRange offset length = none
  · unfold Paging.protectUser
    rw [hrange]
    exact h
  · exact .protect offset length write h (pageRange_some hrange)

theorem InWindow.storeUser (h : InWindow s t) (hrange : offset + data.length ≤ processWindowBytes)
    (hrun : Paging.storeUser offset data t = (some (), t')) : InWindow s t' := by
  induction data generalizing offset t with
  | nil =>
    obtain rfl := congrArg Prod.snd hrun
    exact h
  | cons b data ih =>
    rw [List.length_cons] at hrange
    have hstep : Paging.storeUser offset (b :: data) t =
        (if t.canStore offset then (do Mach.modify fun s => s.storeByte offset b; Paging.storeUser (offset + 1) data : Mach Paging Unit)
          else Mach.stop) t := rfl
    rw [hstep] at hrun
    by_cases hcan : t.canStore offset = true
    · rw [if_pos hcan] at hrun
      exact ih (.store offset b h (by omega) hcan) (by omega) hrun
    · rw [if_neg hcan] at hrun
      cases hrun

/-! ### The rules of the loader's steps -/

theorem wp_orFail {σ α : Type} {m : Mach σ Bool} {rest : Mach σ (Option α)} {Q : Option α → σ → Prop} {C : σ → Prop} {s : σ}
    (h : wp m (fun ok s' => if ok = true then wp rest Q C s' else Q none s') C s) : wp (orFail m rest) Q C s := by
  refine wp_bind.mpr (wp_mono h (fun ok s' hok => ?_) fun _ hc => hc)
  cases ok with
  | false => exact hok
  | true => exact hok

/-- The state is reached in the window, and shows it. -/
structure At (p : Pmm) (s t : Paging) (v : PageView) : Prop where
  inside : InWindow s t
  shown : Shown p t v

theorem At.mapRange (h : At p s t v) (hoffset : offset < 2 ^ 32) (hlength : length < 2 ^ 32) :
    wp (Process.mapRange offset length true) (fun ok t' => InWindow s t' ∧ (ok = true → 0 < length ∧ offset + length ≤ processWindowBytes ∧
      At p s t' (v.setPages (offset / pageSize) ((offset + length + pageSize - 1) / pageSize) true))) (fun _ => False) t := by
  have hinside := h.inside.mapUser (UInt32.ofNat offset) (UInt32.ofNat length) true
  refine ⟨hinside, fun hok => ?_⟩
  have hrange : pageRange (UInt32.ofNat offset) (UInt32.ofNat length) ≠ none := by
    intro hnone
    unfold Paging.mapUser at hok
    rw [hnone] at hok
    cases hok
  have hfits := pageRange_some hrange
  rw [UInt32.toNat_ofNat_of_lt' hoffset, UInt32.toNat_ofNat_of_lt' hlength] at hfits
  have hpos : 0 < length := by
    refine Nat.pos_of_ne_zero fun hzero => hrange ?_
    unfold pageRange
    rw [hzero]
    exact if_pos (.inl rfl)
  exact ⟨hpos, hfits, hinside, h.shown.mapUser hpos hfits hok⟩

theorem InWindow.protectRange (h : InWindow s t) (offset length : Nat) (write : Bool) :
    wp (Process.protectRange offset length write) (fun _ t' => InWindow s t') (fun _ => False) t := h.protectUser _ _ write

theorem At.storeUser (h : At p s t v) (hrange : offset + data.length ≤ processWindowBytes)
    (hwrite : ∀ o, offset ≤ o → o < offset + data.length → v.page (o / pageSize) = some true) :
    wp (Paging.storeUser offset data) (fun _ t' => At p s t' (v.store offset data)) (fun _ => False) t := by
  obtain ⟨t', hrun, hshows⟩ := h.shown.storeUser hwrite
  unfold wp
  rw [hrun]
  exact ⟨h.inside.storeUser hrange hrun, hshows⟩

theorem At.zeroUser (h : At p s t v) (hrange : offset + length ≤ processWindowBytes)
    (hwrite : ∀ o, offset ≤ o → o < offset + length → v.page (o / pageSize) = some true) :
    wp (Paging.zeroUser offset length) (fun _ t' => At p s t' (v.store offset (List.replicate length 0))) (fun _ => False) t := by
  have hlength : (List.replicate length (0 : UInt8)).length = length := List.length_replicate
  refine h.storeUser (hlength.symm ▸ hrange) fun o hfirst hlt => hwrite o hfirst ?_
  rwa [hlength] at hlt

theorem At.mapStack (h : At p s t v) :
    wp Process.mapStack (fun ok t' => InWindow s t' ∧ (ok = true → At p s t' (v.place pageSize stackPiece))) (fun _ => False) t := by
  refine wp_bind.mpr (wp_mono (h.mapRange (by decide) (by decide)) (fun ok t' hmap => ?_) fun _ hc => hc)
  obtain ⟨hinside, hmapped⟩ := hmap
  cases ok with
  | false => exact ⟨hinside, nofun⟩
  | true =>
    obtain ⟨-, hrange, hat⟩ := hmapped rfl
    have hwrite : ∀ o, stackBase ≤ o → o < stackBase + stackBytes →
        (v.setPages (stackBase / pageSize) ((stackBase + stackBytes + pageSize - 1) / pageSize) true).page (o / pageSize) = some true := by
      intro o hfirst hlt
      rw [page_setPages, if_pos]
      have hfirst : 1032192 ≤ o := hfirst
      have hlt : o < 1048576 := hlt
      show 252 ≤ o / 4096 ∧ o / 4096 < 256
      omega
    refine wp_bind.mpr (wp_mono (hat.zeroUser hrange hwrite) (fun _ t'' hstored => ?_) fun _ hc => hc)
    have hplace : v.place pageSize stackPiece = (v.setPages (stackBase / pageSize) ((stackBase + stackBytes + pageSize - 1) / pageSize) true).store
        stackBase (List.replicate stackBytes 0) := by
      unfold PageView.place Piece.first Piece.stop
      rw [length_stackPiece]
      rfl
    rw [← hplace] at hstored
    exact ⟨hstored.inside, fun _ => hstored⟩

theorem page_mapped {o : Nat} (hfirst : offset ≤ o) (hlt : o < offset + length) :
    (v.setPages (offset / pageSize) ((offset + length + pageSize - 1) / pageSize) true).page (o / pageSize) = some true := by
  rw [page_setPages, if_pos]
  show offset / 4096 ≤ o / 4096 ∧ o / 4096 < (offset + length + 4096 - 1) / 4096
  omega

theorem page_place_true {k : Nat} {q : Piece} (h : v.page k = some true) : (v.place pageSize q).page k = some true := by
  rw [page_place, h, ite_self]

theorem At.mapBss (h : At p s t v) : wp (if u32 file 20 ≠ 0 then Process.mapRange (u32 file 12) (u32 file 20) true else pure true)
    (fun ok t' => InWindow s t' ∧ (ok = true → ∃ v', At p s t' v' ∧ (∀ k, v.page k = some true → v'.page k = some true) ∧
      (∀ o, u32 file 12 ≤ o → o < u32 file 12 + u32 file 20 → v'.page (o / pageSize) = some true) ∧
      (u32 file 20 ≠ 0 → u32 file 12 + u32 file 20 ≤ processWindowBytes))) (fun _ => False) t := by
  refine wp_ite (fun _ => ?_) fun hzero => ?_
  · refine wp_mono (h.mapRange (u32_lt file 12) (u32_lt file 20)) (fun ok t' ⟨hinside, hmapped⟩ => ⟨hinside, fun hok => ?_⟩) fun _ hc => hc
    obtain ⟨-, hrange, hat⟩ := hmapped hok
    exact ⟨_, hat, fun k hk => page_setPages_true hk, fun o hfirst hlt => page_mapped hfirst hlt, fun _ => hrange⟩
  · exact ⟨h.inside, fun _ => ⟨v, h, fun _ => id, fun o hfirst hlt => absurd hlt (by omega), fun hne => absurd hne hzero⟩⟩

theorem At.protectRange (h : At p s t v) (write : Bool) (hlength : 0 < length) (hrange : offset + length ≤ processWindowBytes)
    (hmapped : ∀ k, offset / pageSize ≤ k → k < (offset + length + pageSize - 1) / pageSize → v.page k ≠ none) :
    wp (Process.protectRange offset length write) (fun ok t' => ok = true ∧
      At p s t' (v.setPages (offset / pageSize) ((offset + length + pageSize - 1) / pageSize) write)) (fun _ => False) t := by
  obtain ⟨t', hrun, hshows⟩ := Shows.protectRange h.shown write hlength hrange hmapped
  have hinside := h.inside.protectRange offset length write
  unfold wp at hinside ⊢
  rw [hrun] at hinside ⊢
  exact ⟨rfl, hinside, hshows.shown⟩

/-- The pages of the stack can be written. -/
def StackMapped (v : PageView) : Prop := ∀ k, stackBase / pageSize ≤ k → k < processPageCount → v.page k = some true

theorem stackMapped_place (v : PageView) : StackMapped (v.place pageSize stackPiece) := by
  intro k hfirst hlt
  rw [page_place, if_pos (covers_stack.mpr ⟨hfirst, hlt⟩)]

theorem StackMapped.setPages {first stop : Nat} (h : StackMapped v) (hstop : stop ≤ stackBase / pageSize) (write : Bool) :
    StackMapped (v.setPages first stop write) := by
  intro k hfirst hlt
  rw [page_setPages, if_neg (by omega)]
  exact h k hfirst hlt

theorem loadZex_ends {own : Slot → Option Nat} (file : Bytes) (hs : Sound p s own) :
    wp (loadZex file) (fun entry s' => InWindow s s' ∧ (entry ≠ none → ∃ v, At p s s' v ∧ StackMapped v)) (fun _ => False) s := by
  have hcleared : At p s s.clearUser PageView.empty := ⟨.clear .start, hs.shown_clearUser⟩
  have hfails : ∀ {t}, InWindow s t → InWindow s t ∧ ((none : Option Nat) ≠ none → ∃ v, At p s t v ∧ StackMapped v) :=
    fun h => ⟨h, fun hne => absurd rfl hne⟩
  unfold loadZex
  refine wp_ite (fun _ => hfails .start) fun hlong => wp_ite (fun _ => hfails .start) fun hgood => wp_ite (fun _ => hfails .start) fun _ => ?_
  simp only [not_or, not_not, Nat.not_lt, Nat.not_le] at hgood
  obtain ⟨-, -, -, hfile, hsum, -⟩ := hgood
  have hslice : (slice file 32 (u32 file 12)).length = u32 file 12 := length_slice (by omega)
  refine wp_bind.mpr (wp_modify.mpr (wp_orFail (wp_mono (hcleared.mapRange (by decide) (u32_lt file 12)) ?_ fun _ hc => hc)))
  rintro ok s₁ ⟨hinside₁, hmapped⟩
  cases ok with
  | false => exact hfails hinside₁
  | true =>
    obtain ⟨hpos, himage, hat₁⟩ := hmapped rfl
    refine wp_orFail (wp_mono hat₁.mapStack ?_ fun _ hc => hc)
    rintro ok s₂ ⟨hinside₂, hstack⟩
    cases ok with
    | false => exact hfails hinside₂
    | true =>
      refine wp_orFail (wp_mono (hstack rfl).mapBss ?_ fun _ hc => hc)
      rintro ok s₃ ⟨hinside₃, hbss⟩
      cases ok with
      | false => exact hfails hinside₃
      | true =>
        obtain ⟨v₃, hat₃, hkeep, hbehind, hrange⟩ := hbss rfl
        have hwrite : ∀ o, 0 ≤ o → o < 0 + (slice file 32 (u32 file 12)).length → v₃.page (o / pageSize) = some true := by
          intro o hfirst hlt
          rw [hslice] at hlt
          exact hkeep _ (page_place_true (page_mapped hfirst hlt))
        have hbelow : u32 file 12 ≤ stackBase := by
          have hword : u32 file 12 < 4294967296 := u32_lt file 12
          have hsum : (u32 file 12 + u32 file 20) % 4294967296 ≤ stackBase := hsum
          by_cases hzero : u32 file 20 = 0
          · omega
          · have hfits : u32 file 12 + u32 file 20 ≤ 1048576 := hrange hzero
            omega
        refine wp_bind.mpr (wp_mono (hat₃.storeUser (hslice.symm ▸ himage) hwrite) (fun _ s₄ hat₄ => ?_) fun _ hc => hc)
        -- the stores leave the pages as they are
        have hend : ∀ s₅ v₅, At p s s₅ v₅ → v₅.page = v₃.page → wp (orFail (Process.protectRange 0 (u32 file 12) false) (pure (some (u32 file 16))))
            (fun entry s' => InWindow s s' ∧ (entry ≠ none → ∃ v, At p s s' v ∧ StackMapped v)) (fun _ => False) s₅ := by
          intro s₅ v₅ hat₅ hpages
          refine wp_orFail (wp_mono (hat₅.protectRange false hpos himage fun k hfirst hlt => ?_) ?_ fun _ hc => hc)
          · rw [hpages, hkeep k (page_place_true (by rw [page_setPages, if_pos ⟨hfirst, hlt⟩]))]
            exact Option.some_ne_none true
          · rintro ok s₆ ⟨rfl, hat₆⟩
            have hstack : StackMapped v₅ := fun k hfirst hlt => by
              rw [hpages]
              exact hkeep k (stackMapped_place _ k hfirst hlt)
            have hstop : (0 + u32 file 12 + pageSize - 1) / pageSize ≤ stackBase / pageSize := by
              have hbelow : u32 file 12 ≤ 1032192 := hbelow
              show (0 + u32 file 12 + 4096 - 1) / 4096 ≤ 252
              omega
            exact ⟨hat₆.inside, fun _ => ⟨_, hat₆, hstack.setPages hstop false⟩⟩
        refine wp_ite (fun hne => ?_) fun _ => hend s₄ _ hat₄ (page_store _ _ _)
        refine wp_bind.mpr (wp_mono (hat₄.zeroUser (hrange hne) hbehind) (fun _ s₅ hat₅ => ?_) fun _ hc => hc)
        exact hend s₅ _ hat₅ (page_store _ _ _)

/-! ### The guard and the loader -/

/-- The guard and the loader agree on a file that the guard accepts: the sizes stay below the stack, the file is loaded where
    there are frames, and the loader never leaves the window. -/
structure ZexAgrees (file : Bytes) (s : Paging) : Prop where
  room : u32 file 12 + u32 file 20 ≤ stackBase
  loads : s.Enough (zexFramesNeeded file) → ∃ s', loadZex file s = (some (some (u32 file 16)), s') ∧ ZexLoaded file s'
  inside : ∃ result s', loadZex file s = (some result, s') ∧ InWindow s s'

/-- The sizes do not overflow in their sum, and memory behind the image begins with a page. -/
def ZexFits (file : Bytes) : Prop := u32 file 12 + u32 file 20 < 2 ^ 32 ∧ (u32 file 20 = 0 ∨ u32 file 12 % pageSize = 0)

theorem loadable_of_valid (hvalid : zexValid file = true) (hfits : ZexFits file) : LoadableZex file := by
  unfold zexValid at hvalid
  dsimp only at hvalid
  rw [Nat.mod_eq_of_lt hfits.1] at hvalid
  simp only [Bool.and_eq_true, decide_eq_true_eq] at hvalid
  obtain ⟨⟨⟨⟨⟨⟨⟨⟨⟨hlength, hmagic⟩, hversion⟩, hheader⟩, himage⟩, hfile⟩, hroom⟩, hentry⟩, hstack⟩, hsum⟩ := hvalid
  exact ⟨by omega, hmagic, hversion, hheader, himage, hentry, hroom, hstack, fun hne => hfits.2.resolve_left hne, hsum⟩

theorem loadZex_unaligned (hbss : u32 file 20 ≠ 0) (himage : u32 file 12 % pageSize ≠ 0) : loadZex file s = (some none, s) := by
  have hmask : u32 file 12 &&& (pageSize - 1) = u32 file 12 % 4096 := Nat.and_two_pow_sub_one_eq_mod _ 12
  have himage : u32 file 12 % 4096 ≠ 0 := himage
  unfold loadZex
  dsimp only
  split
  · rfl
  · split
    · rfl
    · rw [hmask, if_pos ⟨hbss, himage⟩]
      rfl

/-- The guard and the loader agree on the files that the guard accepts, but for those whose sizes overflow in their sum and
    those with memory behind an image that ends inside a page. -/
theorem zex_agrees_iff (file : Bytes) (hvalid : zexValid file = true) : (∀ s, Reached s → ZexAgrees file s) ↔ ZexFits file := by
  constructor
  · intro hall
    have hreached : Reached (fresh (Pmm.init Paging.sixteenFrames) fun _ _ => 0) := .fresh .init fun _ _ => 0
    obtain ⟨hroom, hloads, -⟩ := hall _ hreached
    refine ⟨Nat.lt_of_le_of_lt hroom (by decide), ?_⟩
    by_contra hnot
    obtain ⟨hbss, himage⟩ := not_or.mp hnot
    obtain ⟨s', hload, -⟩ := hloads fun hactive => absurd rfl hactive
    rw [loadZex_unaligned hbss himage] at hload
    cases hload
  · intro hfits s hs
    obtain ⟨p, own, hsound⟩ := hs.sound
    have hloadable := loadable_of_valid hvalid hfits
    exact ⟨hloadable.room, fun hframes => hloadable.load hsound hframes, wp_ends (wp_mono (loadZex_ends file hsound) (fun _ _ h => h.1) fun _ hc => hc)⟩

theorem zex_agrees_sample : zexValid nativeZex = true ∧ ∀ s, Reached s → ZexAgrees nativeZex s := by
  obtain ⟨hvalid, hsum, hbss⟩ : zexValid nativeZex = true ∧ u32 nativeZex 12 + u32 nativeZex 20 < 2 ^ 32 ∧ u32 nativeZex 20 = 0 := by
    decide +kernel
  exact ⟨hvalid, (zex_agrees_iff nativeZex hvalid).mpr ⟨hsum, .inl hbss⟩⟩

/-- An image of four bytes whose memory wraps around the address space. -/
def wrappedZex : Bytes :=
  ascii "ZEX1" ++ le 4 1 ++ le 4 32 ++ le 4 4 ++ le 4 0 ++ le 4 (2 ^ 32 - 4) ++ le 4 0x1000 ++
    le 4 (Storage.fnv1a [0x90, 0x90, 0xCD, 0x80]).toNat ++ [0x90, 0x90, 0xCD, 0x80]

/-- The guard accepts it, and its sizes go far beyond the stack. -/
theorem wrapped_disagrees : ¬∀ file, zexValid file = true → ∀ s, Reached s → ZexAgrees file s := by
  intro hall
  obtain ⟨hvalid, hsizes⟩ : zexValid wrappedZex = true ∧ ¬u32 wrappedZex 12 + u32 wrappedZex 20 ≤ stackBase := by decide +kernel
  have hreached : Reached (fresh (Pmm.init Paging.sixteenFrames) fun _ _ => 0) := .fresh .init fun _ _ => 0
  exact hsizes (hall wrappedZex hvalid _ hreached).room

end ZenovOS.Process
