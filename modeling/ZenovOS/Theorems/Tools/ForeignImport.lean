import ZenovOS.Theorems.Process.Loader
import ZenovOS.Tools.ForeignImport

/-! # Imports and loaders agree

What the host lets through, the loaders of the kernel load. The guard of the kernel is stricter than both in one
point: it also looks at the flags of segments that take no memory. -/

namespace ZenovOS.ForeignImport
open Bytes Memory Memory.Paging Process Security Mach PageView

variable {file : Bytes} {p : Pmm} {s : Paging} {own : Slot → Option Nat}

/-! ### Reading -/

theorem foreignU32_ok {off : Nat} (h : off + 4 ≤ file.length) : foreignU32 file off = .ok (u32 file off) := if_neg (by omega)

theorem foreignU16_ok {off : Nat} (h : off + 2 ≤ file.length) : foreignU16 file off = .ok (u16 file off) := if_neg (by omega)

theorem read32 {β : Type} {off : Nat} {f : Nat → Except String β} {b : β} (hoff : off + 4 ≤ file.length)
    (h : (foreignU32 file off >>= f) = .ok b) : f (u32 file off) = .ok b := by
  rwa [foreignU32_ok hoff] at h

theorem read16 {β : Type} {off : Nat} {f : Nat → Except String β} {b : β} (hoff : off + 2 ≤ file.length)
    (h : (foreignU16 file off >>= f) = .ok b) : f (u16 file off) = .ok b := by
  rwa [foreignU16_ok hoff] at h

/-! ### ZEX -/

theorem zexChecksum_eq (data : Bytes) : zexChecksum data = (Storage.fnv1a data).toNat := by
  have hstep : ∀ (data : Bytes) (hash : UInt32),
      data.foldl (fun hash b => (hash ^^^ b.toNat) * 16777619 &&& 0xffffffff) hash.toNat =
        (data.foldl (fun hash b => (hash ^^^ b.toUInt32) * 16777619) hash).toNat := by
    intro data
    induction data with
    | nil => exact fun _ => rfl
    | cons b data ih =>
      intro hash
      rw [List.foldl_cons, List.foldl_cons, ← ih]
      congr 1
      have hmask : ∀ x, x &&& 0xffffffff = x % 2 ^ 32 := fun x => Nat.and_two_pow_sub_one_eq_mod x 32
      rw [hmask, UInt32.toNat_mul, UInt32.toNat_xor, UInt8.toNat_toUInt32]
      rfl
  exact hstep data 2166136261

/-- What the host has found in a ZEX file that it lets through. -/
structure GoodZex (file : Bytes) : Prop where
  length : file.length = 32 + u32 file 12
  magic : slice file 0 4 = ascii "ZEX1"
  version : u32 file 4 = 1
  header : u32 file 8 = 32
  image : u32 file 12 ≠ 0
  entry : u32 file 16 < u32 file 12
  room : u32 file 12 + u32 file 20 ≤ stackBase
  stack : u32 file 24 ≤ stackBytes
  aligned : u32 file 20 ≠ 0 → u32 file 12 % 4096 = 0
  checksum : (Storage.fnv1a (slice file 32 (u32 file 12))).toNat = u32 file 28

theorem goodZex (h : validateZex1Import file = .ok ()) : GoodZex file := by
  unfold validateZex1Import at h
  obtain ⟨hmagic, h⟩ := refused h
  simp only [not_or, Nat.not_lt, not_not] at hmagic
  obtain ⟨hlength, hmagic⟩ := hmagic
  have h := read32 (by omega) h
  have h := read32 (by omega) h
  have h := read32 (by omega) h
  have h := read32 (by omega) h
  have h := read32 (by omega) h
  have h := read32 (by omega) h
  have h := read32 (by omega) h
  obtain ⟨hfields, hsum⟩ := refused h
  simp only [not_or, Nat.not_lt, Nat.not_le, not_not, not_and] at hfields
  obtain ⟨hversion, hheader, himage, hfit, hexact, hentry, hbase, hbss, hstack, haligned⟩ := hfields
  have hbase : u32 file 12 ≤ 1032192 := hbase
  have hbss : u32 file 20 ≤ 1032192 - u32 file 12 := hbss
  have hexact : file.length = (32 + u32 file 12) % 4294967296 := hexact
  have hmod : ∀ x, x &&& (4096 - 1) = x % 4096 := fun x => Nat.and_two_pow_sub_one_eq_mod x 12
  refine ⟨by omega, hmagic, hversion, hheader, himage, hentry, ?_, hstack, fun hne => (hmod _).symm.trans (haligned hne), ?_⟩
  · show u32 file 12 + u32 file 20 ≤ 1032192
    omega
  · rw [← zexChecksum_eq]
    exact not_not.mp (refuse_ok.mp hsum)

theorem GoodZex.valid (h : GoodZex file) : zexValid file = true := by
  have hlength := h.length
  have hroom : u32 file 12 + u32 file 20 ≤ 1032192 := h.room
  have hmod : (u32 file 12 + u32 file 20) % 2 ^ 32 = u32 file 12 + u32 file 20 := Nat.mod_eq_of_lt (show _ < 4294967296 by omega)
  have himage := h.image
  unfold zexValid
  dsimp only
  rw [hmod]
  simp only [Bool.and_eq_true, decide_eq_true_eq]
  exact ⟨⟨⟨⟨⟨⟨⟨⟨⟨by omega, h.magic⟩, h.version⟩, h.header⟩, himage⟩, by omega⟩, h.room⟩, h.entry⟩, h.stack⟩, h.checksum⟩

/-- What the loader of the kernel asks of a ZEX file, with no sum that overflows. -/
structure LoadableZex (file : Bytes) : Prop where
  length : 32 + u32 file 12 ≤ file.length
  magic : slice file 0 4 = ascii "ZEX1"
  version : u32 file 4 = 1
  header : u32 file 8 = 32
  image : u32 file 12 ≠ 0
  entry : u32 file 16 < u32 file 12
  room : u32 file 12 + u32 file 20 ≤ stackBase
  stack : u32 file 24 ≤ stackBytes
  aligned : u32 file 20 ≠ 0 → u32 file 12 % 4096 = 0
  checksum : (Storage.fnv1a (slice file 32 (u32 file 12))).toNat = u32 file 28

theorem GoodZex.loadable (h : GoodZex file) : LoadableZex file :=
  ⟨Nat.le_of_eq h.length.symm, h.magic, h.version, h.header, h.image, h.entry, h.room, h.stack, h.aligned, h.checksum⟩

/-- The pages of the image, of the memory behind it and of the stack. -/
def zexNeeds (file : Bytes) (k : Nat) : Bool :=
  stackBase / Pmm.pageSize ≤ k || k < (u32 file 12 + u32 file 20 + Pmm.pageSize - 1) / Pmm.pageSize

def zexFramesNeeded (file : Bytes) : Nat := (List.range processPageCount).countP (zexNeeds file)

theorem page_setPages_true {v : PageView} {k first stop : Nat} (h : v.page k = some true) : (v.setPages first stop true).page k = some true := by
  rw [page_setPages, h, ite_self]

theorem zexNeeds_below {k stop : Nat} (hstop : stop ≤ u32 file 12 + u32 file 20) (hk : k < (stop + Pmm.pageSize - 1) / Pmm.pageSize) :
    zexNeeds file k = true := by
  unfold zexNeeds
  rw [Bool.or_eq_true, decide_eq_true_eq, decide_eq_true_eq]
  refine .inr (Nat.lt_of_lt_of_le hk (Nat.div_le_div_right ?_))
  show stop + 4096 - 1 ≤ u32 file 12 + u32 file 20 + 4096 - 1
  omega

theorem LoadableZex.mapBss (h : LoadableZex file) {v : PageView} (hs : Shows p (zexNeeds file) s v) :
    ∃ s' v', (if u32 file 20 ≠ 0 then mapRange (u32 file 12) (u32 file 20) true else pure true : Mach Paging Bool) s = (some true, s') ∧
      Shows p (zexNeeds file) s' v' ∧ (∀ k, v.page k = some true → v'.page k = some true) ∧
      ∀ o, u32 file 12 ≤ o → o < u32 file 12 + u32 file 20 → v'.page (o / Pmm.pageSize) = some true := by
  have hroom : u32 file 12 + u32 file 20 ≤ 1032192 := h.room
  by_cases hbss : u32 file 20 ≠ 0
  · obtain ⟨s', hmap, hshows⟩ := Process.Shows.mapRange hs (Nat.pos_of_ne_zero hbss) (show _ ≤ 1048576 by omega) fun k _ hk =>
      zexNeeds_below (Nat.le_refl _) hk
    refine ⟨s', _, (congrFun (if_pos hbss) s).trans hmap, hshows, fun k hk => page_setPages_true hk, fun o hfirst hlt => ?_⟩
    rw [page_setPages, if_pos]
    show u32 file 12 / 4096 ≤ o / 4096 ∧ o / 4096 < (u32 file 12 + u32 file 20 + 4096 - 1) / 4096
    omega
  · exact ⟨s, v, congrFun (if_neg hbss) s, hs, fun _ => id, fun o hfirst hlt => absurd hlt (by omega)⟩

theorem zeroBss {v : PageView} (hs : Shows p (zexNeeds file) s v)
    (hwrite : ∀ o, u32 file 12 ≤ o → o < u32 file 12 + u32 file 20 → v.page (o / Pmm.pageSize) = some true) :
    ∃ s' v', (if u32 file 20 ≠ 0 then zeroUser (u32 file 12) (u32 file 20) else pure () : Mach Paging Unit) s = (some (), s') ∧
      Shows p (zexNeeds file) s' v' ∧ v'.page = v.page ∧ (∀ o < u32 file 12, v'.byte o = v.byte o) ∧
      ∀ i < u32 file 20, v'.byte (u32 file 12 + i) = some 0 := by
  by_cases hbss : u32 file 20 ≠ 0
  · have hwrite' : ∀ o, u32 file 12 ≤ o → o < u32 file 12 + (List.replicate (u32 file 20) (0 : UInt8)).length →
        v.page (o / Pmm.pageSize) = some true := by
      rwa [List.length_replicate]
    obtain ⟨s', hzero, hshows⟩ := hs.storeUser hwrite'
    refine ⟨s', _, (congrFun (if_pos hbss) s).trans hzero, hshows, rfl, fun o ho => v.byte_store_out (.inl ho), fun i hi => ?_⟩
    have hi' : i < (List.replicate (u32 file 20) (0 : UInt8)).length := by rwa [List.length_replicate]
    rw [v.byte_store_in hi', List.getElem_replicate]
  · exact ⟨s, v, congrFun (if_neg hbss) s, hs, rfl, fun _ _ => rfl, fun i hi => absurd hi (by omega)⟩

theorem needs_zexStack (file : Bytes) : Needs (zexNeeds file) stackPiece := by
  intro k hk
  unfold zexNeeds
  rw [Bool.or_eq_true]
  exact .inl (decide_eq_true hk.1)

/-- What `load_zex` leaves: the bytes of the image, zeros behind them, and the entry point inside the image. -/
structure ZexLoaded (file : Bytes) (s : Paging) : Prop where
  bytes : ∀ i < u32 file 12, s.userByte i = some (file.getD (32 + i) 0)
  zeros : ∀ i < u32 file 20, s.userByte (u32 file 12 + i) = some 0
  entry : u32 file 16 < u32 file 12

theorem LoadableZex.load (h : LoadableZex file) (hsound : Sound p s own) (hframes : s.Enough (zexFramesNeeded file)) :
    ∃ s', loadZex file s = (some (some (u32 file 16)), s') ∧ ZexLoaded file s' := by
  have hroom : u32 file 12 + u32 file 20 ≤ 1032192 := h.room
  have hlength := h.length
  have himage := h.image
  have hcleared : Shows p (zexNeeds file) s.clearUser PageView.empty := hsound.shows_clearUser hframes
  obtain ⟨s₁, hmap, hs₁⟩ := Process.Shows.mapRange hcleared (Nat.pos_of_ne_zero himage) (show 0 + u32 file 12 ≤ 1048576 by omega)
    fun k _ hk => zexNeeds_below (by omega) hk
  obtain ⟨s₂, hstack, hs₂⟩ := Process.Shows.mapStack hs₁ (needs_zexStack file)
  obtain ⟨s₃, v₃, hbss, hs₃, hkeep, hbehind⟩ := h.mapBss hs₂
  -- the pages of the image are writable from the first step on
  have hpages : ∀ k, k < (0 + u32 file 12 + Pmm.pageSize - 1) / Pmm.pageSize → v₃.page k = some true := by
    intro k hk
    refine hkeep k ?_
    rw [page_place]
    split
    · rfl
    · rw [page_setPages, if_pos ⟨(Nat.zero_div Pmm.pageSize).symm ▸ Nat.zero_le k, hk⟩]
  have hslice : (slice file 32 (u32 file 12)).length = u32 file 12 := length_slice (by omega)
  have hwrite : ∀ o, 0 ≤ o → o < 0 + (slice file 32 (u32 file 12)).length → v₃.page (o / Pmm.pageSize) = some true := by
    intro o _ ho
    rw [hslice] at ho
    refine hpages _ ?_
    show o / 4096 < (0 + u32 file 12 + 4096 - 1) / 4096
    omega
  obtain ⟨s₄, hstore, hs₄⟩ := hs₃.storeUser hwrite
  obtain ⟨s₅, v₅, hzero, hs₅, hv₅, hkept, hzeros⟩ := zeroBss hs₄ hbehind
  obtain ⟨s₆, hprotect, hs₆⟩ := Process.Shows.protectRange hs₅ false (Nat.pos_of_ne_zero himage) (show 0 + u32 file 12 ≤ 1048576 by omega)
    fun k _ hk => by
      rw [hv₅, page_store, hpages k hk]
      exact Option.some_ne_none _
  refine ⟨s₆, ?_, ⟨fun i hi => hs₆.byte _ _ ?_, fun i hi => hs₆.byte _ _ ?_, h.entry⟩⟩
  case refine_2 =>
    have hi' : i < (slice file 32 (u32 file 12)).length := hslice.symm ▸ hi
    have hstored : (v₃.store 0 (slice file 32 (u32 file 12))).byte (0 + i) = some (slice file 32 (u32 file 12))[i] := v₃.byte_store_in hi'
    rw [Nat.zero_add, List.getElem_eq_getD 0, getD_slice hi] at hstored
    rw [byte_setPages, hkept i hi]
    exact hstored
  case refine_3 =>
    rw [byte_setPages]
    exact hzeros i hi
  have hmod : (u32 file 12 + u32 file 20) % 2 ^ 32 = u32 file 12 + u32 file 20 := Nat.mod_eq_of_lt (show _ < 4294967296 by omega)
  have hmask : u32 file 12 &&& (Pmm.pageSize - 1) = u32 file 12 % 4096 := Nat.and_two_pow_sub_one_eq_mod _ 12
  have hentry := h.entry
  unfold loadZex
  dsimp only
  rw [hmod, hmask, if_neg (by omega), if_neg, if_neg fun hc => hc.2 (h.aligned hc.1)]
  · have hclear : (Mach.modify clearUser : Mach Paging Unit) s = (some (), s.clearUser) := rfl
    refine (bind_run hclear).trans ?_
    rw [orFail_run hmap, orFail_run hstack, orFail_run hbss]
    refine (bind_run hstore).trans ?_
    by_cases hmore : u32 file 20 ≠ 0
    · rw [if_pos hmore] at hzero
      refine (congrFun (if_pos hmore) s₄).trans ((bind_run hzero).trans ?_)
      rw [orFail_run hprotect]
      rfl
    · rw [if_neg hmore] at hzero
      obtain rfl : s₄ = s₅ := congrArg Prod.snd hzero
      refine (congrFun (if_neg hmore) s₄).trans ?_
      rw [orFail_run hprotect]
      rfl
  · simp only [not_or, not_not, Nat.not_lt, Nat.not_le]
    exact ⟨h.magic, h.version, h.header, by omega, h.room, himage, hentry, h.stack, h.checksum⟩

theorem GoodZex.load (h : GoodZex file) (hsound : Sound p s own) (hframes : s.Enough (zexFramesNeeded file)) :
    ∃ s', loadZex file s = (some (some (u32 file 16)), s') := by
  obtain ⟨s', hload, -⟩ := h.loadable.load hsound hframes
  exact ⟨s', hload⟩

/-! ### ELF -/

def ofHeader (h : ProgramHeader) : ForeignElfSegment := ⟨h.type, h.offset, h.virtualAddress, h.fileSize, h.memorySize, h.flags, h.alignment⟩

theorem readSegment_ok {base : Nat} (hbase : base + 32 ≤ file.length) : readSegment file base = .ok (ofHeader (programHeader file base)) := by
  unfold readSegment
  rw [foreignU32_ok (by omega), foreignU32_ok (by omega), foreignU32_ok (by omega), foreignU32_ok (by omega), foreignU32_ok (by omega),
    foreignU32_ok (by omega), foreignU32_ok (by omega)]
  rfl

/-- What the host asks of a segment that takes memory. -/
structure GoodSegment (file : Bytes) (h : ProgramHeader) : Prop where
  filled : h.fileSize ≤ h.memorySize
  offset : h.offset ≤ file.length
  inFile : h.fileSize ≤ file.length - h.offset
  address : h.virtualAddress < stackBase
  below : h.memorySize ≤ stackBase - h.virtualAddress
  flags : h.flags < 8
  exclusive : h.flags % 4 ≠ 3
  aligned : h.misaligned = false

/-- Two segments of which the host lets only one through. -/
def conflicts (h g : ProgramHeader) : Bool :=
  rangesOverlap h.virtualAddress h.memorySize g.virtualAddress g.memorySize ||
    h.writable != g.writable && pageRangesOverlap h.virtualAddress h.memorySize g.virtualAddress g.memorySize

theorem flags_bne (a b : Nat) : (a / 2 % 2 != b / 2 % 2) = (decide (a / 2 % 2 = 1) != decide (b / 2 % 2 = 1)) := by
  rcases Nat.mod_two_eq_zero_or_one (a / 2) with ha | ha <;> rcases Nat.mod_two_eq_zero_or_one (b / 2) with hb | hb <;> rw [ha, hb] <;> rfl

theorem round_host {entry base : Nat} {st st' : Loaded} (hbase : base + 32 ≤ file.length) {h : ProgramHeader} (hh : h = programHeader file base)
    (hround : checkSegment file entry base st = .ok st') :
    (h.loads = false ∧ st' = st ∧ (h.type = 1 → h.memorySize = 0 ∧ h.fileSize = 0)) ∨
    (h.loads = true ∧ GoodSegment file h ∧ (∀ earlier : List ProgramHeader, st.loaded = earlier.map ofHeader → ∀ g ∈ earlier, conflicts h g = false) ∧
      st' = ⟨st.loaded ++ [ofHeader h], st.executableEntry || (h.executable && !h.writable && h.virtualAddress ≤ entry &&
        entry < (h.virtualAddress + h.memorySize) % 2 ^ 32)⟩) := by
  unfold checkSegment at hround
  rw [readSegment_ok hbase, ← hh] at hround
  obtain ⟨-, hround⟩ := refused hround
  split at hround
  · rename_i htype
    have htype : h.type ≠ 1 := htype
    exact .inl ⟨by simp [ProgramHeader.loads, htype], (Except.ok.inj hround).symm, fun hone => absurd hone htype⟩
  · rename_i htype
    have htype : h.type = 1 := not_not.mp htype
    split at hround
    · rename_i hzero
      have hzero : h.memorySize = 0 := hzero
      obtain ⟨hfile, hround⟩ := refused hround
      exact .inl ⟨by simp [ProgramHeader.loads, hzero], (Except.ok.inj hround).symm, fun _ => ⟨hzero, not_not.mp hfile⟩⟩
    · rename_i hne
      have hne : h.memorySize ≠ 0 := hne
      obtain ⟨hgood, hround⟩ := refused hround
      obtain ⟨hany, hround⟩ := refused hround
      simp only [not_or, Nat.not_lt, Nat.not_le] at hgood
      obtain ⟨hfilled, hoffset, hin, haddress, hbelow, hflags, hexclusive, haligned⟩ := hgood
      refine .inr ⟨by simp [ProgramHeader.loads, htype, hne], ⟨hfilled, hoffset, hin, haddress, hbelow, hflags, hexclusive, ?_⟩, ?_, ?_⟩
      · refine Bool.eq_false_iff.mpr fun hmis => haligned ?_
        simpa [ProgramHeader.misaligned, ofHeader] using hmis
      · intro earlier hearlier g hg
        refine Bool.eq_false_iff.mpr fun hconflict => hany (List.any_eq_true.mpr ⟨ofHeader g, ?_, ?_⟩)
        · rw [hearlier]
          exact List.mem_map_of_mem hg
        · rw [flags_bne]
          exact hconflict
      · have hwrite : decide (h.flags / 2 % 2 = 0) = !h.writable := by
          unfold ProgramHeader.writable
          rcases Nat.mod_two_eq_zero_or_one (h.flags / 2) with hw | hw <;> rw [hw] <;> rfl
        rw [← Except.ok.inj hround, ← hwrite]
        rfl

/-- The loop of the loader follows the host's: it has seen the same segments, and found what the host has found. -/
structure Follows (entry : Nat) (earlier : List ProgramHeader) (st : Loaded) (scan : ElfScan) : Prop where
  loaded : st.loaded = (earlier.filter (·.loads)).map ofHeader
  any : st.loaded ≠ [] → scan.loaded = true
  entry : st.executableEntry = true → scan.executableEntry = true ∧ Enters entry earlier

theorem enters_mono {entry : Nat} {segments more : List ProgramHeader} (h : Enters entry segments) (hsub : ∀ g ∈ segments, g ∈ more) :
    Enters entry more := by
  obtain ⟨g, hg, hrest⟩ := h
  exact ⟨g, hsub g hg, hrest⟩

theorem Follows.step {base : Nat} {st st' : Loaded} {scan : ElfScan} {earlier : List ProgramHeader} {h : ProgramHeader}
    (hf : Follows (u32 file 24) earlier st scan) (hbase : base + 32 ≤ file.length) (hh : h = programHeader file base)
    (hround : checkSegment file (u32 file 24) base st = .ok st') :
    ∃ scan', Process.checkSegment file earlier scan h = some scan' ∧ Follows (u32 file 24) (earlier ++ [h]) st' scan' := by
  have hsub : ∀ g ∈ earlier, g ∈ earlier ++ [h] := fun g hg => List.mem_append_left [h] hg
  rcases round_host hbase hh hround with ⟨hskip, rfl, hempty⟩ | ⟨hloads, hgood, hapart, rfl⟩
  · have hfilter : (earlier ++ [h]).filter (·.loads) = earlier.filter (·.loads) := by
      rw [List.filter_append, List.filter_cons_of_neg (Bool.eq_false_iff.mp hskip), List.filter_nil, List.append_nil]
    refine ⟨scan, ?_, ⟨hfilter.symm ▸ hf.loaded, hf.any, fun he => ⟨(hf.entry he).1, enters_mono (hf.entry he).2 hsub⟩⟩⟩
    unfold Process.checkSegment
    by_cases htype : h.type = 1
    · obtain ⟨hzero, hfile⟩ := hempty htype
      dsimp only
      rw [if_neg (not_not.mpr htype), if_pos hzero, if_neg (not_not.mpr hfile)]
    · exact if_pos htype
  · have hfilter : (earlier ++ [h]).filter (·.loads) = earlier.filter (·.loads) ++ [h] := by
      rw [List.filter_append, List.filter_cons_of_pos hloads, List.filter_nil]
    have htype : h.type = 1 ∧ h.memorySize ≠ 0 := by
      simpa only [ProgramHeader.loads, Bool.and_eq_true, decide_eq_true_eq] using hloads
    have hnone : ¬(earlier.any fun other => other.loads && conflicts h other) = true := by
      rw [List.any_eq_true]
      rintro ⟨g, hg, hconflict⟩
      rw [Bool.and_eq_true] at hconflict
      rw [hapart _ hf.loaded g (List.mem_filter.mpr ⟨hg, hconflict.1⟩)] at hconflict
      exact Bool.noConfusion hconflict.2
    refine ⟨⟨true, scan.executableEntry || h.executable && h.virtualAddress ≤ u32 file 24 &&
      u32 file 24 < (h.virtualAddress + h.memorySize) % 2 ^ 32⟩, ?_, ?_, fun _ => rfl, fun he => ?_⟩
    · unfold Process.checkSegment
      dsimp only
      rw [if_neg (not_not.mpr htype.1), if_neg htype.2, if_neg, if_neg]
      · exact hnone
      · simp only [not_or, Nat.not_lt, Nat.not_le, Bool.not_eq_true]
        exact ⟨hgood.filled, hgood.offset, hgood.inFile, hgood.address, hgood.below, hgood.flags, hgood.aligned⟩
    · rw [hfilter, List.map_append, ← hf.loaded]
      rfl
    · rw [Bool.or_eq_true] at he ⊢
      rcases he with hbefore | hnow
      · exact ⟨.inl (hf.entry hbefore).1, enters_mono (hf.entry hbefore).2 hsub⟩
      · simp only [Bool.and_eq_true, Bool.not_eq_true', decide_eq_true_eq] at hnow
        obtain ⟨⟨⟨hx, hw⟩, hle⟩, hlt⟩ := hnow
        refine ⟨.inr ?_, h, List.mem_append_right earlier (List.mem_singleton.mpr rfl), hloads, hx, hw, hle, ?_⟩
        · rw [hx, decide_eq_true hle, decide_eq_true hlt]
          rfl
        · exact Nat.lt_of_lt_of_le hlt (Nat.mod_le _ _)

theorem Follows.run {st st' : Loaded} {scan : ElfScan} {earlier : List ProgramHeader} {bases : List Nat}
    (hf : Follows (u32 file 24) earlier st scan) (hbases : ∀ base ∈ bases, base + 32 ≤ file.length)
    (hrun : bases.foldlM (fun st base => checkSegment file (u32 file 24) base st) st = .ok st') :
    ∃ scan', scanHeaders (Process.checkSegment file) earlier (bases.map (programHeader file)) scan = some scan' ∧
      Follows (u32 file 24) (earlier ++ bases.map (programHeader file)) st' scan' := by
  induction bases generalizing earlier st scan with
  | nil =>
    obtain rfl := Except.ok.inj hrun
    exact ⟨scan, rfl, by rwa [List.map_nil, List.append_nil]⟩
  | cons base bases ih =>
    rw [List.foldlM_cons] at hrun
    obtain ⟨next, hround, hrest⟩ := bind_ok hrun
    obtain ⟨scan₁, hstep, hf₁⟩ := hf.step (hbases base List.mem_cons_self) rfl hround
    obtain ⟨scan', hscan, hf'⟩ := ih hf₁ (fun b hb => hbases b (List.mem_cons_of_mem base hb)) hrest
    refine ⟨scan', ?_, by rwa [List.append_assoc] at hf'⟩
    rw [List.map_cons, scanHeaders, hstep]
    exact hscan

/-- What the host has found in an ELF file that it lets through, and what the loop of the loader finds. -/
structure GoodElf (file : Bytes) : Prop where
  length : 52 ≤ file.length
  ident : slice file 0 6 = [0x7F, 69, 76, 70, 1, 1]
  type : u16 file 16 = 2
  machine : u16 file 18 = 3
  version : u32 file 20 = 1
  header : u16 file 40 = 52
  entrySize : u16 file 42 = 32
  offset : u32 file 28 ≤ file.length
  count : u16 file 44 ≠ 0
  table : u16 file 44 ≤ (file.length - u32 file 28) / 32
  entry : u32 file 24 < stackBase
  scan : scanHeaders (Process.checkSegment file) [] (programHeaders file) ⟨false, false⟩ = some ⟨true, true⟩
  enters : Enters (u32 file 24) (programHeaders file)
  exclusive : ∀ h ∈ programHeaders file, h.loads = true → h.flags % 4 ≠ 3 ∧ h.flags < 8
  empty : ∀ h ∈ programHeaders file, h.type = 1 → h.memorySize = 0 → h.fileSize = 0

theorem rounds_host {st st' : Loaded} {bases : List Nat} (hbases : ∀ base ∈ bases, base + 32 ≤ file.length)
    (hrun : bases.foldlM (fun st base => checkSegment file (u32 file 24) base st) st = .ok st') :
    ∀ h ∈ bases.map (programHeader file), (h.loads = true → GoodSegment file h) ∧ (h.type = 1 → h.memorySize = 0 → h.fileSize = 0) := by
  induction bases generalizing st with
  | nil => exact fun h hh => nomatch hh
  | cons base bases ih =>
    rw [List.foldlM_cons] at hrun
    obtain ⟨next, hround, hrest⟩ := bind_ok hrun
    intro h hh
    rcases List.mem_cons.mp hh with rfl | hh
    · rcases round_host (hbases base List.mem_cons_self) rfl hround with ⟨hskip, -, hempty⟩ | ⟨hloads, hgood, -⟩
      · exact ⟨fun hloads => absurd hloads (Bool.eq_false_iff.mp hskip), fun htype _ => (hempty htype).2⟩
      · refine ⟨fun _ => hgood, fun _ hzero => ?_⟩
        have hfilled := hgood.filled
        omega
    · exact ih (fun b hb => hbases b (List.mem_cons_of_mem base hb)) hrest h hh

theorem goodElf (h : validateElf32I386Import file = .ok ()) : GoodElf file := by
  unfold validateElf32I386Import at h
  obtain ⟨hident, h⟩ := refused h
  simp only [not_or, Nat.not_lt, not_not] at hident
  obtain ⟨hlength, hident⟩ := hident
  have h := read16 (by omega) h
  have h := read16 (by omega) h
  have h := read32 (by omega) h
  have h := read32 (by omega) h
  have h := read32 (by omega) h
  have h := read16 (by omega) h
  have h := read16 (by omega) h
  have h := read16 (by omega) h
  obtain ⟨hfields, h⟩ := refused h
  simp only [not_or, Nat.not_lt, Nat.not_le, not_not] at hfields
  obtain ⟨htype, hmachine, hversion, hheader, hsize, hcount, hentry, hoffset, htable⟩ := hfields
  obtain ⟨st, hrun, h⟩ := bind_ok h
  have hfound := refuse_ok.mp h
  simp only [not_or, Bool.not_eq_false] at hfound
  obtain ⟨bases, hbases⟩ : ∃ bases, bases = (List.range (u16 file 44)).map fun i => u32 file 28 + i * 32 := ⟨_, rfl⟩
  have hrun : bases.foldlM (fun st base => checkSegment file (u32 file 24) base st) ⟨[], false⟩ = .ok st := by
    rw [hbases, List.foldlM_map]
    exact hrun
  have hheaders : bases.map (programHeader file) = programHeaders file := by
    rw [hbases, List.map_map]
    rfl
  have hroom : ∀ base ∈ bases, base + 32 ≤ file.length := by
    intro base hbase
    rw [hbases] at hbase
    obtain ⟨i, hi, rfl⟩ := List.mem_map.mp hbase
    have hi := List.mem_range.mp hi
    omega
  have hstart : Follows (u32 file 24) [] ⟨[], false⟩ ⟨false, false⟩ := ⟨rfl, fun hne => absurd rfl hne, fun hc => Bool.noConfusion hc⟩
  obtain ⟨scan, hscan, hf⟩ := hstart.run hroom hrun
  have hseen := rounds_host hroom hrun
  rw [hheaders] at hscan hf hseen
  obtain ⟨hexecutable, henters⟩ := hf.entry hfound.2
  have hloaded := hf.any hfound.1
  obtain ⟨loaded, executableEntry⟩ := scan
  obtain rfl : loaded = true := hloaded
  obtain rfl : executableEntry = true := hexecutable
  refine ⟨hlength, ?_, htype, hmachine, hversion, hheader, hsize, hoffset, hcount, htable, hentry, hscan, henters, fun g hg hloads => ?_,
    fun g hg => (hseen g hg).2⟩
  · have hsix : slice (slice file 0 7) 0 6 = slice file 0 6 := slice_slice (by decide)
    rw [hident] at hsix
    exact hsix.symm
  · have hgood := (hseen g hg).1 hloads
    exact ⟨hgood.exclusive, hgood.flags⟩

theorem GoodElf.load (h : GoodElf file) (hsound : Sound p s own) (hframes : s.Enough (framesNeeded 0 (programHeaders file))) :
    ∃ s', loadElf32 file s = (some (some (u32 file 24)), s') := by
  obtain ⟨s', hload, -, -⟩ := (placed_of_scan h.scan).run hsound hframes h.enters (Nat.zero_le _) (u32 file 24)
  refine ⟨s', ?_⟩
  have hlength := h.length
  unfold loadElf32
  rw [if_neg (by omega), if_neg, h.scan]
  · exact hload
  · simp only [not_or, not_not, Nat.not_lt, Nat.not_le]
    exact ⟨h.ident, h.type, h.machine, h.version, h.header, h.entrySize, h.offset, h.count, h.table, h.entry⟩

/-! ### The guard -/

/-- No segment without memory has flags that the guard refuses. -/
def EmptyPlain (file : Bytes) : Prop := ∀ h ∈ programHeaders file, h.type = 1 → h.memorySize = 0 → h.flags % 4 ≠ 3 ∧ h.flags < 8

instance (file : Bytes) : Decidable (EmptyPlain file) := inferInstanceAs (Decidable (∀ h ∈ programHeaders file, _))

/-- What `elf_valid` finds in a header that is in order. -/
def found (entry : Nat) (h : ProgramHeader) : Bool × Bool :=
  (h.loads, h.loads && (h.executable && h.virtualAddress ≤ entry && entry < h.virtualAddress + h.memorySize))

theorem mapM_some {α β : Type} {f : α → Option β} {g : α → β} {l : List α} (h : ∀ x ∈ l, f x = some (g x)) : l.mapM f = some (l.map g) := by
  induction l with
  | nil => rfl
  | cons x l ih =>
    rw [List.mapM_cons, h x List.mem_cons_self, ih fun y hy => h y (List.mem_cons_of_mem x hy)]
    rfl

theorem mapM_none {α β : Type} {f : α → Option β} {l : List α} {x : α} (hx : x ∈ l) (h : f x = none) : l.mapM f = none := by
  induction l with
  | nil => cases hx
  | cons y l ih =>
    rw [List.mapM_cons]
    rcases List.mem_cons.mp hx with rfl | hx
    · rw [h]
      rfl
    · rw [ih hx]
      cases f y <;> rfl

theorem elfSegment_eq {off : Nat} {h : ProgramHeader} (hh : h = programHeader file off) :
    elfSegment file off =
      if h.type ≠ 1 then some (false, false)
      else if h.flags % 4 = 3 ∨ 8 ≤ h.flags then none
      else if h.memorySize = 0 then if h.fileSize ≠ 0 then none else some (false, false)
      else if h.memorySize < h.fileSize ∨ file.length < h.offset ∨ file.length - h.offset < h.fileSize ∨ stackBase ≤ h.virtualAddress ∨
          stackBase - h.virtualAddress < h.memorySize then none
      else some (true, h.executable && h.virtualAddress ≤ u32 file 24 && u32 file 24 < h.virtualAddress + h.memorySize) := by
  subst hh
  rfl

theorem elfSegment_refuses {off : Nat} {h : ProgramHeader} (hh : h = programHeader file off) (htype : h.type = 1)
    (hflags : h.flags % 4 = 3 ∨ 8 ≤ h.flags) : elfSegment file off = none := by
  rw [elfSegment_eq hh, if_neg (not_not.mpr htype), if_pos hflags]

theorem elfSegment_found {off : Nat} {h : ProgramHeader} (hh : h = programHeader file off) (hfits : h.loads = true → Fits file 0 h)
    (hflags : h.type = 1 → h.flags % 4 ≠ 3 ∧ h.flags < 8) (hempty : h.type = 1 → h.memorySize = 0 → h.fileSize = 0) :
    elfSegment file off = some (found (u32 file 24) h) := by
  rw [elfSegment_eq hh, found]
  by_cases htype : h.type = 1
  · have hplain : ¬(h.flags % 4 = 3 ∨ 8 ≤ h.flags) := by
      obtain ⟨hfour, height⟩ := hflags htype
      omega
    rw [if_neg (not_not.mpr htype), if_neg hplain]
    by_cases hzero : h.memorySize = 0
    · have hskip : h.loads = false := by simp [ProgramHeader.loads, hzero]
      rw [if_pos hzero, if_neg (not_not.mpr (hempty htype hzero)), hskip, Bool.false_and]
    · have hloads : h.loads = true := by simp [ProgramHeader.loads, htype, hzero]
      have hfit := hfits hloads
      have hin := hfit.inFile
      have hfilled := hfit.filled
      have hbelow : h.virtualAddress - 0 + h.memorySize ≤ 1032192 := hfit.below
      have hgood : ¬(h.memorySize < h.fileSize ∨ file.length < h.offset ∨ file.length - h.offset < h.fileSize ∨
          stackBase ≤ h.virtualAddress ∨ stackBase - h.virtualAddress < h.memorySize) := by
        show ¬(_ ∨ _ ∨ _ ∨ 1032192 ≤ h.virtualAddress ∨ 1032192 - h.virtualAddress < h.memorySize)
        omega
      rw [if_neg hzero, if_neg hgood, hloads, Bool.true_and]
  · have hskip : h.loads = false := by simp [ProgramHeader.loads, htype]
    rw [if_pos htype, hskip, Bool.false_and]

theorem GoodElf.valid_iff (h : GoodElf file) : elfValid file = true ↔ EmptyPlain file := by
  have hlength := h.length
  have hheader : ∀ i < u16 file 44, programHeader file (u32 file 28 + i * 32) ∈ programHeaders file := fun i hi =>
    List.mem_map.mpr ⟨i, List.mem_range.mpr hi, rfl⟩
  have hfields : elfValid file = ((List.range (u16 file 44)).mapM fun i => elfSegment file (u32 file 28 + i * 32)).elim false
      fun segments => segments.any (·.1) && segments.any (·.2) := by
    refine (if_neg ?_).trans ?_
    · simp only [not_or, not_not, Nat.not_lt]
      exact ⟨hlength, h.ident, h.type, h.machine, h.version, h.header, h.entrySize, h.count, h.offset, h.table⟩
    · cases (List.range (u16 file 44)).mapM fun i => elfSegment file (u32 file 28 + i * 32) <;> rfl
  rw [hfields]
  constructor
  · intro hvalid g hg htype hzero
    obtain ⟨i, hi, rfl⟩ := List.mem_map.mp hg
    by_contra hflags
    rw [mapM_none (f := fun i => elfSegment file (u32 file 28 + i * 32)) hi (elfSegment_refuses rfl htype (by omega))] at hvalid
    cases hvalid
  · intro hplain
    have hplaced := placed_of_scan h.scan
    have hall : ∀ i ∈ List.range (u16 file 44), elfSegment file (u32 file 28 + i * 32) =
        some (found (u32 file 24) (programHeader file (u32 file 28 + i * 32))) := by
      intro i hi
      have hg := hheader i (List.mem_range.mp hi)
      refine elfSegment_found rfl (hplaced.fits _ hg) (fun htype => ?_) (h.empty _ hg)
      by_cases hzero : (programHeader file (u32 file 28 + i * 32)).memorySize = 0
      · exact hplain _ hg htype hzero
      · exact h.exclusive _ hg (by simp [ProgramHeader.loads, htype, hzero])
    rw [mapM_some hall]
    obtain ⟨g, hg, hloads, hx, -, hle, hlt⟩ := h.enters
    obtain ⟨i, hi, rfl⟩ := List.mem_map.mp hg
    have hmem := List.mem_map_of_mem (f := fun i => found (u32 file 24) (programHeader file (u32 file 28 + i * 32))) hi
    rw [Option.elim_some]
    rw [Bool.and_eq_true, List.any_eq_true, List.any_eq_true]
    refine ⟨⟨_, hmem, hloads⟩, _, hmem, ?_⟩
    show (_ && _) = true
    rw [hloads, hx, decide_eq_true hle, decide_eq_true hlt]
    rfl

/-! ### The claim's two formats -/

/-- The guard accepts an imported file, and the loader gives its entry point where there are frames for its pages. -/
structure Accepted (valid : Bytes → Bool) (load : Bytes → Mach Paging (Option Nat)) (frames entry : Nat) (file : Bytes) (s : Paging) : Prop where
  valid : valid file = true
  loads : s.Enough frames → ∃ s', load file s = (some (some entry), s')

/-- Every ZEX file that the host imports is accepted and loaded, in every state. An ELF file that it imports is so exactly if
    no `PT_LOAD` segment without memory is writable and executable or has other flags. -/
theorem imports_accepted_iff (file : Bytes) (s : Paging) (hs : Reached s) :
    (validateZex1Import file = .ok () → Accepted zexValid loadZex (zexFramesNeeded file) (u32 file 16) file s) ∧
    (validateElf32I386Import file = .ok () →
      (Accepted elfValid loadElf32 (framesNeeded 0 (programHeaders file)) (u32 file 24) file s ↔ EmptyPlain file)) := by
  obtain ⟨p, own, hsound⟩ := hs.sound
  refine ⟨fun hzex => ⟨(goodZex hzex).valid, (goodZex hzex).load hsound⟩, fun helf => ?_⟩
  have hgood := goodElf helf
  exact ⟨fun h => hgood.valid_iff.mp h.valid, fun hplain => ⟨hgood.valid_iff.mpr hplain, hgood.load hsound⟩⟩

/-- The header of an ELF file with `count` program headers behind it. -/
def elfHeader (entry count : Nat) : Bytes :=
  [0x7F, 69, 76, 70, 1, 1, 1, 0, 0, 0, 0, 0, 0, 0, 0, 0] ++ le 2 2 ++ le 2 3 ++ le 4 1 ++ le 4 entry ++ le 4 52 ++ le 4 0 ++ le 4 0 ++
    le 2 52 ++ le 2 32 ++ le 2 count ++ le 2 0 ++ le 2 0 ++ le 2 0

def segmentHeader (offset address fileSize memorySize flags : Nat) : Bytes :=
  le 4 1 ++ le 4 offset ++ le 4 address ++ le 4 address ++ le 4 fileSize ++ le 4 memorySize ++ le 4 flags ++ le 4 1

/-- A program of four bytes and a segment without memory, of which the flags are given. -/
def nativeElf (flags : Nat) : Bytes :=
  elfHeader 0x1000 2 ++ segmentHeader 116 0x1000 4 8 5 ++ segmentHeader 0 0 0 0 flags ++ [0x90, 0x90, 0xCD, 0x80]

def nativeZex : Bytes :=
  ascii "ZEX1" ++ le 4 1 ++ le 4 32 ++ le 4 4 ++ le 4 0 ++ le 4 0 ++ le 4 0x1000 ++
    le 4 (Storage.fnv1a [0x90, 0x90, 0xCD, 0x80]).toNat ++ [0x90, 0x90, 0xCD, 0x80]

/-- An address space is active. -/
def nativeState : Paging := [Op.create 0, .activate (some 0)].foldl apply (fresh (Pmm.init sixteenFrames) fun _ _ => 0)

theorem reached_nativeState : Reached nativeState := .call (.call (.fresh .init fun _ _ => 0) (.create 0)) (.activate (some 0))

theorem imports_accepted_sample :
    Accepted zexValid loadZex (zexFramesNeeded nativeZex) (u32 nativeZex 16) nativeZex nativeState ∧
    Accepted elfValid loadElf32 (framesNeeded 0 (programHeaders (nativeElf 4))) (u32 (nativeElf 4) 24) (nativeElf 4) nativeState ∧
    zexFramesNeeded nativeZex ≤ nativeState.clearUser.pmm.availableFrames ∧
    framesNeeded 0 (programHeaders (nativeElf 4)) ≤ nativeState.clearUser.pmm.availableFrames :=
  ⟨(imports_accepted_iff nativeZex nativeState reached_nativeState).1 (by decide +kernel),
    ((imports_accepted_iff (nativeElf 4) nativeState reached_nativeState).2 (by decide +kernel)).mpr (by decide +kernel),
    by decide +kernel, by decide +kernel⟩

/-- A writable and executable segment without memory: the host imports the file, the guard of the kernel refuses it. -/
theorem empty_segment_refused : validateElf32I386Import (nativeElf 3) = .ok () ∧ elfValid (nativeElf 3) = false :=
  ⟨by decide +kernel, by decide +kernel⟩

end ZenovOS.ForeignImport
