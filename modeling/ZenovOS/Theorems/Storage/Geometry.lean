import ZenovOS.Lib.Footprint
import ZenovOS.Theorems.Storage.Access

/-! # Where the sectors of a mounted volume lie

A superblock that the mount accepts cuts the disk into the superblock itself, the entry table and a slot for each
entry. Reading and writing touch no sector outside their own part, though the sector numbers are computed with 32
bits; the size limit of a file is computed with 32 bits too, and is that of the slot if the slot has less than 2^23
sectors. -/

namespace ZenovOS.Storage
open Bytes Mach

/-! ### The sectors an operation touches -/

/-- The sectors of the disk are the cells of a volume. -/
def Volume.cells : Cells Volume Nat Sector where
  get v := v.ata0.disk
  set disk v := { v with ata0 := { v.ata0 with disk } }
  get_set _ _ := rfl
  set_get _ := rfl

section Touched
variable {P : Nat → Prop} {lba : Nat}

theorem confined_readSector (hlba : P lba) : Confined Volume.cells P (readSector lba) := by
  intro v disk hdisk
  have hsame : disk lba = v.ata0.disk lba := hdisk lba hlba
  have hset : (Volume.cells.set disk v).ata0.outcomes = v.ata0.outcomes := rfl
  have hget : (Volume.cells.set disk v).ata0.disk lba = disk lba := rfl
  unfold readSector
  rw [hset, hget, hsame]
  rcases v.ata0.outcomes with _ | ⟨⟨result, landed⟩ | landed, rest⟩
  · exact ⟨disk, rfl, fun i => ⟨hdisk i, fun _ => rfl⟩⟩
  · exact ⟨disk, rfl, fun i => ⟨hdisk i, fun _ => rfl⟩⟩
  · exact ⟨disk, rfl, fun i => ⟨hdisk i, fun _ => rfl⟩⟩

theorem update_agrees {disk disk' : Nat → Sector} {s : Sector} (hlba : P lba) (h : ∀ i, P i → disk' i = disk i) (i : Nat) :
    (P i → Function.update disk' lba s i = Function.update disk lba s i) ∧ (¬P i → Function.update disk' lba s i = disk' i) := by
  by_cases hi : i = lba
  · subst hi
    exact ⟨fun _ => by rw [Function.update_self, Function.update_self], fun hn => absurd hlba hn⟩
  · exact ⟨fun hp => by rw [Function.update_of_ne hi, Function.update_of_ne hi, h i hp], fun _ => Function.update_of_ne hi _ _⟩

theorem confined_writeSector {s : Sector} (hlba : P lba) : Confined Volume.cells P (writeSector lba s) := by
  intro v disk hdisk
  have hset : (Volume.cells.set disk v).ata0.outcomes = v.ata0.outcomes := rfl
  have hkept : ∀ i, (P i → disk i = v.ata0.disk i) ∧ (¬P i → disk i = disk i) := fun i => ⟨hdisk i, fun _ => rfl⟩
  have hwritten := update_agrees (s := s) hlba hdisk
  unfold writeSector
  rw [hset]
  rcases v.ata0.outcomes with _ | ⟨⟨result, landed⟩ | landed, rest⟩
  · exact ⟨Function.update disk lba s, rfl, hwritten⟩
  · dsimp only
    cases result.ok || landed with
    | true => exact ⟨Function.update disk lba s, rfl, hwritten⟩
    | false => exact ⟨disk, rfl, hkept⟩
  · dsimp only
    cases landed with
    | true => exact ⟨Function.update disk lba s, rfl, hwritten⟩
    | false => exact ⟨disk, rfl, hkept⟩

theorem confined_zfsReadSector (hlba : P lba) : Confined Volume.cells P (zfsReadSector lba) := by
  refine confined_get_bind (fun v => ?_) fun _ _ => rfl
  split
  · exact confined_pure _
  · split
    · exact confined_pure _
    · exact confined_readSector hlba

theorem confined_zfsWriteSector {s : Sector} (hlba : P lba) : Confined Volume.cells P (zfsWriteSector lba s) := by
  refine confined_get_bind (fun v => ?_) fun _ _ => rfl
  split
  · exact confined_pure _
  · split
    · exact confined_pure _
    · split
      · exact confined_pure _
      · exact confined_writeSector hlba

theorem confined_zfsBlockFailure {operation : FsOperation} {block : BlockResult} {bytes : Nat} :
    Confined Volume.cells P (zfsBlockFailure operation block bytes) :=
  (confined_modify fun _ _ => rfl).bind fun _ => confined_pure _

theorem confined_readSectors {size left lba : Nat} {copied : Bytes} (h : ∀ k < left, P (lba + k)) :
    Confined Volume.cells P (readSectors size left lba copied) := by
  induction left generalizing lba copied with
  | zero => exact confined_pure _
  | succ left ih =>
    refine (confined_zfsReadSector (h 0 (Nat.succ_pos left))).bind fun read => ?_
    cases read with
    | error read => exact confined_pure _
    | ok s =>
      refine ih fun k hk => ?_
      rw [Nat.add_right_comm]
      exact h (k + 1) (Nat.succ_lt_succ hk)

theorem confined_stageSectors {left lba written : Nat} {data : Bytes} (h : ∀ k < left, P (lba + k)) :
    Confined Volume.cells P (stageSectors left lba written data) := by
  induction left generalizing lba written data with
  | zero => exact confined_pure _
  | succ left ih =>
    refine (confined_zfsWriteSector (h 0 (Nat.succ_pos left))).bind fun write => ?_
    split
    · refine ih fun k hk => ?_
      rw [Nat.add_right_comm]
      exact h (k + 1) (Nat.succ_lt_succ hk)
    · exact confined_pure _

theorem confined_loadSectors {left sector : Nat} (h : ∀ k < left, P (1 + (sector + k))) :
    Confined Volume.cells P (loadSectors left sector) := by
  induction left generalizing sector with
  | zero => exact confined_pure _
  | succ left ih =>
    refine (confined_zfsReadSector (h 0 (Nat.succ_pos left))).bind fun read => ?_
    cases read with
    | error read => exact confined_zfsBlockFailure
    | ok s =>
      refine (confined_modify fun _ _ => rfl).bind fun _ => ih fun k hk => ?_
      rw [Nat.add_right_comm sector]
      exact h (k + 1) (Nat.succ_lt_succ hk)

theorem confined_flushEntryResult {index : Nat} {operation : FsOperation} (h : P (entrySector index)) :
    Confined Volume.cells P (flushEntryResult index operation) := by
  refine confined_get_bind (fun v => ?_) fun _ _ => rfl
  split
  · exact confined_pure _
  · refine (confined_zfsReadSector h).bind fun read => ?_
    cases read with
    | error read => exact confined_zfsBlockFailure
    | ok s =>
      refine (confined_zfsWriteSector h).bind fun write => ?_
      split
      · exact confined_pure _
      · exact confined_zfsBlockFailure

theorem confined_replaceEntryResult {index : Nat} {replacement : ZfsEntry} {operation : FsOperation} (h : P (entrySector index)) :
    Confined Volume.cells P (replaceEntryResult index replacement operation) := by
  refine confined_get_bind (fun v => ?_) fun _ _ => rfl
  split
  · exact confined_pure _
  · refine (confined_modify fun _ _ => rfl).bind fun _ => (confined_flushEntryResult h).bind fun result => ?_
    split
    · exact confined_pure _
    · exact (confined_modify fun _ _ => rfl).bind fun _ => confined_pure _

theorem loadSectors_entries {left sector i : Nat} (hi : (sector + left) * 8 ≤ i) (v : Volume) :
    wp (loadSectors left sector) (fun _ v' => v'.zfsEntries i = v.zfsEntries i) (fun v' => v'.zfsEntries i = v.zfsEntries i) v := by
  induction left generalizing sector v with
  | zero => exact rfl
  | succ left ih =>
    rw [loadSectors]
    refine wp_seq zfsReadSector_untabled (fun v' h => congrFun h.zfsEntries i) fun read v₁ h₁ => ?_
    cases read with
    | error read =>
      refine wp_mono (untabled_blockFailure h₁) (fun _ v' h => ?_) fun v' h => ?_
      · exact congrFun h.zfsEntries i
      · exact congrFun h.zfsEntries i
    | ok s =>
      have hload : (loadSector v₁ sector s).zfsEntries i = v.zfsEntries i := by
        refine (if_neg ?_).trans (congrFun h₁.zfsEntries i)
        omega
      rw [wp_bind, wp_modify]
      exact wp_mono (ih (by omega) _) (fun _ v' h => h.trans hload) fun v' h => h.trans hload

end Touched

/-! ### The geometry -/

namespace ZfsSuperblock

/-- The sectors of the slot of an entry. -/
def InSlot (s : ZfsSuperblock) (i lba : Nat) : Prop :=
  s.dataStart.toNat + i * s.slotSectors.toNat ≤ lba ∧ lba < s.dataStart.toNat + (i + 1) * s.slotSectors.toNat

/-- The sectors of the entry table. -/
def InTable (s : ZfsSuperblock) (lba : Nat) : Prop := 1 ≤ lba ∧ lba ≤ s.entrySectors.toNat

end ZfsSuperblock

/-- The parts of the disk lie below its end and apart from one another, each operation touches its own part only, and no
    sector number overflows. -/
structure SafeGeometry (s : ZfsSuperblock) : Prop where
  slot_below : ∀ i < s.entries, ∀ lba, s.InSlot i lba → lba < s.totalSectors.toNat
  table_below : ∀ lba, s.InTable lba → lba < s.totalSectors.toNat
  slots_apart : ∀ i < s.entries, ∀ j < s.entries, i ≠ j → ∀ lba, s.InSlot i lba → ¬s.InSlot j lba
  slot_outside : ∀ i < s.entries, ∀ lba, s.InSlot i lba → lba ≠ 0 ∧ ¬s.InTable lba
  read : ∀ i < s.entries, ∀ size ≤ s.maxFileBytes,
    Confined Volume.cells (s.InSlot i) (readSectors size (sectorsFor size) (s.dataSector i) [])
  write : ∀ i < s.entries, ∀ data : Bytes, data.length ≤ s.maxFileBytes →
    Confined Volume.cells (s.InSlot i) (stageSectors (sectorsFor data.length) (s.dataSector i) 0 data)
  replace : ∀ i < s.entries, ∀ replacement operation, Confined Volume.cells s.InTable (replaceEntryResult i replacement operation)
  load : Confined Volume.cells s.InTable (loadSectors s.entrySectors.toNat 0)
  load_inside : ∀ i, zfsMaxEntries ≤ i → ∀ v, (loadSectors s.entrySectors.toNat 0 v).2.zfsEntries i = v.zfsEntries i
  dataSector : ∀ i < s.entries, s.dataSector i = s.dataStart.toNat + i * s.slotSectors.toNat
  sector : ∀ i < s.entries, ∀ k < sectorsFor s.maxFileBytes, s.dataSector i + k < 2 ^ 32

section Layout
variable {s : ZfsSuperblock} {sectors i j k size lba : Nat}

/-- What the mount checks, in natural numbers. -/
structure Layout (s : ZfsSuperblock) : Prop where
  few : s.entries ≤ zfsMaxEntries
  table : s.entrySectors.toNat = (s.entries + 7) / 8
  dataAfter : 1 + s.entrySectors.toNat ≤ s.dataStart.toNat
  inside : s.dataStart.toNat + s.entries * s.slotSectors.toNat ≤ s.totalSectors.toNat
  some_slot : 0 < s.entries ∧ 0 < s.slotSectors.toNat

theorem layout_of_valid (h : mountLayoutValid s sectors = true) : Layout s := by
  unfold mountLayoutValid at h
  simp only [Bool.and_eq_true, decide_eq_true_eq] at h
  obtain ⟨⟨⟨⟨⟨⟨⟨-, hentries⟩, hfew⟩, hslot⟩, htable⟩, hafter⟩, -⟩, hend⟩ := h
  refine ⟨hfew, htable, hafter, hend, Nat.pos_of_ne_zero fun hzero => ?_, Nat.pos_of_ne_zero fun hzero => ?_⟩
  · exact hentries (UInt32.toNat_inj.mp hzero)
  · exact hslot (UInt32.toNat_inj.mp hzero)

theorem Layout.slot_end (h : Layout s) (hi : i < s.entries) :
    s.dataStart.toNat + (i + 1) * s.slotSectors.toNat ≤ s.totalSectors.toNat := by
  have hslots : (i + 1) * s.slotSectors.toNat ≤ s.entries * s.slotSectors.toNat := Nat.mul_le_mul_right _ hi
  exact Nat.le_trans (Nat.add_le_add_left hslots _) h.inside

theorem Layout.dataSector (h : Layout s) (hi : i < s.entries) :
    s.dataSector i = s.dataStart.toNat + i * s.slotSectors.toNat := by
  have hend := h.slot_end hi
  have htotal := s.totalSectors.toNat_lt
  rw [Nat.succ_mul] at hend
  unfold ZfsSuperblock.dataSector
  rw [Nat.mod_eq_of_lt (by omega)]

theorem sectorsFor_le (h : size ≤ s.maxFileBytes) : sectorsFor size ≤ s.slotSectors.toNat := by
  have hwrapped : s.maxFileBytes ≤ s.slotSectors.toNat * sectorSize := Nat.mod_le _ _
  unfold sectorsFor
  rw [sectorSize] at *
  omega

theorem Layout.inSlot (h : Layout s) (hi : i < s.entries) (hk : k < s.slotSectors.toNat) : s.InSlot i (s.dataSector i + k) := by
  rw [h.dataSector hi]
  refine ⟨Nat.le_add_right _ _, ?_⟩
  rw [Nat.succ_mul]
  omega

theorem Layout.inTable (h : Layout s) (hi : i < s.entries) : s.InTable (entrySector i) := by
  have htable := h.table
  unfold entrySector
  constructor
  · omega
  · omega

theorem safeGeometry (hvalid : mountLayoutValid s sectors = true) : SafeGeometry s := by
  have h := layout_of_valid hvalid
  have hafter := h.dataAfter
  have hpart := fun i (hi : i < s.entries) size (hsize : size ≤ s.maxFileBytes) k (hk : k < sectorsFor size) =>
    h.inSlot hi (Nat.lt_of_lt_of_le hk (sectorsFor_le hsize))
  refine ⟨?_, ?_, ?_, ?_, ?_, ?_, ?_, ?_, ?_, fun i hi => h.dataSector hi, ?_⟩
  · intro i hi lba hlba
    exact Nat.lt_of_lt_of_le hlba.2 (h.slot_end hi)
  · intro lba hlba
    have hend := h.slot_end h.some_slot.1
    have hslot := h.some_slot.2
    have htable : lba ≤ s.entrySectors.toNat := hlba.2
    omega
  · intro i hi j hj hij lba hlba hlba'
    have hends : ∀ i j, i < j → (i + 1) * s.slotSectors.toNat ≤ j * s.slotSectors.toNat := fun i j hlt =>
      Nat.mul_le_mul_right _ hlt
    obtain ⟨hstart, hstop⟩ := hlba
    obtain ⟨hstart', hstop'⟩ := hlba'
    rcases Nat.lt_or_gt_of_ne hij with hlt | hlt
    · have := hends i j hlt
      omega
    · have := hends j i hlt
      omega
  · intro i hi lba hlba
    have hstart : s.dataStart.toNat ≤ lba := Nat.le_trans (Nat.le_add_right _ _) hlba.1
    refine ⟨by omega, fun htable => ?_⟩
    have hlast : lba ≤ s.entrySectors.toNat := htable.2
    omega
  · intro i hi size hsize
    exact confined_readSectors (hpart i hi size hsize)
  · intro i hi data hdata
    exact confined_stageSectors (hpart i hi data.length hdata)
  · intro i hi replacement operation
    exact confined_replaceEntryResult (h.inTable hi)
  · refine confined_loadSectors fun k hk => ?_
    rw [Nat.zero_add]
    exact ⟨Nat.le_add_right _ _, by omega⟩
  · intro i hi v
    have hfew : s.entries ≤ 128 := h.few
    have hi : 128 ≤ i := hi
    have htable := h.table
    have hroom : (0 + s.entrySectors.toNat) * 8 ≤ i := by omega
    exact wp_left (P := fun v' : Volume => v'.zfsEntries i = v.zfsEntries i) (loadSectors_entries hroom v) (run_of_fst rfl)
  · intro i hi k hk
    have hinside := (hpart i hi s.maxFileBytes (Nat.le_refl _) k hk).2
    have hend := h.slot_end hi
    have htotal := s.totalSectors.toNat_lt
    omega

/-- The size limit of a file is that of its slot, if and only if the slot has less than 2^32 bytes: the product has 32
    bits, where the layout is checked with 64. -/
theorem geometry_iff (h : mountLayoutValid s sectors = true) :
    (SafeGeometry s ∧ s.maxFileBytes = s.slotSectors.toNat * sectorSize) ↔ s.slotSectors.toNat < 2 ^ 23 := by
  have hmax : s.maxFileBytes = s.slotSectors.toNat * 512 % 2 ^ 32 := rfl
  have hsize : sectorSize = 512 := rfl
  rw [hmax, hsize]
  constructor
  · rintro ⟨-, hexact⟩
    have hlt : s.slotSectors.toNat * 512 % 2 ^ 32 < 2 ^ 32 := Nat.mod_lt _ (Nat.two_pow_pos 32)
    omega
  · intro hslot
    exact ⟨safeGeometry h, Nat.mod_eq_of_lt (by omega)⟩

end Layout

/-- A volume of eight entries. -/
theorem geometry_iff_sample :
    let s : ZfsSuperblock := ⟨Block.of (ascii "ZENOVFS1"), 1, 18, 8, 1, 2, 2, 0, Block.of [], Block.of []⟩
    mountLayoutValid s 18 = true ∧ ((SafeGeometry s ∧ s.maxFileBytes = s.slotSectors.toNat * sectorSize) ↔ s.slotSectors.toNat < 2 ^ 23) :=
  ⟨by decide, geometry_iff (show mountLayoutValid _ 18 = true by decide)⟩

/-- One slot of 2^23 sectors: the mount accepts it, and no file may have a byte. -/
theorem limit_wraps :
    let s : ZfsSuperblock := ⟨Block.of (ascii "ZENOVFS1"), 1, 8388610, 1, 1, 2, 8388608, 0, Block.of [], Block.of []⟩
    mountLayoutValid s 8388610 = true ∧ s.maxFileBytes = 0 ∧ ¬(SafeGeometry s ∧ s.maxFileBytes = s.slotSectors.toNat * sectorSize) := by
  refine ⟨by decide, by decide, fun h => ?_⟩
  exact absurd h.2 (by decide)

end ZenovOS.Storage
