import ZenovOS.Storage.Io

/-! # What the sector requests do to a volume

The geometry of a volume with a valid layout, the entry table as it stands on disk, and one rule for
each request: what it can leave behind when it succeeds, fails or is cut off. -/

namespace ZenovOS.Storage
open Bytes Mach

namespace Volume

/-- Entry `i` as it stands on disk. -/
def diskEntry (v : Volume) (i : Nat) : ZfsEntry :=
  ZfsEntry.decode (slice (v.ata0.disk (entrySector i)).bytes (entrySlotOffset i) 64)

/-- The bytes of the data slot of entry `i`. -/
def slotBytes (v : Volume) (i : Nat) : Bytes :=
  (List.range v.zfsSuper.slotSectors.toNat).flatMap fun k => (v.ata0.disk (v.zfsSuper.dataSector i + k)).bytes

/-- The content of an entry with data slot `i`: as many bytes of the slot as its size says. -/
def content (v : Volume) (i : Nat) (e : ZfsEntry) : Bytes := (v.slotBytes i).take e.size.toNat

/-- The layout that a mount checks. -/
def Laid (v : Volume) : Prop := mountLayoutValid v.zfsSuper v.ata0.sectors

/-- Every request to the device succeeds. -/
structure Fit (v : Volume) : Prop where
  present : v.ata0.present = true
  writable : v.ata0.writable = true
  outcomes : v.ata0.outcomes = []

/-- The device and the layout of the volume on it. -/
structure SameDevice (v v' : Volume) : Prop where
  present : v'.ata0.present = v.ata0.present
  writable : v'.ata0.writable = v.ata0.writable
  sectors : v'.ata0.sectors = v.ata0.sectors
  zfsSuper : v'.zfsSuper = v.zfsSuper

/-- What no request changes. -/
structure Same (v v' : Volume) : Prop extends SameDevice v v' where
  currentDirectory : v'.currentDirectory = v.currentDirectory
  fileBuffer : v'.fileBuffer = v.fileBuffer
  fit : v.Fit → v'.Fit

theorem SameDevice.refl (v : Volume) : SameDevice v v := ⟨rfl, rfl, rfl, rfl⟩

theorem SameDevice.trans {u v w : Volume} (h : SameDevice u v) (h' : SameDevice v w) : SameDevice u w where
  present := h'.present.trans h.present
  writable := h'.writable.trans h.writable
  sectors := h'.sectors.trans h.sectors
  zfsSuper := h'.zfsSuper.trans h.zfsSuper

theorem SameDevice.laid {v v' : Volume} (h : SameDevice v v') (hl : v.Laid) : v'.Laid := by
  unfold Laid at *
  rw [h.zfsSuper, h.sectors]
  exact hl

theorem Same.refl (v : Volume) : Same v v := ⟨SameDevice.refl v, rfl, rfl, id⟩

theorem Same.trans {u v w : Volume} (h : Same u v) (h' : Same v w) : Same u w where
  toSameDevice := h.toSameDevice.trans h'.toSameDevice
  currentDirectory := h'.currentDirectory.trans h.currentDirectory
  fileBuffer := h'.fileBuffer.trans h.fileBuffer
  fit := h'.fit ∘ h.fit

end Volume

open Volume

/-! ### Geometry -/

/-- The facts of `mount_layout_valid`. -/
structure Geometry (s : ZfsSuperblock) (sectors : Nat) : Prop where
  few : s.entries ≤ zfsMaxEntries
  table : s.entrySectors.toNat = (s.entries + 7) / 8
  dataAfter : 1 + s.entrySectors.toNat ≤ s.dataStart.toNat
  onDevice : s.dataStart.toNat + s.entries * s.slotSectors.toNat ≤ sectors

variable {v v' : Volume}

theorem Volume.Laid.geometry (h : v.Laid) : Geometry v.zfsSuper v.ata0.sectors := by
  unfold Laid mountLayoutValid at h
  simp only [Bool.and_eq_true, decide_eq_true_eq] at h
  obtain ⟨⟨⟨⟨⟨⟨-, hfew⟩, -⟩, htable⟩, hafter⟩, htotal⟩, hend⟩ := h
  exact ⟨hfew, htable, hafter, hend.trans htotal⟩

section Geometry
variable (h : v.Laid)
include h

theorem entrySector_lt_dataStart {i : Nat} (hi : i < v.zfsSuper.entries) :
    entrySector i < v.zfsSuper.dataStart.toNat := by
  have ht := h.geometry.table
  have hd := h.geometry.dataAfter
  unfold entrySector
  omega

theorem dataSector_eq {i : Nat} (hi : i < v.zfsSuper.entries) :
    v.zfsSuper.dataSector i = v.zfsSuper.dataStart.toNat + i * v.zfsSuper.slotSectors.toNat := by
  have hl := h
  unfold Laid mountLayoutValid at hl
  simp only [Bool.and_eq_true, decide_eq_true_eq] at hl
  have hslots : i * v.zfsSuper.slotSectors.toNat ≤ v.zfsSuper.entries * v.zfsSuper.slotSectors.toNat :=
    Nat.mul_le_mul_right _ hi.le
  have htotal := v.zfsSuper.totalSectors.toNat_lt
  unfold ZfsSuperblock.dataSector
  rw [Nat.mod_eq_of_lt (by omega)]

theorem dataSector_add_lt {i k : Nat} (hi : i < v.zfsSuper.entries) (hk : k < v.zfsSuper.slotSectors.toNat) :
    v.zfsSuper.dataSector i + k < v.ata0.sectors := by
  have hslots : (i + 1) * v.zfsSuper.slotSectors.toNat ≤ v.zfsSuper.entries * v.zfsSuper.slotSectors.toNat :=
    Nat.mul_le_mul_right _ hi
  have hend := h.geometry.onDevice
  rw [Nat.succ_mul] at hslots
  rw [dataSector_eq h hi]
  omega

theorem entrySector_lt {i : Nat} (hi : i < v.zfsSuper.entries) : entrySector i < v.ata0.sectors := by
  have := entrySector_lt_dataStart h hi
  have := h.geometry.onDevice
  omega

theorem entrySector_ne_dataSector {i j : Nat} (k : Nat) (hi : i < v.zfsSuper.entries) (hj : j < v.zfsSuper.entries) :
    entrySector i ≠ v.zfsSuper.dataSector j + k := by
  have := entrySector_lt_dataStart h hi
  rw [dataSector_eq h hj]
  omega

theorem dataSector_ne_dataSector {i j k l : Nat} (hi : i < v.zfsSuper.entries) (hj : j < v.zfsSuper.entries) (hij : i ≠ j)
    (hk : k < v.zfsSuper.slotSectors.toNat) (hl : l < v.zfsSuper.slotSectors.toNat) :
    v.zfsSuper.dataSector i + k ≠ v.zfsSuper.dataSector j + l := by
  rw [dataSector_eq h hi, dataSector_eq h hj]
  rcases Nat.lt_or_gt_of_ne hij with hlt | hlt
  · have := Nat.mul_le_mul_right v.zfsSuper.slotSectors.toNat (Nat.succ_le_of_lt hlt)
    rw [Nat.succ_mul] at this
    omega
  · have := Nat.mul_le_mul_right v.zfsSuper.slotSectors.toNat (Nat.succ_le_of_lt hlt)
    rw [Nat.succ_mul] at this
    omega

end Geometry

/-! ### Sector requests -/

/-- The volume after a write of sector `lba` that took place (`landed`) or not. -/
def Volume.wrote (v : Volume) (lba : Nat) (s : Sector) (landed : Bool) : Volume := if landed then v.setSector lba s else v

theorem Volume.same_wrote {lba : Nat} {s : Sector} {landed : Bool} {os : List Outcome} (h : v.Fit → os = []) :
    Same v ((v.wrote lba s landed).setOutcomes os) := by
  unfold wrote
  cases landed
  · exact ⟨⟨rfl, rfl, rfl, rfl⟩, rfl, rfl, fun hf => ⟨hf.present, hf.writable, h hf⟩⟩
  · exact ⟨⟨rfl, rfl, rfl, rfl⟩, rfl, rfl, fun hf => ⟨hf.present, hf.writable, h hf⟩⟩

theorem zfsReadSector_spec {lba : Nat} (hlba : lba < v.ata0.sectors) :
    wp (zfsReadSector lba)
      (fun r v' => ∃ os, v' = v.setOutcomes os ∧ (v.Fit → os = []) ∧
        (r = .ok (v.ata0.disk lba) ∨ ∃ b, r = .error b ∧ b.ok = false ∧ ¬v.Fit))
      (fun v' => ¬v.Fit ∧ ∃ os, v' = v.setOutcomes os) v := by
  have hself : v = v.setOutcomes v.ata0.outcomes := rfl
  unfold zfsReadSector
  rw [wp_bind, wp_get]
  refine wp_ite (fun hp => ?_) (fun hp => wp_ite (fun hs => absurd hs (Nat.not_le.mpr hlba)) fun _ => ?_)
  · rw [wp_pure]
    have hfit : ¬v.Fit := fun hf => by simp [hf.present] at hp
    exact ⟨_, hself, fun hf => absurd hf hfit, .inr ⟨_, rfl, rfl, hfit⟩⟩
  · unfold wp readSector
    rcases ho : v.ata0.outcomes with _ | ⟨⟨result, _⟩ | _, rest⟩
    · exact ⟨_, hself, fun hf => hf.outcomes, .inl rfl⟩
    · have hfit : ¬v.Fit := fun hf => by simp [hf.outcomes] at ho
      refine ⟨rest, rfl, fun hf => absurd hf hfit, ?_⟩
      by_cases hr : result.ok
      · exact .inl (if_pos hr)
      · exact .inr ⟨result, if_neg hr, by simpa using hr, hfit⟩
    · exact ⟨fun hf => by simp [hf.outcomes] at ho, rest, rfl⟩

theorem zfsWriteSector_spec {lba : Nat} {s : Sector} (hlba : lba < v.ata0.sectors) :
    wp (zfsWriteSector lba s)
      (fun r v' => ∃ os landed, v' = (v.wrote lba s landed).setOutcomes os ∧ (v.Fit → os = []) ∧
        (r.ok = true ∧ landed = true ∨ r.ok = false ∧ ¬v.Fit))
      (fun v' => ¬v.Fit ∧ ∃ os landed, v' = (v.wrote lba s landed).setOutcomes os) v := by
  have hself : v = (v.wrote lba s false).setOutcomes v.ata0.outcomes := rfl
  unfold zfsWriteSector
  rw [wp_bind, wp_get]
  refine wp_ite (fun hp => ?_) (fun _ => wp_ite (fun hw => ?_)
    (fun _ => wp_ite (fun hs => absurd hs (Nat.not_le.mpr hlba)) fun _ => ?_))
  · rw [wp_pure]
    have hfit : ¬v.Fit := fun hf => by simp [hf.present] at hp
    exact ⟨_, _, hself, fun hf => absurd hf hfit, .inr ⟨rfl, hfit⟩⟩
  · rw [wp_pure]
    have hfit : ¬v.Fit := fun hf => by simp [hf.writable] at hw
    exact ⟨_, _, hself, fun hf => absurd hf hfit, .inr ⟨rfl, hfit⟩⟩
  · unfold wp writeSector
    rcases ho : v.ata0.outcomes with _ | ⟨⟨result, landed⟩ | landed, rest⟩
    · refine ⟨[], true, ?_, fun _ => rfl, .inl ⟨rfl, rfl⟩⟩
      simp [wrote, setSector, setOutcomes, ho]
    · have hfit : ¬v.Fit := fun hf => by simp [hf.outcomes] at ho
      refine ⟨rest, result.ok || landed, ?_, fun hf => absurd hf hfit, ?_⟩
      · cases result.ok || landed <;> rfl
      · cases hr : result.ok
        · exact .inr ⟨rfl, hfit⟩
        · exact .inl ⟨rfl, rfl⟩
    · refine ⟨fun hf => by simp [hf.outcomes] at ho, rest, landed, ?_⟩
      cases landed <;> rfl

/-! ### Replacing an entry -/

/-- The table sector of entry `i` with the entry overwritten. -/
def Volume.patched (v : Volume) (i : Nat) (e : ZfsEntry) : Sector :=
  (v.ata0.disk (entrySector i)).patch (entrySlotOffset i) e.encode

theorem diskEntry_setSector_patched (v : Volume) (i : Nat) (e : ZfsEntry) :
    (v.setSector (entrySector i) (v.patched i e)).diskEntry = Function.update v.diskEntry i e := by
  have hoff : ∀ k, entrySlotOffset k + 64 ≤ sectorSize := fun k => by unfold entrySlotOffset sectorSize; omega
  have hbytes : (v.patched i e).bytes =
      overwrite (v.ata0.disk (entrySector i)).bytes (entrySlotOffset i) e.encode :=
    Block.bytes_patch (by rw [ZfsEntry.length_encode]; exact hoff i)
  have hlen := (v.ata0.disk (entrySector i)).length_eq
  funext j
  by_cases hj : j = i
  · subst hj
    have hself : slice (overwrite (v.ata0.disk (entrySector j)).bytes (entrySlotOffset j) e.encode)
        (entrySlotOffset j) 64 = e.encode :=
      slice_overwrite_self e.length_encode (by have := hoff j; omega)
    rw [Function.update_self]
    unfold diskEntry setSector
    simp only [Function.update_self]
    rw [hbytes, hself, ZfsEntry.decode_encode]
  · rw [Function.update_of_ne hj]
    unfold diskEntry setSector
    simp only
    by_cases hs : entrySector j = entrySector i
    · rw [hs, Function.update_self, hbytes, slice_overwrite_disjoint]
      · rw [ZfsEntry.length_encode, hlen]
        exact hoff i
      · unfold entrySector at hs
        unfold entrySlotOffset
        rw [ZfsEntry.length_encode]
        omega
    · rw [Function.update_of_ne hs]

/-- A failed request takes the volume down. -/
def Volume.unmount (v : Volume) : Volume := { v with zfsMounted := false }

theorem flushEntryResult_spec {i : Nat} (operation : FsOperation) (hl : v.Laid) (hi : i < v.zfsSuper.entries) :
    wp (flushEntryResult i operation)
      (fun r v' => ∃ os landed, (v.Fit → os = []) ∧
        (r = fsSuccess operation ∧ landed = true ∧
            v' = (v.wrote (entrySector i) (v.patched i (v.zfsEntries i)) landed).setOutcomes os ∨
          r.ok = false ∧ ¬v.Fit ∧
            v' = ((v.wrote (entrySector i) (v.patched i (v.zfsEntries i)) landed).setOutcomes os).unmount))
      (fun v' => ¬v.Fit ∧ ∃ os landed,
        v' = (v.wrote (entrySector i) (v.patched i (v.zfsEntries i)) landed).setOutcomes os) v := by
  have hlba := entrySector_lt hl hi
  unfold flushEntryResult
  rw [wp_bind, wp_get]
  refine wp_ite (fun h => absurd h (Nat.not_le.mpr hi)) fun _ => ?_
  refine wp_seq (zfsReadSector_spec hlba) ?_ ?_
  · rintro _ ⟨hfit, os, rfl⟩
    exact ⟨hfit, os, false, rfl⟩
  rintro r _ ⟨os, rfl, hos, rfl | ⟨b, rfl, hb, hfit⟩⟩
  · -- the table sector was read: patch and write it
    refine wp_seq (zfsWriteSector_spec (v := v.setOutcomes os) hlba) ?_ ?_
    · rintro _ ⟨hfit, os', landed, rfl⟩
      refine ⟨fun hf => hfit ⟨hf.present, hf.writable, hos hf⟩, os', landed, ?_⟩
      cases landed <;> rfl
    · rintro write _ ⟨os', landed, rfl, hos', hw⟩
      have hos'' : v.Fit → os' = [] := fun hf => hos' ⟨hf.present, hf.writable, hos hf⟩
      rcases hw with ⟨hok, rfl⟩ | ⟨hok, hfit⟩
      · rw [if_pos hok, wp_pure]
        exact ⟨os', true, hos'', .inl ⟨rfl, rfl, rfl⟩⟩
      · rw [if_neg (by simp [hok]), zfsBlockFailure, wp_bind, wp_modify, wp_pure]
        refine ⟨os', landed, hos'', .inr ⟨fsFromBlock_ok hok, fun hf => hfit ⟨hf.present, hf.writable, hos hf⟩, ?_⟩⟩
        cases landed <;> rfl
  · show wp (zfsBlockFailure operation b) _ _ _
    rw [zfsBlockFailure, wp_bind, wp_modify, wp_pure]
    exact ⟨os, false, hos, .inr ⟨fsFromBlock_ok hb, hfit, rfl⟩⟩

/-- The volume after entry `i` was to be replaced by `e`, with the table sector written or not. -/
structure Replaced (v v' : Volume) (i : Nat) (e : ZfsEntry) (landed : Bool) : Prop where
  same : Same v v'
  disk : v'.diskEntry = if landed then Function.update v.diskEntry i e else v.diskEntry
  others : ∀ lba, lba ≠ entrySector i → v'.ata0.disk lba = v.ata0.disk lba
  accessed : v'.accessed = ((v.record (v.zfsEntries i)).record e).accessed

theorem replaced_wrote {i : Nat} {e : ZfsEntry} {landed : Bool} {w : Volume} (os : List Outcome) (hos : v.Fit → os = [])
    (hata : w.ata0 = ((v.wrote (entrySector i) (v.patched i e) landed).setOutcomes os).ata0)
    (hsuper : w.zfsSuper = v.zfsSuper) (hdir : w.currentDirectory = v.currentDirectory)
    (hbuffer : w.fileBuffer = v.fileBuffer)
    (hacc : w.accessed = ((v.record (v.zfsEntries i)).record e).accessed) : Replaced v w i e landed where
  same := by
    have h : Same v ((v.wrote (entrySector i) (v.patched i e) landed).setOutcomes os) := same_wrote hos
    refine ⟨⟨?_, ?_, ?_, hsuper⟩, hdir, hbuffer, fun hf => ?_⟩
    · rw [hata, h.present]
    · rw [hata, h.writable]
    · rw [hata, h.sectors]
    · have := h.fit hf
      exact ⟨by rw [hata]; exact this.present, by rw [hata]; exact this.writable, by rw [hata]; exact this.outcomes⟩
  disk := by
    have hw : w.diskEntry = (v.wrote (entrySector i) (v.patched i e) landed).diskEntry := by
      funext j
      unfold diskEntry
      rw [hata]
      rfl
    rw [hw]
    cases landed
    · rfl
    · exact diskEntry_setSector_patched v i e
  others lba hlba := by
    rw [hata]
    cases landed
    · rfl
    · exact Function.update_of_ne hlba _ _
  accessed := hacc

/-- Replacing an entry: success replaces it in memory and on disk; a failure restores the memory table and
    takes the volume down, and the entry on disk is the old or the new one; so it is after a cut. -/
theorem replaceEntryResult_spec {i : Nat} {e : ZfsEntry} {operation : FsOperation} (hl : v.Laid)
    (hi : i < v.zfsSuper.entries) :
    wp (replaceEntryResult i e operation)
      (fun r v' =>
        (r = fsSuccess operation ∧ Replaced v v' i e true ∧ v'.zfsEntries = Function.update v.zfsEntries i e ∧
            v'.zfsMounted = v.zfsMounted) ∨
          r.ok = false ∧ ¬v.Fit ∧ (∃ landed, Replaced v v' i e landed) ∧ v'.zfsEntries = v.zfsEntries ∧
            v'.zfsMounted = false)
      (fun v' => ¬v.Fit ∧ ∃ landed, Replaced v v' i e landed) v := by
  unfold replaceEntryResult
  rw [wp_bind, wp_get]
  refine wp_ite (fun h => absurd h (Nat.not_le.mpr hi)) fun _ => ?_
  rw [wp_bind, wp_modify]
  have hlookup : (((v.record (v.zfsEntries i)).record e).setEntry i e).zfsEntries i = e := Function.update_self ..
  have hfit : (((v.record (v.zfsEntries i)).record e).setEntry i e).Fit ↔ v.Fit :=
    ⟨fun h => ⟨h.present, h.writable, h.outcomes⟩, fun h => ⟨h.present, h.writable, h.outcomes⟩⟩
  have hspec := flushEntryResult_spec (v := ((v.record (v.zfsEntries i)).record e).setEntry i e) operation hl hi
  rw [hlookup, hfit] at hspec
  refine wp_seq hspec ?_ ?_
  · rintro _ ⟨hf, os, landed, rfl⟩
    refine ⟨hf, landed, replaced_wrote os (fun h => absurd h hf) ?_ ?_ ?_ ?_ ?_⟩ <;> cases landed <;> rfl
  · rintro r _ ⟨os, landed, hos, ⟨rfl, rfl, rfl⟩ | ⟨hr, hf, rfl⟩⟩
    · rw [if_pos (fsSuccess_ok _ _), wp_pure]
      exact .inl ⟨rfl, replaced_wrote os hos rfl rfl rfl rfl rfl, rfl, rfl⟩
    · rw [if_neg (by simp [hr]), wp_bind, wp_modify, wp_pure]
      refine .inr ⟨hr, hf, ⟨landed, replaced_wrote os hos ?_ ?_ ?_ ?_ ?_⟩, ?_, ?_⟩
      · cases landed <;> rfl
      · cases landed <;> rfl
      · cases landed <;> rfl
      · cases landed <;> rfl
      · cases landed <;> rfl
      · funext j
        by_cases hj : j = i
        · subst hj
          cases landed <;> simp [setEntry]
        · cases landed <;> simp [setEntry, unmount, wrote, setSector, setOutcomes, record]
      · cases landed <;> rfl

end ZenovOS.Storage
