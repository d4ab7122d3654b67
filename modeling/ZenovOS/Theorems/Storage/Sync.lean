import ZenovOS.Theorems.Storage.Fsck
import ZenovOS.Theorems.Storage.Names

/-! # A synchronisation keeps every file

`sync_metadata_result` writes the memory table over the one on disk, which it equals, and raises the
generation in the superblock, which nothing else goes by. A write of a file that succeeds went to a device
that can be written, so that a mount of the volume can complete. -/

namespace ZenovOS.Storage
open Bytes Mach Volume

variable {v v' : Volume} {P : Bytes → Prop}

/-- Some sectors of the table were written with what they held. -/
structure Rewritten (v v' : Volume) : Prop extends SameData v v' where
  table : ∀ i < v.zfsSuper.entries, v'.diskEntry i = v.diskEntry i
  zfsEntries : v'.zfsEntries = v.zfsEntries
  zfsMounted : v'.zfsMounted = v.zfsMounted

theorem Rewritten.refl (v : Volume) : Rewritten v v := ⟨SameData.refl v, fun _ _ => rfl, rfl, rfl⟩

theorem Rewritten.trans {w : Volume} (h : Rewritten v v') (h' : Rewritten v' w) : Rewritten v w where
  toSameData := h.toSameData.trans h'.toSameData
  table i hi := by rw [h'.table i (by rwa [h.zfsSuper]), h.table i hi]
  zfsEntries := h'.zfsEntries.trans h.zfsEntries
  zfsMounted := h'.zfsMounted.trans h.zfsMounted

theorem Rewritten.inSync (h : Rewritten v v') (hs : InSync v) : InSync v' := by
  intro i hi
  rw [h.zfsSuper] at hi
  rw [h.zfsEntries, h.table i hi]
  exact hs i hi

/-! ### The table -/

theorem length_tableEntries (v : Volume) (sector : Nat) :
    ((List.range 8).flatMap fun k => (v.zfsEntries (8 * sector + k)).encode).length = sectorSize := by
  simp [List.length_flatMap, sectorSize]

theorem tableSector_entry {i : Nat} :
    ZfsEntry.decode (slice (tableSector v (i / 8)).bytes (entrySlotOffset i) 64) = v.zfsEntries i := by
  have hbytes : (tableSector v (i / 8)).bytes = (List.range 8).flatMap fun k => (v.zfsEntries (8 * (i / 8) + k)).encode := by
    unfold tableSector
    rw [Block.bytes_of (length_tableEntries v _).le, length_tableEntries, Nat.sub_self]
    simp
  have hindex : (List.range 8)[i % 8]? = some (i % 8) := List.getElem?_range (Nat.mod_lt _ (by decide))
  rw [hbytes, entrySlotOffset, slice_flatMap (fun _ => ZfsEntry.length_encode _) hindex, ZfsEntry.decode_encode,
    Nat.div_add_mod]

theorem rewritten_tableSector {sector : Nat} {landed : Bool} {os : List Outcome} (hl : v.Laid) (hs : InSync v)
    (hsector : sector < v.zfsSuper.entrySectors.toNat) (hos : v.Fit → os = []) :
    Rewritten v ((v.wrote (1 + sector) (tableSector v sector) landed).setOutcomes os) := by
  refine ⟨⟨same_wrote hos, fun lba hlba => ?_⟩, fun i hi => ?_, ?_, ?_⟩
  · cases landed with
    | false => rfl
    | true =>
      have := hl.geometry.dataAfter
      exact Function.update_of_ne (by omega) _ _
  · cases landed with
    | false => rfl
    | true =>
      unfold Volume.diskEntry Volume.wrote
      rw [if_pos rfl]
      show ZfsEntry.decode (slice (Function.update v.ata0.disk (1 + sector) (tableSector v sector) (entrySector i)).bytes _ _) = _
      by_cases hin : i / 8 = sector
      · subst hin
        have hlba : entrySector i = 1 + i / 8 := rfl
        rw [hlba, Function.update_self, tableSector_entry, hs i hi, ← hlba]
        rfl
      · rw [Function.update_of_ne (by unfold entrySector; omega)]
  · cases landed with
    | false => rfl
    | true => rfl
  · cases landed with
    | false => rfl
    | true => rfl

theorem syncSectors_spec {left sector : Nat} (hl : v.Laid) (hs : InSync v)
    (hsectors : sector + left = v.zfsSuper.entrySectors.toNat) :
    wp (syncSectors left sector)
      (fun r v' => Rewritten v v' ∧ ∀ write, r = some write → write.ok = false ∧ ¬v.Fit)
      (fun v' => ¬v.Fit ∧ Rewritten v v') v := by
  induction left generalizing sector v with
  | zero => exact ⟨Rewritten.refl v, fun _ h => by cases h⟩
  | succ left ih =>
    have hlba : 1 + sector < v.ata0.sectors := by
      have := hl.geometry.dataAfter
      have := hl.geometry.onDevice
      omega
    rw [syncSectors, wp_bind, wp_get]
    refine wp_seq (zfsWriteSector_spec hlba) ?_ ?_
    · rintro _ ⟨hfit, os, landed, rfl⟩
      exact ⟨hfit, rewritten_tableSector hl hs (by omega) fun hf => absurd hf hfit⟩
    · rintro write v₁ ⟨os, landed, hv₁, hos, hend⟩
      have h₁ : Rewritten v v₁ := by
        rw [hv₁]
        exact rewritten_tableSector hl hs (by omega) hos
      rcases hend with ⟨hok, -⟩ | ⟨hok, hfit⟩
      · rw [if_pos hok]
        refine wp_mono (ih (h₁.laid hl) (h₁.inSync hs) (by rw [h₁.zfsSuper]; omega)) (fun r v₂ h => ?_) fun v₂ h => ?_
        · exact ⟨h₁.trans h.1, fun write hw => ⟨(h.2 write hw).1, fun hf => (h.2 write hw).2 (h₁.fit hf)⟩⟩
        · exact ⟨fun hf => h.1 (h₁.fit hf), h₁.trans h.2⟩
      · rw [if_neg (by simp [hok]), wp_pure]
        refine ⟨h₁, fun w hw => ?_⟩
        cases hw
        exact ⟨hok, hfit⟩

theorem rewritten_superblock {s : Sector} {landed : Bool} {os : List Outcome} (hl : v.Laid) (hos : v.Fit → os = []) :
    Rewritten v ((v.wrote 0 s landed).setOutcomes os) := by
  refine ⟨⟨same_wrote hos, fun lba hlba => ?_⟩, fun i hi => ?_, ?_, ?_⟩
  · cases landed with
    | false => rfl
    | true =>
      have := hl.geometry.dataAfter
      exact Function.update_of_ne (by omega) _ _
  · cases landed with
    | false => rfl
    | true =>
      unfold Volume.diskEntry Volume.wrote
      rw [if_pos rfl]
      show ZfsEntry.decode (slice (Function.update v.ata0.disk 0 s (entrySector i)).bytes _ _) = _
      rw [Function.update_of_ne (by unfold entrySector; omega)]
  · cases landed with
    | false => rfl
    | true => rfl
  · cases landed with
    | false => rfl
    | true => rfl

/-! ### The synchronisation -/

/-- The volume with another generation in its superblock. -/
def Volume.stamp (v : Volume) (generation : UInt32) : Volume := { v with zfsSuper := { v.zfsSuper with generation } }

/-- How a synchronisation ends. -/
inductive SyncEnd (v v' : Volume) (r : FsResult) : Prop
  | done {w : Volume} (ok : r.ok = true) (rewritten : Rewritten v w) (stamped : v' = w.stamp (v.zfsSuper.generation + 1))
  | exhausted (ok : r.ok = false) (last : v.zfsSuper.generation = 0xFFFFFFFF) (same : v' = v)
  | failed {w : Volume} (ok : r.ok = false) (fit : ¬v.Fit) (rewritten : Rewritten v w) (unmounted : v' = w.unmount)

theorem syncMetadataResult_spec (hv : v.Ready) :
    wp syncMetadataResult (fun r v' => SyncEnd v v' r) (fun v' => ¬v.Fit ∧ Rewritten v v') v := by
  have hl := hv.laid
  unfold syncMetadataResult
  rw [wp_bind, wp_get]
  refine wp_ite (fun h => absurd hv.mounted (by simpa using h)) fun _ => ?_
  refine wp_seq (recoverTransactionsResult_settled hv.settled) (fun _ h => h.elim) ?_
  rintro _ v₀ ⟨rfl, hv₀⟩
  rw [hv₀]
  refine wp_ite (fun h => absurd h (by simp)) fun _ => wp_ite (fun hlast => .exhausted rfl hlast rfl) fun _ => ?_
  refine wp_seq (syncSectors_spec hl hv.inSync (Nat.zero_add _)) (fun _ h => h) fun r v₁ h₁ => ?_
  obtain ⟨h₁, hfailed⟩ := h₁
  rcases r with _ | write
  · have hlba : 0 < v₁.ata0.sectors := by
      have := (h₁.laid hl).geometry.dataAfter
      have := (h₁.laid hl).geometry.onDevice
      omega
    dsimp only
    refine wp_seq (zfsWriteSector_spec hlba) ?_ ?_
    · rintro _ ⟨hfit, os, landed, rfl⟩
      refine ⟨fun hf => hfit (h₁.fit hf), h₁.trans (rewritten_superblock (h₁.laid hl) fun hf => absurd hf hfit)⟩
    · rintro superWrite v₂ ⟨os, landed, hv₂, hos, hend⟩
      have h₂ : Rewritten v₁ v₂ := by
        rw [hv₂]
        exact rewritten_superblock (h₁.laid hl) hos
      rcases hend with ⟨hok, -⟩ | ⟨hok, hfit⟩
      · refine wp_ite (fun h => absurd hok (by simpa using h)) fun _ => ?_
        rw [wp_bind, wp_modify, wp_pure]
        have hsuper : v₂.zfsSuper = v.zfsSuper := (h₁.trans h₂).zfsSuper
        refine .done rfl (h₁.trans h₂) ?_
        unfold Volume.stamp
        rw [hsuper]
      · refine wp_ite (fun _ => ?_) fun h => absurd (by simpa using hok) h
        rw [zfsBlockFailure, wp_bind, wp_modify, wp_pure]
        exact .failed (fsFromBlock_ok hok) (fun hf => hfit (h₁.fit hf)) (h₁.trans h₂) rfl
  · obtain ⟨hok, hfit⟩ := hfailed write rfl
    show wp (zfsBlockFailure .sync write) _ _ _
    rw [zfsBlockFailure, wp_bind, wp_modify, wp_pure]
    exact .failed (fsFromBlock_ok hok) hfit h₁ rfl

/-! ### Devices that can be written -/

def Volume.Writable (v : Volume) : Prop := v.ata0.present = true ∧ v.ata0.writable = true

theorem Volume.SameDevice.writable_iff (h : SameDevice v v') : v'.Writable ↔ v.Writable := by
  unfold Volume.Writable
  rw [h.present, h.writable]

/-- Paths are normalised as before, and the volume can be mounted if it could be. -/
structure SamePlace (v v' : Volume) : Prop where
  currentDirectory : v'.currentDirectory = v.currentDirectory
  writable : v.Writable → v'.Writable
  laid : v.Laid → v'.Laid

theorem SamePlace.refl (v : Volume) : SamePlace v v := ⟨rfl, id, id⟩

theorem SamePlace.trans {w : Volume} (h : SamePlace v v') (h' : SamePlace v' w) : SamePlace v w :=
  ⟨h'.currentDirectory.trans h.currentDirectory, h'.writable ∘ h.writable, h'.laid ∘ h.laid⟩

theorem Volume.Same.samePlace (h : Same v v') : SamePlace v v' :=
  ⟨h.currentDirectory, h.toSameDevice.writable_iff.mpr, h.laid⟩

/-! ### What it keeps -/

theorem Rewritten.ready (h : Rewritten v v') (hv : v.Ready) : v'.Ready where
  mounted := h.zfsMounted.trans hv.mounted
  laid := h.laid hv.laid
  inSync := h.inSync hv.inSync
  settled i hi := by
    rw [h.zfsSuper] at hi
    rw [h.zfsEntries]
    exact hv.settled i hi
  distinct := by
    rw [h.zfsSuper, h.zfsEntries]
    exact hv.distinct

theorem Rewritten.lookup (h : Rewritten v v') (hv : v.Ready) (q : Bytes) : v'.lookup q = v.lookup q :=
  lookup_congr h.zfsSuper fun i hi _ => ⟨by rw [h.zfsEntries], h.slotBytes hv.laid hi⟩

theorem stamp_ready {generation : UInt32} (hv : v.Ready) : (v.stamp generation).Ready :=
  ⟨hv.mounted, hv.laid, hv.inSync, hv.settled, hv.distinct⟩

theorem stamp_lookup (generation : UInt32) (q : Bytes) : (v.stamp generation).lookup q = v.lookup q := rfl

theorem Rewritten.kept (h : Rewritten v v') (hv : v.Ready) : Kept P v v' :=
  Kept.trans (fun q _ => h.lookup hv q) (h.ready hv).kept

theorem SyncEnd.kept {r : FsResult} (h : SyncEnd v v' r) (hv : v.Ready) : SamePlace v v' ∧ Kept P v v' := by
  cases h with
  | @done w ok rewritten stamped =>
    subst stamped
    refine ⟨⟨rewritten.currentDirectory, rewritten.toSameDevice.writable_iff.mpr, rewritten.laid⟩,
      Kept.trans (fun q _ => ?_) (stamp_ready (rewritten.ready hv)).kept⟩
    rw [stamp_lookup]
    exact rewritten.lookup hv q
  | exhausted ok last same =>
    rw [same]
    exact ⟨.refl v, hv.kept⟩
  | @failed w ok fit rewritten unmounted =>
    subst unmounted
    have hdurable : Durable P v w := (rewritten.kept hv).durable
    refine ⟨⟨rewritten.currentDirectory, rewritten.toSameDevice.writable_iff.mpr, rewritten.laid⟩,
      fun hm => absurd hm (by simp [Volume.unmount]), fun x hx => ?_⟩
    exact hdurable x (hx.congr still_unmount.toSame rfl)

theorem Kept.sync {u : Volume} (hk : Kept P u v) :
    wp syncMetadataResult (fun _ v' => SamePlace v v' ∧ Kept P u v')
      (fun v' => Durable P u v') v := by
  rcases hm : v.zfsMounted with _ | _
  · rw [syncMetadataResult, wp_bind, wp_get, if_pos (by simp [hm]), wp_pure]
    exact ⟨.refl v, hk⟩
  · obtain ⟨hv, hq⟩ := hk.mounted hm
    refine wp_mono (syncMetadataResult_spec hv) (fun r v' h => ?_) fun v' h => ?_
    · obtain ⟨hplace, hkept⟩ := h.kept (P := P) hv
      exact ⟨hplace, hkept.trans hq⟩
    · exact (h.2.kept hv).durable.trans hq

/-! ### Writes that succeed -/

section Unwritable
variable (hw : ¬v.Writable)
include hw

theorem zfsWriteSector_unwritable {lba : Nat} {s : Sector} :
    wp (zfsWriteSector lba s) (fun r v' => r.ok = false ∧ v' = v) (fun _ => True) v := by
  unfold zfsWriteSector
  rw [wp_bind, wp_get]
  refine wp_ite (fun _ => ⟨rfl, rfl⟩) fun hp => wp_ite (fun _ => ⟨rfl, rfl⟩) fun hwr => ?_
  exact absurd ⟨by simpa using hp, by simpa using hwr⟩ hw

theorem zfsReadSector_unwritable {lba : Nat} :
    wp (zfsReadSector lba) (fun r v' => ¬v'.Writable ∧ ∀ block, r = .error block → block.ok = false) (fun _ => True) v := by
  unfold zfsReadSector
  rw [wp_bind, wp_get]
  refine wp_ite (fun _ => ⟨hw, fun _ h => by cases h; rfl⟩) fun _ =>
    wp_ite (fun _ => ⟨hw, fun _ h => by cases h; rfl⟩) fun _ => ?_
  unfold wp readSector
  rcases v.ata0.outcomes with _ | ⟨⟨result, _⟩ | _, rest⟩
  · exact ⟨hw, fun _ h => by cases h⟩
  · refine ⟨hw, fun block h => ?_⟩
    split at h
    · cases h
    · cases h
      simpa using ‹¬result.ok = true›
  · trivial

theorem replaceEntryResult_unwritable {i : Nat} {e : ZfsEntry} {operation : FsOperation} :
    wp (replaceEntryResult i e operation) (fun r _ => r.ok = false) (fun _ => True) v := by
  have hflush : ∀ u : Volume, ¬u.Writable →
      wp (flushEntryResult i operation) (fun r _ => r.ok = false) (fun _ => True) u := by
    intro u hu
    unfold flushEntryResult
    rw [wp_bind, wp_get]
    refine wp_ite (fun _ => rfl) fun _ =>
      wp_seq (zfsReadSector_unwritable hu) (fun _ h => h) fun read u₁ h₁ => ?_
    obtain ⟨hu₁, hread⟩ := h₁
    rcases read with block | sector
    · show wp (zfsBlockFailure operation block) _ _ _
      rw [zfsBlockFailure, wp_bind, wp_modify, wp_pure]
      exact fsFromBlock_ok (hread block rfl)
    · refine wp_seq (zfsWriteSector_unwritable hu₁) (fun _ h => h) fun write u₂ h₂ => ?_
      have hok := h₂.1
      rw [if_neg (by simp [hok]), zfsBlockFailure, wp_bind, wp_modify, wp_pure]
      exact fsFromBlock_ok hok
  unfold replaceEntryResult
  rw [wp_bind, wp_get]
  refine wp_ite (fun _ => rfl) fun _ => ?_
  rw [wp_bind, wp_modify]
  refine wp_seq (hflush _ hw) (fun _ h => h) fun r u hok => ?_
  rw [if_neg (by simp [hok]), wp_bind, wp_modify, wp_pure]
  exact hok

theorem stageSectors_unwritable {left lba written : Nat} {data : Bytes} :
    wp (stageSectors left lba written data)
      (fun r v' => ¬v'.Writable ∧ ∀ write, r = .error write → write.1.ok = false) (fun _ => True) v := by
  cases left with
  | zero => exact ⟨hw, fun _ h => by cases h⟩
  | succ left =>
    rw [stageSectors]
    refine wp_seq (zfsWriteSector_unwritable hw) (fun _ h => h) fun write u h => ?_
    obtain ⟨hok, hu⟩ := h
    rw [if_neg (by simp [hok]), wp_pure, hu]
    refine ⟨hw, fun w h => ?_⟩
    cases h
    exact hok

theorem writeContent_unwritable {path content : Bytes} {o : Option Nat} :
    wp (writeContent path o content) (fun r _ => r.ok = false) (fun _ => True) v := by
  unfold writeContent
  rw [wp_bind, wp_get]
  rcases v.freeEntry o with _ | s
  · exact rfl
  dsimp only
  refine wp_seq (stageSectors_unwritable hw) (fun _ h => h) fun r u ⟨hu, hr⟩ => ?_
  rcases r with ⟨write, written⟩ | ⟨⟩
  · show wp (zfsBlockFailure .write write written) _ _ _
    rw [zfsBlockFailure, wp_bind, wp_modify, wp_pure]
    exact fsFromBlock_ok (hr _ rfl)
  dsimp only
  rcases pathCopy path pathBytes with _ | copy
  · exact rfl
  dsimp only
  unfold commitStage
  refine wp_seq (replaceEntryResult_unwritable hu) (fun _ h => h) fun metadata u₁ hok => ?_
  rw [if_pos (by simp [hok]), wp_pure]
  exact hok

theorem writeFileResult_unwritable {input data : Bytes} :
    wp (writeFileResult input data false) (fun r _ => r.ok = false) (fun _ => True) v := by
  unfold writeFileResult
  rw [wp_bind, wp_get]
  refine wp_ite (fun _ => rfl) fun _ => ?_
  rcases normalizePath v.currentDirectory input with _ | path
  · exact rfl
  dsimp only
  refine wp_ite (fun _ => rfl) fun _ => wp_ite (fun _ => rfl) fun _ => wp_ite (fun _ => rfl) fun _ =>
    wp_ite (fun _ => rfl) fun _ => ?_
  rw [wp_bind]
  exact writeContent_unwritable hw

end Unwritable

theorem writeFileResult_writable {input data : Bytes} :
    wp (writeFileResult input data false) (fun r _ => r.ok = true → v.Writable) (fun _ => True) v := by
  by_cases hw : v.Writable
  · exact wp_always (fun _ _ _ => hw) fun _ => trivial
  · refine wp_mono (writeFileResult_unwritable hw) (fun r _ hr hok => ?_) fun _ h => h
    rw [hr] at hok
    cases hok

theorem writeFileResult_type {input data p : Bytes} (hp : normalizePath v.currentDirectory input = some p) :
    wp (writeFileResult input data false)
      (fun r _ => r.ok = true → ∀ st, v.lookup p = some st → st.type = zfsTypeFile) (fun _ => True) v := by
  unfold writeFileResult
  rw [wp_bind, wp_get]
  refine wp_ite (fun _ h => by cases h) fun _ => ?_
  rw [hp]
  dsimp only
  refine wp_ite (fun _ h => by cases h) fun _ => wp_ite (fun _ h => by cases h) fun _ => wp_ite (fun _ h => by cases h) fun htype => ?_
  refine wp_always (fun _ _ _ st hst => ?_) fun _ => trivial
  unfold Volume.lookup at hst
  rcases hfind : v.findEntry p with _ | i
  · rw [hfind] at hst
    cases hst
  · rw [hfind] at hst htype
    cases hst
    show (v.zfsEntries i).type = zfsTypeFile
    simpa using htype

/-! ### What a path names for good -/

/-- What the path names, now and after each mount to come. -/
structure Shows (v : Volume) (p : Bytes) (o : Option FileState) : Prop where
  mounted : v.zfsMounted = true → v.lookup p = o
  durable : ∀ w, Remounted v w → w.lookup p = o

theorem Kept.shows {u : Volume} {p : Bytes} (h : Kept P u v) (hp : P p) : Shows v p (u.lookup p) :=
  ⟨fun hm => (h.mounted hm).2 p hp, fun w hw => (h.durable w hw).2 p hp⟩

theorem Shows.unique {p : Bytes} {o o' : Option FileState} (hl : v.Laid) (hw : v.Writable) (h : Shows v p o)
    (h' : Shows v p o') : o = o' := by
  obtain ⟨w, hmount⟩ := exists_remounted (recoveryKeeps_true _) hl trivial hw.1 hw.2
  rw [← h.durable w hmount, h'.durable w hmount]

end ZenovOS.Storage
