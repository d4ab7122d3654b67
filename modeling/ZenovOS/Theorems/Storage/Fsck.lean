import ZenovOS.Theorems.Storage.TreeRun

/-! # The integrity check and the tree

A volume that `check_integrity_result` finds clean is a tree, and of a tree the check reports no corrupt
metadata. Between the two lie the runs of operations that keep the tree. -/

namespace ZenovOS.Storage
open Bytes Mach Volume

variable {v v' : Volume}

/-! ### A clean check means a tree -/

/-- The stored paths of the files are their own normal forms, so that the check reads the file it is at. -/
def SelfNamed (v : Volume) : Prop :=
  ∀ i < v.zfsSuper.entries, (v.zfsEntries i).used ≠ 0 → (v.zfsEntries i).type = zfsTypeFile →
    normalizePath v.currentDirectory (v.zfsEntries i).name = some (v.zfsEntries i).name

theorem entryValid_congr (he : v'.zfsEntries = v.zfsEntries) (hs : v'.zfsSuper = v.zfsSuper) (i : Nat) :
    entryValid v' i = entryValid v i := by
  simp only [entryValid, duplicated, Volume.parentExists, Volume.findEntry, he, hs]

theorem duplicated_eq_false {i j : Nat} (h : duplicated v i = false) (hj : j < v.zfsSuper.entries) (hij : i < j)
    (hv : (v.zfsEntries j).visible = true) : (v.zfsEntries i).name ≠ (v.zfsEntries j).name := by
  intro hn
  unfold duplicated at h
  rw [List.any_eq_false] at h
  exact h j (List.mem_range.mpr hj) (by simp [hij, hv, hn])

theorem entryValid_not_duplicated {i : Nat} (h : entryValid v i = true) : duplicated v i = false := by
  unfold entryValid at h
  simp only [Bool.and_eq_true, Bool.not_eq_true'] at h
  exact h.1.1.2

theorem findEntry_checked {i : Nat} (hl : v.Laid) (hset : ∀ j < v.zfsSuper.entries, Settled (v.zfsEntries j))
    (hdone : ∀ j < i, (v.zfsEntries j).used ≠ 0 → entryValid v j = true) (hi : i < v.zfsSuper.entries)
    (hu : (v.zfsEntries i).used ≠ 0) (hvalid : entryValid v i = true) : v.findEntry (v.zfsEntries i).name = some i := by
  have hvi : (v.zfsEntries i).visible = true := (hset i hi).visible.mpr hu
  rcases hf : v.findEntry (v.zfsEntries i).name with _ | k
  · exact absurd rfl (findEntry_none hl hf hi hvi)
  · obtain ⟨hk, hvk, hn⟩ := findEntry_some hf
    rcases Nat.lt_trichotomy k i with hki | rfl | hki
    · exact absurd hn (duplicated_eq_false (entryValid_not_duplicated (hdone k hki (used_of_visible hvk))) hi hki hvi)
    · rfl
    · exact absurd hn.symm (duplicated_eq_false (entryValid_not_duplicated hvalid) hk hki hvk)

theorem status_of_not_ok {r : FsResult} (h : r.ok = false) : r.status ≠ .ok := by
  intro hs
  simp [FsResult.ok, hs] at h

theorem checkEntries_spec {left i : Nat} (checked : Nat) (hl : v.Laid) (hn : i + left = v.zfsSuper.entries)
    (hset : ∀ j < v.zfsSuper.entries, Settled (v.zfsEntries j)) (hself : SelfNamed v)
    (hdone : ∀ j < i, (v.zfsEntries j).used ≠ 0 → entryValid v j = true) :
    wp (checkEntries left i checked)
      (fun r v' => Alike v v' ∧ (r.status = .ok → v'.zfsMounted = v.zfsMounted ∧
        ∀ j < v.zfsSuper.entries, (v.zfsEntries j).used ≠ 0 → entryValid v j = true))
      (fun _ => True) v := by
  induction left generalizing i checked v with
  | zero =>
    rw [checkEntries, wp_pure]
    exact ⟨⟨Same.refl v, rfl, rfl⟩, fun _ => ⟨rfl, fun j hj hu => hdone j (by omega) hu⟩⟩
  | succ left ih =>
    have hi : i < v.zfsSuper.entries := by omega
    have hextend : ((v.zfsEntries i).used ≠ 0 → entryValid v i = true) →
        ∀ j < i + 1, (v.zfsEntries j).used ≠ 0 → entryValid v j = true := by
      intro hi j hj hu
      rcases Nat.lt_succ_iff_lt_or_eq.mp hj with hj | rfl
      · exact hdone j hj hu
      · exact hi hu
    have next : ∀ {w : Volume}, Alike v w → w.zfsMounted = v.zfsMounted →
        ((v.zfsEntries i).used ≠ 0 → entryValid v i = true) → ∀ checked,
        wp (checkEntries left (i + 1) checked)
          (fun r v' => Alike v v' ∧ (r.status = .ok → v'.zfsMounted = v.zfsMounted ∧
            ∀ j < v.zfsSuper.entries, (v.zfsEntries j).used ≠ 0 → entryValid v j = true))
          (fun _ => True) w := by
      intro w hw hm hvi checked
      have hval : ∀ j, entryValid w j = entryValid v j := entryValid_congr hw.zfsEntries hw.zfsSuper
      have hdone' : ∀ j < i + 1, (w.zfsEntries j).used ≠ 0 → entryValid w j = true := by
        intro j hj hu
        rw [hw.zfsEntries] at hu
        rw [hval]
        exact hextend hvi j hj hu
      have hself' : SelfNamed w := by
        intro j hj hu ht
        rw [hw.zfsSuper] at hj
        rw [hw.zfsEntries] at hu ht ⊢
        rw [hw.currentDirectory]
        exact hself j hj hu ht
      refine wp_mono (ih (v := w) checked (hw.laid hl) (by rw [hw.zfsSuper]; omega)
        (by rw [hw.zfsSuper, hw.zfsEntries]; exact hset) hself' hdone') ?_ fun _ h => h
      rintro r v' ⟨hv', hr⟩
      refine ⟨⟨hw.toSame.trans hv'.toSame, hv'.disk.trans hw.disk, hv'.zfsEntries.trans hw.zfsEntries⟩, fun hs => ?_⟩
      obtain ⟨hm', hall⟩ := hr hs
      rw [hw.zfsSuper, hw.zfsEntries] at hall
      exact ⟨hm'.trans hm, fun j hj hu => by rw [← hval]; exact hall j hj hu⟩
    rw [checkEntries, wp_bind, wp_get]
    refine wp_ite (fun hunused => next ⟨Same.refl v, rfl, rfl⟩ rfl (fun hu => absurd hunused hu) checked) fun hu => ?_
    refine wp_ite (fun _ => ⟨⟨Same.refl v, rfl, rfl⟩, fun h => absurd h (by decide)⟩) fun hvalid => ?_
    have hvalid : entryValid v i = true := by simpa using hvalid
    refine wp_ite (fun _ => next ⟨Same.refl v, rfl, rfl⟩ rfl (fun _ => hvalid) _) fun hdir => ?_
    have hfile : (v.zfsEntries i).type = zfsTypeFile := by
      unfold entryValid at hvalid
      simp only [Bool.and_eq_true, Bool.or_eq_true, decide_eq_true_eq] at hvalid
      exact hvalid.1.1.1.1.1.resolve_right hdir
    refine wp_seq (readFileResult_spec hl) (fun _ _ => trivial) ?_
    rintro read v₁ ⟨hs, hd, he, ⟨hok, hm, path, k, hpath, hfind, -, hsize, hr, -, -⟩ | ⟨hok, -⟩⟩
    · -- the file that is read is the one of this entry, so its size is right
      obtain rfl : (v.zfsEntries i).name = path := Option.some.inj ((hself i hi hu hfile).symm.trans hpath)
      obtain rfl : i = k := Option.some.inj ((findEntry_checked hl hset hdone hi hu hvalid).symm.trans hfind)
      have hlen : read.2.length = (v.zfsEntries i).size.toNat := by
        rw [hr]
        exact length_content hsize
      rw [if_neg (by simp [hok, hlen])]
      exact next ⟨hs, hd, he⟩ hm (fun _ => hvalid) _
    · rw [if_pos (.inl (by simp [hok])), wp_pure]
      exact ⟨⟨hs, hd, he⟩, fun h => absurd h (status_of_not_ok hok)⟩

theorem tree_of_entryValid (hset : ∀ j < v.zfsSuper.entries, Settled (v.zfsEntries j))
    (h : ∀ j < v.zfsSuper.entries, (v.zfsEntries j).used ≠ 0 → entryValid v j = true) :
    Tree v.zfsSuper.entries v.zfsSuper.maxFileBytes v.zfsEntries := by
  have hparts : ∀ j < v.zfsSuper.entries, (v.zfsEntries j).used ≠ 0 →
      WellFormed v.zfsSuper.maxFileBytes (v.zfsEntries j) ∧ v.parentExists (v.zfsEntries j).name = true := by
    intro j hj hu
    have hv := h j hj hu
    unfold entryValid at hv
    simp only [Bool.and_eq_true, Bool.or_eq_true, decide_eq_true_eq] at hv
    obtain ⟨⟨⟨⟨⟨hkind, hflags⟩, hvalid⟩, -⟩, hparent⟩, hsize⟩ := hv
    refine ⟨⟨hkind, hflags, hvalid, fun hd => ?_, fun hf => ?_⟩, hparent⟩
    · rw [if_pos hd] at hsize
      simpa using hsize
    · rw [if_neg (by rw [hf]; exact zfsTypeFile_ne_directory)] at hsize
      simpa using hsize
  have hlt : ∀ i j, i < j → j < v.zfsSuper.entries → (v.zfsEntries i).used ≠ 0 → (v.zfsEntries j).used ≠ 0 →
      (v.zfsEntries i).name ≠ (v.zfsEntries j).name := fun i j hij hj hui huj =>
    duplicated_eq_false (entryValid_not_duplicated (h i (hij.trans hj) hui)) hj hij ((hset j hj).visible.mpr huj)
  have hdistinct : ∀ i < v.zfsSuper.entries, ∀ j < v.zfsSuper.entries, (v.zfsEntries i).used ≠ 0 →
      (v.zfsEntries j).used ≠ 0 → (v.zfsEntries i).name = (v.zfsEntries j).name → i = j := by
    intro i hi j hj hui huj hn
    rcases Nat.lt_trichotomy i j with hij | hij | hij
    · exact absurd hn (hlt i j hij hj hui huj)
    · exact hij
    · exact absurd hn.symm (hlt j i hij hi huj hui)
  refine ⟨fun j hj hu => (hparts j hj hu).1, fun j hj hu parent hp hr => ?_, hdistinct⟩
  have hpe := (hparts j hj hu).2
  unfold Volume.parentExists at hpe
  rw [hp] at hpe
  rcases hf : v.findEntry parent with _ | i
  · simp [hf, hr] at hpe
  · obtain ⟨hi, hv, hn⟩ := findEntry_some hf
    exact ⟨i, hi, used_of_visible hv, by simpa [hf, hr] using hpe, hn⟩

theorem recoveryKeeps_true (n : Nat) : RecoveryKeeps n fun _ => True :=
  ⟨fun _ _ _ _ _ => trivial, fun _ _ _ _ _ _ => trivial, fun _ _ _ _ _ _ => trivial⟩

theorem checkIntegrityResult_sound {u : Volume} {r : FsResult} (hl : v.Laid) (hsync : InSync v)
    (h : checkIntegrityResult v = (some r, u)) (hok : r.status = .ok) (hself : SelfNamed u) : u.Sound := by
  have hspec : wp checkIntegrityResult (fun r u => r.status = .ok → SelfNamed u → u.Sound) (fun _ => True) v := by
    unfold checkIntegrityResult
    rw [wp_bind, wp_get]
    refine wp_ite (fun _ h => absurd h (by decide)) fun hm => ?_
    have hmounted : v.zfsMounted = true := by
      rw [not_or] at hm
      simpa using hm.1
    refine wp_seq (recoverTransactionsResult_spec (recoveryKeeps_true _) hl hsync trivial) (fun _ _ => trivial) ?_
    rintro recovered v₁ (⟨hs₁, h₁, hset⟩ | ⟨hok₁, -, -⟩)
    swap
    · rw [if_pos (by simp [hok₁]), wp_pure]
      exact fun h => absurd h (status_of_not_ok hok₁)
    rw [if_neg (by simp [FsResult.ok, hs₁])]
    have hl₁ := h₁.laid hl
    have hn₁ : v₁.zfsSuper = v.zfsSuper := h₁.zfsSuper
    have hset₁ : ∀ j < v₁.zfsSuper.entries, Settled (v₁.zfsEntries j) := fun j hj => by
      rw [h₁.inSync j hj]
      exact hset j (by rwa [hn₁] at hj)
    -- the scan does not change the table, so the condition on the result is one on the table scanned
    by_cases hself₁ : SelfNamed v₁
    · refine wp_mono (checkEntries_spec 0 hl₁ (by rw [hn₁, Nat.zero_add]) hset₁ hself₁ fun j hj => absurd hj (Nat.not_lt_zero j))
        ?_ fun _ h => h
      rintro r u ⟨hu, hr⟩ hs -
      obtain ⟨hm, hall⟩ := hr hs
      exact hu.sound hm ⟨h₁.mounted.trans hmounted, hl₁, h₁.inSync, tree_of_entryValid hset₁ hall⟩
    · refine wp_mono (checkEntries_alike hl₁) ?_ fun _ h => h
      intro r u hu _ hself
      refine absurd (fun j hj hju hjt => ?_) hself₁
      have := hself j (by rwa [hu.zfsSuper]) (by rwa [hu.zfsEntries]) (by rwa [hu.zfsEntries])
      rwa [hu.zfsEntries, hu.currentDirectory] at this
  exact wp_ended hspec h hok hself
where
  /-- The scan leaves the table alone. -/
  checkEntries_alike {left i checked : Nat} {v : Volume} (hl : v.Laid) :
      wp (checkEntries left i checked) (fun _ v' => Alike v v') (fun _ => True) v := by
    induction left generalizing i checked v with
    | zero =>
      rw [checkEntries, wp_pure]
      exact ⟨Same.refl v, rfl, rfl⟩
    | succ left ih =>
      rw [checkEntries, wp_bind, wp_get]
      refine wp_ite (fun _ => ih hl) fun _ => wp_ite (fun _ => ⟨Same.refl v, rfl, rfl⟩) fun _ =>
        wp_ite (fun _ => ih hl) fun _ => wp_seq (readFileResult_spec hl) (fun _ _ => trivial) ?_
      rintro read v₁ ⟨hs, hd, he, -⟩
      refine wp_ite (fun _ => ⟨hs, hd, he⟩) fun _ => wp_mono (ih (hs.laid hl)) ?_ fun _ h => h
      intro _ v' h
      exact ⟨hs.trans h.toSame, h.disk.trans hd, h.zfsEntries.trans he⟩

/-! ### Of a tree, the check reports no corrupt metadata -/

theorem recoverTransactionsResult_settled (hset : ∀ j < v.zfsSuper.entries, Settled (v.zfsEntries j)) :
    wp recoverTransactionsResult (fun r v' => r = fsSuccess .recover ∧ v' = v) (fun _ => False) v := by
  have hclear : ∀ left i, i + left = v.zfsSuper.entries →
      wp (clearTransactions left i 0) (fun r v' => r = .ok 0 ∧ v' = v) (fun _ => False) v := by
    intro left
    induction left with
    | zero => exact fun i _ => ⟨rfl, rfl⟩
    | succ left ih =>
      intro i hi
      have hs := (hset i (by omega)).notTransaction
      unfold ZfsEntry.isTransaction at hs
      rw [clearTransactions, wp_bind, wp_get]
      refine wp_ite (fun _ => ih (i + 1) (by omega)) fun hgo => ?_
      rw [not_or, not_not] at hgo
      simp [hgo] at hs
  have hfinal : ∀ left i, i + left = v.zfsSuper.entries →
      wp (finalizeCommitted left i 0) (fun r v' => r = .ok 0 ∧ v' = v) (fun _ => False) v := by
    intro left
    induction left with
    | zero => exact fun i _ => ⟨rfl, rfl⟩
    | succ left ih =>
      intro i hi
      have hs := (hset i (by omega)).notCommitted
      rw [finalizeCommitted, wp_bind, wp_get]
      exact wp_ite (fun _ => ih (i + 1) (by omega)) fun hgo => absurd hs (by simpa using hgo)
  unfold recoverTransactionsResult
  rw [wp_bind, wp_get]
  refine wp_seq (hclear _ 0 (Nat.zero_add _)) (fun _ h => h) ?_
  rintro r _ ⟨rfl, rfl⟩
  refine wp_seq (hfinal _ 0 (Nat.zero_add _)) (fun _ h => h) ?_
  rintro r _ ⟨rfl, rfl⟩
  exact ⟨rfl, rfl⟩

theorem readSectors_noFault {size left lba : Nat} {copied : Bytes} (ho : v.ata0.outcomes = [])
    (hs : ∀ k < left, lba + k < v.ata0.sectors) :
    wp (readSectors size left lba copied)
      (fun r v' => v' = v ∧ ∀ b n, r = .error (b, n) → b.status = .noDevice) (fun _ => False) v := by
  induction left generalizing lba copied with
  | zero =>
    rw [readSectors, wp_pure]
    exact ⟨rfl, fun _ _ h => by cases h⟩
  | succ left ih =>
    have hread : wp (zfsReadSector lba) (fun r v' => v' = v ∧ ∀ b, r = .error b → b.status = .noDevice)
        (fun _ => False) v := by
      have hlba : lba < v.ata0.sectors := by simpa using hs 0 (by omega)
      unfold zfsReadSector
      rw [wp_bind, wp_get]
      refine wp_ite (fun _ => ⟨rfl, fun b h => by cases h; rfl⟩) fun _ =>
        wp_ite (fun h => absurd h (Nat.not_le.mpr hlba)) fun _ => ?_
      unfold wp readSector
      rw [ho]
      exact ⟨rfl, fun _ h => by cases h⟩
    rw [readSectors]
    refine wp_seq hread (fun _ h => h) ?_
    rintro (b | s) _ ⟨rfl, hb⟩
    · exact ⟨rfl, fun c n h => by cases h; exact hb b rfl⟩
    · exact ih fun k hk => by have := hs (k + 1) (by omega); omega

theorem readFileResult_noFault (input : Bytes) (capacity : Nat) (hl : v.Laid) (ho : v.ata0.outcomes = [])
    (hsize : ∀ i < v.zfsSuper.entries, (v.zfsEntries i).used ≠ 0 → (v.zfsEntries i).type = zfsTypeFile →
      (v.zfsEntries i).size.toNat ≤ v.zfsSuper.maxFileBytes) :
    wp (readFileResult input capacity) (fun r v' => r.1.status ≠ .metadataCorrupt ∧ v'.ata0.outcomes = [])
      (fun _ => False) v := by
  unfold readFileResult
  rw [wp_bind, wp_get]
  refine wp_ite (fun _ => ⟨by decide, ho⟩) fun _ => ?_
  rcases normalizePath v.currentDirectory input with _ | path
  · exact ⟨by decide, ho⟩
  dsimp only
  rcases hfind : v.findEntry path with _ | i
  · exact ⟨by decide, ho⟩
  obtain ⟨hi, hv, -⟩ := findEntry_some hfind
  simp only [wp_bind, wp_modify]
  refine wp_ite (fun _ => ⟨by decide, ho⟩) fun htype => ?_
  have hle := hsize i hi (used_of_visible hv) (of_not_not htype)
  refine wp_ite (fun h => absurd hle (Nat.not_le.mpr h)) fun _ => wp_ite (fun _ => ⟨by decide, ho⟩) fun _ => ?_
  rw [wp_bind]
  refine wp_mono (readSectors_noFault (v := v.record (v.zfsEntries i)) ho fun k hk => ?_) ?_ fun _ h => h
  · refine dataSector_add_lt hl hi (lt_of_lt_of_le hk ?_)
    have := hle.trans (maxFileBytes_le _)
    unfold sectorsFor sectorSize at *
    omega
  · rintro (⟨b, n⟩ | output) _ ⟨rfl, hb⟩
    · show wp (zfsBlockFailure .read b n >>= fun result => pure (result, [])) _ _ _
      rw [zfsBlockFailure, wp_bind, wp_bind, wp_modify, wp_pure, wp_pure]
      refine ⟨?_, ho⟩
      show fsStatusFromBlock b.status ≠ _
      rw [hb b n rfl]
      decide
    · exact wp_ite (fun _ => ⟨by decide, ho⟩) fun _ => ⟨(by decide : FsStatus.ok ≠ .metadataCorrupt), ho⟩

theorem Tree.entryValid {i : Nat} (hl : v.Laid) (h : Tree v.zfsSuper.entries v.zfsSuper.maxFileBytes v.zfsEntries)
    (hi : i < v.zfsSuper.entries) (hu : (v.zfsEntries i).used ≠ 0) : entryValid v i = true := by
  have hw := h.wellFormed i hi hu
  have hdup : duplicated v i = false := by
    unfold duplicated
    rw [List.any_eq_false]
    intro j hj hdup
    simp only [Bool.and_eq_true, decide_eq_true_eq] at hdup
    have := h.distinct i hi j (List.mem_range.mp hj) hu (used_of_visible hdup.1.2) hdup.2
    omega
  have hparent := (parentExists_iff hl h).mpr (h.parent i hi hu)
  unfold Storage.entryValid
  rcases hw.kind with hk | hk
  · simp [hk, hw.flags, hw.valid, hdup, hparent, hw.file hk, zfsTypeFile_ne_directory]
  · simp [hk, hw.flags, hw.valid, hdup, hparent, hw.directory hk]

theorem checkEntries_noCorrupt {left i checked : Nat} (hl : v.Laid) (ho : v.ata0.outcomes = [])
    (ht : Tree v.zfsSuper.entries v.zfsSuper.maxFileBytes v.zfsEntries) (hn : i + left = v.zfsSuper.entries) :
    wp (checkEntries left i checked) (fun r _ => r.status ≠ .metadataCorrupt) (fun _ => False) v := by
  induction left generalizing i checked v with
  | zero =>
    rw [checkEntries, wp_pure]
    exact (by decide : FsStatus.ok ≠ .metadataCorrupt)
  | succ left ih =>
    rw [checkEntries, wp_bind, wp_get]
    refine wp_ite (fun _ => ih hl ho ht (by omega)) fun hu => ?_
    rw [ht.entryValid hl (by omega) hu]
    refine wp_ite (fun h => Bool.noConfusion h) fun _ => wp_ite (fun _ => ih hl ho ht (by omega)) fun _ => ?_
    have hread := wp_and (readFileResult_spec hl)
      (readFileResult_noFault (v.zfsEntries i).name v.zfsSuper.maxFileBytes hl ho
        fun j hj huj htj => (ht.wellFormed j hj huj).file htj)
    refine wp_seq hread (fun _ h => h.2) ?_
    rintro read v₁ ⟨⟨hs, -, he, -⟩, hstatus, ho₁⟩
    refine wp_ite (fun _ => hstatus) fun _ => ih (hs.laid hl) ho₁ ?_ (by rw [hs.zfsSuper]; omega)
    rw [hs.zfsSuper, he]
    exact ht

theorem Volume.Sound.checkIntegrityResult (h : v.Sound) :
    wp checkIntegrityResult (fun r _ => r.status ≠ .metadataCorrupt) (fun _ => False) (v.setOutcomes []) := by
  unfold Storage.checkIntegrityResult
  rw [wp_bind, wp_get]
  refine wp_ite (fun _ => (by decide : FsStatus.notMounted ≠ .metadataCorrupt)) fun _ => ?_
  refine wp_seq (recoverTransactionsResult_settled (v := v.setOutcomes []) fun j hj => h.tree.settled hj) (fun _ h => h) ?_
  rintro r _ ⟨rfl, rfl⟩
  rw [if_neg (by simp)]
  exact checkEntries_noCorrupt h.laid rfl h.tree (Nat.zero_add _)

/-! ### The tree over runs -/

/-- The entries in use have valid stored paths, each its own, and lie in the root or in a directory of the
    volume; the integrity check agrees. -/
structure TreeKept (v : Volume) : Prop where
  valid : ∀ i < v.zfsSuper.entries, (v.zfsEntries i).used ≠ 0 → validStoredPath (v.zfsEntries i).name = true
  distinct : ∀ i < v.zfsSuper.entries, ∀ j < v.zfsSuper.entries, (v.zfsEntries i).used ≠ 0 → (v.zfsEntries j).used ≠ 0 →
    (v.zfsEntries i).name = (v.zfsEntries j).name → i = j
  parent : ∀ i < v.zfsSuper.entries, (v.zfsEntries i).used ≠ 0 →
    parentPath (v.zfsEntries i).name = some root ∨ ∃ j < v.zfsSuper.entries, (v.zfsEntries j).used ≠ 0 ∧
      (v.zfsEntries j).type = zfsTypeDirectory ∧ parentPath (v.zfsEntries i).name = some (v.zfsEntries j).name
  fsck : wp checkIntegrityResult (fun r _ => r.status ≠ .metadataCorrupt) (fun _ => False) (v.setOutcomes [])

theorem Volume.Sound.treeKept (h : v.Sound) : TreeKept v where
  valid i hi hu := (h.tree.wellFormed i hi hu).valid
  distinct := h.tree.distinct
  parent i hi hu := by
    obtain ⟨-, htwo, hlen, -⟩ := validStoredPath_parts (h.tree.wellFormed i hi hu).valid
    have hne : (v.zfsEntries i).name ≠ root := by
      intro hr
      rw [hr] at htwo
      exact absurd htwo (by decide)
    obtain ⟨parent, hp⟩ : ∃ parent, parentPath (v.zfsEntries i).name = some parent := by
      unfold parentPath
      rw [if_neg hne, pathCopy, if_pos hlen]
      exact ⟨_, rfl⟩
    by_cases hr : parent = root
    · exact .inl (hr ▸ hp)
    · obtain ⟨j, hj, huj, hd, hn⟩ := h.tree.parent i hi hu parent hp hr
      exact .inr ⟨j, hj, huj, hd, by rw [hp, hn]⟩
  fsck := h.checkIntegrityResult

/-- **The tree over runs.** From a volume that the integrity check finds clean, every run of successful
    operations whose steps meet the condition leaves a tree. -/
theorem fsRun_treeKept {u₀ u : Volume} {r : FsResult} (hl : u₀.Laid) (hsync : InSync u₀)
    (hcheck : checkIntegrityResult u₀ = (some r, u)) (hok : r.status = .ok) (hself : SelfNamed u)
    (hrun : FsRun Meets u v) : TreeKept v :=
  (hrun.sound (checkIntegrityResult_sound hl hsync hcheck hok hself)).treeKept

theorem FsStep.of_status (op : FsOp) (h : (op.run v).1.map (·.status) = some .ok) : FsStep v op (op.run v).2 := by
  rcases hr : op.run v with ⟨_ | r, v'⟩
  · rw [hr] at h
    cases h
  · rw [hr] at h
    exact .done hr (Option.some.inj h)

/-- The fresh volume after its check, and after a directory `/d` was made in it. -/
def checkedFresh : Volume := (checkIntegrityResult (fresh [])).2

def withDirectory : Volume := ((FsOp.makeDirectory (ascii "/d")).run (checkedFresh.enter root [])).2

theorem checkedFresh_clean : ∃ r, checkIntegrityResult (fresh []) = (some r, checkedFresh) ∧ r.status = .ok := by
  have h : (checkIntegrityResult (fresh [])).1.map (·.status) = some .ok := by decide +kernel
  unfold checkedFresh
  rcases hr : checkIntegrityResult (fresh []) with ⟨_ | r, w⟩
  · rw [hr] at h
    cases h
  · rw [hr] at h
    exact ⟨r, rfl, Option.some.inj h⟩

/-- Making a directory in a fresh volume. -/
theorem fsRun_treeKept_makeDirectory : FsRun Meets checkedFresh withDirectory ∧ TreeKept withDirectory := by
  have hmeets : Meets root (.makeDirectory (ascii "/d")) := by
    refine ⟨fun path h => ?_, fun _ _ _ _ h => by cases h⟩
    have hp : normalizePath root (ascii "/d") = some (ascii "/d") := by decide
    obtain rfl : ascii "/d" = path := Option.some.inj (hp.symm.trans h)
    decide
  have hrun : FsRun Meets checkedFresh withDirectory := .step root [] .start hmeets (.of_status _ (by decide +kernel))
  obtain ⟨r, hr, hok⟩ := checkedFresh_clean
  refine ⟨hrun, fsRun_treeKept (fresh_ready []).laid (fresh_ready []).inSync hr hok (fun i hi hu => ?_) hrun⟩
  have : ∀ i < checkedFresh.zfsSuper.entries, (checkedFresh.zfsEntries i).used = 0 := by decide +kernel
  exact absurd (this i hi) hu

/-- Without the condition the tree is lost: a rename onto the root is accepted. -/
theorem fsRun_rename_onto_root :
    ¬∀ (u₀ u v : Volume) (r : FsResult), u₀.Laid → InSync u₀ → checkIntegrityResult u₀ = (some r, u) → r.status = .ok →
      FsRun (fun _ _ => True) u v → TreeKept v := by
  intro h
  obtain ⟨r, hr, hok⟩ := checkedFresh_clean
  have hmake : FsRun (fun _ _ => True) checkedFresh withDirectory :=
    .step root [] .start trivial (.of_status _ (by decide +kernel))
  have hrename := FsRun.step root [] hmake trivial
    (.of_status (.rename (ascii "/d") root) (by decide +kernel))
  have hbad := (h (fresh []) checkedFresh _ r (fresh_ready []).laid (fresh_ready []).inSync hr hok hrename).fsck
  have hcorrupt : (checkIntegrityResult (((FsOp.rename (ascii "/d") root).run (withDirectory.enter root [])).2.setOutcomes
      [])).1.map (·.status) = some .metadataCorrupt := by decide +kernel
  obtain ⟨res, w, hres, hne⟩ := wp_ends hbad
  rw [hres] at hcorrupt
  exact hne (Option.some.inj hcorrupt)

end ZenovOS.Storage
