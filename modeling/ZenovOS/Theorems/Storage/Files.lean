import ZenovOS.Theorems.Storage.Recovery

/-! # Entries by path, and the bytes of files

Finding an entry, reading the bytes of a data slot and writing them: the rules the operations are put
together from. -/

namespace ZenovOS.Storage
open Bytes Mach Volume

variable {v v' : Volume}

/-! ### Finding entries -/

/-- No two visible entries have one path. -/
def Distinct (n : Nat) (t : Nat → ZfsEntry) : Prop :=
  ∀ i < n, ∀ j < n, (t i).visible → (t j).visible → (t i).name = (t j).name → i = j

theorem findEntry_some {p : Bytes} {i : Nat} (h : v.findEntry p = some i) :
    i < v.zfsSuper.entries ∧ (v.zfsEntries i).visible ∧ (v.zfsEntries i).name = p := by
  have hmem := List.mem_of_find?_eq_some h
  have hp := List.find?_some h
  rw [List.mem_range, Nat.lt_min] at hmem
  simp only [Bool.and_eq_true, decide_eq_true_eq] at hp
  exact ⟨hmem.1, hp.1, hp.2⟩

theorem findEntry_none {p : Bytes} {i : Nat} (hl : v.Laid) (h : v.findEntry p = none) (hi : i < v.zfsSuper.entries)
    (hv : (v.zfsEntries i).visible) : (v.zfsEntries i).name ≠ p := by
  intro hname
  have := List.find?_eq_none.mp h i (by rw [List.mem_range, Nat.min_eq_left hl.geometry.few]; exact hi)
  simp [hv, hname] at this

theorem findEntry_eq {p : Bytes} {i : Nat} (hl : v.Laid) (hd : Distinct v.zfsSuper.entries v.zfsEntries)
    (hi : i < v.zfsSuper.entries) (hv : (v.zfsEntries i).visible) (hp : (v.zfsEntries i).name = p) :
    v.findEntry p = some i := by
  rcases h : v.findEntry p with _ | j
  · exact absurd hp (findEntry_none hl h hi hv)
  · obtain ⟨hj, hvj, hpj⟩ := findEntry_some h
    rw [hd j hj i hi hvj hv (hpj.trans hp.symm)]

theorem freeEntry_some {excluded : Option Nat} {i : Nat} (h : v.freeEntry excluded = some i) :
    i < v.zfsSuper.entries ∧ some i ≠ excluded ∧ (v.zfsEntries i).used = 0 := by
  have hmem := List.mem_of_find?_eq_some h
  have hp := List.find?_some h
  rw [List.mem_range, Nat.lt_min] at hmem
  simp only [Bool.and_eq_true, decide_eq_true_eq] at hp
  exact ⟨hmem.1, hp.1, hp.2⟩

theorem used_of_visible {e : ZfsEntry} (h : e.visible) : e.used ≠ 0 := by
  unfold ZfsEntry.visible at h
  simp only [Bool.and_eq_true, decide_eq_true_eq] at h
  exact h.1

/-! ### Sectors and their bytes -/

/-- The bytes of `n` sectors from `lba` on. -/
def sectorBytes (disk : Nat → Sector) (lba n : Nat) : Bytes := (List.range n).flatMap fun k => (disk (lba + k)).bytes

theorem sectorBytes_succ (disk : Nat → Sector) (lba n : Nat) :
    sectorBytes disk lba (n + 1) = (disk lba).bytes ++ sectorBytes disk (lba + 1) n := by
  unfold sectorBytes
  rw [List.range_succ_eq_map, List.flatMap_cons, List.flatMap_map, Nat.add_zero]
  congr 2
  funext k
  rw [show lba + (k + 1) = lba + 1 + k by omega]

theorem length_sectorBytes (disk : Nat → Sector) (lba n : Nat) : (sectorBytes disk lba n).length = n * sectorSize := by
  induction n generalizing lba with
  | zero => simp [sectorBytes]
  | succ n ih =>
    rw [sectorBytes_succ, List.length_append, ih, (disk lba).length_eq, Nat.succ_mul, Nat.add_comm]

theorem sectorBytes_add (disk : Nat → Sector) (lba m n : Nat) :
    sectorBytes disk lba (m + n) = sectorBytes disk lba m ++ sectorBytes disk (lba + m) n := by
  induction m generalizing lba with
  | zero => simp [sectorBytes]
  | succ m ih =>
    rw [show m + 1 + n = m + n + 1 by omega, sectorBytes_succ, ih, sectorBytes_succ, List.append_assoc,
      show lba + 1 + m = lba + (m + 1) by omega]

theorem sectorBytes_congr {disk disk' : Nat → Sector} {lba n : Nat} (h : ∀ k < n, disk' (lba + k) = disk (lba + k)) :
    sectorBytes disk' lba n = sectorBytes disk lba n := by
  unfold sectorBytes
  rw [List.flatMap_def, List.flatMap_def]
  congr 1
  apply List.map_congr_left
  intro k hk
  rw [h k (List.mem_range.mp hk)]

theorem take_sectorBytes {disk : Nat → Sector} {lba size n : Nat} (h : size ≤ n * sectorSize) :
    (sectorBytes disk lba (sectorsFor size)).take size = (sectorBytes disk lba n).take size := by
  have hn : sectorsFor size ≤ n := by unfold sectorsFor sectorSize at *; omega
  obtain ⟨m, rfl⟩ := Nat.exists_eq_add_of_le hn
  rw [sectorBytes_add, List.take_append_of_le_length]
  rw [length_sectorBytes]
  unfold sectorsFor sectorSize
  omega

/-! ### Reading -/

theorem readSectors_spec {size left lba : Nat} {copied : Bytes} (hs : ∀ k < left, lba + k < v.ata0.sectors) :
    wp (readSectors size left lba copied)
      (fun r v' => Still v v' ∧ v'.zfsEntries = v.zfsEntries ∧ v'.zfsMounted = v.zfsMounted ∧
        (r = .ok (copied ++ (sectorBytes v.ata0.disk lba left).take (size - copied.length)) ∨
          ∃ b n, r = .error (b, n) ∧ b.ok = false ∧ ¬v.Fit))
      (fun v' => ¬v.Fit ∧ Still v v') v := by
  induction left generalizing lba copied v with
  | zero =>
    rw [readSectors, wp_pure]
    exact ⟨Still.refl v, rfl, rfl, .inl (by simp [sectorBytes])⟩
  | succ left ih =>
    rw [readSectors]
    refine wp_seq (zfsReadSector_spec (by simpa using hs 0 (by omega))) ?_ ?_
    · rintro _ ⟨hf, os, rfl⟩
      exact ⟨hf, still_setOutcomes fun h => absurd h hf⟩
    · rintro r _ ⟨os, rfl, hos, rfl | ⟨b, rfl, hb, hf⟩⟩
      · have hstill : Still v (v.setOutcomes os) := still_setOutcomes hos
        show wp (readSectors size left (lba + 1) (copied ++ (v.ata0.disk lba).bytes.take (size - copied.length))) _ _ _
        refine wp_mono (ih (v := v.setOutcomes os) fun k hk => ?_) ?_ ?_
        · show lba + 1 + k < v.ata0.sectors
          have := hs (k + 1) (by omega)
          omega
        · rintro r v' ⟨hs', he, hm, rfl | ⟨b, n, rfl, hb, hf⟩⟩
          · refine ⟨hstill.trans hs', he, hm, .inl ?_⟩
            show Except.ok (_ ++ (sectorBytes v.ata0.disk (lba + 1) left).take _) = _
            have hlen := (v.ata0.disk lba).length_eq
            have hrest : size - (copied.length + min (size - copied.length) sectorSize) =
                size - copied.length - sectorSize := by omega
            rw [sectorBytes_succ, List.take_append, hlen, List.append_assoc, List.length_append, List.length_take, hlen,
              hrest]
          · exact ⟨hstill.trans hs', he, hm, .inr ⟨b, n, rfl, hb, fun h => hf (hstill.fit h)⟩⟩
        · rintro v' ⟨hf, hs'⟩
          exact ⟨fun h => hf (hstill.fit h), hstill.trans hs'⟩
      · exact ⟨still_setOutcomes hos, rfl, rfl, .inr ⟨b, _, rfl, hb, hf⟩⟩

theorem maxFileBytes_le (s : ZfsSuperblock) : s.maxFileBytes ≤ s.slotSectors.toNat * sectorSize := Nat.mod_le _ _

theorem maxFileBytes_lt (s : ZfsSuperblock) : s.maxFileBytes < 2 ^ 32 := Nat.mod_lt _ (by decide)

/-- A read of a file: `entry` is what the path names, and success gives its bytes. -/
theorem readFileResult_spec {input : Bytes} {capacity : Nat} (hl : v.Laid) :
    wp (readFileResult input capacity)
      (fun r v' => Same v v' ∧ v'.ata0.disk = v.ata0.disk ∧ v'.zfsEntries = v.zfsEntries ∧
        (r.1.ok = true ∧ v'.zfsMounted = v.zfsMounted ∧ (∃ path i, normalizePath v.currentDirectory input = some path ∧
            v.findEntry path = some i ∧ (v.zfsEntries i).type = zfsTypeFile ∧
            (v.zfsEntries i).size.toNat ≤ v.zfsSuper.maxFileBytes ∧
            r = (fsSuccess .read (v.zfsEntries i).size.toNat, v.content i (v.zfsEntries i)) ∧
            fnv1a r.2 = (v.zfsEntries i).checksum ∧ v'.accessed = (v.record (v.zfsEntries i)).accessed) ∨
          r.1.ok = false ∧ r.2 = []))
      (fun v' => ¬v.Fit ∧ Same v v' ∧ v'.ata0.disk = v.ata0.disk) v := by
  have hfail : ∀ (status : FsStatus), status ≠ .ok → status ≠ .recoveryPending →
      (fsFailure .read status).ok = false := by
    intro status h₁ h₂
    simp [FsResult.ok, h₁, h₂]
  unfold readFileResult
  rw [wp_bind, wp_get]
  refine wp_ite (fun _ => ?_) fun _ => ?_
  · exact ⟨Same.refl v, rfl, rfl, .inr ⟨hfail _ (by decide) (by decide), rfl⟩⟩
  rcases hn : normalizePath v.currentDirectory input with _ | path
  · exact ⟨Same.refl v, rfl, rfl, .inr ⟨hfail _ (by decide) (by decide), rfl⟩⟩
  dsimp only
  rcases hfind : v.findEntry path with _ | i
  · exact ⟨Same.refl v, rfl, rfl, .inr ⟨hfail _ (by decide) (by decide), rfl⟩⟩
  obtain ⟨hi, -, -⟩ := findEntry_some hfind
  have hsame : Same v (v.record (v.zfsEntries i)) :=
    ⟨⟨rfl, rfl, rfl, rfl⟩, rfl, rfl, fun hf => ⟨hf.present, hf.writable, hf.outcomes⟩⟩
  simp only [wp_bind, wp_modify]
  refine wp_ite (fun _ => ?_) fun htype => wp_ite (fun _ => ?_) fun hmax => wp_ite (fun _ => ?_) fun _ => ?_
  · exact ⟨hsame, rfl, rfl, .inr ⟨hfail _ (by decide) (by decide), rfl⟩⟩
  · exact ⟨hsame, rfl, rfl, .inr ⟨hfail _ (by decide) (by decide), rfl⟩⟩
  · exact ⟨hsame, rfl, rfl, .inr ⟨hfail _ (by decide) (by decide), rfl⟩⟩
  have hsize : (v.zfsEntries i).size.toNat ≤ v.zfsSuper.slotSectors.toNat * sectorSize :=
    (Nat.not_lt.mp hmax).trans (maxFileBytes_le _)
  rw [wp_bind]
  refine wp_mono (readSectors_spec (v := v.record (v.zfsEntries i)) fun k hk => ?_) ?_ ?_
  · refine dataSector_add_lt hl hi (lt_of_lt_of_le hk ?_)
    unfold sectorsFor sectorSize at *
    omega
  · rintro r v' ⟨hs, he, hm, hr | ⟨b, n, rfl, hb, hf⟩⟩
    · have hbytes : r = .ok (v.content i (v.zfsEntries i)) := by
        rw [hr, List.nil_append, List.length_nil, Nat.sub_zero, take_sectorBytes hsize]
        rfl
      subst hbytes
      dsimp only
      refine wp_ite (fun _ => ?_) fun hsum => ?_
      · exact ⟨hsame.trans hs.toSame, hs.disk, he, .inr ⟨hfail _ (by decide) (by decide), rfl⟩⟩
      · exact ⟨hsame.trans hs.toSame, hs.disk, he, .inl ⟨rfl, hm, path, i, rfl, hfind,
          of_not_not htype, Nat.not_lt.mp hmax, rfl, of_not_not hsum, hs.accessed⟩⟩
    · show wp (zfsBlockFailure .read b n >>= fun result => pure (result, [])) _ _ _
      rw [zfsBlockFailure, wp_bind, wp_bind, wp_modify, wp_pure, wp_pure]
      exact ⟨hsame.trans (hs.toSame.trans still_unmount.toSame), hs.disk, he, .inr ⟨fsFromBlock_ok hb, rfl⟩⟩
  · rintro v' ⟨hf, hs⟩
    exact ⟨fun h => hf (hsame.fit h), hsame.trans hs.toSame, hs.disk⟩

/-! ### Staging -/

/-- Only sectors of a range were written. -/
structure Staged (v v' : Volume) (lba n : Nat) : Prop extends Same v v' where
  zfsEntries : v'.zfsEntries = v.zfsEntries
  zfsMounted : v'.zfsMounted = v.zfsMounted
  accessed : v'.accessed = v.accessed
  others : ∀ l, l < lba ∨ lba + n ≤ l → v'.ata0.disk l = v.ata0.disk l

theorem staged_wrote {lba n : Nat} {s : Sector} {landed : Bool} {os : List Outcome} (hos : v.Fit → os = []) :
    Staged v ((v.wrote lba s landed).setOutcomes os) lba (n + 1) where
  toSame := same_wrote hos
  zfsEntries := by cases landed <;> rfl
  zfsMounted := by cases landed <;> rfl
  accessed := by cases landed <;> rfl
  others l hl := by
    cases landed
    · rfl
    · exact Function.update_of_ne (by omega) _ _

theorem Staged.trans_succ {w : Volume} {lba n : Nat} (h : Staged v v' lba (n + 1)) (h' : Staged v' w (lba + 1) n) :
    Staged v w lba (n + 1) where
  toSame := h.toSame.trans h'.toSame
  zfsEntries := h'.zfsEntries.trans h.zfsEntries
  zfsMounted := h'.zfsMounted.trans h.zfsMounted
  accessed := h'.accessed.trans h.accessed
  others l hl := by rw [h'.others l (by omega), h.others l hl]

theorem stageSectors_spec {left lba written : Nat} {data : Bytes} (hs : ∀ k < left, lba + k < v.ata0.sectors) :
    wp (stageSectors left lba written data)
      (fun r v' => Staged v v' lba left ∧
        (r = .ok () ∧ (data.length ≤ left * sectorSize →
            (sectorBytes v'.ata0.disk lba left).take data.length = data) ∨
          ∃ b n, r = .error (b, n) ∧ b.ok = false ∧ ¬v.Fit))
      (fun v' => ¬v.Fit ∧ Staged v v' lba left) v := by
  induction left generalizing lba written data v with
  | zero =>
    rw [stageSectors, wp_pure]
    refine ⟨⟨Same.refl v, rfl, rfl, rfl, fun _ _ => rfl⟩, .inl ⟨rfl, fun h => ?_⟩⟩
    rw [Nat.zero_mul, Nat.le_zero, List.length_eq_zero_iff] at h
    simp [h]
  | succ left ih =>
    rw [stageSectors]
    refine wp_seq (zfsWriteSector_spec (by simpa using hs 0 (by omega))) ?_ ?_
    · rintro _ ⟨hf, os, landed, rfl⟩
      exact ⟨hf, staged_wrote fun h => absurd h hf⟩
    · rintro r v₁ ⟨os, landed, hv₁, hos, ⟨hok, rfl⟩ | ⟨hok, hf⟩⟩
      · rw [if_pos hok]
        have hst : Staged v v₁ lba (left + 1) := hv₁ ▸ staged_wrote hos
        have hsector : v₁.ata0.disk lba = Block.of (data.take sectorSize) := by
          rw [hv₁]
          exact Function.update_self ..
        refine wp_mono (ih (v := v₁) fun k hk => ?_) ?_ ?_
        · rw [hst.sectors]
          have := hs (k + 1) (by omega)
          omega
        · rintro r v' ⟨hst', ⟨rfl, hdata⟩ | ⟨b, n, rfl, hb, hf⟩⟩
          · refine ⟨hst.trans_succ hst', .inl ⟨rfl, fun hlen => ?_⟩⟩
            have hrest := hdata (by rw [List.length_drop, Nat.succ_mul] at *; omega)
            have hfirst : (v'.ata0.disk lba).bytes =
                data.take sectorSize ++ List.replicate (sectorSize - (data.take sectorSize).length) 0 := by
              rw [hst'.others lba (by omega), hsector]
              exact Block.bytes_of (List.length_take_le _ _)
            rw [sectorBytes_succ, List.take_append, (v'.ata0.disk lba).length_eq, ← List.length_drop, hrest, hfirst,
              List.take_append]
            by_cases hd : data.length ≤ sectorSize
            · rw [List.take_of_length_le hd, List.take_of_length_le (Nat.le_refl _), Nat.sub_self, List.take_zero,
                List.drop_eq_nil_of_le hd, List.append_nil, List.append_nil]
            · have : (data.take sectorSize).length = sectorSize := by rw [List.length_take]; omega
              rw [this, Nat.sub_self, List.replicate_zero, List.take_nil, List.append_nil,
                List.take_of_length_le (by omega), List.take_append_drop]
          · exact ⟨hst.trans_succ hst', .inr ⟨b, n, rfl, hb, fun h => hf (hst.fit h)⟩⟩
        · rintro v' ⟨hf, hst'⟩
          exact ⟨fun h => hf (hst.fit h), hst.trans_succ hst'⟩
      · rw [if_neg (by simp [hok]), wp_pure, hv₁]
        exact ⟨staged_wrote hos, .inr ⟨r, written, rfl, hok, hf⟩⟩

end ZenovOS.Storage
