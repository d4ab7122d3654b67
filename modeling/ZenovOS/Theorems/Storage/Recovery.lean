import ZenovOS.Theorems.Storage.Disk

/-! # Loading the table and recovering it

`load_entries_result` puts the table on disk into memory. `recover_transactions_result` then clears the
staged entries and finishes the committed ones; it is described by a rule: a property of the table that
each of its three kinds of entry writes keeps holds wherever the recovery is cut off, and when the
recovery succeeds no staged and no committed entry is left. -/

namespace ZenovOS.Storage
open Bytes Mach Volume

variable {v v' : Volume}

/-! ### Loading -/

/-- Neither the disk nor the record of accesses changed. -/
structure Still (v v' : Volume) : Prop extends Same v v' where
  disk : v'.ata0.disk = v.ata0.disk
  accessed : v'.accessed = v.accessed

theorem Still.refl (v : Volume) : Still v v := ⟨Same.refl v, rfl, rfl⟩

theorem Still.trans {u w : Volume} (h : Still u v) (h' : Still v w) : Still u w :=
  ⟨h.toSame.trans h'.toSame, h'.disk.trans h.disk, h'.accessed.trans h.accessed⟩

theorem Still.diskEntry (h : Still v v') : v'.diskEntry = v.diskEntry := by
  funext i
  unfold Volume.diskEntry
  rw [h.disk]

theorem still_setOutcomes {os : List Outcome} (h : v.Fit → os = []) : Still v (v.setOutcomes os) :=
  ⟨⟨⟨rfl, rfl, rfl, rfl⟩, rfl, rfl, fun hf => ⟨hf.present, hf.writable, h hf⟩⟩, rfl, rfl⟩

theorem still_unmount : Still v v.unmount :=
  ⟨⟨⟨rfl, rfl, rfl, rfl⟩, rfl, rfl, fun hf => ⟨hf.present, hf.writable, hf.outcomes⟩⟩, rfl, rfl⟩

theorem still_loadSector {sector : Nat} {s : Sector} : Still v (loadSector v sector s) :=
  ⟨⟨⟨rfl, rfl, rfl, rfl⟩, rfl, rfl, fun hf => ⟨hf.present, hf.writable, hf.outcomes⟩⟩, rfl, rfl⟩

/-- The memory table holds what is on disk. -/
def InSync (v : Volume) : Prop := ∀ i < v.zfsSuper.entries, v.zfsEntries i = v.diskEntry i

theorem loadSectors_spec {left sector : Nat} (hs : sector + left < v.ata0.sectors) :
    wp (loadSectors left sector)
      (fun r v' => Still v v' ∧
        (r = fsSuccess .mount ∧
            (∀ i, v'.zfsEntries i = if sector ≤ i / 8 ∧ i / 8 < sector + left then v.diskEntry i else v.zfsEntries i) ∨
          r.ok = false ∧ ¬v.Fit))
      (fun v' => ¬v.Fit ∧ Still v v') v := by
  induction left generalizing sector v with
  | zero =>
    rw [loadSectors, wp_pure]
    exact ⟨Still.refl v, .inl ⟨rfl, fun i => by rw [if_neg (by omega)]⟩⟩
  | succ left ih =>
    rw [loadSectors]
    refine wp_seq (zfsReadSector_spec (by omega)) ?_ ?_
    · rintro _ ⟨hf, os, rfl⟩
      exact ⟨hf, still_setOutcomes fun h => absurd h hf⟩
    · rintro r _ ⟨os, rfl, hos, rfl | ⟨b, rfl, hb, hf⟩⟩
      · have hstill : Still v (loadSector (v.setOutcomes os) sector (v.ata0.disk (1 + sector))) :=
          (still_setOutcomes hos).trans still_loadSector
        have hfit : ¬(loadSector (v.setOutcomes os) sector (v.ata0.disk (1 + sector))).Fit → ¬v.Fit :=
          fun h hf => h (hstill.fit hf)
        show wp (Mach.modify _ >>= fun _ => loadSectors left (sector + 1)) _ _ _
        rw [wp_bind, wp_modify]
        refine wp_mono (ih (v := loadSector (v.setOutcomes os) sector (v.ata0.disk (1 + sector))) ?_) ?_ ?_
        · show sector + 1 + left < v.ata0.sectors
          omega
        · rintro r v' ⟨hs', ⟨rfl, he⟩ | ⟨hr, hf⟩⟩
          · refine ⟨hstill.trans hs', .inl ⟨rfl, fun i => ?_⟩⟩
            rw [he, hstill.diskEntry]
            by_cases hi : i / 8 = sector
            · rw [if_neg (by omega), if_pos (by omega)]
              have : v.diskEntry i = ZfsEntry.decode (slice (v.ata0.disk (1 + sector)).bytes (entrySlotOffset i) 64) := by
                rw [← hi]
                rfl
              rw [this]
              exact if_pos hi
            · by_cases hin : sector + 1 ≤ i / 8 ∧ i / 8 < sector + 1 + left
              · rw [if_pos hin, if_pos (by omega)]
              · rw [if_neg hin, if_neg (by omega)]
                exact if_neg hi
          · exact ⟨hstill.trans hs', .inr ⟨hr, hfit hf⟩⟩
        · rintro v' ⟨hf, hs'⟩
          exact ⟨hfit hf, hstill.trans hs'⟩
      · show wp (zfsBlockFailure .mount b) _ _ _
        rw [zfsBlockFailure, wp_bind, wp_modify, wp_pure]
        exact ⟨(still_setOutcomes hos).trans still_unmount, .inr ⟨fsFromBlock_ok hb, hf⟩⟩

theorem loadEntriesResult_spec (hl : v.Laid) :
    wp loadEntriesResult
      (fun r v' => Still v v' ∧ (r = fsSuccess .mount ∧ InSync v' ∨ r.ok = false ∧ ¬v.Fit))
      (fun v' => ¬v.Fit ∧ Still v v') v := by
  unfold loadEntriesResult
  rw [wp_bind, wp_modify, wp_bind, wp_get]
  have hstill : Still v { v with zfsEntries := fun _ => .empty } :=
    ⟨⟨⟨rfl, rfl, rfl, rfl⟩, rfl, rfl, fun hf => ⟨hf.present, hf.writable, hf.outcomes⟩⟩, rfl, rfl⟩
  have hg := hl.geometry
  refine wp_mono (loadSectors_spec (v := { v with zfsEntries := fun _ => .empty }) ?_) ?_ ?_
  · show 0 + v.zfsSuper.entrySectors.toNat < v.ata0.sectors
    have := hg.dataAfter
    have := hg.onDevice
    omega
  · rintro r v' ⟨hs, ⟨rfl, he⟩ | ⟨hr, hf⟩⟩
    · refine ⟨hstill.trans hs, .inl ⟨rfl, fun i hi => ?_⟩⟩
      have hi' : i < v.zfsSuper.entries := by rwa [hs.zfsSuper] at hi
      rw [he, hs.diskEntry]
      refine if_pos ⟨Nat.zero_le _, ?_⟩
      have := hg.table
      show i / 8 < 0 + v.zfsSuper.entrySectors.toNat
      omega
    · exact ⟨hstill.trans hs, .inr ⟨hr, fun h => hf (hstill.fit h)⟩⟩
  · rintro v' ⟨hf, hs⟩
    exact ⟨fun h => hf (hstill.fit h), hstill.trans hs⟩

/-! ### Recovery -/

def ZfsEntry.isTransaction (e : ZfsEntry) : Bool := e.used ≠ 0 && e.type = zfsTypeTransaction

/-- No staged and no committed write: the entry is free, or in use for good. -/
structure Settled (e : ZfsEntry) : Prop where
  notTransaction : e.isTransaction = false
  notCommitted : e.isCommitted = false

/-- The entry a committed one replaces is still in use. -/
def Pending (n : Nat) (t : Nat → ZfsEntry) (i : Nat) : Prop :=
  (t i).reserved.toNat < n ∧ (t i).reserved.toNat ≠ i ∧ (t (t i).reserved.toNat).used ≠ 0

/-- The finished form of a committed entry. -/
def ZfsEntry.finish (e : ZfsEntry) : ZfsEntry := { e with flags := e.flags &&& ~~~zfsFlagCommitted, reserved := 0 }

/-- A property of the table that the entry writes of a recovery keep. -/
structure RecoveryKeeps (n : Nat) (I : (Nat → ZfsEntry) → Prop) : Prop where
  clear : ∀ t i, I t → i < n → (t i).isTransaction → I (Function.update t i .empty)
  clearOld : ∀ t i, I t → i < n → (t i).isCommitted → Pending n t i →
    I (Function.update t (t i).reserved.toNat .empty)
  finish : ∀ t i, I t → i < n → (t i).isCommitted → ¬Pending n t i → I (Function.update t i (t i).finish)

/-- What a recovery leaves of a volume: the device and every data sector. -/
structure SameData (v v' : Volume) : Prop extends Same v v' where
  data : ∀ lba, v.zfsSuper.dataStart.toNat ≤ lba → v'.ata0.disk lba = v.ata0.disk lba

theorem SameData.refl (v : Volume) : SameData v v := ⟨Same.refl v, fun _ _ => rfl⟩

theorem SameData.trans {u w : Volume} (h : SameData u v) (h' : SameData v w) : SameData u w :=
  ⟨h.toSame.trans h'.toSame, fun lba hlba => by rw [h'.data lba (by rwa [h.zfsSuper]), h.data lba hlba]⟩

theorem Still.sameData (h : Still v v') : SameData v v' := ⟨h.toSame, fun _ _ => by rw [h.disk]⟩

theorem Replaced.sameData {i : Nat} {e : ZfsEntry} {landed : Bool} (h : Replaced v v' i e landed) (hl : v.Laid)
    (hi : i < v.zfsSuper.entries) : SameData v v' :=
  ⟨h.same, fun lba hlba => h.others lba fun heq => by have := entrySector_lt_dataStart hl hi; omega⟩

/-- A volume in the middle of a recovery of `u`. -/
structure Recovering (I : (Nat → ZfsEntry) → Prop) (u v : Volume) : Prop extends SameData u v where
  table : I v.diskEntry

theorem Recovering.step {I : (Nat → ZfsEntry) → Prop} {u : Volume} {i : Nat} {e : ZfsEntry} {landed : Bool}
    (h : Recovering I u v) (hr : Replaced v v' i e landed) (hl : u.Laid) (hi : i < u.zfsSuper.entries)
    (hI : I (Function.update v.diskEntry i e)) : Recovering I u v' where
  toSameData := h.toSameData.trans (hr.sameData (h.laid hl) (by rwa [h.zfsSuper]))
  table := by
    rw [hr.disk]
    cases landed
    · exact h.table
    · exact hI

/-- A recovery that goes on: memory and disk agree. -/
structure InRecovery (I : (Nat → ZfsEntry) → Prop) (u v : Volume) : Prop extends Recovering I u v where
  inSync : InSync v
  mounted : v.zfsMounted = u.zfsMounted

theorem InSync.replaced {i : Nat} {e : ZfsEntry} (h : InSync v) (hr : Replaced v v' i e true)
    (he : v'.zfsEntries = Function.update v.zfsEntries i e) : InSync v' := by
  intro j hj
  rw [hr.same.zfsSuper] at hj
  rw [he, hr.disk, if_pos rfl]
  by_cases hji : j = i
  · subst hji
    rw [Function.update_self, Function.update_self]
  · rw [Function.update_of_ne hji, Function.update_of_ne hji, h j hj]

section Recover
variable {I : (Nat → ZfsEntry) → Prop} {u : Volume}

theorem replaceEntryResult_recovery {i : Nat} {e : ZfsEntry} (hl : u.Laid) (h : InRecovery I u v)
    (hi : i < u.zfsSuper.entries) (hI : I (Function.update v.diskEntry i e)) :
    wp (replaceEntryResult i e .recover)
      (fun r v' =>
        (r = fsSuccess .recover ∧ InRecovery I u v' ∧ v'.diskEntry = Function.update v.diskEntry i e) ∨
          r.ok = false ∧ ¬u.Fit ∧ Recovering I u v')
      (fun v' => ¬u.Fit ∧ Recovering I u v') v := by
  refine wp_mono (replaceEntryResult_spec (h.laid hl) (by rwa [h.zfsSuper])) ?_ ?_
  · rintro r v' (⟨rfl, hr, he, hm⟩ | ⟨hok, hf, ⟨landed, hr⟩, -, -⟩)
    · refine .inl ⟨rfl, ⟨h.toRecovering.step hr hl hi hI, h.inSync.replaced hr he, hm.trans h.mounted⟩, ?_⟩
      rw [hr.disk, if_pos rfl]
    · exact .inr ⟨hok, fun hu => hf (h.fit hu), h.toRecovering.step hr hl hi hI⟩
  · rintro v' ⟨hf, landed, hr⟩
    exact ⟨fun hu => hf (h.fit hu), h.toRecovering.step hr hl hi hI⟩

/-- What a recovery loop leaves: `Q` of the table when it goes through. -/
def LoopSpec (I : (Nat → ZfsEntry) → Prop) (u : Volume) (Q : (Nat → ZfsEntry) → Prop) (m : Mach Volume (Except FsResult Nat))
    (v : Volume) : Prop :=
  wp m
    (fun r v' => (∃ recovered, r = .ok recovered ∧ InRecovery I u v' ∧ Q v'.diskEntry) ∨
      ∃ failed, r = .error failed ∧ failed.ok = false ∧ ¬u.Fit ∧ Recovering I u v')
    (fun v' => ¬u.Fit ∧ Recovering I u v') v

theorem clearTransactions_spec (hk : RecoveryKeeps u.zfsSuper.entries I) (hl : u.Laid) {left i : Nat} (recovered : Nat)
    (h : InRecovery I u v) (hn : i + left = u.zfsSuper.entries) (hdone : ∀ j < i, (v.diskEntry j).isTransaction = false) :
    LoopSpec I u (fun t => ∀ j < u.zfsSuper.entries, (t j).isTransaction = false) (clearTransactions left i recovered) v := by
  unfold LoopSpec
  induction left generalizing i recovered v with
  | zero =>
    rw [clearTransactions, wp_pure]
    exact .inl ⟨recovered, rfl, h, fun j hj => hdone j (by omega)⟩
  | succ left ih =>
    have hi : i < u.zfsSuper.entries := by omega
    have hsync : v.zfsEntries i = v.diskEntry i := h.inSync i (by rwa [h.zfsSuper])
    rw [clearTransactions, wp_bind, wp_get, hsync]
    refine wp_ite (fun hskip => ?_) fun hgo => ?_
    · refine ih _ h (by omega) fun j hj => ?_
      rcases Nat.lt_succ_iff_lt_or_eq.mp hj with hj | rfl
      · exact hdone j hj
      · unfold ZfsEntry.isTransaction
        rcases hskip with hskip | hskip <;> simp [hskip]
    · have htr : (v.diskEntry i).isTransaction = true := by
        unfold ZfsEntry.isTransaction
        simpa [not_or] using hgo
      refine wp_seq (replaceEntryResult_recovery hl h hi (hk.clear _ i h.table hi htr)) (fun _ hc => hc) ?_
      rintro r v' (⟨rfl, h', ht⟩ | ⟨hok, hf, h'⟩)
      · rw [if_pos (fsSuccess_ok _ _)]
        refine ih _ h' (by omega) fun j hj => ?_
        rw [ht]
        rcases Nat.lt_succ_iff_lt_or_eq.mp hj with hj | rfl
        · rw [Function.update_of_ne (Nat.ne_of_lt hj)]
          exact hdone j hj
        · rw [Function.update_self]
          rfl
      · rw [if_neg (by simp [hok]), wp_pure]
        exact .inr ⟨r, rfl, hok, hf, h'⟩

theorem isTransaction_update {t : Nat → ZfsEntry} {n i : Nat} {e : ZfsEntry} (h : ∀ j < n, (t j).isTransaction = false)
    (he : e.isTransaction = false) : ∀ j < n, (Function.update t i e j).isTransaction = false := by
  intro j hj
  by_cases hji : j = i
  · subst hji
    rwa [Function.update_self]
  · rw [Function.update_of_ne hji]
    exact h j hj

theorem isCommitted_finish (e : ZfsEntry) : e.finish.isCommitted = false := by
  have h : e.flags &&& ~~~zfsFlagCommitted &&& zfsFlagCommitted = 0 := by
    rw [UInt16.and_assoc]
    simp
  unfold ZfsEntry.isCommitted ZfsEntry.finish
  simp [h]

theorem isTransaction_finish {e : ZfsEntry} (h : e.isCommitted) : e.finish.isTransaction = false := by
  unfold ZfsEntry.isCommitted at h
  simp only [Bool.and_eq_true, decide_eq_true_eq] at h
  unfold ZfsEntry.isTransaction ZfsEntry.finish
  simp [h.1.2, zfsTypeFile, zfsTypeTransaction]

/-- Clearing the replaced entry of the committed entry `i`, where it is still there. -/
theorem clearOld_spec (hk : RecoveryKeeps u.zfsSuper.entries I) (hl : u.Laid) {i : Nat} (h : InRecovery I u v)
    (hi : i < u.zfsSuper.entries) (hc : (v.diskEntry i).isCommitted) :
    wp (clearOld i (v.diskEntry i).reserved.toNat)
      (fun r v' =>
        (r.ok = true ∧ InRecovery I u v' ∧ ¬Pending u.zfsSuper.entries v'.diskEntry i ∧
          v'.diskEntry i = v.diskEntry i ∧ ∀ j, v'.diskEntry j = v.diskEntry j ∨ v'.diskEntry j = .empty) ∨
          r.ok = false ∧ ¬u.Fit ∧ Recovering I u v')
      (fun v' => ¬u.Fit ∧ Recovering I u v') v := by
  have hsync : ∀ j < u.zfsSuper.entries, v.zfsEntries j = v.diskEntry j := fun j hj => h.inSync j (by rwa [h.zfsSuper])
  rw [clearOld, wp_bind, wp_get, h.zfsSuper]
  refine wp_ite (fun hgo => ?_) fun hskip => ?_
  · obtain ⟨hold, hne, hused⟩ := hgo
    rw [hsync _ hold] at hused
    have hI := hk.clearOld _ i h.table hi hc ⟨hold, hne, hused⟩
    refine wp_mono (replaceEntryResult_recovery hl h hold hI) ?_ fun _ hc => hc
    rintro r v' (⟨rfl, h', ht⟩ | hfail)
    · have hsame : v'.diskEntry i = v.diskEntry i := by rw [ht, Function.update_of_ne hne.symm]
      refine .inl ⟨rfl, h', ?_, hsame, fun j => ?_⟩
      · rintro ⟨-, -, hu⟩
        rw [hsame, ht, Function.update_self] at hu
        exact hu rfl
      · rw [ht]
        by_cases hj : j = (v.diskEntry i).reserved.toNat
        · subst hj
          rw [Function.update_self]
          exact .inr rfl
        · rw [Function.update_of_ne hj]
          exact .inl rfl
    · exact .inr hfail
  · rw [wp_pure]
    refine .inl ⟨rfl, h, ?_, rfl, fun _ => .inl rfl⟩
    rintro ⟨hold, hne, hused⟩
    exact hskip ⟨hold, hne, by rwa [hsync _ hold]⟩

theorem finalizeCommitted_spec (hk : RecoveryKeeps u.zfsSuper.entries I) (hl : u.Laid) {left i : Nat} (recovered : Nat)
    (h : InRecovery I u v) (hn : i + left = u.zfsSuper.entries)
    (htr : ∀ j < u.zfsSuper.entries, (v.diskEntry j).isTransaction = false)
    (hdone : ∀ j < i, (v.diskEntry j).isCommitted = false) :
    LoopSpec I u (fun t => ∀ j < u.zfsSuper.entries, Settled (t j)) (finalizeCommitted left i recovered) v := by
  unfold LoopSpec
  induction left generalizing i recovered v with
  | zero =>
    rw [finalizeCommitted, wp_pure]
    exact .inl ⟨recovered, rfl, h, fun j hj => ⟨htr j hj, hdone j (by omega)⟩⟩
  | succ left ih =>
    have hi : i < u.zfsSuper.entries := by omega
    have hsync : v.zfsEntries i = v.diskEntry i := h.inSync i (by rwa [h.zfsSuper])
    rw [finalizeCommitted, wp_bind, wp_get]
    simp only [hsync]
    refine wp_ite (fun hskip => ?_) fun hgo => ?_
    · refine ih _ h (by omega) htr fun j hj => ?_
      rcases Nat.lt_succ_iff_lt_or_eq.mp hj with hj | rfl
      · exact hdone j hj
      · simpa using hskip
    · have hc : (v.diskEntry i).isCommitted = true := by simpa using hgo
      refine wp_seq (clearOld_spec hk hl h hi hc) (fun _ hc => hc) ?_
      rintro r v₁ (⟨hok, h₁, hpend, hsame, hothers⟩ | ⟨hok, hf, h₁⟩)
      · rw [if_neg (by simp [hok])]
        have hI := hk.finish _ i h₁.table hi (by rwa [hsame]) hpend
        rw [hsame] at hI
        refine wp_seq (replaceEntryResult_recovery hl h₁ hi hI) (fun _ hc => hc) ?_
        rintro r v₂ (⟨rfl, h₂, ht⟩ | ⟨hok, hf, h₂⟩)
        · rw [if_pos (fsSuccess_ok _ _)]
          have htr₁ : ∀ j < u.zfsSuper.entries, (v₁.diskEntry j).isTransaction = false := by
            intro j hj
            rcases hothers j with hj' | hj' <;> rw [hj']
            · exact htr j hj
            · rfl
          refine ih _ h₂ (by omega) ?_ fun j hj => ?_
          · rw [ht]
            exact isTransaction_update htr₁ (isTransaction_finish hc)
          · rw [ht]
            rcases Nat.lt_succ_iff_lt_or_eq.mp hj with hj | rfl
            · rw [Function.update_of_ne (Nat.ne_of_lt hj)]
              rcases hothers j with hj' | hj' <;> rw [hj']
              · exact hdone j hj
              · rfl
            · rw [Function.update_self]
              exact isCommitted_finish _
        · rw [if_neg (by simp [hok]), wp_pure]
          exact .inr ⟨r, rfl, hok, hf, h₂⟩
      · rw [if_pos (by simp [hok]), wp_pure]
        exact .inr ⟨r, rfl, hok, hf, h₁⟩

/-- Recovery keeps `I` wherever it stops, and leaves a settled table when it succeeds. -/
theorem recoverTransactionsResult_spec (hk : RecoveryKeeps u.zfsSuper.entries I) (hl : u.Laid) (hs : InSync u)
    (hI : I u.diskEntry) :
    wp recoverTransactionsResult
      (fun r v' =>
        (r.status = .ok ∧ InRecovery I u v' ∧ ∀ j < u.zfsSuper.entries, Settled (v'.diskEntry j)) ∨
          r.ok = false ∧ ¬u.Fit ∧ Recovering I u v')
      (fun v' => ¬u.Fit ∧ Recovering I u v') u := by
  have h : InRecovery I u u := ⟨⟨SameData.refl u, hI⟩, hs, rfl⟩
  unfold recoverTransactionsResult
  rw [wp_bind, wp_get]
  have hclear := clearTransactions_spec hk hl 0 h (Nat.zero_add _) fun j hj => absurd hj (Nat.not_lt_zero j)
  refine wp_seq hclear (fun _ hc => hc) ?_
  rintro r v₁ (⟨recovered, rfl, h₁, htr⟩ | ⟨failed, rfl, hok, hf, h₁⟩)
  · have hfinal := finalizeCommitted_spec hk hl recovered h₁ (Nat.zero_add _) htr
      fun j hj => absurd hj (Nat.not_lt_zero j)
    refine wp_seq hfinal (fun _ hc => hc) ?_
    rintro r v₂ (⟨recovered, rfl, h₂, hsettled⟩ | ⟨failed, rfl, hok, hf, h₂⟩)
    · exact .inl ⟨rfl, h₂, hsettled⟩
    · exact .inr ⟨hok, hf, h₂⟩
  · exact .inr ⟨hok, hf, h₁⟩

end Recover

end ZenovOS.Storage
