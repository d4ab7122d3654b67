import ZenovOS.Theorems.Storage.Files

/-! # A write of a file

`write_file_result` puts the new content into a free slot, stages an entry for it, commits the entry,
clears the entry it replaces and finalises. Whatever request is the last one, the table on disk is of
one of two kinds: nothing is visible of the write (`Untouched`), or the new entry has taken over
(`Switched`). A recovery keeps a table in its kind. -/

namespace ZenovOS.Storage
open Bytes Mach Volume

variable {v v' : Volume}

/-! ### The two kinds of tables -/

/-- The table `t` shows what `T` showed: a free entry may have become a staged one. -/
def Untouched (n : Nat) (T t : Nat → ZfsEntry) : Prop :=
  ∀ i < n, t i = T i ∨ (T i).used = 0 ∧ ((t i).used = 0 ∨ (t i).isTransaction = true)

/-- The new entry, staged as `stage` in entry `s`, has taken over from the old entry `o`. -/
structure Switched (n : Nat) (T : Nat → ZfsEntry) (s : Nat) (stage : ZfsEntry) (o : Option Nat) (t : Nat → ZfsEntry) :
    Prop where
  others : ∀ i < n, i ≠ s → some i ≠ o → t i = T i
  new : t s = stage.commit ∧ (∀ i, o = some i → t i = T i ∨ t i = .empty) ∨
    t s = stage.finalize ∧ ∀ i, o = some i → t i = .empty

/-- A place for a new entry: `s` is free, and `o` is the entry that is replaced. -/
structure Place (n : Nat) (T : Nat → ZfsEntry) (s : Nat) (o : Option Nat) : Prop where
  staging : s < n
  free : (T s).used = 0
  old : ∀ i, o = some i → i < n ∧ (T i).used ≠ 0

theorem Place.ne {n : Nat} {T : Nat → ZfsEntry} {s : Nat} {o : Option Nat} (h : Place n T s o) {i : Nat}
    (hi : o = some i) : i ≠ s := by
  rintro rfl
  exact (h.old i hi).2 h.free

theorem used_of_isTransaction {e : ZfsEntry} (h : e.isTransaction = true) :
    e.used ≠ 0 ∧ e.type = zfsTypeTransaction := by
  unfold ZfsEntry.isTransaction at h
  simpa using h

theorem isTransaction_of_unused {e : ZfsEntry} (h : e.used = 0) : e.isTransaction = false := by
  simp [ZfsEntry.isTransaction, h]

theorem isCommitted_of_unused {e : ZfsEntry} (h : e.used = 0) : e.isCommitted = false := by
  simp [ZfsEntry.isCommitted, h]

theorem not_isCommitted_of_isTransaction {e : ZfsEntry} (h : e.isTransaction = true) : e.isCommitted = false := by
  simp [ZfsEntry.isCommitted, (used_of_isTransaction h).2, zfsTypeFile, zfsTypeTransaction]

section Kinds
variable {n : Nat} {T : Nat → ZfsEntry}

theorem recoveryKeeps_untouched (hT : ∀ i < n, Settled (T i)) : RecoveryKeeps n (Untouched n T) := by
  have hnc : ∀ {t i}, Untouched n T t → i < n → (t i).isCommitted = true → False := by
    intro t i h hi hc
    rcases h i hi with he | ⟨-, hu | htr⟩
    · rw [he, (hT i hi).notCommitted] at hc
      exact Bool.noConfusion hc
    · rw [isCommitted_of_unused hu] at hc
      exact Bool.noConfusion hc
    · rw [not_isCommitted_of_isTransaction htr] at hc
      exact Bool.noConfusion hc
  refine ⟨fun t i h hi htr j hj => ?_, fun t i h hi hc _ => (hnc h hi hc).elim, fun t i h hi hc _ => (hnc h hi hc).elim⟩
  by_cases hji : j = i
  · subst hji
    rw [Function.update_self]
    rcases h j hj with he | ⟨hu, -⟩
    · rw [he, (hT j hj).notTransaction] at htr
      exact Bool.noConfusion htr
    · exact .inr ⟨hu, .inl rfl⟩
  · rw [Function.update_of_ne hji]
    exact h j hj

variable {s : Nat} {o : Option Nat} {stage : ZfsEntry}

/-- What is staged in the entry for a write of `path`. -/
structure Stages (n : Nat) (stage : ZfsEntry) (o : Option Nat) : Prop where
  used : stage.used ≠ 0
  type : stage.type = zfsTypeTransaction
  flags : stage.flags = 0
  reserved : stage.reserved.toNat < n ↔ o.isSome
  old : ∀ i, o = some i → stage.reserved.toNat = i

theorem commit_isTransaction (stage : ZfsEntry) : stage.commit.isTransaction = false := by
  simp [ZfsEntry.isTransaction, ZfsEntry.commit, zfsTypeFile, zfsTypeTransaction]

theorem finalize_settled (stage : ZfsEntry) : Settled stage.finalize := by
  constructor <;> simp [ZfsEntry.isTransaction, ZfsEntry.isCommitted, ZfsEntry.finalize, zfsTypeFile, zfsTypeTransaction]

theorem commit_finish (stage : ZfsEntry) : stage.commit.finish = stage.finalize := by
  have hflags : zfsFlagCommitted &&& ~~~zfsFlagCommitted = 0 := by decide
  unfold ZfsEntry.finish ZfsEntry.finalize ZfsEntry.commit
  rw [hflags]

theorem Switched.settled_of_ne {t : Nat → ZfsEntry} (hT : ∀ i < n, Settled (T i)) (h : Switched n T s stage o t) {i : Nat}
    (hi : i < n) (his : i ≠ s) : Settled (t i) := by
  have hempty : Settled .empty := ⟨rfl, rfl⟩
  by_cases hio : some i = o
  · rcases h.new with ⟨-, hold⟩ | ⟨-, hold⟩
    · rcases hold i hio.symm with he | he <;> rw [he]
      · exact hT i hi
      · exact hempty
    · rw [hold i hio.symm]
      exact hempty
  · rw [h.others i hi his hio]
    exact hT i hi

theorem Switched.eq_of_isCommitted {t : Nat → ZfsEntry} (hT : ∀ i < n, Settled (T i)) (h : Switched n T s stage o t)
    {i : Nat} (hi : i < n) (hc : (t i).isCommitted = true) :
    i = s ∧ t s = stage.commit ∧ ∀ j, o = some j → t j = T j ∨ t j = .empty := by
  have his : i = s := by
    by_contra hne
    rw [(h.settled_of_ne hT hi hne).notCommitted] at hc
    exact Bool.noConfusion hc
  subst his
  rcases h.new with ⟨he, hold⟩ | ⟨he, -⟩
  · exact ⟨rfl, he, hold⟩
  · rw [he, (finalize_settled stage).notCommitted] at hc
    exact Bool.noConfusion hc

theorem recoveryKeeps_switched (hT : ∀ i < n, Settled (T i)) (hp : Place n T s o) (hs : Stages n stage o) :
    RecoveryKeeps n (Switched n T s stage o) := by
  have hres : stage.commit.reserved = stage.reserved := rfl
  refine ⟨fun t i h hi htr => ?_, fun t i h hi hc hpend => ?_, fun t i h hi hc hpend => ?_⟩
  · exfalso
    by_cases his : i = s
    · subst his
      rcases h.new with ⟨he, -⟩ | ⟨he, -⟩
      · rw [he, commit_isTransaction] at htr
        exact Bool.noConfusion htr
      · rw [he, (finalize_settled stage).notTransaction] at htr
        exact Bool.noConfusion htr
    · rw [(h.settled_of_ne hT hi his).notTransaction] at htr
      exact Bool.noConfusion htr
  · obtain ⟨rfl, he, -⟩ := h.eq_of_isCommitted hT hi hc
    obtain ⟨hlt, hne, -⟩ := hpend
    rw [he, hres] at hlt hne ⊢
    obtain ⟨j, ho⟩ := Option.isSome_iff_exists.mp (hs.reserved.mp hlt)
    have hj := hs.old j ho
    rw [hj] at hne ⊢
    refine ⟨fun k hk hks hko => ?_, .inl ⟨?_, fun k hk => .inr ?_⟩⟩
    · rw [Function.update_of_ne (by rintro rfl; exact hko ho.symm)]
      exact h.others k hk hks hko
    · rw [Function.update_of_ne hne.symm]
      exact he
    · rw [ho, Option.some.injEq] at hk
      rw [hk, Function.update_self]
  · obtain ⟨rfl, he, hold⟩ := h.eq_of_isCommitted hT hi hc
    rw [he, commit_finish]
    refine ⟨fun k hk hks hko => ?_, .inr ⟨Function.update_self .., fun k hk => ?_⟩⟩
    · rw [Function.update_of_ne hks]
      exact h.others k hk hks hko
    · rw [Function.update_of_ne (hp.ne hk)]
      rcases hold k hk with hk' | hk'
      · -- the old entry is still in use, so the recovery would have cleared it first
        refine absurd ⟨?_, ?_, ?_⟩ hpend
        · rw [he, hres, hs.old k hk]
          exact (hp.old k hk).1
        · rw [he, hres, hs.old k hk]
          exact hp.ne hk
        · rw [he, hres, hs.old k hk, hk']
          exact (hp.old k hk).2
      · exact hk'

end Kinds

/-! ### The metadata writes -/

/-- The table without the replaced entry. -/
def clearAt (o : Option Nat) (t : Nat → ZfsEntry) : Nat → ZfsEntry := o.elim t fun i => Function.update t i .empty

/-- The table after a complete write. -/
def written (s : Nat) (stage : ZfsEntry) (o : Option Nat) (t : Nat → ZfsEntry) : Nat → ZfsEntry :=
  Function.update (clearAt o t) s stage.finalize

section Commit
variable {n s : Nat} {T : Nat → ZfsEntry} {o : Option Nat} {stage e : ZfsEntry}

theorem clearAt_of_ne {i : Nat} (h : some i ≠ o) (t : Nat → ZfsEntry) : clearAt o t i = t i := by
  cases o with
  | none => rfl
  | some j => exact Function.update_of_ne (by rintro rfl; exact h rfl) _ _

theorem clearAt_old {i : Nat} (h : o = some i) (t : Nat → ZfsEntry) : clearAt o t i = .empty := by
  subst h
  exact Function.update_self ..

theorem untouched_stage (hp : Place n T s o) (he : e.isTransaction = true) : Untouched n T (Function.update T s e) := by
  intro i _
  by_cases his : i = s
  · subst his
    rw [Function.update_self]
    exact .inr ⟨hp.free, .inr he⟩
  · exact .inl (Function.update_of_ne his _ _)

theorem switched_commit (hp : Place n T s o) : Switched n T s stage o (Function.update T s stage.commit) where
  others _ _ his _ := Function.update_of_ne his _ _
  new := .inl ⟨Function.update_self .., fun _ hi => .inl (Function.update_of_ne (hp.ne hi) _ _)⟩

theorem switched_clear (hp : Place n T s o) :
    Switched n T s stage o (clearAt o (Function.update T s stage.commit)) where
  others i _ his hio := by
    rw [clearAt_of_ne hio]
    exact Function.update_of_ne his _ _
  new := by
    refine .inl ⟨?_, fun i hi => .inr (clearAt_old hi _)⟩
    rw [clearAt_of_ne fun hs => hp.ne hs.symm rfl]
    exact Function.update_self ..

theorem written_update (hp : Place n T s o) (t : Nat → ZfsEntry) (e : ZfsEntry) :
    Function.update (clearAt o (Function.update t s e)) s stage.finalize = written s stage o t := by
  unfold written
  cases o with
  | none => exact Function.update_idem ..
  | some i =>
    show Function.update (Function.update (Function.update t s e) i .empty) s _ = _
    rw [Function.update_comm (hp.ne rfl).symm, Function.update_idem]
    rfl

theorem written_congr {t t' : Nat → ZfsEntry} (h : ∀ i < n, t' i = t i) {i : Nat} (hi : i < n) :
    written s stage o t' i = written s stage o t i := by
  unfold written
  by_cases his : i = s
  · subst his
    rw [Function.update_self, Function.update_self]
  · rw [Function.update_of_ne his, Function.update_of_ne his]
    by_cases hio : some i = o
    · rw [clearAt_old hio.symm, clearAt_old hio.symm]
    · rw [clearAt_of_ne hio, clearAt_of_ne hio, h i hi]

theorem switched_written (hp : Place n T s o) : Switched n T s stage o (written s stage o T) where
  others i _ his hio := by
    unfold written
    rw [Function.update_of_ne his, clearAt_of_ne hio]
  new := by
    refine .inr ⟨Function.update_self .., fun i hi => ?_⟩
    unfold written
    rw [Function.update_of_ne (hp.ne hi), clearAt_old hi]

end Commit

/-- How the metadata writes of a file end: with the new entry in place, with the rest left to recovery, or
    with a failure. -/
inductive Committed (v v' : Volume) (s : Nat) (stage : ZfsEntry) (o : Option Nat) (total : Nat) : FsResult → Prop
  | done (disk : v'.diskEntry = written s stage o v.diskEntry) (entries : v'.zfsEntries = written s stage o v.zfsEntries)
      (mounted : v'.zfsMounted = v.zfsMounted) : Committed v v' s stage o total (fsSuccess .write total)
  | pending {r : FsResult} (status : r.status = .recoveryPending) (mounted : v'.zfsMounted = false) (fit : ¬v.Fit)
      (disk : Switched v.zfsSuper.entries v.diskEntry s stage o v'.diskEntry) : Committed v v' s stage o total r
  | failed {r : FsResult} (ok : r.ok = false) (mounted : v'.zfsMounted = false) (fit : ¬v.Fit)
      (disk : Untouched v.zfsSuper.entries v.diskEntry v'.diskEntry ∨
        Switched v.zfsSuper.entries v.diskEntry s stage o v'.diskEntry) : Committed v v' s stage o total r

theorem Replaced.disk_cases {i : Nat} {e : ZfsEntry} {landed : Bool} (h : Replaced v v' i e landed) :
    v'.diskEntry = v.diskEntry ∨ v'.diskEntry = Function.update v.diskEntry i e := by
  rw [h.disk]
  cases landed
  · exact .inl rfl
  · exact .inr rfl

theorem clearReplaced_spec {o : Option Nat} (hl : v.Laid) (ho : ∀ i, o = some i → i < v.zfsSuper.entries) :
    wp (clearReplaced o)
      (fun r v' => SameData v v' ∧
        (r.ok = true ∧ v'.diskEntry = clearAt o v.diskEntry ∧ v'.zfsEntries = clearAt o v.zfsEntries ∧
            v'.zfsMounted = v.zfsMounted ∨
          r.ok = false ∧ ¬v.Fit ∧ (v'.diskEntry = v.diskEntry ∨ v'.diskEntry = clearAt o v.diskEntry) ∧
            v'.zfsMounted = false))
      (fun v' => ¬v.Fit ∧ SameData v v' ∧ (v'.diskEntry = v.diskEntry ∨ v'.diskEntry = clearAt o v.diskEntry)) v := by
  cases o with
  | none =>
    rw [clearReplaced, wp_pure]
    exact ⟨SameData.refl v, .inl ⟨rfl, rfl, rfl, rfl⟩⟩
  | some i =>
    have hi := ho i rfl
    refine wp_mono (replaceEntryResult_spec hl hi) ?_ ?_
    · rintro r v' (⟨rfl, hr, he, hm⟩ | ⟨hok, hf, ⟨landed, hr⟩, he, hm⟩)
      · exact ⟨hr.sameData hl hi, .inl ⟨rfl, hr.disk, he, hm⟩⟩
      · exact ⟨hr.sameData hl hi, .inr ⟨hok, hf, hr.disk_cases, hm⟩⟩
    · rintro v' ⟨hf, landed, hr⟩
      exact ⟨hf, hr.sameData hl hi, hr.disk_cases⟩

theorem commitStage_spec {s total : Nat} {stage : ZfsEntry} {o : Option Nat} (hl : v.Laid)
    (hp : Place v.zfsSuper.entries v.diskEntry s o) (hs : Stages v.zfsSuper.entries stage o) :
    wp (commitStage s stage o total)
      (fun r v' => SameData v v' ∧ Committed v v' s stage o total r)
      (fun v' => ¬v.Fit ∧ SameData v v' ∧ (Untouched v.zfsSuper.entries v.diskEntry v'.diskEntry ∨
        Switched v.zfsSuper.entries v.diskEntry s stage o v'.diskEntry)) v := by
  have hstage : stage.isTransaction = true := by
    simp [ZfsEntry.isTransaction, hs.used, hs.type]
  have huntouched : Untouched v.zfsSuper.entries v.diskEntry v.diskEntry := fun _ _ => .inl rfl
  unfold commitStage
  -- stage the entry
  refine wp_seq (replaceEntryResult_spec hl hp.staging) ?_ ?_
  · rintro v₁ ⟨hf, landed, hr⟩
    refine ⟨hf, hr.sameData hl hp.staging, .inl ?_⟩
    rcases hr.disk_cases with hd | hd <;> rw [hd]
    · exact huntouched
    · exact untouched_stage hp hstage
  rintro r v₁ (⟨rfl, hr₁, he₁, hm₁⟩ | ⟨hok, hf, ⟨landed, hr₁⟩, -, hm₁⟩)
  swap
  · rw [if_pos (by simp [hok]), wp_pure]
    refine ⟨hr₁.sameData hl hp.staging, .failed hok hm₁ hf (.inl ?_)⟩
    rcases hr₁.disk_cases with hd | hd <;> rw [hd]
    · exact huntouched
    · exact untouched_stage hp hstage
  rw [if_neg (by simp)]
  have hd₁ : v₁.diskEntry = Function.update v.diskEntry s stage := hr₁.disk
  have hs₁ : SameData v v₁ := hr₁.sameData hl hp.staging
  have hn₁ : v₁.zfsSuper.entries = v.zfsSuper.entries := by rw [hs₁.zfsSuper]
  have hl₁ := hs₁.laid hl
  have hfit₁ : ¬v₁.Fit → ¬v.Fit := fun h hf => h (hs₁.fit hf)
  -- commit it
  have hcommit : ∀ {w : Volume}, w.diskEntry = v₁.diskEntry ∨ w.diskEntry = Function.update v₁.diskEntry s stage.commit →
      Untouched v.zfsSuper.entries v.diskEntry w.diskEntry ∨
        Switched v.zfsSuper.entries v.diskEntry s stage o w.diskEntry := by
    rintro w (hd | hd) <;> rw [hd, hd₁]
    · exact .inl (untouched_stage hp hstage)
    · rw [Function.update_idem]
      exact .inr (switched_commit hp)
  refine wp_seq (replaceEntryResult_spec hl₁ (by rw [hn₁]; exact hp.staging)) ?_ ?_
  · rintro v₂ ⟨hf, landed, hr⟩
    exact ⟨hfit₁ hf, hs₁.trans (hr.sameData hl₁ (by rw [hn₁]; exact hp.staging)), hcommit hr.disk_cases⟩
  rintro r v₂ (⟨rfl, hr₂, he₂, hm₂⟩ | ⟨hok, hf, ⟨landed, hr₂⟩, -, hm₂⟩)
  swap
  · rw [if_pos (by simp [hok]), wp_pure]
    exact ⟨hs₁.trans (hr₂.sameData hl₁ (by rw [hn₁]; exact hp.staging)),
      .failed hok hm₂ (hfit₁ hf) (hcommit hr₂.disk_cases)⟩
  rw [if_neg (by simp)]
  have hd₂ : v₂.diskEntry = Function.update v.diskEntry s stage.commit := by
    rw [hr₂.disk, if_pos rfl, hd₁, Function.update_idem]
  have hs₂ : SameData v v₂ := hs₁.trans (hr₂.sameData hl₁ (by rw [hn₁]; exact hp.staging))
  have hn₂ : v₂.zfsSuper.entries = v.zfsSuper.entries := by rw [hs₂.zfsSuper]
  have hfit₂ : ¬v₂.Fit → ¬v.Fit := fun h hf => h (hs₂.fit hf)
  -- clear the old entry
  have hclear : ∀ {w : Volume}, w.diskEntry = v₂.diskEntry ∨ w.diskEntry = clearAt o v₂.diskEntry →
      Switched v.zfsSuper.entries v.diskEntry s stage o w.diskEntry := by
    rintro w (hd | hd) <;> rw [hd, hd₂]
    · exact switched_commit hp
    · exact switched_clear hp
  refine wp_seq (clearReplaced_spec (hs₂.laid hl) fun i hi => by rw [hn₂]; exact (hp.old i hi).1) ?_ ?_
  · rintro v₃ ⟨hf, hs₃, hd₃⟩
    exact ⟨hfit₂ hf, hs₂.trans hs₃, .inr (hclear hd₃)⟩
  rintro r v₃ ⟨hs₃, ⟨hok, hd₃, he₃, hm₃⟩ | ⟨hok, hf, hd₃, hm₃⟩⟩
  swap
  · rw [if_pos (by simp [hok]), wp_pure]
    exact ⟨hs₂.trans hs₃, .pending rfl hm₃ (hfit₂ hf) (hclear hd₃)⟩
  rw [if_neg (by simp [hok])]
  have hs₃ := hs₂.trans hs₃
  have hn₃ : v₃.zfsSuper.entries = v.zfsSuper.entries := by rw [hs₃.zfsSuper]
  have hfit₃ : ¬v₃.Fit → ¬v.Fit := fun h hf => h (hs₃.fit hf)
  -- finalise the new one
  have hupd : Function.update v₃.diskEntry s stage.finalize = written s stage o v.diskEntry := by
    rw [hd₃, hd₂, written_update hp]
  have hfinal : ∀ {w : Volume}, w.diskEntry = v₃.diskEntry ∨ w.diskEntry = Function.update v₃.diskEntry s stage.finalize →
      Switched v.zfsSuper.entries v.diskEntry s stage o w.diskEntry := by
    rintro w (hd | hd) <;> rw [hd]
    · exact hclear (.inr hd₃)
    · rw [hupd]
      exact switched_written hp
  refine wp_seq (replaceEntryResult_spec (hs₃.laid hl) (by rw [hn₃]; exact hp.staging)) ?_ ?_
  · rintro v₄ ⟨hf, landed, hr⟩
    exact ⟨hfit₃ hf, hs₃.trans (hr.sameData (hs₃.laid hl) (by rw [hn₃]; exact hp.staging)), .inr (hfinal hr.disk_cases)⟩
  rintro r v₄ (⟨rfl, hr₄, he₄, hm₄⟩ | ⟨hok, hf, ⟨landed, hr₄⟩, -, hm₄⟩)
  · rw [if_neg (by simp), wp_pure]
    refine ⟨hs₃.trans (hr₄.sameData (hs₃.laid hl) (by rw [hn₃]; exact hp.staging)), .done ?_ ?_ ?_⟩
    · rw [hr₄.disk, if_pos rfl, hupd]
    · rw [he₄, he₃, he₂, he₁, Function.update_idem, written_update hp]
    · rw [hm₄, hm₃, hm₂, hm₁]
  · rw [if_pos (by simp [hok]), wp_pure]
    exact ⟨hs₃.trans (hr₄.sameData (hs₃.laid hl) (by rw [hn₃]; exact hp.staging)),
      .pending rfl hm₄ (hfit₃ hf) (hfinal hr₄.disk_cases)⟩

/-! ### Writing a file -/

/-- The slots of the entries in use hold what they held. -/
def SlotsKept (v v' : Volume) : Prop :=
  ∀ i < v.zfsSuper.entries, (v.diskEntry i).used ≠ 0 → v'.slotBytes i = v.slotBytes i

theorem SameData.slotBytes {i : Nat} (h : SameData v v') (hl : v.Laid) (hi : i < v.zfsSuper.entries) :
    v'.slotBytes i = v.slotBytes i := by
  unfold Volume.slotBytes
  rw [h.zfsSuper]
  refine sectorBytes_congr fun k _ => h.data _ ?_
  rw [dataSector_eq hl hi]
  omega

theorem Staged.diskEntry {s n i : Nat} (h : Staged v v' (v.zfsSuper.dataSector s) n) (hl : v.Laid)
    (hs : s < v.zfsSuper.entries) (hi : i < v.zfsSuper.entries) : v'.diskEntry i = v.diskEntry i := by
  have := entrySector_lt_dataStart hl hi
  have := dataSector_eq hl hs
  unfold Volume.diskEntry
  rw [h.others _ (.inl (by omega))]

theorem Staged.slotBytes {s n i : Nat} (h : Staged v v' (v.zfsSuper.dataSector s) n) (hl : v.Laid)
    (hs : s < v.zfsSuper.entries) (hn : n ≤ v.zfsSuper.slotSectors.toNat) (hi : i < v.zfsSuper.entries) (hne : i ≠ s) :
    v'.slotBytes i = v.slotBytes i := by
  unfold Volume.slotBytes
  rw [h.zfsSuper]
  refine sectorBytes_congr fun k hk => h.others _ ?_
  by_contra hin
  rw [not_or, Nat.not_lt, Nat.not_le] at hin
  obtain ⟨l, hl'⟩ := Nat.exists_eq_add_of_le hin.1
  exact dataSector_ne_dataSector hl hi hs hne hk (show l < _ by omega) hl'

theorem Untouched.congr {n : Nat} {T T' t : Nat → ZfsEntry} (hT : ∀ i < n, T' i = T i) (h : Untouched n T' t) :
    Untouched n T t := by
  intro i hi
  rw [← hT i hi]
  exact h i hi

theorem Switched.congr {n s : Nat} {T T' t : Nat → ZfsEntry} {o : Option Nat} {stage : ZfsEntry} (hT : ∀ i < n, T' i = T i)
    (hp : Place n T s o) (h : Switched n T' s stage o t) : Switched n T s stage o t where
  others i hi his hio := by rw [h.others i hi his hio, hT i hi]
  new := by
    refine h.new.imp (And.imp_right fun hold i hi => ?_) id
    rw [← hT i (hp.old i hi).1]
    exact hold i hi

theorem Place.congr {n s : Nat} {T T' : Nat → ZfsEntry} {o : Option Nat} (hT : ∀ i < n, T' i = T i) (hp : Place n T s o) : Place n T' s o := by
  obtain ⟨hs, hunused, hold⟩ := hp
  exact ⟨hs, by rw [hT s hs]; exact hunused, fun i hi => ⟨(hold i hi).1, by rw [hT i (hold i hi).1]; exact (hold i hi).2⟩⟩

theorem place_of_freeEntry {s : Nat} {o : Option Nat} (hsync : InSync v) (ho : ∀ i, o = some i → i < v.zfsSuper.entries ∧ (v.zfsEntries i).used ≠ 0)
    (hfree : v.freeEntry o = some s) : Place v.zfsSuper.entries v.diskEntry s o := by
  obtain ⟨hs, -, hunused⟩ := freeEntry_some hfree
  rw [hsync s hs] at hunused
  exact ⟨hs, hunused, fun i hi => ⟨(ho i hi).1, by rw [← hsync i (ho i hi).1]; exact (ho i hi).2⟩⟩

theorem Staged.content {s : Nat} {content : Bytes} (h : Staged v v' (v.zfsSuper.dataSector s) (sectorsFor content.length))
    (hsize : content.length ≤ v.zfsSuper.maxFileBytes) (hdata : content.length ≤ sectorsFor content.length * sectorSize →
      (sectorBytes v'.ata0.disk (v.zfsSuper.dataSector s) (sectorsFor content.length)).take content.length = content) :
    (v'.slotBytes s).take content.length = content := by
  have hslot : content.length ≤ v.zfsSuper.slotSectors.toNat * sectorSize := hsize.trans (maxFileBytes_le _)
  have hbytes := hdata (by unfold sectorsFor sectorSize; omega)
  rw [take_sectorBytes hslot] at hbytes
  unfold Volume.slotBytes
  rw [h.zfsSuper]
  exact hbytes

/-- The write has taken over: its entry is in place, and its slot holds the content. -/
structure NewSide (v v' : Volume) (path content : Bytes) (o : Option Nat) (s : Nat) : Prop where
  place : Place v.zfsSuper.entries v.diskEntry s o
  bytes : (v'.slotBytes s).take content.length = content
  table : Switched v.zfsSuper.entries v.diskEntry s (stageEntry path content o) o v'.diskEntry

/-- Nothing is visible of the write, or it has taken over. -/
def Sides (v v' : Volume) (path content : Bytes) (o : Option Nat) : Prop :=
  Untouched v.zfsSuper.entries v.diskEntry v'.diskEntry ∨ ∃ s, NewSide v v' path content o s

theorem pathCopy_eq {path copy : Bytes} {capacity : Nat} (h : pathCopy path capacity = some copy) : copy = path := by
  unfold pathCopy at h
  split at h
  · exact (Option.some.inj h).symm
  · cases h

/-- How a write of `content` ends. -/
inductive WriteEnd (v v' : Volume) (path content : Bytes) (o : Option Nat) : FsResult → Prop
  | done {s : Nat} (new : NewSide v v' path content o s)
      (disk : ∀ i < v.zfsSuper.entries, v'.diskEntry i = written s (stageEntry path content o) o v.diskEntry i)
      (entries : v'.zfsEntries = written s (stageEntry path content o) o v.zfsEntries)
      (mounted : v'.zfsMounted = v.zfsMounted) : WriteEnd v v' path content o (fsSuccess .write content.length)
  | pending {r : FsResult} {s : Nat} (status : r.status = .recoveryPending) (mounted : v'.zfsMounted = false)
      (fit : ¬v.Fit) (new : NewSide v v' path content o s) : WriteEnd v v' path content o r
  | failed {r : FsResult} (ok : r.ok = false) (sides : Sides v v' path content o)
      (mounted : v'.zfsMounted = true → v'.zfsEntries = v.zfsEntries ∧ ∀ i < v.zfsSuper.entries, v'.diskEntry i = v.diskEntry i) :
      WriteEnd v v' path content o r

theorem stageEntry_stages {n : Nat} {path content : Bytes} {o : Option Nat} (hn : n ≤ zfsMaxEntries)
    (ho : ∀ i, o = some i → i < n) : Stages n (stageEntry path content o) o := by
  have hmax : zfsMaxEntries = 128 := rfl
  have hreserved : ∀ i, o = some i → (stageEntry path content o).reserved.toNat = i := by
    rintro i rfl
    have := ho i rfl
    show (UInt32.ofNat i).toNat = i
    rw [UInt32.toNat_ofNat_of_lt']
    show i < 4294967296
    omega
  refine ⟨(by decide : (1 : UInt8) ≠ 0), rfl, rfl, ?_, hreserved⟩
  cases o with
  | none =>
    refine iff_of_false ?_ (by simp)
    show ¬(transactionNone.toNat < n)
    have : transactionNone.toNat = 4294967295 := rfl
    omega
  | some i => exact iff_of_true (by rw [hreserved i rfl]; exact ho i rfl) rfl

theorem writeContent_spec (path content : Bytes) (o : Option Nat) (hl : v.Laid) (hsync : InSync v)
    (ho : ∀ i, o = some i → i < v.zfsSuper.entries ∧ (v.zfsEntries i).used ≠ 0)
    (hsize : content.length ≤ v.zfsSuper.maxFileBytes) :
    wp (writeContent path o content)
      (fun r v' => Same v v' ∧ SlotsKept v v' ∧ WriteEnd v v' path content o r)
      (fun v' => ¬v.Fit ∧ Same v v' ∧ SlotsKept v v' ∧ Sides v v' path content o) v := by
  have hself : Untouched v.zfsSuper.entries v.diskEntry v.diskEntry := fun _ _ => .inl rfl
  unfold writeContent
  rw [wp_bind, wp_get]
  rcases hfree : v.freeEntry o with _ | s
  · exact ⟨Same.refl v, fun _ _ _ => rfl, .failed rfl (.inl hself) fun _ => ⟨rfl, fun _ _ => rfl⟩⟩
  have hplace := place_of_freeEntry hsync ho hfree
  have hs := hplace.staging
  have hunused := hplace.free
  have hslot : content.length ≤ v.zfsSuper.slotSectors.toNat * sectorSize := hsize.trans (maxFileBytes_le _)
  have hcount : sectorsFor content.length ≤ v.zfsSuper.slotSectors.toNat := by
    unfold sectorsFor sectorSize at *
    omega
  -- what staging leaves: the table, and the slots of the entries in use
  have hstaged : ∀ {w}, Staged v w (v.zfsSuper.dataSector s) (sectorsFor content.length) →
      SlotsKept v w ∧ Untouched v.zfsSuper.entries v.diskEntry w.diskEntry := fun h =>
    ⟨fun i hi hu => h.slotBytes hl hs hcount hi (by rintro rfl; exact hu hunused),
      fun i hi => .inl (h.diskEntry hl hs hi)⟩
  dsimp only
  refine wp_seq (stageSectors_spec fun k hk => dataSector_add_lt hl hs (hk.trans_le hcount)) ?_ ?_
  · rintro v₁ ⟨hf, h₁⟩
    exact ⟨hf, h₁.toSame, (hstaged h₁).1, .inl (hstaged h₁).2⟩
  rintro r v₁ ⟨h₁, ⟨rfl, hdata⟩ | ⟨b, n, rfl, hb, hf⟩⟩
  swap
  · show wp (zfsBlockFailure .write b n) _ _ _
    rw [zfsBlockFailure, wp_bind, wp_modify, wp_pure]
    exact ⟨h₁.toSame.trans still_unmount.toSame, (hstaged h₁).1,
      .failed (fsFromBlock_ok hb) (.inl (hstaged h₁).2) fun hm => by cases hm⟩
  dsimp only
  rcases hcopy : pathCopy path pathBytes with _ | path'
  · exact ⟨h₁.toSame, (hstaged h₁).1,
      .failed rfl (.inl (hstaged h₁).2) fun _ => ⟨h₁.zfsEntries, fun i hi => h₁.diskEntry hl hs hi⟩⟩
  obtain rfl : path = path' := (pathCopy_eq hcopy).symm
  have hl₁ := h₁.laid hl
  have hn₁ : v₁.zfsSuper.entries = v.zfsSuper.entries := by rw [h₁.zfsSuper]
  have hdisk₁ : ∀ i < v.zfsSuper.entries, v₁.diskEntry i = v.diskEntry i := fun i hi => h₁.diskEntry hl hs hi
  have hplace₁ : Place v₁.zfsSuper.entries v₁.diskEntry s o := hn₁ ▸ hplace.congr hdisk₁
  have hstages : Stages v₁.zfsSuper.entries (stageEntry path content o) o := hn₁ ▸ stageEntry_stages hl.geometry.few fun i hi => (ho i hi).1
  have hbytes := h₁.content hsize hdata
  -- what the metadata writes leave of that
  have hkept : ∀ {w}, SameData v₁ w → SlotsKept v w ∧ (w.slotBytes s).take content.length = content := fun h =>
    ⟨fun i hi hu => by rw [h.slotBytes hl₁ (by rwa [hn₁]), (hstaged h₁).1 i hi hu],
      by rw [h.slotBytes hl₁ (by rwa [hn₁]), hbytes]⟩
  have hsides : ∀ {w}, SameData v₁ w → (Untouched v₁.zfsSuper.entries v₁.diskEntry w.diskEntry ∨
      Switched v₁.zfsSuper.entries v₁.diskEntry s (stageEntry path content o) o w.diskEntry) →
      Sides v w path content o := by
    rintro w hw (h | h) <;> rw [hn₁] at h
    · exact .inl (h.congr hdisk₁)
    · exact .inr ⟨s, hplace, (hkept hw).2, h.congr hdisk₁ hplace⟩
  refine wp_mono (commitStage_spec hl₁ hplace₁ hstages) ?_ ?_
  · rintro r v₂ ⟨h₂, hend⟩
    refine ⟨h₁.toSame.trans h₂.toSame, (hkept h₂).1, ?_⟩
    cases hend with
    | done hdisk hentries hmounted =>
      have hsw : Switched v₁.zfsSuper.entries v₁.diskEntry s (stageEntry path content o) o v₂.diskEntry :=
        hdisk ▸ switched_written hplace₁
      rw [hn₁] at hsw
      refine .done ⟨hplace, (hkept h₂).2, hsw.congr hdisk₁ hplace⟩ (fun i hi => ?_) ?_ ?_
      · rw [hdisk]
        exact written_congr hdisk₁ hi
      · rw [hentries, h₁.zfsEntries]
      · rw [hmounted, h₁.zfsMounted]
    | pending hstatus hmounted hfit hsw =>
      rw [hn₁] at hsw
      exact .pending hstatus hmounted (fun h => hfit (h₁.fit h)) ⟨hplace, (hkept h₂).2, hsw.congr hdisk₁ hplace⟩
    | failed hok hmounted hfit hdisk => exact .failed hok (hsides h₂ hdisk) fun hm => by rw [hmounted] at hm; cases hm
  · rintro v₂ ⟨hf, h₂, hdisk⟩
    exact ⟨fun h => hf (h₁.fit h), h₁.toSame.trans h₂.toSame, (hkept h₂).1, hsides h₂ hdisk⟩

/-- The bytes an append keeps: those of the file that the normalised path names when it is normalised once
    more. -/
def KeptBytes (v : Volume) (path : Bytes) (append : Bool) (kept : Bytes) : Prop :=
  if append = true ∧ existingSize v (v.findEntry path) append ≠ 0 then
    ∃ again i, normalizePath v.currentDirectory path = some again ∧ v.findEntry again = some i ∧
      (v.zfsEntries i).type = zfsTypeFile ∧ (v.zfsEntries i).size.toNat ≤ v.zfsSuper.maxFileBytes ∧
      kept = v.content i (v.zfsEntries i) ∧ fnv1a kept = (v.zfsEntries i).checksum
  else kept = []

/-- A write that passes the checks of `write_file_result`. -/
structure Writes (v : Volume) (input data : Bytes) (append : Bool) (path kept : Bytes) : Prop where
  mounted : v.zfsMounted = true
  normal : normalizePath v.currentDirectory input = some path
  notRoot : path ≠ root
  parent : v.parentExists path = true
  file : ∀ i, v.findEntry path = some i → (v.zfsEntries i).type = zfsTypeFile
  keeps : KeptBytes v path append kept
  keptAll : kept.length = existingSize v (v.findEntry path) append
  fits : (kept ++ data).length ≤ v.zfsSuper.maxFileBytes

/-- How `write_file_result` ends. -/
inductive WriteFileEnd (v v' : Volume) (input data : Bytes) (append : Bool) : FsResult → Prop
  /-- Refused, or the old content could not be read. -/
  | refused {r : FsResult} (ok : r.ok = false) (disk : v'.ata0.disk = v.ata0.disk) (entries : v'.zfsEntries = v.zfsEntries) :
      WriteFileEnd v v' input data append r
  /-- The bytes read for an append are not as many as the entry has: reported as success, nothing written. -/
  | skipped {r : FsResult} {path kept : Bytes} (status : r.status = .ok) (disk : v'.ata0.disk = v.ata0.disk)
      (entries : v'.zfsEntries = v.zfsEntries) (mounted : v'.zfsMounted = v.zfsMounted) (isMounted : v.zfsMounted = true)
      (normal : normalizePath v.currentDirectory input = some path) (keeps : KeptBytes v path append kept)
      (short : kept.length ≠ existingSize v (v.findEntry path) append) : WriteFileEnd v v' input data append r
  | written {r : FsResult} {path kept : Bytes} (writes : Writes v input data append path kept) (slots : SlotsKept v v')
      (ends : WriteEnd v v' path (kept ++ data) (v.findEntry path) r) : WriteFileEnd v v' input data append r

theorem readExisting_spec {path : Bytes} {append : Bool} (hl : v.Laid) :
    wp (readExisting path append (existingSize v (v.findEntry path) append))
      (fun r v' => Same v v' ∧ v'.ata0.disk = v.ata0.disk ∧ v'.zfsEntries = v.zfsEntries ∧
        (r.1.ok = true ∧ r.1.status = .ok ∧ v'.zfsMounted = v.zfsMounted ∧ KeptBytes v path append r.2 ∨ r.1.ok = false))
      (fun v' => ¬v.Fit ∧ Same v v' ∧ v'.ata0.disk = v.ata0.disk) v := by
  unfold readExisting
  rw [wp_bind, wp_get]
  refine wp_ite (fun hgo => ?_) fun hskip => ?_
  · have hgo' : append = true ∧ existingSize v (v.findEntry path) append ≠ 0 := by simpa using hgo
    refine wp_mono (readFileResult_spec hl) ?_ fun _ h => h
    rintro r v' ⟨hs, hd, he, ⟨hok, hm, again, i, hn, hfind, htype, hsize, hr, hsum, -⟩ | ⟨hok, -⟩⟩
    · have hbytes : r.2 = v.content i (v.zfsEntries i) := by rw [hr]
      refine ⟨hs, hd, he, .inl ⟨hok, by rw [hr]; rfl, hm, ?_⟩⟩
      unfold KeptBytes
      rw [if_pos hgo']
      exact ⟨again, i, hn, hfind, htype, hsize, hbytes, hsum⟩
    · exact ⟨hs, hd, he, .inr hok⟩
  · rw [wp_pure]
    refine ⟨Same.refl v, rfl, rfl, .inl ⟨rfl, rfl, rfl, ?_⟩⟩
    unfold KeptBytes
    rw [if_neg (by simpa using hskip)]

/-- Two volumes with the same tables, disk and layout. -/
structure Alike (v v' : Volume) : Prop extends Same v v' where
  disk : v'.ata0.disk = v.ata0.disk
  zfsEntries : v'.zfsEntries = v.zfsEntries

theorem Alike.diskEntry (h : Alike v v') : v'.diskEntry = v.diskEntry := by
  funext i
  unfold Volume.diskEntry
  rw [h.disk]

theorem Alike.slotBytes (h : Alike v v') : v'.slotBytes = v.slotBytes := by
  funext i
  unfold Volume.slotBytes
  rw [h.disk, h.zfsSuper]

theorem Alike.newSide {w : Volume} {path content : Bytes} {o : Option Nat} {s : Nat} (h : Alike v v')
    (hn : NewSide v' w path content o s) : NewSide v w path content o s := by
  have hplace := hn.place
  have htable := hn.table
  rw [h.zfsSuper, h.diskEntry] at hplace htable
  exact ⟨hplace, hn.bytes, htable⟩

theorem Alike.sides {w : Volume} {path content : Bytes} {o : Option Nat} (h : Alike v v') (hs : Sides v' w path content o) :
    Sides v w path content o := by
  rcases hs with hs | ⟨s, hs⟩
  · rw [h.zfsSuper, h.diskEntry] at hs
    exact .inl hs
  · exact .inr ⟨s, h.newSide hs⟩

theorem Alike.slotsKept {w : Volume} (h : Alike v v') (hs : SlotsKept v' w) : SlotsKept v w := by
  intro i hi hu
  rw [hs i (by rwa [h.zfsSuper]) (by rwa [h.diskEntry]), h.slotBytes]

theorem Alike.writeEnd {w : Volume} {path content : Bytes} {o : Option Nat} {r : FsResult} (h : Alike v v')
    (hm : v'.zfsMounted = v.zfsMounted) (hw : WriteEnd v' w path content o r) : WriteEnd v w path content o r := by
  cases hw with
  | done new disk entries mounted =>
    rw [h.zfsSuper, h.diskEntry] at disk
    rw [h.zfsEntries] at entries
    exact .done (h.newSide new) disk entries (mounted.trans hm)
  | pending status mounted fit new => exact .pending status mounted (fun hf => fit (h.fit hf)) (h.newSide new)
  | failed ok sides mounted =>
    rw [h.zfsSuper, h.diskEntry, h.zfsEntries] at mounted
    exact .failed ok (h.sides sides) mounted

theorem writeFileResult_spec (input data : Bytes) (append : Bool) (hl : v.Laid) (hsync : InSync v) :
    wp (writeFileResult input data append)
      (fun r v' => Same v v' ∧ WriteFileEnd v v' input data append r)
      (fun v' => ¬v.Fit ∧ Same v v' ∧ (v'.ata0.disk = v.ata0.disk ∨ SlotsKept v v' ∧ ∃ path kept,
        Writes v input data append path kept ∧ Sides v v' path (kept ++ data) (v.findEntry path))) v := by
  have hrefuse : ∀ {status : FsStatus}, status ≠ .ok → status ≠ .recoveryPending →
      WriteFileEnd v v input data append (fsFailure .write status) := by
    intro status h₁ h₂
    refine .refused ?_ rfl rfl
    simp [FsResult.ok, h₁, h₂]
  unfold writeFileResult
  rw [wp_bind, wp_get]
  refine wp_ite (fun _ => ⟨Same.refl v, hrefuse (by decide) (by decide)⟩) fun hmounted => ?_
  rcases hn : normalizePath v.currentDirectory input with _ | path
  · exact ⟨Same.refl v, hrefuse (by decide) (by decide)⟩
  dsimp only
  refine wp_ite (fun _ => ⟨Same.refl v, hrefuse (by decide) (by decide)⟩) fun hroot => ?_
  refine wp_ite (fun _ => ⟨Same.refl v, hrefuse (by decide) (by decide)⟩) fun hparent => ?_
  refine wp_ite (fun _ => ⟨Same.refl v, hrefuse (by decide) (by decide)⟩) fun hfile => ?_
  refine wp_ite (fun _ => ⟨Same.refl v, hrefuse (by decide) (by decide)⟩) fun hspace => ?_
  refine wp_seq (readExisting_spec hl) ?_ ?_
  · rintro v₁ ⟨hf, hs, hd⟩
    exact ⟨hf, hs, .inl hd⟩
  rintro read v₁ ⟨hs₁, hd₁, he₁, hread⟩
  have h₁ : Alike v v₁ := ⟨hs₁, hd₁, he₁⟩
  refine wp_ite (fun hbad => ?_) fun hgood => ?_
  · rcases hread with ⟨hok, hstatus, hm, hkept⟩ | hok
    · have hshort : read.2.length ≠ existingSize v (v.findEntry path) append := by simpa [hok] using hbad
      exact ⟨hs₁, .skipped hstatus hd₁ he₁ hm (by simpa using hmounted) hn hkept hshort⟩
    · exact ⟨hs₁, .refused hok hd₁ he₁⟩
  · rw [not_or, not_not] at hgood
    have hok : read.1.ok = true := by simpa using hgood.1
    obtain ⟨-, hm, hkept⟩ : read.1.status = .ok ∧ v₁.zfsMounted = v.zfsMounted ∧ KeptBytes v path append read.2 := by
      rcases hread with ⟨-, h⟩ | h
      · exact h
      · rw [hok] at h
        exact Bool.noConfusion h
    have hwrites : Writes v input data append path read.2 := by
      refine ⟨by simpa using hmounted, hn, hroot, by simpa using hparent, fun i hi => ?_, hkept, hgood.2, ?_⟩
      · simpa [hi] using hfile
      · rw [List.length_append, hgood.2]
        rw [not_or] at hspace
        omega
    have hwc := writeContent_spec (v := v₁) path (read.2 ++ data) (v.findEntry path)
      (hs₁.laid hl) (fun i hi => by rw [h₁.zfsSuper] at hi; rw [h₁.zfsEntries, h₁.diskEntry, hsync i hi])
      (fun i hi => by
        obtain ⟨hlt, hvis, -⟩ := findEntry_some hi
        rw [h₁.zfsSuper, h₁.zfsEntries]
        exact ⟨hlt, used_of_visible hvis⟩)
      (by rw [h₁.zfsSuper]; exact hwrites.fits)
    refine wp_mono hwc ?_ ?_
    · rintro r v₂ ⟨hs₂, hk, hend⟩
      exact ⟨hs₁.trans hs₂, .written hwrites (h₁.slotsKept hk) (h₁.writeEnd hm hend)⟩
    · rintro v₂ ⟨hf, hs₂, hk, hsides⟩
      exact ⟨fun h => hf (hs₁.fit h), hs₁.trans hs₂, .inr ⟨h₁.slotsKept hk, path, read.2, hwrites, h₁.sides hsides⟩⟩

end ZenovOS.Storage
