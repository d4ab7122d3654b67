import ZenovOS.Storage.Tools
import ZenovOS.Theorems.Storage.Crash

/-! # The entries that an operation accesses

`accessed` records the stored paths of the entries that are read or replaced. An operation accesses the
entry of its path; an append reads the old content by the path that the normalised path is normalised to. -/

namespace ZenovOS.Storage
open Bytes Mach Volume

variable {v v' : Volume} {N M : Bytes → Prop}

/-- Every entry accessed on the way from `v` to `v'` has a stored path in `N`, and a path outside `M` names
    the entry it named. -/
structure Touches (N M : Bytes → Prop) (v v' : Volume) : Prop where
  accessed : ∃ paths, v'.accessed = v.accessed ++ paths ∧ ∀ n ∈ paths, N n
  found : ∀ n, ¬M n → v'.findEntry n = v.findEntry n
  mounted : v'.zfsMounted = true → v.zfsMounted = true
  currentDirectory : v'.currentDirectory = v.currentDirectory

theorem Touches.refl (v : Volume) : Touches N M v v := ⟨⟨[], by simp, by simp⟩, fun _ _ => rfl, id, rfl⟩

theorem Touches.trans {w : Volume} (h : Touches N M v v') (h' : Touches N M v' w) : Touches N M v w where
  accessed := by
    obtain ⟨paths, heq, hN⟩ := h.accessed
    obtain ⟨paths', heq', hN'⟩ := h'.accessed
    refine ⟨paths ++ paths', by rw [heq', heq, List.append_assoc], fun n hn => ?_⟩
    rcases List.mem_append.mp hn with hn | hn
    · exact hN n hn
    · exact hN' n hn
  found n hn := (h'.found n hn).trans (h.found n hn)
  mounted := h.mounted ∘ h'.mounted
  currentDirectory := h'.currentDirectory.trans h.currentDirectory

theorem Touches.mono {K L : Bytes → Prop} (h : Touches N M v v') (hN : ∀ n, N n → K n) (hM : ∀ n, M n → L n) :
    Touches K L v v' where
  accessed := by
    obtain ⟨paths, heq, hpaths⟩ := h.accessed
    exact ⟨paths, heq, fun n hn => hN n (hpaths n hn)⟩
  found n hn := h.found n fun hn' => hn (hM n hn')
  mounted := h.mounted
  currentDirectory := h.currentDirectory

/-- An entry with the stored path `n` was accessed on the way from `v` to `v'`. -/
def Accesses (n : Bytes) (v v' : Volume) : Prop := ∃ paths, v'.accessed = v.accessed ++ paths ∧ n ∈ paths

theorem Accesses.later {n : Bytes} {u : Volume} (h : Accesses n u v) (h' : Touches N M v v') : Accesses n u v' := by
  obtain ⟨paths, heq, hmem⟩ := h
  obtain ⟨paths', heq', -⟩ := h'.accessed
  exact ⟨paths ++ paths', by rw [heq', heq, List.append_assoc], List.mem_append_left _ hmem⟩

theorem Accesses.mem {n : Bytes} {paths : List Bytes} (h : Accesses n v v') (heq : v'.accessed = v.accessed ++ paths) :
    n ∈ paths := by
  obtain ⟨paths', heq', hmem⟩ := h
  rw [heq, List.append_cancel_left_eq] at heq'
  rwa [heq']

theorem Touches.unrecorded {N' : Bytes → Prop} (h : Touches N' M v v') : Touches N M v { v' with accessed := v.accessed } :=
  ⟨⟨[], by simp, by simp⟩, h.found, h.mounted, h.currentDirectory⟩

theorem touches_record {e : ZfsEntry} (h : e.used ≠ 0 → N e.name) : Touches N M v (v.record e) where
  accessed := by
    by_cases hu : e.used = 0
    · exact ⟨[], by simp [Volume.record, hu], by simp⟩
    · refine ⟨[e.name], if_neg hu, fun n hn => ?_⟩
      rw [List.mem_singleton.mp hn]
      exact h hu
  found _ _ := rfl
  mounted := id
  currentDirectory := rfl

/-! ### Requests -/

/-- No entry was accessed, and the table in memory is the same. -/
structure Untabled (v v' : Volume) : Prop where
  accessed : v'.accessed = v.accessed
  zfsEntries : v'.zfsEntries = v.zfsEntries
  zfsSuper : v'.zfsSuper = v.zfsSuper
  mounted : v'.zfsMounted = true → v.zfsMounted = true
  currentDirectory : v'.currentDirectory = v.currentDirectory

theorem Untabled.refl (v : Volume) : Untabled v v := ⟨rfl, rfl, rfl, id, rfl⟩

theorem Untabled.trans {w : Volume} (h : Untabled v v') (h' : Untabled v' w) : Untabled v w :=
  ⟨h'.accessed.trans h.accessed, h'.zfsEntries.trans h.zfsEntries, h'.zfsSuper.trans h.zfsSuper,
    h.mounted ∘ h'.mounted, h'.currentDirectory.trans h.currentDirectory⟩

theorem Untabled.found (h : Untabled v v') (n : Bytes) : v'.findEntry n = v.findEntry n := by
  unfold findEntry
  rw [h.zfsSuper, h.zfsEntries]

theorem Untabled.touches (h : Untabled v v') : Touches N M v v' :=
  ⟨⟨[], by simp [h.accessed], by simp⟩, fun n _ => h.found n, h.mounted, h.currentDirectory⟩

theorem zfsReadSector_untabled {lba : Nat} :
    wp (zfsReadSector lba) (fun _ v' => Untabled v v') (fun v' => Untabled v v') v := by
  unfold zfsReadSector
  rw [wp_bind, wp_get]
  refine wp_ite (fun _ => Untabled.refl v) fun _ => wp_ite (fun _ => Untabled.refl v) fun _ => ?_
  unfold wp readSector
  rcases v.ata0.outcomes with _ | ⟨outcome, rest⟩
  · exact Untabled.refl v
  · cases outcome with
    | returns result landed => exact ⟨rfl, rfl, rfl, id, rfl⟩
    | cut landed => exact ⟨rfl, rfl, rfl, id, rfl⟩

theorem zfsWriteSector_untabled {lba : Nat} {s : Sector} :
    wp (zfsWriteSector lba s) (fun _ v' => Untabled v v') (fun v' => Untabled v v') v := by
  unfold zfsWriteSector
  rw [wp_bind, wp_get]
  refine wp_ite (fun _ => Untabled.refl v) fun _ => wp_ite (fun _ => Untabled.refl v) fun _ =>
    wp_ite (fun _ => Untabled.refl v) fun _ => ?_
  have hwrote : ∀ (c : Bool) (os : List Outcome), Untabled v (if c then (v.setSector lba s).setOutcomes os else v.setOutcomes os) := by
    intro c os
    cases c <;> exact ⟨rfl, rfl, rfl, id, rfl⟩
  unfold wp writeSector
  rcases v.ata0.outcomes with _ | ⟨outcome, rest⟩
  · exact ⟨rfl, rfl, rfl, id, rfl⟩
  · cases outcome with
    | returns result landed => exact hwrote (result.ok || landed) rest
    | cut landed => exact hwrote landed rest

theorem readSectors_untabled {size left lba : Nat} {copied : Bytes} :
    wp (readSectors size left lba copied) (fun _ v' => Untabled v v') (fun v' => Untabled v v') v := by
  induction left generalizing lba copied v with
  | zero => exact Untabled.refl v
  | succ left ih =>
    rw [readSectors]
    refine wp_seq zfsReadSector_untabled (fun _ h => h) fun r v₁ h₁ => ?_
    cases r with
    | error read => exact h₁
    | ok s => exact wp_mono ih (fun _ _ h => h₁.trans h) fun _ h => h₁.trans h

theorem stageSectors_untabled {left lba written : Nat} {data : Bytes} :
    wp (stageSectors left lba written data) (fun _ v' => Untabled v v') (fun v' => Untabled v v') v := by
  induction left generalizing lba written data v with
  | zero => exact Untabled.refl v
  | succ left ih =>
    rw [stageSectors]
    refine wp_seq zfsWriteSector_untabled (fun _ h => h) fun r v₁ h₁ => ?_
    exact wp_ite (fun _ => wp_mono ih (fun _ _ h => h₁.trans h) fun _ h => h₁.trans h) fun _ => h₁

theorem untabled_blockFailure {operation : FsOperation} {block : BlockResult} {bytes : Nat} (h : Untabled v v') :
    wp (zfsBlockFailure operation block bytes) (fun _ w => Untabled v w) (fun w => Untabled v w) v' := by
  rw [zfsBlockFailure, wp_bind, wp_modify, wp_pure]
  exact ⟨h.accessed, h.zfsEntries, h.zfsSuper, fun hm => Bool.noConfusion hm, h.currentDirectory⟩

/-! ### Reading and querying -/

/-- The stored path that a read of `input` accesses. -/
def Reads (v : Volume) (input n : Bytes) : Prop :=
  v.zfsMounted = true ∧ normalizePath v.currentDirectory input = some n ∧ (v.findEntry n).isSome = true

theorem readFileResult_touches {input : Bytes} {capacity : Nat} :
    wp (readFileResult input capacity)
      (fun r v' => Touches (Reads v input) M v v' ∧ v'.zfsEntries = v.zfsEntries ∧ (r.1.ok = true → ∃ n, Reads v input n))
      (fun v' => Touches (Reads v input) M v v') v := by
  unfold readFileResult
  rw [wp_bind, wp_get]
  refine wp_ite (fun _ => ⟨Touches.refl v, rfl, fun h => by cases h⟩) fun hm => ?_
  rcases hn : normalizePath v.currentDirectory input with _ | path
  · exact ⟨Touches.refl v, rfl, fun h => by cases h⟩
  dsimp only
  rcases hfind : v.findEntry path with _ | i
  · exact ⟨Touches.refl v, rfl, fun h => by cases h⟩
  obtain ⟨-, -, hname⟩ := findEntry_some hfind
  have hreads : Reads v input path := ⟨by simpa using hm, hn, by rw [hfind]; rfl⟩
  have hrec : Touches (Reads v input) M v (v.record (v.zfsEntries i)) := touches_record fun _ => by rwa [hname]
  simp only [wp_bind, wp_modify]
  refine wp_ite (fun _ => ⟨hrec, rfl, fun _ => ⟨path, hreads⟩⟩) fun _ =>
    wp_ite (fun _ => ⟨hrec, rfl, fun _ => ⟨path, hreads⟩⟩) fun _ =>
    wp_ite (fun _ => ⟨hrec, rfl, fun _ => ⟨path, hreads⟩⟩) fun _ => ?_
  rw [wp_bind]
  have hdone : ∀ {w : Volume} {ok : Prop}, Untabled (v.record (v.zfsEntries i)) w →
      Touches (Reads v input) M v w ∧ w.zfsEntries = v.zfsEntries ∧ (ok → ∃ n, Reads v input n) :=
    fun h => ⟨hrec.trans h.touches, h.zfsEntries, fun _ => ⟨path, hreads⟩⟩
  refine wp_mono readSectors_untabled (fun r v₁ h₁ => ?_) fun _ h => hrec.trans h.touches
  cases r with
  | error read =>
    exact wp_seq (untabled_blockFailure h₁) (fun _ h => hrec.trans h.touches) fun _ _ h => hdone h
  | ok output => exact wp_ite (fun _ => hdone h₁) fun _ => hdone h₁

theorem readFileResult_accessed {input n : Bytes} {capacity : Nat} (h : Reads v input n) :
    wp (readFileResult input capacity) (fun _ v' => Accesses n v v') (fun v' => Accesses n v v') v := by
  obtain ⟨hm, hn, hsome⟩ := h
  obtain ⟨i, hfind⟩ := Option.isSome_iff_exists.mp hsome
  obtain ⟨-, hvis, hname⟩ := findEntry_some hfind
  have hrec : Accesses n v (v.record (v.zfsEntries i)) := ⟨[n], by simp [Volume.record, used_of_visible hvis, hname], by simp⟩
  unfold readFileResult
  rw [wp_bind, wp_get, if_neg (by simp [hm]), hn]
  dsimp only
  rw [hfind]
  simp only [wp_bind, wp_modify]
  refine wp_ite (fun _ => hrec) fun _ => wp_ite (fun _ => hrec) fun _ => wp_ite (fun _ => hrec) fun _ => ?_
  rw [wp_bind]
  have hdone : ∀ {w : Volume}, Untabled (v.record (v.zfsEntries i)) w → Accesses n v w :=
    fun h => hrec.later (h.touches (N := fun _ => False) (M := fun _ => False))
  refine wp_mono readSectors_untabled (fun r v₁ h₁ => ?_) fun _ h => hdone h
  cases r with
  | error read => exact wp_seq (untabled_blockFailure h₁) (fun _ h => hdone h) fun _ _ h => hdone h
  | ok output => exact wp_ite (fun _ => hdone h₁) fun _ => hdone h₁

theorem queryResult_touches {input : Bytes} :
    wp (queryResult input) (fun _ v' => Touches (fun n => normalizePath v.currentDirectory input = some n) M v v')
      (fun v' => Touches (fun n => normalizePath v.currentDirectory input = some n) M v v') v := by
  unfold queryResult
  rw [wp_bind, wp_get]
  refine wp_ite (fun _ => Touches.refl v) fun _ => wp_ite (fun _ => Touches.refl v) fun _ => ?_
  rcases hn : normalizePath v.currentDirectory input with _ | path
  · exact Touches.refl v
  dsimp only
  refine wp_ite (fun _ => Touches.refl v) fun _ => ?_
  rcases hfind : v.findEntry path with _ | i
  · exact Touches.refl v
  obtain ⟨-, -, hname⟩ := findEntry_some hfind
  have hrec : Touches (fun n => some path = some n) M v (v.record (v.zfsEntries i)) :=
    touches_record fun _ => by rw [hname]
  dsimp only
  rw [wp_bind, wp_modify]
  exact wp_ite (fun _ => hrec) fun _ => hrec

/-! ### Writing -/

theorem flushEntryResult_untabled {i : Nat} {operation : FsOperation} :
    wp (flushEntryResult i operation) (fun _ v' => Untabled v v') (fun v' => Untabled v v') v := by
  unfold flushEntryResult
  rw [wp_bind, wp_get]
  refine wp_ite (fun _ => Untabled.refl v) fun _ => wp_seq zfsReadSector_untabled (fun _ h => h) fun r v₁ h₁ => ?_
  cases r with
  | error read => exact untabled_blockFailure h₁
  | ok s =>
    refine wp_seq zfsWriteSector_untabled (fun _ h => h₁.trans h) fun write v₂ h₂ => ?_
    exact wp_ite (fun _ => h₁.trans h₂) fun _ => untabled_blockFailure (h₁.trans h₂)

theorem findEntry_setEntry {i : Nat} {e : ZfsEntry} {n : Bytes}
    (hold : (v.zfsEntries i).used ≠ 0 → (v.zfsEntries i).name ≠ n) (hnew : e.used ≠ 0 → e.name ≠ n) :
    (v.setEntry i e).findEntry n = v.findEntry n := by
  unfold findEntry
  refine List.find?_congr fun j _ => ?_
  show ((Function.update v.zfsEntries i e j).visible && decide ((Function.update v.zfsEntries i e j).name = n)) = _
  by_cases hji : j = i
  · have hno : ∀ x : ZfsEntry, (x.used ≠ 0 → x.name ≠ n) → (x.visible && decide (x.name = n)) = false := by
      intro x hx
      rw [Bool.and_eq_false_iff]
      by_cases hv : x.visible = true
      · exact .inr (by simpa using hx (used_of_visible hv))
      · exact .inl (by simpa using hv)
    rw [hji, Function.update_self, hno _ hnew, hno _ hold]
  · rw [Function.update_of_ne hji]

theorem replaceEntryResult_touches {i : Nat} {e : ZfsEntry} {operation : FsOperation}
    (hold : (v.zfsEntries i).used ≠ 0 → N (v.zfsEntries i).name) (hnew : e.used ≠ 0 → N e.name) :
    wp (replaceEntryResult i e operation)
      (fun r v' => Touches N N v v' ∧ (r.ok = true → v'.zfsEntries = Function.update v.zfsEntries i e))
      (fun v' => Touches N N v v') v := by
  unfold replaceEntryResult
  rw [wp_bind, wp_get]
  refine wp_ite (fun _ => ⟨Touches.refl v, fun h => by cases h⟩) fun _ => ?_
  rw [wp_bind, wp_modify]
  have hset : ∀ {w : Volume} {x : ZfsEntry}, ((w.zfsEntries i).used ≠ 0 → N (w.zfsEntries i).name) →
      (x.used ≠ 0 → N x.name) → Touches N N w (w.setEntry i x) := by
    intro w x hw hx
    refine ⟨⟨[], by simp [Volume.setEntry], by simp⟩, fun n hn => findEntry_setEntry ?_ ?_, id, rfl⟩
    · exact fun hu heq => hn (heq ▸ hw hu)
    · exact fun hu heq => hn (heq ▸ hx hu)
  have hrec : Touches N N v (((v.record (v.zfsEntries i)).record e).setEntry i e) :=
    ((touches_record hold).trans (touches_record hnew)).trans (hset hold hnew)
  refine wp_seq flushEntryResult_untabled (fun _ h => hrec.trans h.touches) fun r v₁ h₁ => ?_
  have htouches := hrec.trans h₁.touches
  refine wp_ite (fun _ => ⟨htouches, fun _ => h₁.zfsEntries⟩) fun hok => ?_
  rw [wp_bind, wp_modify, wp_pure]
  have hnow : v₁.zfsEntries i = e := by
    rw [h₁.zfsEntries]
    exact Function.update_self ..
  exact ⟨htouches.trans (hset (by rwa [hnow]) hold), fun h => absurd h hok⟩

theorem commitStage_touches {path : Bytes} {s total : Nat} {stage : ZfsEntry} {o : Option Nat}
    (hfree : (v.zfsEntries s).used = 0) (hstage : stage.name = path) (ho : ∀ i, o = some i → i ≠ s ∧ (v.zfsEntries i).name = path) :
    wp (commitStage s stage o total) (fun _ v' => Touches (· = path) (· = path) v v') (fun v' => Touches (· = path) (· = path) v v') v := by
  unfold commitStage
  refine wp_seq (replaceEntryResult_touches (fun h => absurd hfree h) fun _ => hstage) (fun _ h => h) fun r₁ v₁ h₁ => ?_
  obtain ⟨h₁, he₁⟩ := h₁
  refine wp_ite (fun _ => h₁) fun hok₁ => ?_
  have he₁ := he₁ (by simpa using hok₁)
  have hs₁ : v₁.zfsEntries s = stage := by rw [he₁, Function.update_self]
  refine wp_seq (replaceEntryResult_touches (N := (· = path)) (fun _ => by rw [hs₁]; exact hstage) fun _ => hstage)
    (fun _ h => h₁.trans h) fun r₂ v₂ h₂ => ?_
  obtain ⟨h₂, he₂⟩ := h₂
  refine wp_ite (fun _ => h₁.trans h₂) fun hok₂ => ?_
  have he₂ := he₂ (by simpa using hok₂)
  have hs₂ : v₂.zfsEntries s = stage.commit := by rw [he₂, Function.update_self]
  have hclear : wp (clearReplaced o)
      (fun r v' => Touches (· = path) (· = path) v₂ v' ∧ (r.ok = true → v'.zfsEntries s = stage.commit))
      (fun v' => Touches (· = path) (· = path) v₂ v') v₂ := by
    cases o with
    | none => exact ⟨Touches.refl v₂, fun _ => hs₂⟩
    | some i =>
      obtain ⟨his, hname⟩ := ho i rfl
      have hi₂ : v₂.zfsEntries i = v.zfsEntries i := by
        rw [he₂, he₁, Function.update_of_ne his, Function.update_of_ne his]
      have hempty : ¬ZfsEntry.empty.used ≠ 0 := by decide
      refine wp_mono (replaceEntryResult_touches (N := (· = path)) (fun _ => by rw [hi₂]; exact hname) fun h => absurd h hempty)
        (fun r v' h => ⟨h.1, fun hok => ?_⟩) fun _ h => h
      rw [h.2 hok, Function.update_of_ne (Ne.symm his), hs₂]
  refine wp_seq hclear (fun _ h => (h₁.trans h₂).trans h) fun r₃ v₃ h₃ => ?_
  obtain ⟨h₃, hs₃⟩ := h₃
  refine wp_ite (fun _ => (h₁.trans h₂).trans h₃) fun hok₃ => ?_
  have hs₃ := hs₃ (by simpa using hok₃)
  refine wp_seq (replaceEntryResult_touches (N := (· = path)) (fun _ => by rw [hs₃]; exact hstage) fun _ => hstage)
    (fun _ h => ((h₁.trans h₂).trans h₃).trans h) fun r₄ v₄ h₄ => ?_
  have hall := ((h₁.trans h₂).trans h₃).trans h₄.1
  exact wp_ite (fun _ => hall) fun _ => hall

/-- The stored path that an append to the normal path `p` reads the old content by. -/
def AppendReads (v : Volume) (p : Bytes) (append : Bool) (n : Bytes) : Prop :=
  append = true ∧ (∃ i, v.findEntry p = some i ∧ (v.zfsEntries i).type = zfsTypeFile) ∧ Reads v p n

theorem writeFileResult_touches {input data : Bytes} {append : Bool} :
    wp (writeFileResult input data append)
      (fun _ v' => Touches (fun n => ∃ p, normalizePath v.currentDirectory input = some p ∧
        (n = p ∨ AppendReads v p append n)) (fun n => normalizePath v.currentDirectory input = some n) v v')
      (fun v' => Touches (fun n => ∃ p, normalizePath v.currentDirectory input = some p ∧
        (n = p ∨ AppendReads v p append n)) (fun n => normalizePath v.currentDirectory input = some n) v v') v := by
  unfold writeFileResult
  rw [wp_bind, wp_get]
  refine wp_ite (fun _ => Touches.refl v) fun _ => ?_
  rcases hn : normalizePath v.currentDirectory input with _ | p
  · exact Touches.refl v
  simp only [Option.some.injEq, exists_eq_left']
  refine wp_ite (fun _ => Touches.refl v) fun _ => wp_ite (fun _ => Touches.refl v) fun _ =>
    wp_ite (fun _ => Touches.refl v) fun htype => wp_ite (fun _ => Touches.refl v) fun _ => ?_
  have hread : wp (readExisting p append (existingSize v (v.findEntry p) append))
      (fun _ v' => Touches (fun n => n = p ∨ AppendReads v p append n) (fun n => p = n) v v' ∧ v'.zfsEntries = v.zfsEntries)
      (fun v' => Touches (fun n => n = p ∨ AppendReads v p append n) (fun n => p = n) v v') v := by
    unfold readExisting
    rw [wp_bind, wp_get]
    refine wp_ite (fun hgo => ?_) fun _ => ⟨Touches.refl v, rfl⟩
    simp only [Bool.and_eq_true, decide_eq_true_eq] at hgo
    obtain ⟨happ, hsize⟩ := hgo
    have hfile : ∃ i, v.findEntry p = some i ∧ (v.zfsEntries i).type = zfsTypeFile := by
      rcases hf : v.findEntry p with _ | i
      · rw [hf] at hsize
        simp [existingSize] at hsize
      · rw [hf] at htype
        exact ⟨i, rfl, by simpa using htype⟩
    have hmono : ∀ n, Reads v p n → n = p ∨ AppendReads v p append n := fun n h => .inr ⟨happ, hfile, h⟩
    exact wp_mono readFileResult_touches (fun _ _ h => ⟨h.1.mono hmono fun _ => id, h.2.1⟩)
      fun _ h => h.mono hmono fun _ => id
  refine wp_seq hread (fun _ h => h) fun read v₁ h₁ => ?_
  obtain ⟨h₁, he₁⟩ := h₁
  refine wp_ite (fun _ => h₁) fun _ => ?_
  unfold writeContent
  rw [wp_bind, wp_get]
  rcases hfree : v₁.freeEntry (v.findEntry p) with _ | s
  · exact h₁
  obtain ⟨-, hexcluded, hunused⟩ := freeEntry_some hfree
  dsimp only
  refine wp_seq stageSectors_untabled (fun _ h => h₁.trans h.touches) fun staged v₂ h₂ => ?_
  have ht₂ := h₁.trans h₂.touches
  rcases staged with ⟨write, written⟩ | _
  · exact wp_mono (untabled_blockFailure h₂) (fun _ _ h => h₁.trans h.touches) fun _ h => h₁.trans h.touches
  dsimp only
  rcases hcopy : pathCopy p pathBytes with _ | copy
  · exact ht₂
  dsimp only
  rw [pathCopy_eq hcopy]
  obtain ⟨hz, hlen⟩ := normalizePath_stored hn
  have hcommit : wp (commitStage s (stageEntry p (read.2 ++ data) (v.findEntry p)) (v.findEntry p) (read.2 ++ data).length)
      (fun _ v' => Touches (· = p) (· = p) v₂ v') (fun v' => Touches (· = p) (· = p) v₂ v') v₂ := by
    refine commitStage_touches (by rw [h₂.zfsEntries]; exact hunused) (cstr_of hz hlen) fun i hi => ?_
    refine ⟨fun his => hexcluded (by rw [hi, his]), ?_⟩
    rw [h₂.zfsEntries, he₁]
    exact (findEntry_some hi).2.2
  have hlast : ∀ {w : Volume}, Touches (· = p) (· = p) v₂ w →
      Touches (fun n => n = p ∨ AppendReads v p append n) (fun n => p = n) v w :=
    fun h => ht₂.trans (h.mono (fun _ hn => .inl hn) fun _ hn => hn.symm)
  exact wp_mono hcommit (fun _ _ h => hlast h) fun _ h => hlast h

end ZenovOS.Storage
