import ZenovOS.Theorems.Storage.Path
import ZenovOS.Theorems.Storage.Write
import Mathlib.Data.List.Find

/-! # A write survives any power cut

After a write that was cut off or failed at any request, and any number of remounts that were cut off or
failed themselves, a completed remount finds the old or the new content under the written path, and
everything else as it was. -/

namespace ZenovOS.Storage
open Bytes Mach Volume

variable {v v' : Volume}

/-! ### Remounting -/

/-- Load the table and recover it. -/
def remount : Mach Volume FsResult := do
  let loaded ← loadEntriesResult
  if !loaded.ok then pure loaded else recoverTransactionsResult

/-- The volume when the machine starts again: memory is lost, and the driver answers the coming requests with
    `outcomes`. The superblock is the one on disk, which no write of a file touches. -/
def Volume.restart (v : Volume) (outcomes : List Outcome) : Volume :=
  { v.setOutcomes outcomes with
    zfsEntries := fun _ => .empty, zfsMounted := false, currentDirectory := root, accessed := [] }

/-- `w` is the volume after a completed remount of `v`; any number of attempts before it may have been cut
    off, or have failed. -/
inductive Remounted : Volume → Volume → Prop
  | done {v w : Volume} {outcomes : List Outcome} {r : FsResult} (run : remount (v.restart outcomes) = (some r, w))
      (ok : r.ok = true) : Remounted v w
  | again {v v' w : Volume} {outcomes : List Outcome} {r : Option FsResult}
      (run : remount (v.restart outcomes) = (r, v')) (later : Remounted v' w) : Remounted v w

/-- The volume once a mount has completed. -/
def Volume.activate (v : Volume) : Volume := { v with zfsMounted := true, currentDirectory := root }

/-- The volume with another working directory, and the driver's answers to come. -/
def Volume.enter (v : Volume) (currentDirectory : Bytes) (outcomes : List Outcome) : Volume :=
  { v.setOutcomes outcomes with currentDirectory }

section Remount
variable {I : (Nat → ZfsEntry) → Prop}

theorem remount_spec (hk : RecoveryKeeps v.zfsSuper.entries I) (hl : v.Laid) (hI : I v.diskEntry) :
    wp remount
      (fun r v' =>
        (r.ok = true ∧ Recovering I v v' ∧ InSync v' ∧ ∀ j < v.zfsSuper.entries, Settled (v'.diskEntry j)) ∨
          r.ok = false ∧ ¬v.Fit ∧ Recovering I v v')
      (fun v' => ¬v.Fit ∧ Recovering I v v') v := by
  unfold remount
  refine wp_seq (loadEntriesResult_spec hl) ?_ ?_
  · rintro v₁ ⟨hf, h₁⟩
    exact ⟨hf, h₁.sameData, by rw [h₁.diskEntry]; exact hI⟩
  rintro r v₁ ⟨h₁, ⟨rfl, hsync⟩ | ⟨hok, hf⟩⟩
  · rw [if_neg (by simp)]
    have hI₁ : I v₁.diskEntry := by rw [h₁.diskEntry]; exact hI
    have hk₁ : RecoveryKeeps v₁.zfsSuper.entries I := by rw [h₁.zfsSuper]; exact hk
    have hback : ∀ {w}, Recovering I v₁ w → Recovering I v w := fun h => ⟨h₁.sameData.trans h.toSameData, h.table⟩
    refine wp_mono (recoverTransactionsResult_spec hk₁ (h₁.laid hl) hsync hI₁) ?_ ?_
    · rintro r v₂ (⟨hstatus, h₂, hset⟩ | ⟨hok, hf, h₂⟩)
      · rw [h₁.zfsSuper] at hset
        exact .inl ⟨by simp [FsResult.ok, hstatus], hback h₂.toRecovering, h₂.inSync, hset⟩
      · exact .inr ⟨hok, fun h => hf (h₁.fit h), hback h₂⟩
    · rintro v₂ ⟨hf, h₂⟩
      exact ⟨fun h => hf (h₁.fit h), hback h₂⟩
  · rw [if_pos (by simp [hok]), wp_pure]
    exact .inr ⟨hok, hf, h₁.sameData, by rw [h₁.diskEntry]; exact hI⟩

/-- What a completed remount gives, after whatever came before it. -/
structure Recovered (I : (Nat → ZfsEntry) → Prop) (v w : Volume) : Prop extends SameDevice v w where
  slots : ∀ i < v.zfsSuper.entries, w.slotBytes i = v.slotBytes i
  table : I w.diskEntry
  inSync : InSync w
  settled : ∀ i < v.zfsSuper.entries, Settled (w.diskEntry i)

theorem restart_slots {os : List Outcome} (h : SameData (v.restart os) v') (hl : v.Laid) :
    ∀ i < v.zfsSuper.entries, v'.slotBytes i = v.slotBytes i :=
  fun _ hi => h.slotBytes (v := v.restart os) hl hi

theorem restart_sameDevice {os : List Outcome} (h : SameData (v.restart os) v') : SameDevice v v' :=
  ⟨h.present, h.writable, h.sectors, h.zfsSuper⟩

theorem restart_recovering {os : List Outcome} {r : Option FsResult} (hk : RecoveryKeeps v.zfsSuper.entries I)
    (hl : v.Laid) (hI : I v.diskEntry) (h : remount (v.restart os) = (r, v')) : Recovering I (v.restart os) v' := by
  have hspec := remount_spec (v := v.restart os) hk hl hI
  cases r with
  | none => exact (wp_cut hspec h).2
  | some r =>
    rcases wp_ended hspec h with ⟨-, h', -⟩ | ⟨-, -, h'⟩
    · exact h'
    · exact h'

theorem remounted_recovered {w : Volume} (hk : RecoveryKeeps v.zfsSuper.entries I) (hl : v.Laid) (hI : I v.diskEntry)
    (h : Remounted v w) : Recovered I v w := by
  induction h with
  | @done v w os r run ok =>
    rcases wp_ended (remount_spec (v := v.restart os) hk hl hI) run with ⟨-, h, hsync, hset⟩ | ⟨hok, -, -⟩
    · exact ⟨restart_sameDevice h.toSameData, restart_slots h.toSameData hl, h.table, hsync, hset⟩
    · rw [ok] at hok
      exact Bool.noConfusion hok
  | @again v v' w os r run later ih =>
    have h := restart_recovering hk hl hI run
    have hd := restart_sameDevice h.toSameData
    have hw := ih (by rw [hd.zfsSuper]; exact hk) (hd.laid hl) h.table
    refine ⟨hd.trans hw.toSameDevice, fun i hi => ?_, hw.table, hw.inSync, fun i hi => hw.settled i (by rwa [hd.zfsSuper])⟩
    rw [hw.slots i (by rwa [hd.zfsSuper]), restart_slots h.toSameData hl i hi]

theorem exists_remounted (hk : RecoveryKeeps v.zfsSuper.entries I) (hl : v.Laid) (hI : I v.diskEntry)
    (hp : v.ata0.present = true) (hw : v.ata0.writable = true) : ∃ w, Remounted v w := by
  have hfit : (v.restart []).Fit := ⟨hp, hw, rfl⟩
  have hspec := wp_mono (remount_spec (v := v.restart []) hk hl hI) (fun _ _ h => h) fun _ h => h.1 hfit
  obtain ⟨r, w, hrun, ⟨hok, -⟩ | ⟨-, hf, -⟩⟩ := wp_ends hspec
  · exact ⟨w, .done hrun hok⟩
  · exact absurd hfit hf

end Remount

/-! ### The content of files -/

/-- What a path names. -/
structure FileState where
  type : UInt8
  size : UInt32
  checksum : UInt32
  content : Bytes
  deriving DecidableEq

def Volume.stateAt (v : Volume) (i : Nat) : FileState :=
  ⟨(v.zfsEntries i).type, (v.zfsEntries i).size, (v.zfsEntries i).checksum, v.content i (v.zfsEntries i)⟩

def Volume.lookup (v : Volume) (path : Bytes) : Option FileState := (v.findEntry path).map v.stateAt

/-- A file with this content. -/
def fileState (content : Bytes) : FileState := ⟨zfsTypeFile, UInt32.ofNat content.length, fnv1a content, content⟩

/-- The content that a write is to give a file. -/
def newContent (v : Volume) (path data : Bytes) (append : Bool) : Bytes :=
  if append then (v.lookup path).elim [] (·.content) ++ data else data

/-- A mounted volume between two operations. -/
structure Volume.Ready (v : Volume) : Prop where
  mounted : v.zfsMounted = true
  laid : v.Laid
  inSync : InSync v
  settled : ∀ i < v.zfsSuper.entries, Settled (v.zfsEntries i)
  distinct : Distinct v.zfsSuper.entries v.zfsEntries

section Lookup
variable {w : Volume}

theorem Settled.visible {e : ZfsEntry} (h : Settled e) : e.visible = true ↔ e.used ≠ 0 := by
  have := h.notTransaction
  unfold ZfsEntry.isTransaction at this
  unfold ZfsEntry.visible
  simp only [Bool.and_eq_true, decide_eq_true_eq, Bool.and_eq_false_iff, decide_eq_false_iff_not] at this ⊢
  tauto

theorem lookup_eq_none {q : Bytes} (h : ∀ i < v.zfsSuper.entries, (v.zfsEntries i).visible → (v.zfsEntries i).name ≠ q) :
    v.lookup q = none := by
  unfold Volume.lookup
  rcases hf : v.findEntry q with _ | i
  · rfl
  · obtain ⟨hi, hv, hn⟩ := findEntry_some hf
    exact absurd hn (h i hi hv)

/-- Two volumes name the same by `q` when the entries of that path, and their slots, are the same. -/
theorem lookup_congr {q : Bytes} (hs : w.zfsSuper = v.zfsSuper)
    (h : ∀ i < v.zfsSuper.entries, (v.zfsEntries i).visible ∧ (v.zfsEntries i).name = q ∨
      (w.zfsEntries i).visible ∧ (w.zfsEntries i).name = q →
      w.zfsEntries i = v.zfsEntries i ∧ w.slotBytes i = v.slotBytes i) : w.lookup q = v.lookup q := by
  have hfind : w.findEntry q = v.findEntry q := by
    unfold Volume.findEntry
    rw [hs]
    refine List.find?_congr fun i hi => ?_
    rw [List.mem_range, Nat.lt_min] at hi
    have := h i hi.1
    by_cases hv : (v.zfsEntries i).visible = true ∧ (v.zfsEntries i).name = q
    · rw [(this (.inl hv)).1]
    · by_cases hw : (w.zfsEntries i).visible = true ∧ (w.zfsEntries i).name = q
      · rw [(this (.inr hw)).1]
      · rw [Bool.eq_iff_iff]
        simpa using iff_of_false (by simpa using hw) (by simpa using hv)
  unfold Volume.lookup
  rw [hfind]
  rcases hf : v.findEntry q with _ | i
  · rfl
  · obtain ⟨hi, hv, hn⟩ := findEntry_some hf
    obtain ⟨he, hb⟩ := h i hi (.inl ⟨hv, hn⟩)
    simp only [Option.map_some, Volume.stateAt, Volume.content, he, hb]

theorem cstr_of {n : Nat} {text : Bytes} (hz : (0 : UInt8) ∉ text) (hlen : text.length < n) :
    cstr (Block.of text : Block n).bytes = text := by
  rw [Block.bytes_of (Nat.le_of_lt hlen)]
  obtain ⟨k, hk⟩ : ∃ k, n - text.length = k + 1 := ⟨n - 1 - text.length, by omega⟩
  rw [hk, List.replicate_succ]
  exact cstr_append_zero hz

theorem name_patch {e : ZfsEntry} {path : Bytes} (hz : (0 : UInt8) ∉ path) (hlen : path.length < 48) :
    ({ e with path := e.path.patch 0 (path ++ [0]) } : ZfsEntry).name = path := by
  show cstr (e.path.patch 0 (path ++ [0])).bytes = path
  rw [Block.bytes_patch (by simp; omega)]
  simp only [overwrite, List.take_zero, List.nil_append, List.append_assoc]
  exact cstr_append_zero hz

theorem normalizePath_stored {currentDirectory input path : Bytes} (h : normalizePath currentDirectory input = some path) :
    (0 : UInt8) ∉ path ∧ path.length < 48 := by
  obtain ⟨cs, hn, rfl⟩ := normalizePath_normalForm h
  exact ⟨zero_notMem_render hn.clean, hn.fits⟩

theorem Volume.Ready.settledDisk (hv : v.Ready) : ∀ i < v.zfsSuper.entries, Settled (v.diskEntry i) :=
  fun i hi => hv.inSync i hi ▸ hv.settled i hi

theorem recoveryKeeps_sameDevice (hv : v.Ready) (hd : SameDevice v v') :
    RecoveryKeeps v'.zfsSuper.entries (Untouched v.zfsSuper.entries v.diskEntry) := by
  rw [hd.zfsSuper]
  exact recoveryKeeps_untouched hv.settledDisk

theorem NewSide.recoveryKeeps {path content : Bytes} {s : Nat} (hv : v.Ready) (hd : SameDevice v v')
    (hn : NewSide v v' path content (v.findEntry path) s) :
    RecoveryKeeps v'.zfsSuper.entries (Switched v.zfsSuper.entries v.diskEntry s
      (stageEntry path content (v.findEntry path)) (v.findEntry path)) := by
  rw [hd.zfsSuper]
  exact recoveryKeeps_switched hv.settledDisk hn.place
    (stageEntry_stages hv.laid.geometry.few fun i hi => (findEntry_some hi).1)

theorem remounted_untouched (hv : v.Ready) (hd : SameDevice v v')
    (hu : Untouched v.zfsSuper.entries v.diskEntry v'.diskEntry) (h : Remounted v' w) :
    Recovered (Untouched v.zfsSuper.entries v.diskEntry) v' w :=
  remounted_recovered (recoveryKeeps_sameDevice hv hd) (hd.laid hv.laid) hu h

theorem NewSide.remounted {path content : Bytes} {s : Nat} (hv : v.Ready) (hd : SameDevice v v')
    (hn : NewSide v v' path content (v.findEntry path) s) (h : Remounted v' w) :
    Recovered (Switched v.zfsSuper.entries v.diskEntry s (stageEntry path content (v.findEntry path))
      (v.findEntry path)) v' w :=
  remounted_recovered (hn.recoveryKeeps hv hd) (hd.laid hv.laid) hn.table h

theorem lookup_untouched (hv : v.Ready) (hd : SameDevice v v') (hslots : SlotsKept v v')
    (h : Recovered (Untouched v.zfsSuper.entries v.diskEntry) v' w) (q : Bytes) : w.lookup q = v.lookup q := by
  refine lookup_congr (h.zfsSuper.trans hd.zfsSuper) fun i hi hor => ?_
  have hi' : i < v'.zfsSuper.entries := by rwa [hd.zfsSuper]
  have hiw : i < w.zfsSuper.entries := by rwa [h.zfsSuper, hd.zfsSuper]
  have hset := h.settled i hi'
  have hwi := h.inSync i hiw
  have hvi := hv.inSync i hi
  rcases h.table i hi with he | ⟨hfree, hrest⟩
  · have he' : w.zfsEntries i = v.zfsEntries i := by rw [hwi, he, hvi]
    have hused : (v.diskEntry i).used ≠ 0 := by
      rw [← hvi]
      rcases hor with ⟨hvis, -⟩ | ⟨hvis, -⟩
      · exact used_of_visible hvis
      · exact used_of_visible (he' ▸ hvis)
    exact ⟨he', by rw [h.slots i hi', hslots i hi hused]⟩
  · -- a free entry stayed free: the recovered table has no staged entry
    exfalso
    rcases hor with ⟨hvis, -⟩ | ⟨hvis, -⟩
    · rw [hvi] at hvis
      exact used_of_visible hvis hfree
    · rw [hwi] at hvis
      rcases hrest with hu | htr
      · exact used_of_visible hvis hu
      · rw [hset.notTransaction] at htr
        exact Bool.noConfusion htr

theorem Switched.of_settled {n s : Nat} {T t : Nat → ZfsEntry} {o : Option Nat} {stage : ZfsEntry} (hu : stage.used ≠ 0)
    (h : Switched n T s stage o t) (hs : Settled (t s)) : t s = stage.finalize ∧ ∀ i, o = some i → t i = .empty := by
  rcases h.new with ⟨he, -⟩ | h
  · have hc : stage.commit.isCommitted = true := by
      simp [ZfsEntry.isCommitted, ZfsEntry.commit, hu, zfsFlagCommitted]
    have := hs.notCommitted
    rw [he, hc] at this
    exact Bool.noConfusion this
  · exact h

theorem lookup_switched {path content : Bytes} {s : Nat} (hv : v.Ready) (hd : SameDevice v v') (hslots : SlotsKept v v')
    (hz : (0 : UInt8) ∉ path) (hlen : path.length < 48) (hsize : content.length < 2 ^ 32)
    (hnew : NewSide v v' path content (v.findEntry path) s)
    (h : Recovered (Switched v.zfsSuper.entries v.diskEntry s (stageEntry path content (v.findEntry path))
      (v.findEntry path)) v' w) :
    w.lookup path = some (fileState content) ∧ ∀ q ≠ path, w.lookup q = v.lookup q := by
  have hnv : v'.zfsSuper.entries = v.zfsSuper.entries := by rw [hd.zfsSuper]
  have hnw : w.zfsSuper.entries = v.zfsSuper.entries := by rw [h.zfsSuper, hd.zfsSuper]
  have hsync : ∀ i < v.zfsSuper.entries, w.zfsEntries i = w.diskEntry i := fun i hi => h.inSync i (by rwa [hnw])
  have hs := hnew.place.staging
  obtain ⟨hfinal, hgone⟩ := h.table.of_settled (by decide : (1 : UInt8) ≠ 0) (h.settled s (by rwa [hnv]))
  have hws : w.zfsEntries s = (stageEntry path content (v.findEntry path)).finalize := by rw [hsync s hs, hfinal]
  have hname : (w.zfsEntries s).name = path := by
    rw [hws]
    exact cstr_of hz hlen
  have hvs : (w.zfsEntries s).visible = true := by
    rw [hws]
    rfl
  -- an entry other than the new one is gone, or is what it was and has another path
  have hother : ∀ i < v.zfsSuper.entries, i ≠ s → (w.zfsEntries i).visible →
      w.zfsEntries i = v.zfsEntries i ∧ (v.zfsEntries i).name ≠ path := by
    intro i hi his hvis
    rw [hsync i hi] at hvis ⊢
    have hio : some i ≠ v.findEntry path := by
      intro hio
      rw [hgone i hio.symm] at hvis
      exact Bool.noConfusion hvis
    have he : w.diskEntry i = v.zfsEntries i := by rw [h.table.others i hi his hio, hv.inSync i hi]
    refine ⟨he, fun hn => ?_⟩
    rw [he] at hvis
    rw [findEntry_eq hv.laid hv.distinct hi hvis hn] at hio
    exact hio rfl
  constructor
  · have hfind : w.findEntry path = some s := by
      rcases hf : w.findEntry path with _ | i
      · exact absurd hname (findEntry_none (h.laid (hd.laid hv.laid)) hf (by rwa [hnw]) hvs)
      · obtain ⟨hi, hvis, hn⟩ := findEntry_some hf
        by_contra hne
        obtain ⟨he, hn'⟩ := hother i (by rwa [hnw] at hi) (fun his => hne (by rw [his])) hvis
        exact hn' (by rw [← he, hn])
    have hcontent : w.content s (w.zfsEntries s) = content := by
      have hsz : (w.zfsEntries s).size.toNat = content.length := by
        rw [hws]
        exact UInt32.toNat_ofNat_of_lt' hsize
      unfold Volume.content
      rw [hsz, h.slots s (by rwa [hnv]), hnew.bytes]
    unfold Volume.lookup
    rw [hfind, Option.map_some, Volume.stateAt, hcontent, hws]
    rfl
  · intro q hq
    refine lookup_congr (h.zfsSuper.trans hd.zfsSuper) fun i hi hor => ?_
    have hused : w.zfsEntries i = v.zfsEntries i → (v.zfsEntries i).visible → w.slotBytes i = v.slotBytes i := by
      intro _ hvis
      rw [h.slots i (by rwa [hnv]), hslots i hi (by rw [← hv.inSync i hi]; exact used_of_visible hvis)]
    by_cases his : i = s
    · subst his
      exfalso
      rcases hor with ⟨hvis, -⟩ | ⟨-, hn⟩
      · rw [hv.inSync i hi] at hvis
        exact used_of_visible hvis hnew.place.free
      · exact hq (hn.symm.trans hname)
    · rcases hor with ⟨hvis, hn⟩ | ⟨hvis, -⟩
      · have hio : some i ≠ v.findEntry path := by
          intro hio
          obtain ⟨-, -, hn'⟩ := findEntry_some hio.symm
          exact hq (hn.symm.trans hn')
        have he : w.zfsEntries i = v.zfsEntries i := by
          rw [hsync i hi, h.table.others i hi his hio, hv.inSync i hi]
        exact ⟨he, hused he hvis⟩
      · obtain ⟨he, -⟩ := hother i hi his hvis
        exact ⟨he, hused he (he ▸ hvis)⟩

end Lookup

/-- A formatted volume of eight entries with slots of one sector, mounted. -/
def fresh (outcomes : List Outcome) : Volume where
  ata0 := ⟨true, true, 10, fun _ => Block.of [], outcomes⟩
  zfsSuper := ⟨Block.of (ascii "ZENOVFS1"), 1, 10, 8, 1, 2, 1, 0, Block.of [], Block.of []⟩
  zfsEntries := fun _ => .empty
  zfsMounted := true
  currentDirectory := root
  fileBuffer := true
  accessed := []

theorem fresh_diskEntry (outcomes : List Outcome) (i : Nat) : (fresh outcomes).diskEntry i = .empty := by
  have hzero : slice (Block.of [] : Sector).bytes (entrySlotOffset i) 64 = List.replicate 64 0 := by
    rw [Block.bytes_of (Nat.zero_le _)]
    unfold slice entrySlotOffset sectorSize
    rw [List.nil_append, List.drop_replicate, List.take_replicate]
    congr 1
    simp only [List.length_nil]
    omega
  unfold Volume.diskEntry
  show ZfsEntry.decode (slice (Block.of [] : Sector).bytes (entrySlotOffset i) 64) = .empty
  rw [hzero]
  decide

theorem fresh_ready (outcomes : List Outcome) : (fresh outcomes).Ready where
  mounted := rfl
  laid := (by decide : mountLayoutValid (fresh []).zfsSuper 10 = true)
  inSync i _ := (fresh_diskEntry outcomes i).symm
  settled _ _ := ⟨rfl, rfl⟩
  distinct i _ j _ hi := by
    have : ZfsEntry.empty.visible = true := hi
    exact absurd this (by decide)

/-! ### Crash atomicity -/

theorem length_content {i : Nat} (h : (v.zfsEntries i).size.toNat ≤ v.zfsSuper.maxFileBytes) :
    (v.content i (v.zfsEntries i)).length = (v.zfsEntries i).size.toNat := by
  unfold Volume.content
  have hlen : (v.slotBytes i).length = v.zfsSuper.slotSectors.toNat * sectorSize := length_sectorBytes ..
  rw [List.length_take, hlen, Nat.min_eq_left (h.trans (maxFileBytes_le _))]

theorem KeptBytes.eq {path kept : Bytes} {append : Bool} (data : Bytes)
    (hp : ∀ again, normalizePath v.currentDirectory path = some again → again = path) (h : KeptBytes v path append kept) :
    kept ++ data = newContent v path data append ∧ kept.length = existingSize v (v.findEntry path) append := by
  unfold KeptBytes at h
  unfold newContent Volume.lookup
  split at h
  · rename_i happ
    obtain ⟨rfl, -⟩ := happ
    obtain ⟨again, i, hn, hfind, -, hsize, rfl, -⟩ := h
    obtain rfl : again = path := hp again hn
    rw [hfind]
    exact ⟨rfl, length_content hsize⟩
  · rename_i hno
    subst h
    cases append with
    | false => exact ⟨rfl, rfl⟩
    | true =>
      have hz : existingSize v (v.findEntry path) true = 0 := by
        by_contra hne
        exact hno ⟨rfl, hne⟩
      refine ⟨?_, by rw [hz]; rfl⟩
      rcases hf : v.findEntry path with _ | i
      · rfl
      · rw [hf] at hz
        have hsz : (v.zfsEntries i).size.toNat = 0 := hz
        simp [Volume.stateAt, Volume.content, hsz]

theorem writeFileResult_sides {input p data : Bytes} {append : Bool} {r : Option FsResult} (hv : v.Ready)
    (hp : normalizePath v.currentDirectory input = some p)
    (hagain : ∀ again, normalizePath v.currentDirectory p = some again → again = p)
    (hw : writeFileResult input data append v = (r, v')) :
    SameDevice v v' ∧ SlotsKept v v' ∧
      ((Untouched v.zfsSuper.entries v.diskEntry v'.diskEntry ∧ ∀ res, r = some res → res.ok = false) ∨
        (newContent v p data append).length < 2 ^ 32 ∧
          ∃ s, NewSide v v' p (newContent v p data append) (v.findEntry p) s) := by
  have hspec := writeFileResult_spec input data append hv.laid hv.inSync
  have hold : v'.ata0.disk = v.ata0.disk → Same v v' → SlotsKept v v' ∧
      Untouched v.zfsSuper.entries v.diskEntry v'.diskEntry := by
    intro hd hs
    refine ⟨fun i _ _ => ?_, fun i _ => .inl ?_⟩
    · unfold Volume.slotBytes
      rw [hd, hs.zfsSuper]
    · unfold Volume.diskEntry
      rw [hd]
  have hnew : ∀ {path kept}, Writes v input data append path kept →
      path = p ∧ kept ++ data = newContent v p data append ∧ (newContent v p data append).length < 2 ^ 32 := by
    intro path kept hw
    obtain rfl : p = path := Option.some.inj (hp.symm.trans hw.normal)
    have he := (hw.keeps.eq data hagain).1
    exact ⟨rfl, he, by rw [← he]; exact lt_of_le_of_lt hw.fits (maxFileBytes_lt _)⟩
  have hsides : ∀ {path kept}, Writes v input data append path kept → Sides v v' path (kept ++ data) (v.findEntry path) →
      Untouched v.zfsSuper.entries v.diskEntry v'.diskEntry ∨ (newContent v p data append).length < 2 ^ 32 ∧
        ∃ s, NewSide v v' p (newContent v p data append) (v.findEntry p) s := by
    intro path kept hw h
    obtain ⟨rfl, he, hlt⟩ := hnew hw
    rw [he] at h
    exact h.imp id fun h => ⟨hlt, h⟩
  cases r with
  | none =>
    obtain ⟨-, hs, hd | ⟨hk, path, kept, hwr, h⟩⟩ := wp_cut hspec hw
    · exact ⟨hs.toSameDevice, (hold hd hs).1, .inl ⟨(hold hd hs).2, by simp⟩⟩
    · exact ⟨hs.toSameDevice, hk, (hsides hwr h).imp_left fun h => ⟨h, by simp⟩⟩
  | some res =>
    obtain ⟨hs, hend⟩ := wp_ended hspec hw
    refine ⟨hs.toSameDevice, ?_⟩
    cases hend with
    | refused ok disk entries =>
      exact ⟨(hold disk hs).1, .inl ⟨(hold disk hs).2, fun _ h => by cases h; exact ok⟩⟩
    | @skipped path kept status disk entries mounted isMounted normal keeps short =>
      obtain rfl : p = path := Option.some.inj (hp.symm.trans normal)
      exact absurd (keeps.eq data hagain).2 short
    | @written path kept writes slots ends =>
      refine ⟨slots, ?_⟩
      obtain ⟨rfl, he, hlt⟩ := hnew writes
      rw [he] at ends
      cases ends with
      | done new => exact .inr ⟨hlt, _, new⟩
      | pending status mounted fit new => exact .inr ⟨hlt, _, new⟩
      | failed ok sides => exact sides.imp (fun h => ⟨h, fun _ h => by cases h; exact ok⟩) fun h => ⟨hlt, h⟩

/-- **Crash atomicity of a write.** However a write of `p` ends (it returns, fails at a request, or the power
    is cut in it) and however many remounts are cut off or fail after it: a completed remount finds a table
    without staged or committed entries in which `p` names the old or the new state, the new one if the
    write reported success, and every other path names what it named. -/
theorem writeFileResult_crash_atomic (hv : v.Ready) {p data : Bytes} {append : Bool} {r : Option FsResult}
    (hp : normalizePath v.currentDirectory p = some p) (hw : writeFileResult p data append v = (r, v')) :
    (v.ata0.present = true → v.ata0.writable = true → ∃ w, Remounted v' w) ∧
      ∀ w, Remounted v' w →
        (∀ i < w.zfsSuper.entries, w.zfsEntries i = w.diskEntry i ∧ Settled (w.zfsEntries i)) ∧
          (w.lookup p = v.lookup p ∨ w.lookup p = some (fileState (newContent v p data append))) ∧
          (∀ q ≠ p, w.lookup q = v.lookup q) ∧
          (∀ res, r = some res → res.ok = true → w.lookup p = some (fileState (newContent v p data append))) := by
  obtain ⟨hd, hslots, hkind⟩ := writeFileResult_sides hv hp (fun again h => Option.some.inj (h.symm.trans hp)) hw
  have hl := hd.laid hv.laid
  have htable : ∀ {I w}, Recovered I v' w → ∀ i < w.zfsSuper.entries, w.zfsEntries i = w.diskEntry i ∧
      Settled (w.zfsEntries i) := by
    intro I w h i hi
    have := h.settled i (by rwa [h.zfsSuper] at hi)
    exact ⟨h.inSync i hi, by rwa [h.inSync i hi]⟩
  rcases hkind with ⟨hu, hfail⟩ | ⟨hlt, s, hnew⟩
  · refine ⟨fun hpres hwr => ?_, fun w h => ?_⟩
    · exact exists_remounted (recoveryKeeps_sameDevice hv hd) hl hu (by rw [hd.present, hpres]) (by rw [hd.writable, hwr])
    have hrec := remounted_untouched hv hd hu h
    have hlook := lookup_untouched hv hd hslots hrec
    refine ⟨htable hrec, .inl (hlook p), fun q _ => hlook q, fun res hres hok => ?_⟩
    rw [hfail res hres] at hok
    exact Bool.noConfusion hok
  · refine ⟨fun hpres hwr => ?_, fun w h => ?_⟩
    · exact exists_remounted (hnew.recoveryKeeps hv hd) hl hnew.table (by rw [hd.present, hpres]) (by rw [hd.writable, hwr])
    have hrec := hnew.remounted hv hd h
    obtain ⟨hz, hlen⟩ := normalizePath_stored hp
    obtain ⟨hp', hq⟩ := lookup_switched hv hd hslots hz hlen hlt hnew hrec
    exact ⟨htable hrec, .inr hp', hq, fun _ _ _ => hp'⟩

/-- A write into a fresh volume that is cut off when its entry has been committed. -/
theorem writeFileResult_crash_atomic_fresh :
    ∃ w, Remounted (writeFileResult (ascii "/a") [1, 2] false (fresh (.replicate 4 .passes ++ [.cut true]))).2 w ∧
      (w.lookup (ascii "/a") = none ∨ w.lookup (ascii "/a") = some (fileState [1, 2])) := by
  have hp : normalizePath root (ascii "/a") = some (ascii "/a") := by decide
  rcases hrun : writeFileResult (ascii "/a") [1, 2] false (fresh (.replicate 4 .passes ++ [.cut true])) with ⟨r, v'⟩
  have h := writeFileResult_crash_atomic (fresh_ready _) hp hrun
  obtain ⟨w, hw⟩ := h.1 rfl rfl
  rw [hrun]
  exact ⟨w, hw, (h.2 w hw).2.1⟩

end ZenovOS.Storage
