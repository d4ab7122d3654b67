import ZenovOS.Theorems.Storage.Plant

/-! # Appending to a file and reading it back

`write_file_result` normalises the path, and for an append it hands the result to `read_file_result`,
which normalises it once more. `Admitted` says that a write gets as far as that second look-up, `Keeps`
what the look-up brings, and `AppendSound` when it all comes out as the file's content and the new bytes. -/

namespace ZenovOS.Storage
open Bytes Mach Volume

variable {v v' : Volume}

/-! ### What a read gives on a device without faults -/

/-- The path names a file that reads as `b`. -/
def Volume.Yields (v : Volume) (input b : Bytes) : Prop :=
  ∃ path i, normalizePath v.currentDirectory input = some path ∧ v.findEntry path = some i ∧ v.Holds i b

theorem Volume.Holds.length {i : Nat} {b : Bytes} (h : v.Holds i b) : b.length = (v.zfsEntries i).size.toNat := by
  rw [← h.content]
  exact length_content h.size

theorem Volume.Holds.unique {i : Nat} {b c : Bytes} (h : v.Holds i b) (h' : v.Holds i c) : b = c :=
  h.content.symm.trans h'.content

theorem Volume.Yields.holds {input path b : Bytes} {i : Nat} (h : v.Yields input b)
    (hn : normalizePath v.currentDirectory input = some path) (hfind : v.findEntry path = some i) : v.Holds i b := by
  obtain ⟨path', i', hn', hfind', hb⟩ := h
  obtain rfl : path = path' := Option.some.inj (hn.symm.trans hn')
  obtain rfl : i = i' := Option.some.inj (hfind.symm.trans hfind')
  exact hb

theorem Volume.Yields.unique {input b c : Bytes} (h : v.Yields input b) (h' : v.Yields input c) : b = c := by
  obtain ⟨path, i, hn, hfind, hb⟩ := h
  exact hb.unique (h'.holds hn hfind)

/-- How a read ends: with the bytes that the path yields, or with none, when it yields none that fit. -/
inductive ReadEnd (v : Volume) (input : Bytes) (capacity : Nat) : FsResult × Bytes → Prop
  | read {b : Bytes} (yields : v.Yields input b) (fits : b.length ≤ capacity) :
      ReadEnd v input capacity (fsSuccess .read b.length, b)
  | refused {r : FsResult × Bytes} (ok : r.1.ok = false) (none : ∀ b, v.Yields input b → capacity < b.length) :
      ReadEnd v input capacity r

theorem readFileResult_end {input : Bytes} {capacity : Nat} (hl : v.Laid) (hm : v.zfsMounted = true) (hfit : v.Fit) :
    wp (readFileResult input capacity)
      (fun r v' => Alike v v' ∧ v'.zfsMounted = true ∧ ReadEnd v input capacity r) (fun _ => False) v := by
  have hself : Alike v v := ⟨Same.refl v, rfl, rfl⟩
  unfold readFileResult
  rw [wp_bind, wp_get]
  refine wp_ite (fun h => ?_) fun _ => ?_
  · rw [hm] at h
    cases h
  rcases hn : normalizePath v.currentDirectory input with _ | path
  · refine ⟨hself, hm, .refused rfl fun b hb => ?_⟩
    obtain ⟨p, i, hp, -⟩ := hb
    rw [hn] at hp
    cases hp
  dsimp only
  rcases hfind : v.findEntry path with _ | i
  · refine ⟨hself, hm, .refused rfl fun b hb => ?_⟩
    obtain ⟨p, i, hp, hi, -⟩ := hb
    obtain rfl : path = p := Option.some.inj (hn.symm.trans hp)
    rw [hfind] at hi
    cases hi
  have hi := (findEntry_some hfind).1
  have hholds : ∀ {b}, v.Yields input b → v.Holds i b := fun hb => hb.holds hn hfind
  have hrec : Alike v (v.record (v.zfsEntries i)) :=
    ⟨⟨⟨rfl, rfl, rfl, rfl⟩, rfl, rfl, fun hf => ⟨hf.present, hf.writable, hf.outcomes⟩⟩, rfl, rfl⟩
  simp only [wp_bind, wp_modify]
  refine wp_ite (fun htype => ?_) fun htype => wp_ite (fun hmax => ?_) fun hmax => wp_ite (fun hcap => ?_) fun hcap => ?_
  · exact ⟨hrec, hm, .refused rfl fun b hb => absurd (hholds hb).type htype⟩
  · exact ⟨hrec, hm, .refused rfl fun b hb => absurd (hholds hb).size (Nat.not_le.mpr hmax)⟩
  · exact ⟨hrec, hm, .refused rfl fun b hb => by rwa [(hholds hb).length]⟩
  have hsize : (v.zfsEntries i).size.toNat ≤ v.zfsSuper.slotSectors.toNat * sectorSize :=
    (Nat.not_lt.mp hmax).trans (maxFileBytes_le _)
  rw [wp_bind]
  refine wp_mono (readSectors_spec (v := v.record (v.zfsEntries i)) fun k hk => ?_) ?_ ?_
  · refine dataSector_add_lt hl hi (lt_of_lt_of_le hk ?_)
    unfold sectorsFor sectorSize at *
    omega
  · rintro r v' ⟨hs, he, hm', hr | ⟨b, n, rfl, -, hf⟩⟩
    · have hbytes : r = .ok (v.content i (v.zfsEntries i)) := by
        rw [hr, List.nil_append, List.length_nil, Nat.sub_zero, take_sectorBytes hsize]
        rfl
      subst hbytes
      have halike : Alike v v' := ⟨hrec.toSame.trans hs.toSame, hs.disk, he⟩
      have hmounted : v'.zfsMounted = true := hm'.trans hm
      dsimp only
      refine wp_ite (fun hsum => ?_) fun hsum => ?_
      · refine ⟨halike, hmounted, .refused rfl fun b hb => absurd ?_ hsum⟩
        rw [(hholds hb).content]
        exact (hholds hb).checksum
      · have hb : v.Holds i (v.content i (v.zfsEntries i)) :=
          ⟨of_not_not htype, Nat.not_lt.mp hmax, rfl, of_not_not hsum⟩
        have hlen : (v.content i (v.zfsEntries i)).length ≤ capacity := by
          rw [hb.length]
          exact Nat.not_lt.mp hcap
        have hend : ReadEnd v input capacity _ := .read ⟨path, i, hn, hfind, hb⟩ hlen
        rw [hb.length] at hend
        exact ⟨halike, hmounted, hend⟩
    · exact absurd (hrec.fit hfit) hf
  · rintro v' ⟨hf, -⟩
    exact hf (hrec.fit hfit)

/-- A read of the path, with room for it, gives `b`. -/
def GivesBack (v : Volume) (input b : Bytes) : Prop :=
  ∀ capacity, b.length ≤ capacity →
    wp (readFileResult input capacity) (fun r _ => r = (fsSuccess .read b.length, b)) (fun _ => False) v

theorem givesBack_iff {input b : Bytes} (hl : v.Laid) (hm : v.zfsMounted = true) (hfit : v.Fit) :
    GivesBack v input b ↔ v.Yields input b := by
  constructor
  · intro h
    obtain ⟨r, v', hrun, -, -, hend⟩ := wp_ends (readFileResult_end hl hm hfit)
    have hread := h b.length le_rfl
    have hr := wp_ended hread hrun
    cases hend with
    | read yields fits =>
      rw [Prod.mk.injEq] at hr
      rwa [hr.2] at yields
    | refused ok none =>
      rw [hr] at ok
      cases ok
  · intro h capacity hcap
    refine wp_mono (readFileResult_end hl hm hfit) ?_ fun _ h => h
    rintro r v' ⟨-, -, hend⟩
    cases hend with
    | read yields fits => rw [yields.unique h]
    | refused ok none => exact absurd (none b h) (Nat.not_lt.mpr hcap)

/-! ### What a write leaves on a device without faults -/

/-- `content` is in the slot of entry `s`, which has the path now, and the entry `o` is gone. -/
structure Stored (v v' : Volume) (path content : Bytes) (o : Option Nat) (s : Nat) : Prop extends Same v v' where
  mounted : v'.zfsMounted = v.zfsMounted
  slots : SlotsKept v v'
  bytes : (v'.slotBytes s).take content.length = content
  entries : v'.zfsEntries = written s (stageEntry path content o) o v.zfsEntries
  disk : ∀ i < v.zfsSuper.entries, v'.diskEntry i = written s (stageEntry path content o) o v.diskEntry i

/-- The content of a file goes into the first free entry, if there is one. -/
inductive ContentEnd (v v' : Volume) (path content : Bytes) (o : Option Nat) : FsResult → Prop
  | full (free : v.freeEntry o = none) (idle : v' = v) : ContentEnd v v' path content o (fsFailure .write .noSpace)
  | stored {s : Nat} (free : v.freeEntry o = some s) (stored : Stored v v' path content o s) :
      ContentEnd v v' path content o (fsSuccess .write content.length)

theorem writeContent_end {path content : Bytes} {o : Option Nat} (hl : v.Laid) (hsync : InSync v) (hfit : v.Fit)
    (ho : ∀ i, o = some i → i < v.zfsSuper.entries ∧ (v.zfsEntries i).used ≠ 0)
    (hsize : content.length ≤ v.zfsSuper.maxFileBytes) (hlen : path.length < pathBytes) :
    wp (writeContent path o content) (fun r v' => ContentEnd v v' path content o r) (fun _ => False) v := by
  unfold writeContent
  rw [wp_bind, wp_get]
  rcases hfree : v.freeEntry o with _ | s
  · exact .full hfree rfl
  have hplace := place_of_freeEntry hsync ho hfree
  have hs := hplace.staging
  have hunused := hplace.free
  have hslot : content.length ≤ v.zfsSuper.slotSectors.toNat * sectorSize := hsize.trans (maxFileBytes_le _)
  have hcount : sectorsFor content.length ≤ v.zfsSuper.slotSectors.toNat := by
    unfold sectorsFor sectorSize at *
    omega
  dsimp only
  refine wp_seq (stageSectors_spec fun k hk => dataSector_add_lt hl hs (hk.trans_le hcount)) ?_ ?_
  · rintro v₁ ⟨hf, -⟩
    exact hf hfit
  rintro r v₁ ⟨h₁, ⟨rfl, hdata⟩ | ⟨b, n, rfl, -, hf⟩⟩
  swap
  · exact absurd hfit hf
  have hcopy : pathCopy path pathBytes = some path := if_pos hlen
  dsimp only
  rw [hcopy]
  have hl₁ := h₁.laid hl
  have hn₁ : v₁.zfsSuper.entries = v.zfsSuper.entries := by rw [h₁.zfsSuper]
  have hdisk₁ : ∀ i < v.zfsSuper.entries, v₁.diskEntry i = v.diskEntry i := fun i hi => h₁.diskEntry hl hs hi
  have hplace₁ : Place v₁.zfsSuper.entries v₁.diskEntry s o := hn₁ ▸ hplace.congr hdisk₁
  have hstages : Stages v₁.zfsSuper.entries (stageEntry path content o) o := hn₁ ▸ stageEntry_stages hl.geometry.few fun i hi => (ho i hi).1
  have hbytes := h₁.content hsize hdata
  refine wp_mono (commitStage_spec hl₁ hplace₁ hstages) ?_ ?_
  · rintro r v₂ ⟨h₂, hend⟩
    cases hend with
    | done hdisk hentries hmounted =>
      refine .stored hfree ⟨h₁.toSame.trans h₂.toSame, hmounted.trans h₁.zfsMounted, fun i hi hu => ?_, ?_, ?_, fun i hi => ?_⟩
      · rw [h₂.slotBytes hl₁ (by rwa [hn₁])]
        exact h₁.slotBytes hl hs hcount hi (by rintro rfl; exact hu hunused)
      · rw [h₂.slotBytes hl₁ (by rwa [hn₁]), hbytes]
      · rw [hentries, h₁.zfsEntries]
      · rw [hdisk]
        exact written_congr hdisk₁ hi
    | pending hstatus hmounted hf => exact absurd (h₁.fit hfit) hf
    | failed hok hmounted hf => exact absurd (h₁.fit hfit) hf
  · rintro v₂ ⟨hf, -⟩
    exact hf (h₁.fit hfit)

theorem Alike.findEntry (h : Alike v v') (path : Bytes) : v'.findEntry path = v.findEntry path := by
  unfold Volume.findEntry
  rw [h.zfsSuper, h.zfsEntries]

theorem Alike.freeEntry (h : Alike v v') (o : Option Nat) : v'.freeEntry o = v.freeEntry o := by
  unfold Volume.freeEntry
  rw [h.zfsSuper, h.zfsEntries]

theorem Alike.content (h : Alike v v') (i : Nat) (e : ZfsEntry) : v'.content i e = v.content i e := by
  unfold Volume.content
  rw [h.slotBytes]

theorem Alike.holds {i : Nat} {b : Bytes} (h : Alike v v') : v'.Holds i b ↔ v.Holds i b := by
  constructor
  · rintro ⟨htype, hsize, hcontent, hsum⟩
    rw [h.zfsEntries] at htype hsize hcontent hsum
    rw [h.zfsSuper] at hsize
    rw [h.content] at hcontent
    exact ⟨htype, hsize, hcontent, hsum⟩
  · rintro ⟨htype, hsize, hcontent, hsum⟩
    refine ⟨by rwa [h.zfsEntries], by rwa [h.zfsEntries, h.zfsSuper], ?_, by rwa [h.zfsEntries]⟩
    rwa [h.zfsEntries, h.content]

theorem Alike.stored {w : Volume} {path content : Bytes} {o : Option Nat} {s : Nat} (h : Alike v v')
    (hm : v'.zfsMounted = v.zfsMounted) (hw : Stored v' w path content o s) : Stored v w path content o s where
  toSame := h.toSame.trans hw.toSame
  mounted := hw.mounted.trans hm
  slots := h.slotsKept hw.slots
  bytes := hw.bytes
  entries := by rw [hw.entries, h.zfsEntries]
  disk i hi := by
    rw [hw.disk i (by rwa [h.zfsSuper]), h.diskEntry]

/-! ### The steps of an append -/

/-- The size of the file that the path names. -/
abbrev Volume.sizeOf (v : Volume) (path : Bytes) : Nat := existingSize v (v.findEntry path) true

/-- The content of the file that the path names. -/
def Volume.contentOf (v : Volume) (path : Bytes) : Bytes :=
  (v.findEntry path).elim [] fun i => v.content i (v.zfsEntries i)

/-- An append to the normalised path gets as far as looking the old content up. -/
structure Admitted (v : Volume) (path data : Bytes) : Prop where
  notRoot : path ≠ root
  parent : v.parentExists path = true
  size : v.sizeOf path ≤ v.zfsSuper.maxFileBytes
  fits : data.length ≤ v.zfsSuper.maxFileBytes - v.sizeOf path

/-- The bytes that an append finds as the old content. -/
def Keeps (v : Volume) (path b : Bytes) : Prop := if v.sizeOf path = 0 then b = [] else v.Yields path b

/-- How an append to the normalised path ends. -/
inductive AppendEnd (v v' : Volume) (path data : Bytes) : FsResult → Prop
  | refused {r : FsResult} (status : r.status ≠ .ok) (alike : Alike v v')
      (why : ¬Admitted v path data ∨ ∀ b, ¬Keeps v path b) : AppendEnd v v' path data r
  /-- What was found is not as long as the file: reported as success, nothing written. -/
  | skipped {r : FsResult} {b : Bytes} (status : r.status = .ok) (alike : Alike v v') (mounted : v'.zfsMounted = true)
      (admitted : Admitted v path data) (keeps : Keeps v path b) (short : b.length ≠ v.sizeOf path) :
      AppendEnd v v' path data r
  | full {b : Bytes} (alike : Alike v v') (keeps : Keeps v path b) (all : b.length = v.sizeOf path)
      (free : v.freeEntry (v.findEntry path) = none) : AppendEnd v v' path data (fsFailure .write .noSpace)
  | stored {b : Bytes} {s : Nat} (admitted : Admitted v path data) (keeps : Keeps v path b)
      (all : b.length = v.sizeOf path) (free : v.freeEntry (v.findEntry path) = some s)
      (stored : Stored v v' path (b ++ data) (v.findEntry path) s) :
      AppendEnd v v' path data (fsSuccess .write (b ++ data).length)

/-- How the second look-up ends. -/
inductive KeepsEnd (v : Volume) (path : Bytes) : FsResult × Bytes → Prop
  | kept {r : FsResult × Bytes} (status : r.1.status = .ok) (keeps : Keeps v path r.2) : KeepsEnd v path r
  | refused {r : FsResult × Bytes} (ok : r.1.ok = false) (none : ∀ b, ¬Keeps v path b) : KeepsEnd v path r

theorem readExisting_end {path : Bytes} (hl : v.Laid) (hm : v.zfsMounted = true) (hfit : v.Fit) :
    wp (readExisting path true (v.sizeOf path))
      (fun r v' => Alike v v' ∧ v'.zfsMounted = true ∧ KeepsEnd v path r) (fun _ => False) v := by
  unfold readExisting
  rw [wp_bind, wp_get]
  refine wp_ite (fun hgo => ?_) fun hskip => ?_
  · have hsize : v.sizeOf path ≠ 0 := by simpa using hgo
    have hkeeps : ∀ {b}, Keeps v path b ↔ v.Yields path b := iff_of_eq (if_neg hsize)
    refine wp_mono (readFileResult_end hl hm hfit) ?_ fun _ h => h
    rintro r v' ⟨halike, hmounted, hend⟩
    cases hend with
    | read yields fits => exact ⟨halike, hmounted, .kept rfl (hkeeps.mpr yields)⟩
    | refused ok none =>
      refine ⟨halike, hmounted, .refused ok fun b hb => ?_⟩
      -- a file that can be read has room in the file buffer
      have hyields := hkeeps.mp hb
      have hshort := none b hyields
      obtain ⟨-, i, -, -, hholds⟩ := hyields
      exact absurd (hholds.length.symm ▸ hholds.size) (Nat.not_le.mpr hshort)
  · have hsize : v.sizeOf path = 0 := by simpa using hskip
    refine ⟨⟨Same.refl v, rfl, rfl⟩, hm, .kept rfl ?_⟩
    unfold Keeps
    rw [if_pos hsize]

theorem writeFileResult_appendEnd {input path data : Bytes} (hl : v.Laid) (hsync : InSync v) (hm : v.zfsMounted = true)
    (hfit : v.Fit) (hn : normalizePath v.currentDirectory input = some path)
    (hfile : ∀ i, v.findEntry path = some i → (v.zfsEntries i).type = zfsTypeFile) :
    wp (writeFileResult input data true) (fun r v' => AppendEnd v v' path data r) (fun _ => False) v := by
  have hself : Alike v v := ⟨Same.refl v, rfl, rfl⟩
  unfold writeFileResult
  rw [wp_bind, wp_get]
  refine wp_ite (fun h => ?_) fun _ => ?_
  · rw [hm] at h
    cases h
  rw [hn]
  dsimp only
  refine wp_ite (fun h => ?_) fun hroot => wp_ite (fun h => ?_) fun hparent => wp_ite (fun h => ?_) fun _ =>
    wp_ite (fun h => ?_) fun hspace => ?_
  · exact .refused (by decide) hself (.inl fun ha => ha.notRoot h)
  · refine .refused (by decide) hself (.inl fun ha => ?_)
    rw [ha.parent] at h
    cases h
  · rw [Option.any_eq_true] at h
    obtain ⟨i, hi, htype⟩ := h
    exact absurd (hfile i hi) (by simpa using htype)
  · refine .refused (by decide) hself (.inl fun ha => ?_)
    rcases h with h | h
    · exact absurd ha.size (Nat.not_le.mpr h)
    · exact absurd ha.fits (Nat.not_le.mpr h)
  rw [not_or, Nat.not_lt, Nat.not_lt] at hspace
  have hadmitted : Admitted v path data := ⟨hroot, by simpa using hparent, hspace.1, hspace.2⟩
  refine wp_seq (readExisting_end hl hm hfit) (fun _ h => h) ?_
  rintro read v₁ ⟨h₁, hm₁, hend⟩
  cases hend with
  | refused ok none =>
    rw [if_pos (.inl (by simp [ok])), wp_pure]
    refine .refused (fun hs => ?_) h₁ (.inr none)
    have hstatus : read.1.status = .ok := hs
    simp [FsResult.ok, hstatus] at ok
  | kept status keeps =>
    refine wp_ite (fun hbad => ?_) fun hgood => ?_
    · have hok : read.1.ok = true := by simp [FsResult.ok, status]
      exact .skipped status h₁ hm₁ hadmitted keeps (by simpa [hok] using hbad)
    · rw [not_or, not_not] at hgood
      have hall : read.2.length = v.sizeOf path := hgood.2
      have hsize : (read.2 ++ data).length ≤ v₁.zfsSuper.maxFileBytes := by
        rw [h₁.zfsSuper, List.length_append, hall]
        omega
      refine wp_mono (writeContent_end (h₁.laid hl) (fun i hi => ?_) (h₁.fit hfit) (fun i hi => ?_) hsize
        (normalizePath_stored hn).2) ?_ fun _ h => h
      · rw [h₁.zfsSuper] at hi
        rw [h₁.zfsEntries, h₁.diskEntry, hsync i hi]
      · obtain ⟨hlt, hvis, -⟩ := findEntry_some hi
        rw [h₁.zfsSuper, h₁.zfsEntries]
        exact ⟨hlt, used_of_visible hvis⟩
      · rintro r v₂ hend
        cases hend with
        | full free idle =>
          rw [h₁.freeEntry] at free
          exact .full (idle ▸ h₁) keeps hall free
        | stored free stored =>
          rw [h₁.freeEntry] at free
          exact .stored hadmitted keeps hall free (h₁.stored (hm₁.trans hm.symm) stored)

/-! ### The path after the write -/

/-- The first entry, other than the one found, that the path could name. -/
def Volume.another (v : Volume) (path : Bytes) : Option Nat :=
  (List.range (min v.zfsSuper.entries zfsMaxEntries)).find? fun i =>
    some i ≠ v.findEntry path && ((v.zfsEntries i).visible && (v.zfsEntries i).name = path)

/-- What the path names once `s` is the entry written for it: another entry of that path, if it comes first. -/
def Volume.namedAfter (v : Volume) (path : Bytes) (s : Nat) : Nat :=
  (v.another path).elim s (min s)

section After
variable {path content : Bytes} {s : Nat}

theorem Stored.newEntry (h : Stored v v' path content (v.findEntry path) s) :
    v'.zfsEntries s = (stageEntry path content (v.findEntry path)).finalize := by
  rw [h.entries]
  exact Function.update_self ..

theorem Stored.otherEntry (h : Stored v v' path content (v.findEntry path) s) {i : Nat} (his : i ≠ s)
    (hi : some i ≠ v.findEntry path) : v'.zfsEntries i = v.zfsEntries i := by
  rw [h.entries]
  unfold written
  rw [Function.update_of_ne his, clearAt_of_ne hi]

theorem Stored.oldEntry (h : Stored v v' path content (v.findEntry path) s) {i : Nat} (his : i ≠ s)
    (hi : v.findEntry path = some i) : v'.zfsEntries i = .empty := by
  rw [h.entries]
  unfold written
  rw [Function.update_of_ne his, clearAt_old hi]

theorem Stored.named (h : Stored v v' path content (v.findEntry path) s) (hz : (0 : UInt8) ∉ path)
    (hlen : path.length < pathBytes) {i : Nat} :
    ((v'.zfsEntries i).visible && (v'.zfsEntries i).name = path) =
      (i = s || (some i ≠ v.findEntry path && ((v.zfsEntries i).visible && (v.zfsEntries i).name = path))) := by
  have hname : ((stageEntry path content (v.findEntry path)).finalize).name = path := cstr_of hz hlen
  have hvisible : ((stageEntry path content (v.findEntry path)).finalize).visible = true := rfl
  by_cases his : i = s
  · subst his
    rw [h.newEntry, hname, hvisible]
    simp
  · by_cases hi : v.findEntry path = some i
    · rw [h.oldEntry his hi]
      have hempty : ZfsEntry.empty.visible = false := rfl
      simp [hempty, his, hi]
    · rw [h.otherEntry his (Ne.symm hi)]
      simp [his, Ne.symm hi]

theorem Stored.findEntry (h : Stored v v' path content (v.findEntry path) s) (hl : v.Laid)
    (hs : s < v.zfsSuper.entries) (hz : (0 : UInt8) ∉ path) (hlen : path.length < pathBytes) :
    v'.findEntry path = some (v.namedAfter path s) := by
  have hn : min v.zfsSuper.entries zfsMaxEntries = v.zfsSuper.entries := Nat.min_eq_left hl.geometry.few
  unfold Volume.findEntry
  rw [h.zfsSuper, hn, List.find?_range_eq_some]
  simp only [h.named hz hlen, List.mem_range]
  rcases ha : v.another path with _ | j
  · have hafter : v.namedAfter path s = s := by simp [Volume.namedAfter, ha]
    rw [Volume.another, hn, List.find?_range_eq_none] at ha
    rw [hafter]
    refine ⟨by simp, hs, fun k hk => ?_⟩
    simpa [hk.ne] using ha k (hk.trans hs)
  · have hfirst := ha
    rw [Volume.another, hn, List.find?_range_eq_some] at hfirst
    obtain ⟨hj, hjn, hbefore⟩ := hfirst
    rw [List.mem_range] at hjn
    have hafter : v.namedAfter path s = min s j := by simp [Volume.namedAfter, ha]
    rw [hafter]
    refine ⟨?_, by omega, fun k hk => ?_⟩
    · rcases Nat.le_total s j with hle | hle
      · simp [Nat.min_eq_left hle]
      · rw [Nat.min_eq_right hle, hj, Bool.or_true]
    · have hks : k ≠ s := by omega
      simpa [hks] using hbefore k (by omega)

/-- The entry that the path names after the write reads as `b`: the new one as its content, another as it did. -/
theorem Stored.holds_iff (h : Stored v v' path content (v.findEntry path) s) (hsync : InSync v)
    (hs : s < v.zfsSuper.entries) (hsize : content.length ≤ v.zfsSuper.maxFileBytes) {b : Bytes} :
    v'.Holds (v.namedAfter path s) b ↔
      if v.namedAfter path s = s then b = content else v.Holds (v.namedAfter path s) b := by
  have hmod : (UInt32.ofNat content.length).toNat = content.length :=
    UInt32.toNat_ofNat_of_lt' (lt_of_le_of_lt hsize (maxFileBytes_lt _))
  by_cases hns : v.namedAfter path s = s
  · rw [hns, if_pos rfl]
    have hcontent : v'.content s (v'.zfsEntries s) = content := by
      unfold Volume.content
      rw [h.newEntry]
      show (v'.slotBytes s).take (UInt32.ofNat content.length).toNat = content
      rw [hmod, h.bytes]
    constructor
    · intro hb
      rw [← hb.content, hcontent]
    · rintro rfl
      refine ⟨by rw [h.newEntry]; rfl, ?_, hcontent, by rw [h.newEntry]; rfl⟩
      rw [h.newEntry, h.zfsSuper]
      show (UInt32.ofNat b.length).toNat ≤ _
      rwa [hmod]
  · rw [if_neg hns]
    rcases ha : v.another path with _ | j
    · exact absurd (by simp [Volume.namedAfter, ha]) hns
    have hafter : v.namedAfter path s = min s j := by simp [Volume.namedAfter, ha]
    have hj : v.namedAfter path s = j := by omega
    rw [hj] at hns ⊢
    have hfirst := List.find?_some ha
    rw [Bool.and_eq_true, Bool.and_eq_true, decide_eq_true_eq] at hfirst
    obtain ⟨hold, hvis, -⟩ := hfirst
    have he : v'.zfsEntries j = v.zfsEntries j := h.otherEntry hns hold
    have hjn : j < v.zfsSuper.entries := by omega
    have hslot : v'.slotBytes j = v.slotBytes j := by
      refine h.slots j hjn ?_
      rw [← hsync j hjn]
      exact used_of_visible hvis
    have hcontent : v'.content j (v'.zfsEntries j) = v.content j (v.zfsEntries j) := by
      unfold Volume.content
      rw [he, hslot]
    constructor
    · rintro ⟨htype, hmax, hb, hsum⟩
      rw [he] at htype hmax hsum
      rw [h.zfsSuper] at hmax
      exact ⟨htype, hmax, hcontent ▸ hb, hsum⟩
    · rintro ⟨htype, hmax, hb, hsum⟩
      exact ⟨by rwa [he], by rwa [he, h.zfsSuper], hcontent ▸ hb, by rwa [he]⟩

end After

/-! ### The law -/

theorem Volume.yields_iff {input path b : Bytes} {i : Nat} (hn : normalizePath v.currentDirectory input = some path)
    (hfind : v.findEntry path = some i) : v.Yields input b ↔ v.Holds i b :=
  ⟨fun h => h.holds hn hfind, fun h => ⟨path, i, hn, hfind, h⟩⟩

theorem Keeps.unique {path b c : Bytes} (h : Keeps v path b) (h' : Keeps v path c) : b = c := by
  unfold Keeps at h h'
  split at h
  · rename_i hsize
    rw [if_pos hsize] at h'
    rw [h, h']
  · rename_i hsize
    rw [if_neg hsize] at h'
    exact h.unique h'

/-- The entries, in memory and on disk, and their contents are what they were. -/
def Unchanged (v v' : Volume) : Prop :=
  ∀ i < v.zfsSuper.entries, v'.zfsEntries i = v.zfsEntries i ∧ v'.diskEntry i = v.diskEntry i ∧
    v'.content i (v'.zfsEntries i) = v.content i (v.zfsEntries i)

theorem Alike.unchanged (h : Alike v v') : Unchanged v v' := by
  intro i _
  refine ⟨by rw [h.zfsEntries], by rw [h.diskEntry], ?_⟩
  rw [h.content, h.zfsEntries]

/-- An append that succeeds gives back the content of the path and the new bytes behind it; one that does not
    changes no content. -/
def AppendLaw (v : Volume) (input path data : Bytes) : Prop :=
  wp (writeFileResult input data true)
    (fun r v' => if r.status = .ok then GivesBack v' input (v.contentOf path ++ data) else Unchanged v v')
    (fun _ => False) v

/-- What an admitted append finds as the old content is the content of the path; or it is as long and there is
    no free entry, or it is of another length and there is nothing to append to a readable file. Where another
    entry of the path comes before the free one, that entry has to hold the result already. -/
def AppendSound (v : Volume) (path data : Bytes) : Prop :=
  Admitted v path data → ∀ b, Keeps v path b →
    if b.length = v.sizeOf path then
      ∀ s, v.freeEntry (v.findEntry path) = some s →
        if v.namedAfter path s = s then b = v.contentOf path
        else v.Holds (v.namedAfter path s) (v.contentOf path ++ data)
    else data = [] ∧ ∃ i, v.findEntry path = some i ∧ v.Holds i (v.contentOf path)

theorem AppendEnd.sound_iff {input path data : Bytes} {r : FsResult} (hend : AppendEnd v v' path data r) (hl : v.Laid)
    (hsync : InSync v) (hm : v.zfsMounted = true) (hfit : v.Fit) (hn : normalizePath v.currentDirectory input = some path) :
    (if r.status = .ok then GivesBack v' input (v.contentOf path ++ data) else Unchanged v v') ↔
      AppendSound v path data := by
  obtain ⟨hz, hlen⟩ := normalizePath_stored hn
  cases hend with
  | refused status alike why =>
    rw [if_neg status]
    refine iff_of_true alike.unchanged fun ha b hb => ?_
    rcases why with h | h
    · exact absurd ha h
    · exact absurd hb (h b)
  | @skipped r b status alike mounted admitted keeps short =>
    rw [if_pos status, givesBack_iff (alike.laid hl) mounted (alike.fit hfit)]
    obtain ⟨i, hfind⟩ : ∃ i, v.findEntry path = some i := by
      rcases hfind : v.findEntry path with _ | i
      · have hsize : v.sizeOf path = 0 := by
          unfold Volume.sizeOf existingSize
          rw [hfind]
          rfl
        have hb : b = [] := by
          unfold Keeps at keeps
          rwa [if_pos hsize] at keeps
        rw [hb, hsize] at short
        exact absurd rfl short
      · exact ⟨i, rfl⟩
    rw [yields_iff (by rw [alike.currentDirectory, hn]) (by rw [alike.findEntry, hfind]), alike.holds]
    have hcontent : v.contentOf path = v.content i (v.zfsEntries i) := by
      unfold Volume.contentOf
      rw [hfind]
      rfl
    constructor
    · intro hholds _ b' hb'
      obtain rfl := keeps.unique hb'
      rw [if_neg short]
      have hdata : data = [] := by
        have := hholds.content
        rwa [← hcontent, List.self_eq_append_right] at this
      rw [hdata, List.append_nil] at hholds
      exact ⟨hdata, i, hfind, hholds⟩
    · intro hsound
      have h := hsound admitted b keeps
      rw [if_neg short] at h
      obtain ⟨rfl, j, hj, hholds⟩ := h
      obtain rfl : i = j := Option.some.inj (hfind.symm.trans hj)
      rwa [List.append_nil]
  | @full b alike keeps all free =>
    rw [if_neg (by decide)]
    refine iff_of_true alike.unchanged fun _ b' hb' => ?_
    obtain rfl := keeps.unique hb'
    rw [if_pos all]
    intro s hs
    rw [free] at hs
    cases hs
  | @stored b s admitted keeps all free stored =>
    have hs := (freeEntry_some free).1
    have hsize : (b ++ data).length ≤ v.zfsSuper.maxFileBytes := by
      have hsum := admitted.size
      have hfits := admitted.fits
      rw [List.length_append, all]
      omega
    rw [if_pos (fsSuccess_status ..), givesBack_iff (stored.laid hl) (stored.mounted.trans hm) (stored.fit hfit),
      yields_iff (by rw [stored.currentDirectory, hn]) (stored.findEntry hl hs hz hlen), stored.holds_iff hsync hs hsize]
    constructor
    · intro h _ b' hb'
      obtain rfl := keeps.unique hb'
      rw [if_pos all]
      intro s' hs'
      obtain rfl : s = s' := Option.some.inj (free.symm.trans hs')
      simpa [eq_comm] using h
    · intro hsound
      have h := hsound admitted b keeps
      rw [if_pos all] at h
      simpa [eq_comm] using h s free

/-- An append on a device without faults obeys the law exactly when it is sound. -/
theorem appendLaw_iff {input path data : Bytes} (hl : v.Laid) (hsync : InSync v) (hm : v.zfsMounted = true) (hfit : v.Fit)
    (hn : normalizePath v.currentDirectory input = some path)
    (hfile : ∀ i, v.findEntry path = some i → (v.zfsEntries i).type = zfsTypeFile) :
    AppendLaw v input path data ↔ AppendSound v path data := by
  obtain ⟨r, v', hrun, hend⟩ := wp_ends (writeFileResult_appendEnd hl hsync hm hfit hn hfile)
  have hlaw : AppendLaw v input path data ↔
      if r.status = .ok then GivesBack v' input (v.contentOf path ++ data) else Unchanged v v' := by
    unfold AppendLaw wp
    rw [hrun]
  rw [hlaw]
  exact hend.sound_iff hl hsync hm hfit hn

theorem not_appendLaw {input path data b : Bytes} {i : Nat} (hv : v.Ready) (hfit : v.Fit)
    (hn : normalizePath v.currentDirectory input = some path) (hfind : v.findEntry path = some i)
    (htype : (v.zfsEntries i).type = zfsTypeFile) (hadmitted : Admitted v path data) (hkeeps : Keeps v path b)
    (hshort : b.length ≠ v.sizeOf path) (hdata : data ≠ []) : ¬AppendLaw v input path data := by
  intro hlaw
  have hfile : ∀ j, v.findEntry path = some j → (v.zfsEntries j).type = zfsTypeFile := by
    intro j hj
    obtain rfl : i = j := Option.some.inj (hfind.symm.trans hj)
    exact htype
  obtain ⟨r, v', hrun, hend⟩ :=
    wp_ends (writeFileResult_appendEnd hv.laid hv.inSync hv.mounted hfit hn hfile)
  unfold AppendLaw at hlaw
  have hreturned := wp_ended hlaw hrun
  have hsound := (hend.sound_iff hv.laid hv.inSync hv.mounted hfit hn).mp hreturned hadmitted b hkeeps
  rw [if_neg hshort] at hsound
  exact hdata hsound.1

theorem appendLaw_iff_fresh :
    normalizePath root (ascii "/x") = some (ascii "/x") ∧ (AppendLaw (fresh []) (ascii "/x") (ascii "/x") (ascii "D") ↔
      AppendSound (fresh []) (ascii "/x") (ascii "D")) :=
  ⟨by decide, appendLaw_iff (fresh_ready []).laid (fresh_ready []).inSync rfl ⟨rfl, rfl, rfl⟩ (by decide) fun i hi => by
    have hempty : (fresh []).Named [] := named_of_empty fun _ => rfl
    rw [hempty.findEntry (p := ascii "/x") List.not_mem_nil] at hi
    cases hi⟩

/-! ### A file behind an alias -/

/-- `/data/x` below the directory `/data`, which is the file that `/data/data/x` names, and the file `/x`. -/
def behindAlias : Volume :=
  (((fresh []).plant 0 (directoryEntry (ascii "/data")) []).plant 1
    (fileEntry (ascii "/data/x") (ascii "A")) (ascii "A")).plant 2 (fileEntry (ascii "/x") (ascii "BC")) (ascii "BC")

theorem directoryEntry_data : (directoryEntry (ascii "/data")).name = ascii "/data" :=
  name_directoryEntry (by decide) (by decide)

theorem fileEntry_dataX : (fileEntry (ascii "/data/x") (ascii "A")).name = ascii "/data/x" :=
  name_fileEntry (by decide) (by decide)

theorem fileEntry_x : (fileEntry (ascii "/x") (ascii "BC")).name = ascii "/x" :=
  name_fileEntry (by decide) (by decide)

theorem alias_ready :
    (((fresh []).plant 0 (directoryEntry (ascii "/data")) []).plant 1
      (fileEntry (ascii "/data/x") (ascii "A")) (ascii "A")).Ready ∧
      (((fresh []).plant 0 (directoryEntry (ascii "/data")) []).plant 1
        (fileEntry (ascii "/data/x") (ascii "A")) (ascii "A")).Named [ascii "/data/x", ascii "/data"] := by
  have h₀ : ((fresh []).plant 0 (directoryEntry (ascii "/data")) []).Ready :=
    plant_ready_of_named (fresh_ready []) (by decide) ⟨rfl, rfl⟩ (named_of_empty fun _ => rfl) (by decide)
  have hn₀ : ((fresh []).plant 0 (directoryEntry (ascii "/data")) []).Named [ascii "/data"] :=
    directoryEntry_data ▸ plant_named (named_of_empty fun _ => rfl) _ _ _
  refine ⟨plant_ready_of_named h₀ (by decide) (finalize_settled _) hn₀ ?_, ?_⟩
  · rw [fileEntry_dataX]
    decide
  · have hn₁ := plant_named hn₀ 1 (fileEntry (ascii "/data/x") (ascii "A")) (ascii "A")
    rwa [fileEntry_dataX] at hn₁

theorem behindAlias_ready : behindAlias.Ready := by
  refine plant_ready_of_named alias_ready.1 (by decide) (finalize_settled _) alias_ready.2 ?_
  rw [fileEntry_x]
  decide

theorem behindAlias_dataX : behindAlias.findEntry (ascii "/data/x") = some 1 := by
  have hfind := plant_findEntry (by decide) alias_ready.1 (by rfl)
  rw [fileEntry_dataX] at hfind
  exact plant_findEntry_of_ne behindAlias_ready (by decide) hfind

theorem behindAlias_x : behindAlias.findEntry (ascii "/x") = some 2 := by
  have hfind := plant_findEntry (by decide) behindAlias_ready (by rfl)
  rwa [fileEntry_x] at hfind

/-- An append to `/data/data/x` looks the old content up in `/x`, and reports success without a write. -/
theorem append_behindAlias :
    normalizePath behindAlias.currentDirectory (ascii "/data/data/x") = some (ascii "/data/x") ∧
      behindAlias.findEntry (ascii "/data/x") = some 1 ∧
      ¬AppendLaw behindAlias (ascii "/data/data/x") (ascii "/data/x") (ascii "D") := by
  have hn : normalizePath root (ascii "/data/data/x") = some (ascii "/data/x") := by decide
  have hagain : normalizePath root (ascii "/data/x") = some (ascii "/x") := by decide
  have hfind := behindAlias_dataX
  have hsize : behindAlias.sizeOf (ascii "/data/x") = 1 := by
    rw [Volume.sizeOf, hfind]
    rfl
  have hother : behindAlias.Holds 2 (ascii "BC") := plant_holds (by decide) (by decide) (by decide)
  have hkeeps : Keeps behindAlias (ascii "/data/x") (ascii "BC") := by
    unfold Keeps
    rw [hsize, if_neg (by decide)]
    exact ⟨ascii "/x", 2, hagain, behindAlias_x, hother⟩
  have hdirectory : behindAlias.findEntry (ascii "/data") = some 0 := by
    have h₀ : ((fresh []).plant 0 (directoryEntry (ascii "/data")) []).Ready :=
      plant_ready_of_named (fresh_ready []) (by decide) ⟨rfl, rfl⟩ (named_of_empty fun _ => rfl) (by decide)
    have h := plant_findEntry (by decide) h₀ (by rfl)
    rw [directoryEntry_data] at h
    exact plant_findEntry_of_ne behindAlias_ready (by decide) (plant_findEntry_of_ne alias_ready.1 (by decide) h)
  have hadmitted : Admitted behindAlias (ascii "/data/x") (ascii "D") := by
    refine ⟨by decide, parentExists_of_find (by decide) hdirectory rfl, ?_, ?_⟩
    · rw [hsize]
      decide
    · rw [hsize]
      decide
  have hshort : (ascii "BC").length ≠ behindAlias.sizeOf (ascii "/data/x") := by
    rw [hsize]
    decide
  exact ⟨hn, hfind, not_appendLaw behindAlias_ready ⟨rfl, rfl, rfl⟩ hn hfind rfl hadmitted hkeeps hshort (by decide)⟩

end ZenovOS.Storage
