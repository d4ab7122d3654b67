import ZenovOS.Theorems.Storage.Tree

/-! # Runs of file system operations keep the tree

A run is a sequence of operations that succeed. An operation that reports its recovery as pending leaves
the volume unmounted, so the run goes on with a remount. The operations keep the tree as long as they
store printable paths, and a rename has a destination other than the root and other than an entry of the
renamed directory: `Meets` says so of one step. -/

namespace ZenovOS.Storage
open Bytes Mach Volume

variable {v v' : Volume}

/-- A mounted volume whose table is a tree. -/
structure Volume.Sound (v : Volume) : Prop where
  mounted : v.zfsMounted = true
  laid : v.Laid
  inSync : InSync v
  tree : Tree v.zfsSuper.entries v.zfsSuper.maxFileBytes v.zfsEntries

theorem Volume.Sound.ready (h : v.Sound) : v.Ready :=
  ⟨h.mounted, h.laid, h.inSync, fun _ hi => h.tree.settled hi, h.tree.distinctPaths⟩

/-- What is to hold of the volume after an operation: it is sound, once its recovery is done where that is
    pending. -/
structure Settles (v' : Volume) (r : FsResult) : Prop where
  done : r.status = .ok → v'.Sound
  pending : r.status = .recoveryPending → ∀ w, Remounted v' w → w.activate.Sound

theorem settles_failed {r : FsResult} (h : r.ok = false) : Settles v' r := by
  unfold FsResult.ok at h
  simp only [Bool.or_eq_false_iff, decide_eq_false_iff_not] at h
  exact ⟨fun hs => absurd hs h.1, fun hs => absurd hs h.2⟩

theorem settles_failure {operation : FsOperation} {status : FsStatus} (h₁ : status ≠ .ok) (h₂ : status ≠ .recoveryPending) :
    Settles v' (fsFailure operation status) :=
  ⟨fun h => absurd h h₁, fun h => absurd h h₂⟩

theorem settles_sound {operation : FsOperation} {bytes : Nat} (h : v'.Sound) : Settles v' (fsSuccess operation bytes) :=
  ⟨fun _ => h, fun hs => by cases hs⟩

theorem Alike.sound (h : Alike v v') (hm : v'.zfsMounted = v.zfsMounted) (hv : v.Sound) : v'.Sound where
  mounted := hm.trans hv.mounted
  laid := h.laid hv.laid
  inSync i hi := by
    rw [h.zfsSuper] at hi
    rw [h.zfsEntries, h.diskEntry, hv.inSync i hi]
  tree := by
    rw [h.zfsSuper, h.zfsEntries]
    exact hv.tree

/-! ### Operations that replace one entry -/

theorem replaceEntryResult_settles {i : Nat} {e : ZfsEntry} {operation : FsOperation} (hv : v.Sound)
    (hi : i < v.zfsSuper.entries)
    (ht : Tree v.zfsSuper.entries v.zfsSuper.maxFileBytes (Function.update v.zfsEntries i e)) :
    wp (replaceEntryResult i e operation) (fun r v' => Settles v' r) (fun _ => True) v := by
  refine wp_mono (replaceEntryResult_spec hv.laid hi) ?_ fun _ _ => trivial
  rintro r v' (⟨rfl, hr, he, hm⟩ | ⟨hok, -⟩)
  · refine settles_sound ⟨hm.trans hv.mounted, hr.same.laid hv.laid, hv.inSync.replaced hr he, ?_⟩
    rw [hr.same.zfsSuper, he]
    exact ht
  · exact settles_failed hok

theorem makeDirectoryResult_settles {input : Bytes} (hv : v.Sound)
    (hp : ∀ path, normalizePath v.currentDirectory input = some path → path.all printable = true) :
    wp (makeDirectoryResult input) (fun r v' => Settles v' r) (fun _ => True) v := by
  unfold makeDirectoryResult
  rw [wp_bind, wp_get]
  refine wp_ite (fun _ => settles_failure (by decide) (by decide)) fun _ => ?_
  rcases hn : normalizePath v.currentDirectory input with _ | path
  · exact settles_failure (by decide) (by decide)
  dsimp only
  refine wp_ite (fun _ => settles_failure (by decide) (by decide)) fun hroot => ?_
  refine wp_ite (fun _ => settles_failure (by decide) (by decide)) fun hnew => ?_
  refine wp_ite (fun _ => settles_failure (by decide) (by decide)) fun hparent => ?_
  rcases hfree : v.freeEntry none with _ | index
  · exact settles_failure (by decide) (by decide)
  rcases hcopy : pathCopy path pathBytes with _ | copy
  · exact settles_failure (by decide) (by decide)
  dsimp only
  rw [pathCopy_eq hcopy]
  obtain ⟨hi, -, hunused⟩ := freeEntry_some hfree
  obtain ⟨hz, hlen⟩ := normalizePath_stored hn
  have hname : ({ ZfsEntry.empty with used := 1, type := zfsTypeDirectory, path := Block.of path } : ZfsEntry).name = path :=
    cstr_of hz hlen
  refine replaceEntryResult_settles hv hi (Tree.put (o := none) hv.tree hunused (by simp) (fun j hj hu hjn => ?_)
    ⟨.inr rfl, rfl, ?_, fun _ => ⟨rfl, rfl⟩, fun h => absurd h.symm zfsTypeFile_ne_directory⟩ ?_)
  · rw [hname] at hjn
    rw [findEntry_eq hv.laid hv.tree.distinctPaths hj ((hv.tree.visible hj).mpr hu) hjn] at hnew
    exact absurd rfl hnew
  · rw [hname]
    exact validStoredPath_normal hn hroot (hp path hn)
  · rw [hname]
    exact (parentExists_iff hv.laid hv.tree).mp (by simpa using hparent)

theorem removeResult_settles {input : Bytes} (hv : v.Sound) :
    wp (removeResult input) (fun r v' => Settles v' r) (fun _ => True) v := by
  unfold removeResult
  rw [wp_bind, wp_get]
  refine wp_ite (fun _ => settles_failure (by decide) (by decide)) fun _ => ?_
  rcases hn : normalizePath v.currentDirectory input with _ | path
  · exact settles_failure (by decide) (by decide)
  dsimp only
  refine wp_ite (fun _ => settles_failure (by decide) (by decide)) fun hroot => ?_
  rcases hfind : v.findEntry path with _ | index
  · exact settles_failure (by decide) (by decide)
  dsimp only
  refine wp_ite (fun _ => settles_failure (by decide) (by decide)) fun hempty => ?_
  obtain ⟨hi, hvis, hname⟩ := findEntry_some hfind
  exact replaceEntryResult_settles hv hi (hv.tree.remove (by rw [hname]; exact noChild hv hi hvis hname hroot hempty))
where
  /-- A file has no entries below it, and a directory that is to go has been checked. -/
  noChild {v : Volume} {path : Bytes} {index : Nat} (hv : v.Sound) (hi : index < v.zfsSuper.entries)
      (hvis : (v.zfsEntries index).visible = true) (hname : (v.zfsEntries index).name = path) (hroot : path ≠ root)
      (hempty : ¬((v.zfsEntries index).type = zfsTypeDirectory && v.hasChildren path) = true) :
      NoChild v.zfsSuper.entries v.zfsEntries path := by
    by_cases hd : (v.zfsEntries index).type = zfsTypeDirectory
    · exact noChild_of_hasChildren hv.tree hroot (by simpa [hd] using hempty)
    · intro j hj hu hparent
      obtain ⟨k, hk, huk, hdk, hnk⟩ := hv.tree.parent j hj hu path hparent hroot
      rw [hv.tree.distinct k hk index hi huk (used_of_visible hvis) (hnk.trans hname.symm)] at hdk
      exact hd hdk

theorem renameEntryResult_settles {sourceInput destinationInput : Bytes} (hv : v.Sound)
    (hp : ∀ path, normalizePath v.currentDirectory destinationInput = some path → path.all printable = true)
    (hd : ∀ source destination, normalizePath v.currentDirectory sourceInput = some source →
      normalizePath v.currentDirectory destinationInput = some destination →
      destination ≠ root ∧ parentPath destination ≠ some source) :
    wp (renameEntryResult sourceInput destinationInput) (fun r v' => Settles v' r) (fun _ => True) v := by
  unfold renameEntryResult
  rw [wp_bind, wp_get]
  refine wp_ite (fun _ => settles_failure (by decide) (by decide)) fun _ => ?_
  rcases hns : normalizePath v.currentDirectory sourceInput with _ | source
  · exact settles_failure (by decide) (by decide)
  rcases hnd : normalizePath v.currentDirectory destinationInput with _ | destination
  · exact settles_failure (by decide) (by decide)
  dsimp only
  refine wp_ite (fun _ => settles_failure (by decide) (by decide)) fun hroot => ?_
  refine wp_ite (fun _ => settles_failure (by decide) (by decide)) fun hnew => ?_
  refine wp_ite (fun _ => settles_failure (by decide) (by decide)) fun hparent => ?_
  rcases hfind : v.findEntry source with _ | index
  · exact settles_failure (by decide) (by decide)
  dsimp only
  refine wp_ite (fun _ => settles_failure (by decide) (by decide)) fun hempty => ?_
  rcases hcopy : pathCopy destination pathBytes with _ | copy
  · exact settles_failure (by decide) (by decide)
  dsimp only
  rw [pathCopy_eq hcopy]
  obtain ⟨hi, hvis, hname⟩ := findEntry_some hfind
  obtain ⟨hz, hlen⟩ := normalizePath_stored hnd
  obtain ⟨hdroot, hdself⟩ := hd source destination hns hnd
  have hw := hv.tree.wellFormed index hi (used_of_visible hvis)
  have hdname := name_patch (e := v.zfsEntries index) hz hlen
  refine replaceEntryResult_settles hv hi (hv.tree.move ?_ ⟨hw.kind, hw.flags, ?_, hw.directory, hw.file⟩ ?_ ?_ ?_)
  · rw [hname]
    exact removeResult_settles.noChild hv hi hvis hname hroot hempty
  · rw [hdname]
    exact validStoredPath_normal hnd hdroot (hp destination hnd)
  · intro j hj hu hjn
    rw [hdname] at hjn
    rw [findEntry_eq hv.laid hv.tree.distinctPaths hj ((hv.tree.visible hj).mpr hu) hjn] at hnew
    exact hnew rfl
  · rw [hdname]
    exact (parentExists_iff hv.laid hv.tree).mp (by simpa using hparent)
  · rw [hdname, hname]
    exact hdself

/-! ### Operations that write a file -/

theorem Writes.tree {input data path kept : Bytes} {append : Bool} {s : Nat} (hv : v.Sound)
    (hw : Writes v input data append path kept) (hp : path.all printable = true)
    (hfree : (v.zfsEntries s).used = 0) :
    Tree v.zfsSuper.entries v.zfsSuper.maxFileBytes
      (written s (stageEntry path (kept ++ data) (v.findEntry path)) (v.findEntry path) v.zfsEntries) := by
  obtain ⟨hz, hlen⟩ := normalizePath_stored hw.normal
  have hname : (stageEntry path (kept ++ data) (v.findEntry path)).finalize.name = path := cstr_of hz hlen
  refine hv.tree.put hfree hw.file (fun i hi hu hn => ?_) ⟨.inl rfl, rfl, ?_, fun h => absurd h zfsTypeFile_ne_directory, fun _ => ?_⟩ ?_
  · rw [hname] at hn
    exact findEntry_eq hv.laid hv.tree.distinctPaths hi ((hv.tree.visible hi).mpr hu) hn
  · rw [hname]
    exact validStoredPath_normal hw.normal hw.notRoot hp
  · show (UInt32.ofNat (kept ++ data).length).toNat ≤ _
    rw [UInt32.toNat_ofNat_of_lt' (lt_of_le_of_lt hw.fits (maxFileBytes_lt _))]
    exact hw.fits
  · rw [hname]
    exact (parentExists_iff hv.laid hv.tree).mp hw.parent

theorem NewSide.remounted_entries {w : Volume} {path content : Bytes} {s : Nat} (hv : v.Sound) (hd : SameDevice v v')
    (hn : NewSide v v' path content (v.findEntry path) s) (hw : Remounted v' w) :
    Recovered (Switched v.zfsSuper.entries v.diskEntry s (stageEntry path content (v.findEntry path))
        (v.findEntry path)) v' w ∧
      ∀ i < v.zfsSuper.entries,
        w.zfsEntries i = written s (stageEntry path content (v.findEntry path)) (v.findEntry path) v.zfsEntries i := by
  have hrec := hn.remounted hv.ready hd hw
  obtain ⟨hfinal, hgone⟩ := hrec.table.of_settled (by decide : (1 : UInt8) ≠ 0)
    (hrec.settled s (by rw [hd.zfsSuper]; exact hn.place.staging))
  refine ⟨hrec, fun i hi => ?_⟩
  rw [hrec.inSync i (by rwa [hrec.zfsSuper, hd.zfsSuper])]
  unfold written
  by_cases his : i = s
  · subst his
    rw [hfinal, Function.update_self]
  · rw [Function.update_of_ne his]
    by_cases hio : some i = v.findEntry path
    · rw [hgone i hio.symm, clearAt_old hio.symm]
    · rw [clearAt_of_ne hio, hrec.table.others i hi his hio, hv.inSync i hi]

theorem writeFileResult_settles {input data : Bytes} {append : Bool} (hv : v.Sound)
    (hp : ∀ path, normalizePath v.currentDirectory input = some path → path.all printable = true) :
    wp (writeFileResult input data append) (fun r v' => Settles v' r) (fun _ => True) v := by
  refine wp_mono (writeFileResult_spec input data append hv.laid hv.inSync) ?_ fun _ _ => trivial
  rintro r v' ⟨hs, hend⟩
  cases hend with
  | refused ok => exact settles_failed ok
  | skipped status disk entries mounted =>
    exact ⟨fun _ => Alike.sound ⟨hs, disk, entries⟩ mounted hv, fun h => absurd (status.symm.trans h) (by decide)⟩
  | @written path kept writes slots ends =>
    have hfree : ∀ {s}, NewSide v v' path (kept ++ data) (v.findEntry path) s → (v.zfsEntries s).used = 0 :=
      fun h => hv.inSync _ h.place.staging ▸ h.place.free
    have htree := fun {s} (h : NewSide v v' path (kept ++ data) (v.findEntry path) s) =>
      writes.tree hv (hp path writes.normal) (hfree h)
    cases ends with
    | done new disk entries mounted =>
      refine settles_sound ⟨mounted.trans hv.mounted, hs.laid hv.laid, fun i hi => ?_, ?_⟩
      · rw [hs.zfsSuper] at hi
        rw [entries, disk i hi]
        exact written_congr hv.inSync hi
      · rw [hs.zfsSuper, entries]
        exact htree new
    | pending status mounted fit new =>
      refine ⟨fun h => absurd (status.symm.trans h) (by decide), fun _ w hw => ?_⟩
      obtain ⟨hrec, hentries⟩ := new.remounted_entries hv hs.toSameDevice hw
      have hsuper : w.zfsSuper = v.zfsSuper := hrec.zfsSuper.trans hs.zfsSuper
      refine ⟨rfl, hrec.laid (hs.laid hv.laid), hrec.inSync, ?_⟩
      show Tree w.zfsSuper.entries w.zfsSuper.maxFileBytes w.zfsEntries
      rw [hsuper]
      exact (htree new).congr hentries
    | failed ok => exact settles_failed ok

theorem settles_relabel {operation : FsOperation} {r : FsResult} (h : Settles v' r) :
    Settles v' (fsResult operation r.status r.bytes r.block) := ⟨h.done, h.pending⟩

theorem touchResult_settles {input : Bytes} (hv : v.Sound)
    (hp : ∀ path again, normalizePath v.currentDirectory input = some path →
      normalizePath v.currentDirectory path = some again → again.all printable = true) :
    wp (touchResult input) (fun r v' => Settles v' r) (fun _ => True) v := by
  unfold touchResult
  rw [wp_bind, wp_get]
  rcases hn : normalizePath v.currentDirectory input with _ | path
  · exact settles_failure (by decide) (by decide)
  dsimp only
  rcases hfind : v.findEntry path with _ | found
  · exact wp_seq (writeFileResult_settles hv fun again hagain => hp path again hn hagain) (fun _ h => h)
      fun _ _ h => settles_relabel h
  · exact wp_ite (fun _ => settles_sound hv) fun _ => settles_failure (by decide) (by decide)

theorem copyFileResult_settles {source destination : Bytes} (hv : v.Sound)
    (hp : ∀ path, normalizePath v.currentDirectory destination = some path → path.all printable = true) :
    wp (copyFileResult source destination) (fun r v' => Settles v' r) (fun _ => True) v := by
  unfold copyFileResult
  rw [wp_bind, wp_get]
  refine wp_ite (fun _ => settles_failure (by decide) (by decide)) fun _ => ?_
  refine wp_seq (readFileResult_spec hv.laid) (fun _ _ => trivial) ?_
  rintro read v₁ ⟨hs, hd, he, hread⟩
  refine wp_ite (fun hbad => ?_) fun hgood => ?_
  · refine settles_failed ?_
    show read.1.ok = false
    simpa using hbad
  · have hv₁ : v₁.Sound := by
      rcases hread with ⟨-, hm, -⟩ | ⟨hok, -⟩
      · exact Alike.sound ⟨hs, hd, he⟩ hm hv
      · exact absurd hok (by simpa using hgood)
    refine wp_seq (writeFileResult_settles hv₁ fun path hpath => hp path ?_) (fun _ h => h) fun _ _ h => settles_relabel h
    rwa [hs.currentDirectory] at hpath

/-! ### Runs -/

inductive FsOp
  | write (input data : Bytes) (append : Bool)
  | touch (input : Bytes)
  | makeDirectory (input : Bytes)
  | remove (input : Bytes)
  | rename (sourceInput destinationInput : Bytes)
  | copy (source destination : Bytes)
  deriving DecidableEq

def FsOp.run : FsOp → Mach Volume FsResult
  | write input data append => writeFileResult input data append
  | touch input => touchResult input
  | makeDirectory input => makeDirectoryResult input
  | remove input => removeResult input
  | rename sourceInput destinationInput => renameEntryResult sourceInput destinationInput
  | copy source destination => copyFileResult source destination

/-- The path an operation stores; `touch` normalises the path it was given twice. -/
def FsOp.storedPath (currentDirectory : Bytes) : FsOp → Option Bytes
  | write input _ _ => normalizePath currentDirectory input
  | touch input => normalizePath currentDirectory input >>= normalizePath currentDirectory
  | makeDirectory input => normalizePath currentDirectory input
  | remove _ => none
  | rename _ destinationInput => normalizePath currentDirectory destinationInput
  | copy _ destination => normalizePath currentDirectory destination

/-- The stored path is printable; a rename goes neither onto the root nor into the renamed entry. -/
structure Meets (currentDirectory : Bytes) (op : FsOp) : Prop where
  prints : ∀ path, op.storedPath currentDirectory = some path → path.all printable = true
  renames : ∀ sourceInput destinationInput source destination, op = .rename sourceInput destinationInput →
    normalizePath currentDirectory sourceInput = some source →
    normalizePath currentDirectory destinationInput = some destination →
    destination ≠ root ∧ parentPath destination ≠ some source

theorem FsOp.run_settles {op : FsOp} (hv : v.Sound) (hm : Meets v.currentDirectory op) :
    wp op.run (fun r v' => Settles v' r) (fun _ => True) v := by
  cases op with
  | write input data append => exact writeFileResult_settles hv hm.prints
  | touch input =>
    refine touchResult_settles hv fun path again hpath hagain => hm.prints again ?_
    show normalizePath v.currentDirectory input >>= normalizePath v.currentDirectory = some again
    rw [hpath]
    exact hagain
  | makeDirectory input => exact makeDirectoryResult_settles hv hm.prints
  | remove input => exact removeResult_settles hv
  | rename sourceInput destinationInput =>
    exact renameEntryResult_settles hv hm.prints fun source destination hs hd => hm.renames _ _ source destination rfl hs hd
  | copy source destination => exact copyFileResult_settles hv hm.prints

/-- An operation that succeeds. -/
inductive FsStep (v : Volume) (op : FsOp) : Volume → Prop
  | done {v' : Volume} {r : FsResult} (run : op.run v = (some r, v')) (status : r.status = .ok) : FsStep v op v'
  | pending {v' w : Volume} {r : FsResult} (run : op.run v = (some r, v')) (status : r.status = .recoveryPending)
      (remounted : Remounted v' w) : FsStep v op w.activate

/-- Runs of successful operations that meet `P`, each in any working directory. -/
inductive FsRun (P : Bytes → FsOp → Prop) (u : Volume) : Volume → Prop
  | start : FsRun P u u
  | step {v w : Volume} {op : FsOp} (currentDirectory : Bytes) (outcomes : List Outcome) (run : FsRun P u v)
      (meets : P currentDirectory op) (step : FsStep (v.enter currentDirectory outcomes) op w) : FsRun P u w

theorem Volume.Sound.enter (h : v.Sound) (d : Bytes) (os : List Outcome) : (v.enter d os).Sound :=
  ⟨h.mounted, h.laid, h.inSync, h.tree⟩

theorem FsStep.sound {op : FsOp} {w : Volume} (hv : v.Sound) (hm : Meets v.currentDirectory op) (h : FsStep v op w) :
    w.Sound := by
  cases h with
  | done run status => exact (wp_ended (FsOp.run_settles hv hm) run).done status
  | pending run status remounted => exact (wp_ended (FsOp.run_settles hv hm) run).pending status _ remounted

theorem FsRun.sound {u : Volume} (hu : u.Sound) (h : FsRun Meets u v) : v.Sound := by
  induction h with
  | start => exact hu
  | step d os _ meets step ih => exact step.sound (ih.enter d os) meets

end ZenovOS.Storage
