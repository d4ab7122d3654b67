import ZenovOS.Package.Disk
import ZenovOS.Theorems.Storage.Path

/-! # Rules for the requests of the package services

A request leaves the files as they were or as it was to leave them. A request that fails although it took
effect has taken the volume away. -/

namespace ZenovOS.Package
open Bytes Storage Mach

/-- The content of the file that a path names, whether or not the volume is mounted. -/
def Disk.content (d : Disk) (input : Bytes) : Option Bytes := (normalizePath d.currentDirectory input).bind d.files

theorem Disk.content_absolute (d : Disk) {input path : Bytes} (habsolute : (cstr input).head? = some slash)
    (hpath : normalizePath root input = some path) : d.content input = d.files path := by
  unfold Disk.content
  rw [normalizePath_absolute d.currentDirectory habsolute, hpath]
  rfl

/-- What a request that left `files` has kept. -/
structure Leaves (d d' : Disk) (files : Bytes → Option Bytes) : Prop where
  files : d'.files = files
  currentDirectory : d'.currentDirectory = d.currentDirectory
  capacity : d'.drive.capacity = d.drive.capacity
  generation : d'.drive.generation = d.drive.generation
  mounted : d'.mounted = true → d.mounted = true

abbrev Kept (d d' : Disk) : Prop := Leaves d d' d.files

theorem Kept.refl (d : Disk) : Kept d d := ⟨rfl, rfl, rfl, rfl, id⟩

theorem Leaves.trans {d d' d'' : Disk} {files files' : Bytes → Option Bytes} (h : Leaves d d' files) (h' : Leaves d' d'' files') :
    Leaves d d'' files' where
  files := h'.files
  currentDirectory := h'.currentDirectory.trans h.currentDirectory
  capacity := h'.capacity.trans h.capacity
  generation := h'.generation.trans h.generation
  mounted hm := h.mounted (h'.mounted hm)

theorem Kept.after {d d' d'' : Disk} {files : Bytes → Option Bytes} (h : Leaves d d' files) (h' : Kept d' d'') :
    Leaves d d'' files := by
  have hfiles := h.trans h'
  rw [h.files] at hfiles
  exact hfiles

theorem Kept.content {d d' : Disk} (h : Kept d d') (input : Bytes) : d'.content input = d.content input := by
  unfold Disk.content
  rw [h.currentDirectory, h.files]

variable {d : Disk} {input path data : Bytes} {C : Disk → Prop}

theorem wp_onDrive {α : Type} {m : Mach (Drive Bytes) α} {Q : α → Disk → Prop} :
    wp (Disk.onDrive m) Q C d ↔
      wp m (fun a drive => Q a { d with drive }) (fun drive => C { d with drive }) d.drive := wp_zoom

theorem wp_onFile {α : Type} {allowed : Bytes → Bool} {rejected : α} {m : Bytes → Mach (Drive Bytes) α}
    {Q : α → Disk → Prop} (hrejected : (∀ path, normalizePath d.currentDirectory input = some path → allowed path = false) →
      Q rejected d)
    (hallowed : ∀ path, normalizePath d.currentDirectory input = some path → allowed path = true →
      wp (Disk.onDrive (m path)) Q C d) : wp (Disk.onFile allowed input rejected m) Q C d := by
  unfold Disk.onFile
  rw [wp_bind, wp_get]
  cases hn : normalizePath d.currentDirectory input with
  | none =>
    refine hrejected fun path h => ?_
    rw [hn] at h
    cases h
  | some path =>
    cases ha : allowed path with
    | false =>
      rw [Option.filter_some, if_neg (by rw [ha]; exact Bool.false_ne_true)]
      refine hrejected fun path' h => ?_
      rw [hn] at h
      cases h
      exact ha
    | true =>
      rw [Option.filter_some, if_pos ha]
      exact hallowed path hn ha

theorem wp_readFile {capacity : Nat} {Q : Option Bytes → Disk → Prop}
    (hsome : ∀ data d', d.content input = some data → data.length ≤ capacity → Kept d d' → Q (some data) d')
    (hnone : ∀ d', Kept d d' → (d'.mounted = true → ∀ data, d.content input = some data → capacity < data.length) → Q none d')
    (hcut : ∀ d', Kept d d' → C d') : wp (Disk.readFile input capacity) Q C d := by
  unfold Disk.readFile
  refine wp_onFile (fun h => hnone d (Kept.refl d) fun _ data hdata => ?_) fun path hpath _ => ?_
  · unfold Disk.content at hdata
    obtain ⟨path, hpath, -⟩ := Option.bind_eq_some_iff.mp hdata
    exact absurd (h path hpath) (by decide)
  · have hcontent : d.content input = d.drive.files path := by
      unfold Disk.content
      rw [hpath]
      rfl
    rw [wp_onDrive]
    refine Drive.wp_read (fun data hm hfile hlen => ?_) (fun hm hlen => ?_) (fun hm => ?_) (fun hm => ?_) fun hm => ?_
    · exact hsome data _ (hcontent.trans hfile) hlen ⟨rfl, rfl, rfl, rfl, id⟩
    · exact hnone _ (Kept.refl d) fun _ data hdata => hlen data (hcontent.symm.trans hdata)
    · exact hnone _ ⟨rfl, rfl, rfl, rfl, fun h => by cases h⟩ fun h => by cases h
    · exact hnone _ (Kept.refl d) fun h => absurd (hm.symm.trans h) (by decide)
    · exact hcut _ ⟨rfl, rfl, rfl, rfl, fun h => by cases h⟩

/-- The volume is there and no request to come fails. -/
structure Quiet (d : Disk) : Prop where
  mounted : d.mounted = true
  replies : d.drive.replies = []

theorem wp_readFile_quiet {capacity : Nat} {Q : Option Bytes → Disk → Prop} (hq : Quiet d)
    (hcontent : d.content input = some data) (hlen : data.length ≤ capacity) (h : Q (some data) d) :
    wp (Disk.readFile input capacity) Q C d := by
  obtain ⟨path, hpath, hfile⟩ := Option.bind_eq_some_iff.mp hcontent
  obtain ⟨⟨files, mounted, size, generation, replies⟩, currentDirectory⟩ := d
  obtain rfl : replies = [] := hq.replies
  obtain rfl : mounted = true := hq.mounted
  have hfile' : files path = some data := hfile
  unfold Disk.readFile
  refine wp_onFile (fun hno => absurd (hno path hpath) (by decide)) fun path' hpath' _ => ?_
  obtain rfl : path = path' := Option.some.inj (hpath.symm.trans hpath')
  rw [wp_onDrive]
  unfold wp Drive.read
  dsimp only [Bool.not_true, Bool.false_eq_true, if_false]
  rw [hfile']
  dsimp only
  rw [if_neg (Nat.not_lt.mpr hlen)]
  exact h

/-- The shapes of a request that is to leave `files`. -/
structure Requested (d : Disk) (files : Bytes → Option Bytes) (Q : Bool → Disk → Prop) (C : Disk → Prop) : Prop where
  done : d.mounted = true → ∀ d', Leaves d d' files → Q true d'
  broken : d.mounted = true → ∀ d', Leaves d d' files → d'.mounted = false → Q false d'
  kept : ∀ d', Kept d d' → Q false d'
  cutDone : d.mounted = true → ∀ d', Leaves d d' files → C d'
  cutKept : ∀ d', Kept d d' → C d'

theorem wp_packageWriteFile {Q : Bool → Disk → Prop} (hpath : normalizePath d.currentDirectory input = some path)
    (h : Requested d (Function.update d.files path (some data)) Q C) : wp (Disk.packageWriteFile input data) Q C d := by
  unfold Disk.packageWriteFile
  refine wp_onFile (fun _ => h.kept d (Kept.refl d)) fun path' hpath' _ => ?_
  obtain rfl : path = path' := Option.some.inj (hpath.symm.trans hpath')
  rw [wp_onDrive]
  refine Drive.wp_write (fun _ => h.kept d (Kept.refl d)) fun hmounted _ => ?_
  cases d.drive.upcoming with
  | passes => exact h.done hmounted _ ⟨rfl, rfl, rfl, rfl, id⟩
  | refused => exact h.kept _ ⟨rfl, rfl, rfl, rfl, id⟩
  | breaks landed reported =>
    cases landed with
    | false => exact h.kept _ ⟨rfl, rfl, rfl, rfl, fun hm => by cases hm⟩
    | true =>
      cases reported with
      | true => exact h.done hmounted _ ⟨rfl, rfl, rfl, rfl, fun hm => by cases hm⟩
      | false => exact h.broken hmounted _ ⟨rfl, rfl, rfl, rfl, fun hm => by cases hm⟩ rfl
  | cut landed =>
    cases landed with
    | false => exact h.cutKept _ ⟨rfl, rfl, rfl, rfl, fun hm => by cases hm⟩
    | true => exact h.cutDone hmounted _ ⟨rfl, rfl, rfl, rfl, fun hm => by cases hm⟩

theorem wp_syncMetadata {Q : Bool → Disk → Prop}
    (hdone : ∀ d', d'.files = d.files → d'.currentDirectory = d.currentDirectory → d'.drive.capacity = d.drive.capacity →
      d'.drive.generation = d.drive.generation + 1 → d'.mounted = true → d.mounted = true → Q true d')
    (hfail : ∀ d', Kept d d' → (d'.mounted = true → d.drive.generation = lastGeneration) → Q false d')
    (hcut : ∀ d', Kept d d' → C d') : wp Disk.syncMetadata Q C d := by
  unfold Disk.syncMetadata
  rw [wp_onDrive]
  refine Drive.wp_sync (fun h => hfail d (Kept.refl d) fun hm => ?_) fun hm _ => ?_
  · rcases h with h | h
    · exact absurd (hm.symm.trans h) (by decide)
    · exact h
  · cases d.drive.upcoming with
    | passes => exact hdone _ rfl rfl rfl rfl hm hm
    | refused => exact hdone _ rfl rfl rfl rfl hm hm
    | breaks _ _ => exact hfail _ ⟨rfl, rfl, rfl, rfl, fun h => by cases h⟩ fun h => by cases h
    | cut _ => exact hcut _ ⟨rfl, rfl, rfl, rfl, fun h => by cases h⟩

/-! ### Requests that do not fail -/

/-- The volume with other files. -/
def Disk.withFiles (d : Disk) (files : Bytes → Option Bytes) : Disk := { d with drive := { d.drive with files } }

theorem Quiet.withFiles (hq : Quiet d) (files : Bytes → Option Bytes) : Quiet (d.withFiles files) := ⟨hq.mounted, hq.replies⟩

end ZenovOS.Package
