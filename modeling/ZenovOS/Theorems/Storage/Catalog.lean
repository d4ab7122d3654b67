import ZenovOS.Lib.Catalog
import ZenovOS.Theorems.Storage.Working

/-! # A working volume as a catalogue

On a device without faults the operations of ZenovFS are those of a catalogue of files: each is done, and
then changes what it is to change and nothing else, or it is refused and changes nothing. -/

namespace ZenovOS.Storage
open Bytes Mach Volume

variable {v v' : Volume} {path p q a b : Bytes} {i : Nat} {e : ZfsEntry}

abbrev Vacant (e : ZfsEntry) : Prop := e.used = 0

/-- What the volume shows, and how many of its entries are vacant. -/
def Volume.catalog (v : Volume) : Catalog Bytes FileState :=
  ⟨v.lookup, vacancies Vacant v.zfsSuper.entries v.zfsEntries⟩

@[simp] theorem catalog_files (v : Volume) : v.catalog.files = v.lookup := rfl

theorem catalog_ext {c : Catalog Bytes FileState} (hfiles : ∀ q, v.lookup q = c.files q)
    (hfree : vacancies Vacant v.zfsSuper.entries v.zfsEntries = c.free) : v.catalog = c := by
  cases c
  exact congrArg₂ Catalog.mk (funext hfiles) hfree

theorem Alike.catalog (h : Alike v v') : v'.catalog = v.catalog := by
  refine catalog_ext h.lookup ?_
  rw [h.zfsSuper, h.zfsEntries]
  rfl

/-! ### Looking paths up -/

theorem lookup_of_entry (hv : v.Ready) (hi : i < v.zfsSuper.entries) (hvis : (v.zfsEntries i).visible)
    (hname : (v.zfsEntries i).name = p) : v.lookup p = some (v.stateAt i) := by
  unfold Volume.lookup
  rw [findEntry_eq hv.laid hv.distinct hi hvis hname]
  rfl

theorem lookup_none_iff : v.lookup p = none ↔ v.findEntry p = none := by
  unfold Volume.lookup
  rw [Option.map_eq_none_iff]

theorem lookup_some (h : v.findEntry p = some i) : v.lookup p = some (v.stateAt i) := by
  unfold Volume.lookup
  rw [h]
  rfl

/-- The directory of the path is there. -/
def InDirectory (c : Catalog Bytes FileState) (p : Bytes) : Prop :=
  ∀ parent, parentPath p = some parent → parent = root ∨ ∃ st, c.files parent = some st ∧ st.type = zfsTypeDirectory

theorem parentExists_catalog : v.parentExists p = true ↔ InDirectory v.catalog p := by
  unfold Volume.parentExists InDirectory
  rcases hp : parentPath p with _ | parent
  · simp
  simp only [Option.some.injEq, forall_eq', Bool.or_eq_true, decide_eq_true_eq]
  refine or_congr_right ?_
  rcases hf : v.findEntry parent with _ | i
  · rw [catalog_files, lookup_none_iff.mpr hf]
    simp
  · rw [catalog_files, lookup_some hf]
    simp [Volume.stateAt]

theorem InDirectory.mono {c c' : Catalog Bytes FileState} (h : InDirectory c p)
    (hc : ∀ q st, c.files q = some st → st.type = zfsTypeDirectory → c'.files q = some st) : InDirectory c' p := by
  intro parent hp
  rcases h parent hp with hroot | ⟨st, hst, htype⟩
  · exact .inl hroot
  · exact .inr ⟨st, hc parent st hst htype, htype⟩

theorem catalog_free_pos (hi : i < v.zfsSuper.entries) (h : (v.zfsEntries i).used = 0) : 0 < v.catalog.free :=
  (vacancies_pos hi h : 0 < vacancies Vacant v.zfsSuper.entries v.zfsEntries)

theorem freeEntry_catalog {o : Option Nat} (hl : v.Laid) (ho : ∀ i, o = some i → (v.zfsEntries i).used ≠ 0) :
    v.freeEntry o = none ↔ v.catalog.free = 0 := by
  constructor
  · intro hnone
    by_contra hfree
    have hpos : 0 < vacancies Vacant v.zfsSuper.entries v.zfsEntries := Nat.pos_of_ne_zero hfree
    obtain ⟨i, hi, hvacant⟩ := exists_vacant hpos
    have hmem : i ∈ List.range (min v.zfsSuper.entries zfsMaxEntries) := by
      rwa [List.mem_range, Nat.min_eq_left hl.geometry.few]
    have hno := List.find?_eq_none.mp hnone i hmem
    have hexcluded : some i ≠ o := fun h => ho i h.symm hvacant
    exact hno (by simp [hexcluded, hvacant])
  · intro hzero
    rcases hfree : v.freeEntry o with _ | i
    · rfl
    · obtain ⟨hi, -, hvacant⟩ := freeEntry_some hfree
      exact absurd hzero (catalog_free_pos hi hvacant).ne'

/-! ### How an operation ends -/

/-- The operation is done, which `can` is necessary for and `sure` sufficient, and leaves `c`; or it is refused. -/
inductive Ends (v v' : Volume) (can sure : Prop) (c : Catalog Bytes FileState) : Bool → Prop
  | done (may : can) (catalog : v'.catalog = c) : Ends v v' can sure c true
  | refused (why : ¬sure) (catalog : v'.catalog = v.catalog) : Ends v v' can sure c false

/-- From a volume that works to one that works. -/
structure Onward (v v' : Volume) : Prop extends Same v v' where
  works : v'.Works

theorem Onward.refl (hv : v.Works) : Onward v v := ⟨Same.refl v, hv⟩

theorem Onward.trans {w : Volume} (h : Onward v v') (h' : Onward v' w) : Onward v w := ⟨h.toSame.trans h'.toSame, h'.works⟩

/-! ### Replacing an entry -/

/-- Entry `i` is `e` now. -/
structure Entered (P : Bytes → Prop) (v v' : Volume) (i : Nat) (e : ZfsEntry) : Prop extends Onward v v' where
  entries : v'.zfsEntries = Function.update v.zfsEntries i e
  slot : v'.slotBytes i = v.slotBytes i
  lookup : ∀ q, P q → v'.lookup q = v.lookup q

theorem replaceEntryResult_works {P : Bytes → Prop} {operation : FsOperation} (hv : v.Works) (hr : Replaceable P v i e) :
    wp (replaceEntryResult i e operation) (fun r v' => r.ok = true ∧ Entered P v v' i e) (fun _ => False) v := by
  refine wp_mono (replaceEntryResult_spec hv.ready.laid hr.index) (fun r v' h => ?_) fun v' h => h.1 hv.fit
  rcases h with ⟨rfl, h, he, hm⟩ | ⟨-, hfit, -⟩
  · have hmounted : v'.zfsMounted = true := hm.trans hv.ready.mounted
    have hsettled : v'.settledAt v'.zfsEntries = v' := by
      unfold Volume.settledAt
      rw [← hmounted]
    obtain ⟨hready, hlookup⟩ := hr.ready hv.ready h he
    rw [hsettled] at hready hlookup
    exact ⟨rfl, ⟨⟨h.same, hready, h.same.fit hv.fit⟩, he, (h.sameData hv.ready.laid hr.index).slotBytes hv.ready.laid hr.index, hlookup⟩⟩
  · exact absurd hv.fit hfit

section Entered
variable {P : Bytes → Prop} (h : Entered P v v' i e) (hi : i < v.zfsSuper.entries)
include h hi

theorem Entered.lookup_new (hvis : e.visible) (hname : e.name = p) :
    v'.lookup p = some ⟨e.type, e.size, e.checksum, v.content i e⟩ := by
  have he : v'.zfsEntries i = e := by rw [h.entries, Function.update_self]
  have hi' : i < v'.zfsSuper.entries := by rwa [h.zfsSuper]
  rw [lookup_of_entry h.works.ready hi' (by rwa [he]) (by rwa [he])]
  unfold Volume.stateAt Volume.content
  rw [he, h.slot]

theorem Entered.lookup_old (hv : v.Ready) (hvis : (v.zfsEntries i).visible) (hname : (v.zfsEntries i).name = p)
    (hgone : e.visible → e.name ≠ p) : v'.lookup p = none := by
  refine lookup_eq_none fun j hj hvj hnj => ?_
  rw [h.zfsSuper] at hj
  rw [h.entries] at hvj hnj
  by_cases hji : j = i
  · subst hji
    rw [Function.update_self] at hvj hnj
    exact hgone hvj hnj
  · rw [Function.update_of_ne hji] at hvj hnj
    exact hji (hv.distinct j hj i hi hvj hvis (hnj.trans hname.symm))

end Entered

/-! ### Making a directory -/

def directoryState : FileState := ⟨zfsTypeDirectory, 0, 0, []⟩

/-- There is room for a new path. -/
structure CanMake (c : Catalog Bytes FileState) (p : Bytes) : Prop where
  notRoot : p ≠ root
  new : c.files p = none
  directory : InDirectory c p
  free : 0 < c.free

theorem makeDirectoryResult_ends (hv : v.Works) (hn : normalizePath v.currentDirectory path = some p) :
    wp (makeDirectoryResult path)
      (fun r v' => Onward v v' ∧ Ends v v' (CanMake v.catalog p) (CanMake v.catalog p) (v.catalog.put p directoryState) r.ok)
      (fun _ => False) v := by
  have hself := Onward.refl hv
  unfold makeDirectoryResult
  rw [wp_bind, wp_get]
  refine wp_ite (fun h => absurd hv.ready.mounted (by simpa using h)) fun _ => ?_
  rw [hn]
  dsimp only
  refine wp_ite (fun h => ⟨hself, .refused (fun hc => hc.notRoot h) rfl⟩) fun hroot => wp_ite (fun h => ?_) fun hnew =>
    wp_ite (fun h => ?_) fun hparent => ?_
  · refine ⟨hself, .refused (fun hc => ?_) rfl⟩
    rw [lookup_none_iff.mp hc.new] at h
    cases h
  · refine ⟨hself, .refused (fun hc => ?_) rfl⟩
    rw [parentExists_catalog.mpr hc.directory] at h
    cases h
  have hnone : v.findEntry p = none := by simpa using hnew
  have hdirectory : InDirectory v.catalog p := parentExists_catalog.mp (by simpa using hparent)
  obtain ⟨hz, hlen⟩ := normalizePath_stored hn
  have hcopy : pathCopy p pathBytes = some p := if_pos hlen
  have hunused : v.freeEntry none = none ↔ v.catalog.free = 0 := freeEntry_catalog hv.ready.laid fun _ h => by cases h
  rw [hcopy]
  rcases hfree : v.freeEntry none with _ | i
  · refine ⟨hself, .refused (fun hc => ?_) rfl⟩
    exact absurd (hunused.mp hfree) hc.free.ne'
  obtain ⟨hi, -, hvacant⟩ := freeEntry_some hfree
  have hname : (directoryEntry p).name = p := cstr_of hz hlen
  have hused : ¬Vacant (directoryEntry p) := show (1 : UInt8) ≠ 0 by decide
  have hr : Replaceable (· ≠ p) v i (directoryEntry p) := by
    refine ⟨hi, ⟨rfl, rfl⟩, hv.ready.distinct.update fun _ j hj _ hvis => ?_, fun q _ hvis => ?_, fun q hq _ => ?_⟩
    · rw [hname]
      exact name_ne_of_new hv.ready (by simp [hnone]) j hj hvis
    · exact absurd hvacant (used_of_visible hvis)
    · rw [hname]
      exact hq.symm
  show wp (replaceEntryResult i (directoryEntry p) .create) _ _ v
  refine wp_mono (replaceEntryResult_works hv hr) (fun r v' h => ?_) fun _ h => h
  obtain ⟨hok, h⟩ := h
  rw [hok]
  refine ⟨h.toOnward, .done ⟨hroot, lookup_none_iff.mpr hnone, hdirectory, catalog_free_pos hi hvacant⟩ (catalog_ext (fun q => ?_) ?_)⟩
  · by_cases hq : q = p
    · rw [hq, Catalog.put_files, h.lookup_new hi rfl hname]
      rfl
    · rw [Catalog.put_of_ne hq, h.lookup q hq]
      rfl
  · rw [h.zfsSuper, h.entries, vacancies_take hi hvacant hused, Catalog.put_free_of_none (lookup_none_iff.mpr hnone)]
    rfl

/-! ### Removing a file -/

/-- The path names a file. -/
def IsFile (c : Catalog Bytes FileState) (p : Bytes) : Prop := ∃ st, c.files p = some st ∧ st.type = zfsTypeFile

theorem removeResult_ends (hv : v.Works) (hn : normalizePath v.currentDirectory path = some p) :
    wp (removeResult path) (fun r v' => Onward v v' ∧ Ends v v' True (p ≠ root ∧ IsFile v.catalog p) (v.catalog.drop p) r.ok)
      (fun _ => False) v := by
  have hself := Onward.refl hv
  unfold removeResult
  rw [wp_bind, wp_get]
  refine wp_ite (fun h => absurd hv.ready.mounted (by simpa using h)) fun _ => ?_
  rw [hn]
  dsimp only
  refine wp_ite (fun h => ⟨hself, .refused (fun hc => hc.1 h) rfl⟩) fun hroot => ?_
  rcases hfind : v.findEntry p with _ | i
  · refine ⟨hself, .refused (fun hc => ?_) rfl⟩
    obtain ⟨-, st, hst, -⟩ := hc
    rw [catalog_files, lookup_none_iff.mpr hfind] at hst
    cases hst
  obtain ⟨hi, hvis, hname⟩ := findEntry_some hfind
  have hgone : ¬ZfsEntry.empty.visible = true := by decide
  refine wp_ite (fun h => ⟨hself, .refused (fun hc => ?_) rfl⟩) fun _ => ?_
  · obtain ⟨-, st, hst, htype⟩ := hc
    rw [catalog_files, lookup_some hfind] at hst
    cases hst
    rw [Bool.and_eq_true, decide_eq_true_eq] at h
    have hdirectory : (v.stateAt i).type = zfsTypeDirectory := h.1
    rw [htype] at hdirectory
    cases hdirectory
  have hr : Replaceable (· ≠ p) v i .empty := by
    refine ⟨hi, ⟨rfl, rfl⟩, hv.ready.distinct.update fun h => absurd h hgone, fun q hq _ => ?_, fun q _ h => absurd h hgone⟩
    rw [hname]
    exact hq.symm
  refine wp_mono (replaceEntryResult_works hv hr) (fun r v' h => ?_) fun _ h => h
  obtain ⟨hok, h⟩ := h
  rw [hok]
  refine ⟨h.toOnward, .done trivial (catalog_ext (fun q => ?_) ?_)⟩
  · by_cases hq : q = p
    · rw [hq, Catalog.drop_files]
      exact h.lookup_old hi hv.ready hvis hname fun hv => absurd hv hgone
    · rw [Catalog.drop_of_ne hq, h.lookup q hq]
      rfl
  · rw [h.zfsSuper, h.entries, vacancies_give hi (used_of_visible hvis) (by decide)]
    show _ = if (v.lookup p).isSome then _ else _
    rw [lookup_some hfind]
    rfl

/-! ### Renaming a file -/

/-- A file can be renamed. -/
structure CanMove (c : Catalog Bytes FileState) (a b : Bytes) : Prop where
  notRoot : a ≠ root
  file : IsFile c a
  new : c.files b = none
  directory : InDirectory c b

theorem renameEntryResult_ends {source destination : Bytes} (hv : v.Works)
    (ha : normalizePath v.currentDirectory source = some a) (hb : normalizePath v.currentDirectory destination = some b) :
    wp (renameEntryResult source destination)
      (fun r v' => Onward v v' ∧
        Ends v v' (v.lookup b = none ∧ ∃ st, v.lookup a = some st) (CanMove v.catalog a b) (v.catalog.move a b) r.ok)
      (fun _ => False) v := by
  have hself := Onward.refl hv
  unfold renameEntryResult
  rw [wp_bind, wp_get]
  refine wp_ite (fun h => absurd hv.ready.mounted (by simpa using h)) fun _ => ?_
  rw [ha, hb]
  dsimp only
  refine wp_ite (fun h => ⟨hself, .refused (fun hc => hc.notRoot h) rfl⟩) fun _ => wp_ite (fun h => ?_) fun hnew =>
    wp_ite (fun h => ?_) fun _ => ?_
  · refine ⟨hself, .refused (fun hc => ?_) rfl⟩
    rw [lookup_none_iff.mp hc.new] at h
    cases h
  · refine ⟨hself, .refused (fun hc => ?_) rfl⟩
    rw [parentExists_catalog.mpr hc.directory] at h
    cases h
  have hnone : v.findEntry b = none := by simpa using hnew
  rcases hfind : v.findEntry a with _ | i
  · refine ⟨hself, .refused (fun hc => ?_) rfl⟩
    obtain ⟨st, hst, -⟩ := hc.file
    rw [catalog_files, lookup_none_iff.mpr hfind] at hst
    cases hst
  obtain ⟨hi, hvis, hname⟩ := findEntry_some hfind
  refine wp_ite (fun h => ⟨hself, .refused (fun hc => ?_) rfl⟩) fun _ => ?_
  · obtain ⟨st, hst, htype⟩ := hc.file
    rw [catalog_files, lookup_some hfind] at hst
    cases hst
    rw [Bool.and_eq_true, decide_eq_true_eq] at h
    have hdirectory : (v.stateAt i).type = zfsTypeDirectory := h.1
    rw [htype] at hdirectory
    cases hdirectory
  obtain ⟨hz, hlen⟩ := normalizePath_stored hb
  have hcopy : pathCopy b pathBytes = some b := if_pos hlen
  rw [hcopy]
  dsimp only
  have hbname := name_patch (e := v.zfsEntries i) hz hlen
  have hset := hv.ready.settled i hi
  have hab : a ≠ b := by
    rintro rfl
    rw [hfind] at hnone
    cases hnone
  have hr : Replaceable (fun q => q ≠ a ∧ q ≠ b) v i
      { v.zfsEntries i with path := (v.zfsEntries i).path.patch 0 (b ++ [0]) } := by
    refine ⟨hi, ⟨hset.notTransaction, hset.notCommitted⟩, hv.ready.distinct.update fun _ j hj _ hvj => ?_, fun q hq _ => ?_,
      fun q hq _ => ?_⟩
    · rw [hbname]
      exact name_ne_of_new hv.ready (by simp [hnone]) j hj hvj
    · rw [hname]
      exact hq.1.symm
    · rw [hbname]
      exact hq.2.symm
  refine wp_mono (replaceEntryResult_works hv hr) (fun r v' h => ?_) fun _ h => h
  obtain ⟨hok, h⟩ := h
  rw [hok]
  refine ⟨h.toOnward, .done ⟨lookup_none_iff.mpr hnone, _, lookup_some hfind⟩ (catalog_ext (fun q => ?_) ?_)⟩
  · by_cases hqb : q = b
    · rw [hqb, Catalog.move_files, h.lookup_new hi hvis hbname, catalog_files, lookup_some hfind]
      rfl
    · by_cases hqa : q = a
      · rw [hqa, Catalog.move_source hab]
        refine h.lookup_old hi hv.ready hvis hname fun _ hn => ?_
        rw [hbname] at hn
        exact hab hn.symm
      · rw [Catalog.move_of_ne hqa hqb, h.lookup q ⟨hqa, hqb⟩]
        rfl
  · have hused : ¬Vacant (v.zfsEntries i) := used_of_visible hvis
    rw [h.zfsSuper, h.entries, vacancies_keep hused (by exact hused)]
    rfl

/-! ### Writing a file -/

/-- A file of `size` bytes can be written. -/
structure CanWrite (c : Catalog Bytes FileState) (max : Nat) (p : Bytes) (size : Nat) : Prop where
  notRoot : p ≠ root
  directory : InDirectory c p
  file : ∀ st, c.files p = some st → st.type = zfsTypeFile
  fits : size ≤ max
  free : 0 < c.free

theorem writeFileResult_stored {data : Bytes} (hv : v.Works) (hn : normalizePath v.currentDirectory path = some p) :
    wp (writeFileResult path data false)
      (fun r v' => r.ok = true ∧ CanWrite v.catalog v.zfsSuper.maxFileBytes p data.length ∧
          (∃ s, v.freeEntry (v.findEntry p) = some s ∧ Stored v v' p data (v.findEntry p) s) ∨
        r.ok = false ∧ ¬CanWrite v.catalog v.zfsSuper.maxFileBytes p data.length ∧ v' = v)
      (fun _ => False) v := by
  unfold writeFileResult
  rw [wp_bind, wp_get]
  refine wp_ite (fun h => absurd hv.ready.mounted (by simpa using h)) fun _ => ?_
  rw [hn]
  dsimp only
  refine wp_ite (fun h => .inr ⟨rfl, fun hc => hc.notRoot h, rfl⟩) fun hroot => wp_ite (fun h => ?_) fun hparent =>
    wp_ite (fun h => ?_) fun htype => wp_ite (fun h => ?_) fun hspace => ?_
  · refine .inr ⟨rfl, fun hc => ?_, rfl⟩
    rw [parentExists_catalog.mpr hc.directory] at h
    cases h
  · refine .inr ⟨rfl, fun hc => ?_, rfl⟩
    rw [Option.any_eq_true] at h
    obtain ⟨i, hi, htype⟩ := h
    have hfile : (v.zfsEntries i).type = zfsTypeFile := hc.file _ (lookup_some hi)
    exact absurd hfile (by simpa using htype)
  · refine .inr ⟨rfl, fun hc => ?_, rfl⟩
    rcases h with h | h
    · exact absurd h (Nat.not_lt_zero _)
    · exact absurd hc.fits (Nat.not_le.mpr h)
  have hfits : data.length ≤ v.zfsSuper.maxFileBytes := by
    rw [not_or, Nat.not_lt, Nat.not_lt] at hspace
    exact hspace.2
  have hused : ∀ i, v.findEntry p = some i → i < v.zfsSuper.entries ∧ (v.zfsEntries i).used ≠ 0 := by
    intro i hi
    obtain ⟨hlt, hvis, -⟩ := findEntry_some hi
    exact ⟨hlt, used_of_visible hvis⟩
  rw [wp_bind]
  show wp (writeContent p (v.findEntry p) data) _ _ v
  refine wp_mono (writeContent_end hv.ready.laid hv.ready.inSync hv.fit hused hfits (normalizePath_stored hn).2)
    (fun r v' h => ?_) fun _ h => h
  cases h with
  | full free idle =>
    refine .inr ⟨rfl, fun hc => ?_, idle⟩
    exact absurd ((freeEntry_catalog hv.ready.laid fun i hi => (hused i hi).2).mp free) hc.free.ne'
  | @stored s free stored =>
    obtain ⟨hs, -, hvacant⟩ := freeEntry_some free
    refine .inl ⟨rfl, ⟨hroot, parentExists_catalog.mp (by simpa using hparent), fun st hst => ?_, hfits,
      catalog_free_pos hs hvacant⟩, s, free, stored⟩
    rcases hfind : v.findEntry p with _ | i
    · rw [catalog_files, lookup_none_iff.mpr hfind] at hst
      cases hst
    · rw [catalog_files, lookup_some hfind] at hst
      cases hst
      rw [hfind] at htype
      show (v.zfsEntries i).type = zfsTypeFile
      simpa using htype

section Stored
variable {data : Bytes} {s : Nat} (h : Stored v v' p data (v.findEntry p) s) (hfree : v.freeEntry (v.findEntry p) = some s)
include h hfree

theorem Stored.lookup (hready : v'.Ready) (hz : (0 : UInt8) ∉ p) (hlen : p.length < pathBytes)
    (hsize : data.length ≤ v.zfsSuper.maxFileBytes) : v'.lookup p = some (fileState data) := by
  have hs := (freeEntry_some hfree).1
  have hmod : (UInt32.ofNat data.length).toNat = data.length :=
    UInt32.toNat_ofNat_of_lt' (lt_of_le_of_lt hsize (maxFileBytes_lt _))
  have hentry := h.newEntry
  have hs' : s < v'.zfsSuper.entries := by rwa [h.zfsSuper]
  have hname : (v'.zfsEntries s).name = p := by
    rw [hentry]
    exact cstr_of hz hlen
  rw [lookup_of_entry hready hs' (by rw [hentry]; rfl) hname]
  unfold Volume.stateAt Volume.content
  rw [hentry]
  show some (FileState.mk _ _ _ ((v'.slotBytes s).take (UInt32.ofNat data.length).toNat)) = _
  rw [hmod, h.bytes]
  rfl

theorem Stored.free : vacancies Vacant v'.zfsSuper.entries v'.zfsEntries = (v.catalog.put p (fileState data)).free := by
  obtain ⟨hs, hso, hvacant⟩ := freeEntry_some hfree
  have hnew : ¬Vacant (stageEntry p data (v.findEntry p)).finalize := show (1 : UInt8) ≠ 0 by decide
  rw [h.zfsSuper, h.entries, written]
  rcases hfind : v.findEntry p with _ | i
  · rw [hfind] at hnew
    rw [Catalog.put_free_of_none (lookup_none_iff.mpr hfind)]
    exact vacancies_take hs hvacant hnew
  · obtain ⟨hi, hvis, -⟩ := findEntry_some hfind
    have hsi : s ≠ i := by
      rintro rfl
      exact hso hfind.symm
    rw [hfind] at hnew
    rw [Catalog.put_free_of_some (lookup_some hfind)]
    show vacancies Vacant _ (Function.update (Function.update v.zfsEntries i .empty) s _) = _
    have hstill : Vacant (Function.update v.zfsEntries i ZfsEntry.empty s) := by
      rw [Function.update_of_ne hsi]
      exact hvacant
    rw [vacancies_take hs hstill hnew, vacancies_give hi (used_of_visible hvis) (by decide)]
    rfl

end Stored

theorem writeFileResult_ends {data : Bytes} (hv : v.Works) (hn : normalizePath v.currentDirectory path = some p) :
    wp (writeFileResult path data false)
      (fun r v' => Onward v v' ∧ Ends v v' (CanWrite v.catalog v.zfsSuper.maxFileBytes p data.length)
        (CanWrite v.catalog v.zfsSuper.maxFileBytes p data.length) (v.catalog.put p (fileState data)) r.ok)
      (fun _ => False) v := by
  have hkept : wp (writeFileResult path data false) (fun _ v' => Same v v' ∧ Kept (· ≠ p) v v') (fun _ => True) v := by
    refine wp_mono (hv.ready.kept.write fun p' hp' => ?_) (fun _ _ h => h) fun _ _ => trivial
    rw [hn] at hp'
    cases hp'
    exact fun hne => hne rfl
  refine wp_mono (wp_and hkept (writeFileResult_stored hv hn)) (fun r v' h => ?_) fun _ h => h.2
  obtain ⟨⟨hsame, hkept⟩, ⟨hok, hcan, s, hfree, hstored⟩ | ⟨hok, hcan, rfl⟩⟩ := h
  · have hmounted : v'.zfsMounted = true := hstored.mounted.trans hv.ready.mounted
    have hworks := hkept.works hsame hmounted hv
    obtain ⟨hz, hlen⟩ := normalizePath_stored hn
    rw [hok]
    refine ⟨⟨hsame, hworks⟩, .done hcan (catalog_ext (fun q => ?_) (hstored.free hfree))⟩
    by_cases hq : q = p
    · rw [hq, Catalog.put_files]
      exact hstored.lookup hfree hworks.ready hz hlen hcan.fits
    · rw [Catalog.put_of_ne hq]
      exact (hkept.mounted hmounted).2 q hq
  · rw [hok]
    exact ⟨.refl hv, .refused hcan rfl⟩

end ZenovOS.Storage
