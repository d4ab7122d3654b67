import ZenovOS.Theorems.Storage.Names

/-! # A volume with a file on it

`plant` puts an entry on a volume, in memory and on disk, with a sector of data. What was ready stays
ready, and the other files stay as they are. -/

namespace ZenovOS.Storage
open Bytes Volume

variable {v : Volume} {i j : Nat} {e : ZfsEntry} {content : Bytes}

/-- Entry `i` is a file that reads as `b`. -/
structure Volume.Holds (v : Volume) (i : Nat) (b : Bytes) : Prop where
  type : (v.zfsEntries i).type = zfsTypeFile
  size : (v.zfsEntries i).size.toNat ≤ v.zfsSuper.maxFileBytes
  content : v.content i (v.zfsEntries i) = b
  checksum : fnv1a b = (v.zfsEntries i).checksum

/-- The entry of a file. -/
def fileEntry (path content : Bytes) : ZfsEntry := (stageEntry path content none).finalize

/-- The entry of a directory. -/
def directoryEntry (path : Bytes) : ZfsEntry :=
  { ZfsEntry.empty with used := 1, type := zfsTypeDirectory, path := Block.of path }

def Volume.plant (v : Volume) (i : Nat) (e : ZfsEntry) (content : Bytes) : Volume :=
  ((v.setSector (entrySector i) (v.patched i e)).setSector (v.zfsSuper.dataSector i) (Block.of content)).setEntry i e

theorem plant_disk : (v.plant i e content).ata0.disk =
    Function.update (Function.update v.ata0.disk (entrySector i) (v.patched i e))
      (v.zfsSuper.dataSector i) (Block.of content) := rfl

theorem plant_zfsEntries_self : (v.plant i e content).zfsEntries i = e := Function.update_self ..

theorem plant_zfsEntries_of_ne (hji : j ≠ i) : (v.plant i e content).zfsEntries j = v.zfsEntries j := Function.update_of_ne hji ..

/-- The paths of the entries are among these. -/
def Volume.Named (v : Volume) (paths : List Bytes) : Prop :=
  ∀ j < v.zfsSuper.entries, (v.zfsEntries j).visible → (v.zfsEntries j).name ∈ paths

theorem named_of_empty (h : ∀ j, v.zfsEntries j = .empty) : v.Named [] := by
  intro j _ hvis
  rw [h j] at hvis
  exact absurd hvis (by decide)

theorem plant_named {paths : List Bytes} (h : v.Named paths) (i : Nat) (e : ZfsEntry) (content : Bytes) : (v.plant i e content).Named (e.name :: paths) := by
  intro j hj hvis
  by_cases hji : j = i
  · subst hji
    rw [plant_zfsEntries_self]
    exact List.mem_cons_self ..
  · rw [plant_zfsEntries_of_ne hji] at hvis ⊢
    exact List.mem_cons_of_mem _ (h j hj hvis)

theorem Volume.Named.lookup {paths : List Bytes} (h : v.Named paths) {p : Bytes} (hp : p ∉ paths) : v.lookup p = none := by
  refine lookup_eq_none fun j hj hvis hname => hp ?_
  rw [← hname]
  exact h j hj hvis

theorem Volume.Named.findEntry {paths : List Bytes} (h : v.Named paths) {p : Bytes} (hp : p ∉ paths) : v.findEntry p = none := by
  cases hf : v.findEntry p with
  | none => rfl
  | some j =>
    obtain ⟨hj, hvis, hname⟩ := findEntry_some hf
    exact absurd (hname ▸ h j hj hvis) hp

theorem name_fileEntry {path content : Bytes} (hz : (0 : UInt8) ∉ path) (hlen : path.length < 48) :
    (fileEntry path content).name = path := cstr_of hz hlen

theorem name_directoryEntry {path : Bytes} (hz : (0 : UInt8) ∉ path) (hlen : path.length < 48) :
    (directoryEntry path).name = path := cstr_of hz hlen

theorem parentExists_of_find {p parent : Bytes} (hparent : parentPath p = some parent) (hfind : v.findEntry parent = some i)
    (htype : (v.zfsEntries i).type = zfsTypeDirectory) : v.parentExists p = true := by
  unfold Volume.parentExists
  simp only [hparent, hfind, htype, decide_true, Bool.or_true]

theorem plant_diskEntry (hl : v.Laid) (hi : i < v.zfsSuper.entries) (hj : j < v.zfsSuper.entries) :
    (v.plant i e content).diskEntry j = Function.update v.diskEntry i e j := by
  have hne : entrySector j ≠ v.zfsSuper.dataSector i := entrySector_ne_dataSector hl 0 hj hi
  rw [← diskEntry_setSector_patched]
  unfold Volume.diskEntry
  rw [plant_disk, Function.update_of_ne hne]
  rfl

theorem plant_slotBytes (hl : v.Laid) (hi : i < v.zfsSuper.entries) (hj : j < v.zfsSuper.entries) (hji : j ≠ i)
    (hslot : 0 < v.zfsSuper.slotSectors.toNat) : (v.plant i e content).slotBytes j = v.slotBytes j := by
  refine @sectorBytes_congr _ _ (v.zfsSuper.dataSector j) _ fun k hk => ?_
  have hdata : v.zfsSuper.dataSector j + k ≠ v.zfsSuper.dataSector i :=
    dataSector_ne_dataSector hl hj hi hji hk hslot
  rw [plant_disk, Function.update_of_ne hdata, Function.update_of_ne (entrySector_ne_dataSector hl k hi hj).symm]

theorem plant_slotBytes_self (hslot : 0 < v.zfsSuper.slotSectors.toNat) (hlen : content.length ≤ sectorSize) :
    ((v.plant i e content).slotBytes i).take content.length = content := by
  obtain ⟨n, hn⟩ := Nat.exists_eq_succ_of_ne_zero hslot.ne'
  show (sectorBytes (v.plant i e content).ata0.disk (v.zfsSuper.dataSector i) v.zfsSuper.slotSectors.toNat).take _ = _
  rw [hn, sectorBytes_succ, plant_disk, Function.update_self, Block.bytes_of hlen, List.append_assoc, List.take_left]

section Ready
variable (hv : v.Ready) (hi : i < v.zfsSuper.entries)
include hv hi

theorem plant_ready (he : Settled e)
    (hnew : ∀ j < v.zfsSuper.entries, j ≠ i → (v.zfsEntries j).visible → (v.zfsEntries j).name ≠ e.name) :
    (v.plant i e content).Ready where
  mounted := hv.mounted
  laid := hv.laid
  inSync j hj := by
    rw [plant_diskEntry hv.laid hi hj]
    by_cases hji : j = i
    · rw [hji, Function.update_self]
      exact Function.update_self ..
    · rw [Function.update_of_ne hji, ← hv.inSync j hj]
      exact Function.update_of_ne hji ..
  settled j hj := by
    by_cases hji : j = i
    · rw [hji]
      show Settled (Function.update v.zfsEntries i e i)
      rwa [Function.update_self]
    · show Settled (Function.update v.zfsEntries i e j)
      rw [Function.update_of_ne hji]
      exact hv.settled j hj
  distinct := hv.distinct.update fun _ j hj hji hvis => hnew j hj hji hvis

theorem plant_ready_of_named {paths : List Bytes} (he : Settled e) (hnamed : v.Named paths) (hnew : e.name ∉ paths) :
    (v.plant i e content).Ready :=
  plant_ready hv hi he fun j hj _ hvis hname => hnew (hname ▸ hnamed j hj hvis)

omit hv in
theorem plant_findEntry (hv' : (v.plant i e content).Ready) (hvis : e.visible) : (v.plant i e content).findEntry e.name = some i := by
  have he : (v.plant i e content).zfsEntries i = e := plant_zfsEntries_self
  exact findEntry_eq hv'.laid hv'.distinct hi (by rw [he]; exact hvis) (by rw [he])

omit hv hi in
theorem plant_findEntry_of_ne (hv' : (v.plant i e content).Ready) {p : Bytes} (hji : j ≠ i) (h : v.findEntry p = some j) :
    (v.plant i e content).findEntry p = some j := by
  obtain ⟨hj, hvis, hname⟩ := findEntry_some h
  have he : (v.plant i e content).zfsEntries j = v.zfsEntries j := plant_zfsEntries_of_ne hji
  exact findEntry_eq hv'.laid hv'.distinct hj (by rw [he]; exact hvis) (by rw [he]; exact hname)

omit hv hi in
theorem plant_holds {path : Bytes} (hslot : 0 < v.zfsSuper.slotSectors.toNat) (hlen : content.length ≤ sectorSize)
    (hmax : content.length ≤ v.zfsSuper.maxFileBytes) :
    (v.plant i (fileEntry path content) content).Holds i content := by
  have hsize : (UInt32.ofNat content.length).toNat = content.length :=
    UInt32.toNat_ofNat_of_lt' (lt_of_le_of_lt hmax (maxFileBytes_lt _))
  have he : (v.plant i (fileEntry path content) content).zfsEntries i = fileEntry path content := Function.update_self ..
  refine ⟨by rw [he]; rfl, ?_, ?_, by rw [he]; rfl⟩
  · rw [he]
    show (UInt32.ofNat content.length).toNat ≤ _
    rwa [hsize]
  · rw [he]
    show ((v.plant i (fileEntry path content) content).slotBytes i).take (UInt32.ofNat content.length).toNat = content
    rw [hsize, plant_slotBytes_self hslot hlen]

theorem plant_holds_of_ne {b : Bytes} (hj : j < v.zfsSuper.entries) (hji : j ≠ i)
    (hslot : 0 < v.zfsSuper.slotSectors.toNat) (h : v.Holds j b) : (v.plant i e content).Holds j b := by
  have he : (v.plant i e content).zfsEntries j = v.zfsEntries j := Function.update_of_ne hji ..
  refine ⟨by rw [he]; exact h.type, by rw [he]; exact h.size, ?_, by rw [he]; exact h.checksum⟩
  rw [he, ← h.content]
  unfold Volume.content
  rw [plant_slotBytes hv.laid hi hj hji hslot]

end Ready
end ZenovOS.Storage
