import ZenovOS.Theorems.Storage.Append
import ZenovOS.Theorems.Storage.Sync

/-! # Operations on a device without faults

What `query_result`, `read_file_result`, `write_file_result` and `sync_metadata_result` bring on a ready volume whose
device serves every request: they end, they succeed when nothing in the table is against it, and the volume can be
worked on afterwards. -/

namespace ZenovOS.Storage
open Bytes Mach Volume

variable {v v' : Volume} {path p : Bytes} {i : Nat}

/-- A ready volume on a device without faults. -/
structure Volume.Works (v : Volume) : Prop where
  ready : v.Ready
  fit : v.Fit

theorem Alike.works (h : Alike v v') (hm : v'.zfsMounted = true) (hv : v.Works) : v'.Works :=
  ⟨h.ready hm hv.ready, h.fit hv.fit⟩

theorem Kept.works {P : Bytes → Prop} (h : Kept P v v') (hs : Same v v') (hm : v'.zfsMounted = true) (hv : v.Works) : v'.Works :=
  ⟨(h.mounted hm).1, hs.fit hv.fit⟩

theorem queryResult_works (hv : v.Works) (hn : normalizePath v.currentDirectory path = some p) (hne : cstr path ≠ [])
    (hroot : p ≠ root) (hfind : v.findEntry p = some i)
    (htype : (v.zfsEntries i).type = zfsTypeFile ∨ (v.zfsEntries i).type = zfsTypeDirectory) :
    wp (queryResult path)
      (fun r v' => Alike v v' ∧ v'.Works ∧
        r.2 = some ⟨(v.zfsEntries i).type, (v.zfsEntries i).size, (v.zfsEntries i).checksum⟩)
      (fun _ => False) v := by
  have hrec : Alike v (v.record (v.zfsEntries i)) :=
    ⟨⟨⟨rfl, rfl, rfl, rfl⟩, rfl, rfl, fun hf => ⟨hf.present, hf.writable, hf.outcomes⟩⟩, rfl, rfl⟩
  unfold queryResult
  rw [wp_bind, wp_get]
  refine wp_ite (fun h => absurd hv.ready.mounted (by simpa using h)) fun _ => wp_ite (fun h => absurd h hne) fun _ => ?_
  rw [hn]
  dsimp only
  refine wp_ite (fun h => absurd h hroot) fun _ => ?_
  rw [hfind]
  dsimp only
  rw [wp_bind, wp_modify]
  refine wp_ite (fun h => ?_) fun _ => ⟨hrec, hrec.works hv.ready.mounted hv, rfl⟩
  rcases htype with htype | htype
  · exact absurd htype h.1
  · exact absurd htype h.2

theorem readFileResult_works {b : Bytes} {capacity : Nat} (hv : v.Works) (hb : v.Yields path b) (hfits : b.length ≤ capacity) :
    wp (readFileResult path capacity)
      (fun r v' => Alike v v' ∧ v'.Works ∧ r = (fsSuccess .read b.length, b)) (fun _ => False) v := by
  refine wp_mono (readFileResult_end hv.ready.laid hv.ready.mounted hv.fit) (fun r v' h => ?_) fun _ h => h
  obtain ⟨halike, hm, hend⟩ := h
  refine ⟨halike, halike.works hm hv, ?_⟩
  cases hend with
  | read yields fits => rw [yields.unique hb]
  | refused ok none => exact absurd (none b hb) (Nat.not_lt.mpr hfits)

/-- A write that finds its parent, no directory in its place, room in a slot and a free entry. -/
structure Room (v : Volume) (p data : Bytes) : Prop where
  notRoot : p ≠ root
  parent : v.parentExists p = true
  file : ∀ i, v.findEntry p = some i → (v.zfsEntries i).type = zfsTypeFile
  size : data.length ≤ v.zfsSuper.maxFileBytes
  free : v.freeEntry (v.findEntry p) ≠ none

theorem Room.alike {data : Bytes} (h : Room v p data) (ha : Alike v v') : Room v' p data where
  notRoot := h.notRoot
  parent := by
    unfold Volume.parentExists
    simp only [ha.findEntry, ha.zfsEntries]
    exact h.parent
  file i hi := by
    rw [ha.findEntry] at hi
    rw [ha.zfsEntries, h.file i hi]
  size := by
    rw [ha.zfsSuper]
    exact h.size
  free := by
    rw [ha.findEntry, ha.freeEntry]
    exact h.free

theorem writeFileResult_works {data : Bytes} (hv : v.Works) (hn : normalizePath v.currentDirectory path = some p)
    (hroom : Room v p data) :
    wp (writeFileResult path data false) (fun r v' => r.ok = true ∧ Same v v' ∧ v'.Works) (fun _ => False) v := by
  have hkept : wp (writeFileResult path data false) (fun _ v' => Same v v' ∧ Kept (fun _ => False) v v') (fun _ => True) v :=
    wp_mono (hv.ready.kept.write fun _ _ => id) (fun _ _ h => h) fun _ _ => trivial
  have hend : wp (writeFileResult path data false) (fun r v' => r.ok = true ∧ v'.zfsMounted = true) (fun _ => False) v := by
    unfold writeFileResult
    rw [wp_bind, wp_get]
    refine wp_ite (fun h => absurd hv.ready.mounted (by simpa using h)) fun _ => ?_
    rw [hn]
    dsimp only
    refine wp_ite (fun h => absurd h hroom.notRoot) fun _ => wp_ite (fun h => ?_) fun _ => wp_ite (fun h => ?_) fun _ =>
      wp_ite (fun h => ?_) fun _ => ?_
    · rw [hroom.parent] at h
      cases h
    · rw [Option.any_eq_true] at h
      obtain ⟨i, hi, htype⟩ := h
      exact absurd (hroom.file i hi) (by simpa using htype)
    · have hsize := hroom.size
      rcases h with h | h
      · exact absurd h (Nat.not_lt_zero _)
      · exact absurd hsize (Nat.not_le.mpr h)
    · rw [wp_bind]
      show wp (writeContent p (v.findEntry p) data) _ _ v
      refine wp_mono (writeContent_end hv.ready.laid hv.ready.inSync hv.fit (fun i hi => ?_) hroom.size
        (normalizePath_stored hn).2) (fun r v' h => ?_) fun _ h => h
      · obtain ⟨hlt, hvis, -⟩ := findEntry_some hi
        exact ⟨hlt, used_of_visible hvis⟩
      · cases h with
        | full free idle => exact absurd free hroom.free
        | stored free stored => exact ⟨rfl, stored.mounted.trans hv.ready.mounted⟩
  refine wp_mono (wp_and hkept hend) (fun r v' h => ?_) fun _ h => h.2
  obtain ⟨⟨hsame, hkept⟩, hok, hm⟩ := h
  exact ⟨hok, hsame, hkept.works hsame hm hv⟩

theorem syncMetadataResult_works (hv : v.Works) (hlast : v.zfsSuper.generation ≠ 0xFFFFFFFF) :
    wp syncMetadataResult (fun r v' => r.ok = true ∧ v'.Works) (fun _ => False) v := by
  refine wp_mono (syncMetadataResult_spec hv.ready) (fun r v' h => ?_) fun v' h => h.1 hv.fit
  cases h with
  | @done w ok rewritten stamped =>
    subst stamped
    have hfit := rewritten.fit hv.fit
    exact ⟨ok, stamp_ready (rewritten.ready hv.ready), hfit.present, hfit.writable, hfit.outcomes⟩
  | exhausted ok last same => exact absurd last hlast
  | failed ok fit rewritten unmounted => exact absurd hv.fit fit

end ZenovOS.Storage
