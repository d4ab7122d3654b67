import ZenovOS.Storage.Tools
import ZenovOS.Theorems.Storage.Crash

/-! # What the operations leave of the other paths

An operation changes what its own paths name and nothing else: in the table in memory while the volume
stays mounted, and in what a remount finds however the operation ended. `Kept P u v` says so of a volume
`v` reached from `u` for the paths in `P`; each operation whose paths are not in `P` keeps it. -/

namespace ZenovOS.Storage
open Bytes Mach Volume

variable {v v' : Volume} {P : Bytes → Prop}

/-! ### Tables with distinct paths -/

theorem Distinct.update {n i : Nat} {t : Nat → ZfsEntry} {e : ZfsEntry} (h : Distinct n t)
    (hnew : e.visible → ∀ j < n, j ≠ i → (t j).visible → (t j).name ≠ e.name) : Distinct n (Function.update t i e) := by
  intro j hj k hk hvj hvk hname
  by_cases hji : j = i
  · by_cases hki : k = i
    · rw [hji, hki]
    · rw [hji, Function.update_self] at hvj hname
      rw [Function.update_of_ne hki] at hvk hname
      exact absurd hname.symm (hnew hvj k hk hki hvk)
  · rw [Function.update_of_ne hji] at hvj hname
    by_cases hki : k = i
    · rw [hki, Function.update_self] at hvk hname
      exact absurd hname (hnew hvk j hj hji hvj)
    · rw [Function.update_of_ne hki] at hvk hname
      exact h j hj k hk hvj hvk hname

theorem Untouched.eq_of_visible {n i : Nat} {T t : Nat → ZfsEntry} (h : Untouched n T t) (hs : Settled (t i)) (hi : i < n)
    (hv : (t i).visible) : t i = T i := by
  rcases h i hi with he | ⟨-, hu | htr⟩
  · exact he
  · exact absurd hu (used_of_visible hv)
  · rw [hs.notTransaction] at htr
    cases htr

theorem Untouched.distinct {n : Nat} {T t : Nat → ZfsEntry} (h : Untouched n T t) (hs : ∀ i < n, Settled (t i))
    (hd : Distinct n T) : Distinct n t := by
  intro i hi j hj hvi hvj hname
  have hi' := h.eq_of_visible (hs i hi) hi hvi
  have hj' := h.eq_of_visible (hs j hj) hj hvj
  rw [hi'] at hvi hname
  rw [hj'] at hvj hname
  exact hd i hi j hj hvi hvj hname

theorem Switched.distinct {n s : Nat} {T t : Nat → ZfsEntry} {o : Option Nat} {stage : ZfsEntry}
    (h : Switched n T s stage o t) (hs : Settled (t s)) (hu : stage.used ≠ 0) (hd : Distinct n T)
    (ho : ∀ i < n, (T i).visible → (T i).name = stage.name → o = some i) : Distinct n t := by
  obtain ⟨hnew, hgone⟩ := h.of_settled hu hs
  have hother : ∀ i < n, i ≠ s → (t i).visible → t i = T i ∧ (t i).name ≠ stage.name := by
    intro i hi his hvis
    have hio : some i ≠ o := by
      intro hio
      rw [hgone i hio.symm] at hvis
      exact Bool.noConfusion hvis
    have he := h.others i hi his hio
    rw [he] at hvis ⊢
    exact ⟨rfl, fun hn => hio (ho i hi hvis hn).symm⟩
  have hname : (t s).name = stage.name := by rw [hnew]; rfl
  intro i hi j hj hvi hvj hn
  by_cases his : i = s
  · by_cases hjs : j = s
    · rw [his, hjs]
    · rw [his, hname] at hn
      exact absurd hn.symm (hother j hj hjs hvj).2
  · obtain ⟨hi', hni⟩ := hother i hi his hvi
    by_cases hjs : j = s
    · rw [hjs, hname] at hn
      exact absurd hn hni
    · have hj' := (hother j hj hjs hvj).1
      rw [hi'] at hvi hn
      rw [hj'] at hvj hn
      exact hd i hi j hj hvi hvj hn

/-! ### Remounted volumes are ready -/

section Remounts
variable {w : Volume} {I : (Nat → ZfsEntry) → Prop}

theorem Recovered.ready (h : Recovered I v' w) (hl : v'.Laid) (hd : Distinct w.zfsSuper.entries w.diskEntry) :
    w.activate.Ready where
  mounted := rfl
  laid := h.laid hl
  inSync := h.inSync
  settled i hi := by
    show Settled (w.zfsEntries i)
    have hi' : i < w.zfsSuper.entries := hi
    rw [h.inSync i hi']
    exact h.settled i (by rwa [h.zfsSuper] at hi')
  distinct i hi j hj hvi hvj hn := by
    have hi' := h.inSync i hi
    have hj' := h.inSync j hj
    have hvi : (w.zfsEntries i).visible := hvi
    have hvj : (w.zfsEntries j).visible := hvj
    have hn : (w.zfsEntries i).name = (w.zfsEntries j).name := hn
    rw [hi'] at hvi hn
    rw [hj'] at hvj hn
    exact hd i hi j hj hvi hvj hn

theorem Volume.Ready.distinctDisk (hv : v.Ready) : Distinct v.zfsSuper.entries v.diskEntry := by
  intro i hi j hj hvi hvj hn
  rw [← hv.inSync i hi] at hvi hn
  rw [← hv.inSync j hj] at hvj hn
  exact hv.distinct i hi j hj hvi hvj hn

theorem ready_untouched (hv : v.Ready) (hd : SameDevice v v')
    (h : Recovered (Untouched v.zfsSuper.entries v.diskEntry) v' w) : w.activate.Ready := by
  have hsuper : w.zfsSuper = v.zfsSuper := h.zfsSuper.trans hd.zfsSuper
  refine h.ready (hd.laid hv.laid) ?_
  rw [hsuper]
  exact h.table.distinct (fun i hi => h.settled i (by rwa [hd.zfsSuper])) hv.distinctDisk

theorem ready_switched {path content : Bytes} {s : Nat} (hv : v.Ready) (hd : SameDevice v v') (hz : (0 : UInt8) ∉ path)
    (hlen : path.length < 48) (hn : NewSide v v' path content (v.findEntry path) s)
    (h : Recovered (Switched v.zfsSuper.entries v.diskEntry s (stageEntry path content (v.findEntry path))
      (v.findEntry path)) v' w) : w.activate.Ready := by
  have hsuper : w.zfsSuper = v.zfsSuper := h.zfsSuper.trans hd.zfsSuper
  have hname : (stageEntry path content (v.findEntry path)).name = path := cstr_of hz hlen
  refine h.ready (hd.laid hv.laid) ?_
  rw [hsuper]
  refine h.table.distinct (h.settled s (by rw [hd.zfsSuper]; exact hn.place.staging)) (by decide : (1 : UInt8) ≠ 0)
    hv.distinctDisk fun i hi hvis hni => ?_
  rw [← hv.inSync i hi] at hvis hni
  exact findEntry_eq hv.laid hv.distinct hi hvis (hni.trans hname)

theorem restart_congr (h : Same v v') (hd : v'.ata0.disk = v.ata0.disk) (os : List Outcome) : v'.restart os = v.restart os := by
  obtain ⟨⟨⟨p', w', n', d', os'⟩, s', t', m', c', f', a'⟩, rfl⟩ : ∃ x : Volume, x = v' := ⟨v', rfl⟩
  obtain ⟨⟨⟨p, w, n, d, os⟩, s, t, m, c, f, a⟩, rfl⟩ : ∃ x : Volume, x = v := ⟨v, rfl⟩
  obtain ⟨⟨rfl, rfl, rfl, rfl⟩, rfl, rfl, -⟩ := h
  cases hd
  rfl

theorem Remounted.congr (hs : Same v v') (hd : v'.ata0.disk = v.ata0.disk) (h : Remounted v' w) : Remounted v w := by
  cases h with
  | done run ok => exact .done (restart_congr hs hd _ ▸ run) ok
  | again run later => exact .again (restart_congr hs hd _ ▸ run) later

end Remounts

/-! ### Paths that keep what they name -/

/-- What a remount of `v` finds under the paths in `P` is what they named in `u`. -/
def Durable (P : Bytes → Prop) (u v : Volume) : Prop :=
  ∀ w, Remounted v w → w.activate.Ready ∧ ∀ q, P q → w.lookup q = u.lookup q

/-- The paths in `P` name in `v`, and in what a remount of it finds, what they named in `u`. -/
structure Kept (P : Bytes → Prop) (u v : Volume) : Prop where
  mounted : v.zfsMounted = true → v.Ready ∧ ∀ q, P q → v.lookup q = u.lookup q
  durable : Durable P u v

theorem Durable.trans {u : Volume} (h : ∀ q, P q → v.lookup q = u.lookup q) (hd : Durable P v v') : Durable P u v' := by
  intro w hw
  obtain ⟨hr, hq⟩ := hd w hw
  exact ⟨hr, fun q hP => (hq q hP).trans (h q hP)⟩

theorem Kept.trans {u : Volume} (h : ∀ q, P q → v.lookup q = u.lookup q) (hk : Kept P v v') : Kept P u v' := by
  refine ⟨fun hm => ?_, hk.durable.trans h⟩
  obtain ⟨hr, hq⟩ := hk.mounted hm
  exact ⟨hr, fun q hP => (hq q hP).trans (h q hP)⟩

theorem durable_untouched (hv : v.Ready) (hd : SameDevice v v') (hslots : SlotsKept v v')
    (hu : Untouched v.zfsSuper.entries v.diskEntry v'.diskEntry) : Durable P v v' := by
  intro w hw
  have hrec := remounted_untouched hv hd hu hw
  exact ⟨ready_untouched hv hd hrec, fun q _ => lookup_untouched hv hd hslots hrec q⟩

theorem Volume.Ready.kept (hv : v.Ready) : Kept P v v :=
  ⟨fun _ => ⟨hv, fun _ _ => rfl⟩, durable_untouched hv (SameDevice.refl v) (fun _ _ _ => rfl) fun _ _ => .inl rfl⟩

theorem Alike.ready (h : Alike v v') (hm : v'.zfsMounted = true) (hv : v.Ready) : v'.Ready where
  mounted := hm
  laid := h.laid hv.laid
  inSync i hi := by
    rw [h.zfsSuper] at hi
    rw [h.zfsEntries, h.diskEntry, hv.inSync i hi]
  settled i hi := by
    rw [h.zfsSuper] at hi
    rw [h.zfsEntries]
    exact hv.settled i hi
  distinct := by
    rw [h.zfsSuper, h.zfsEntries]
    exact hv.distinct

theorem Alike.lookup (h : Alike v v') (q : Bytes) : v'.lookup q = v.lookup q :=
  lookup_congr h.zfsSuper fun i _ _ => ⟨by rw [h.zfsEntries], by rw [h.slotBytes]⟩

theorem same_accessed (v : Volume) (paths : List Bytes) : Same v { v with accessed := paths } :=
  ⟨⟨rfl, rfl, rfl, rfl⟩, rfl, rfl, fun hf => ⟨hf.present, hf.writable, hf.outcomes⟩⟩

theorem Durable.accessed {u : Volume} (h : Durable P u v) (paths : List Bytes) : Durable P u { v with accessed := paths } :=
  fun w hw => h w (hw.congr (same_accessed v paths) rfl)

theorem Kept.accessed {u : Volume} (h : Kept P u v) (paths : List Bytes) : Kept P u { v with accessed := paths } where
  mounted hm := by
    obtain ⟨hv, hq⟩ := h.mounted hm
    exact ⟨⟨hm, hv.laid, hv.inSync, hv.settled, hv.distinct⟩, hq⟩
  durable := h.durable.accessed paths

theorem Kept.enter {u : Volume} (h : Kept P u v) (d : Bytes) (os : List Outcome) : Kept P u (v.enter d os) where
  mounted hm := by
    obtain ⟨hv, hq⟩ := h.mounted hm
    exact ⟨⟨hm, hv.laid, hv.inSync, hv.settled, hv.distinct⟩, hq⟩
  durable w hw := by
    refine h.durable w ?_
    cases hw with
    | done run ok => exact .done run ok
    | again run later => exact .again run later

theorem Kept.remounted {u w : Volume} (h : Durable P u v) (hw : Remounted v w) : Kept P u w.activate := by
  obtain ⟨hready, hq⟩ := h w hw
  exact Kept.trans (v := w.activate) hq hready.kept

theorem Alike.kept (h : Alike v v') (hv : v.Ready) : Kept P v v' := by
  refine ⟨fun hm => ⟨h.ready hm hv, fun q _ => h.lookup q⟩, fun w hw => ?_⟩
  exact hv.kept.durable w (hw.congr h.toSame h.disk)

/-! ### Writing a file -/

theorem WriteEnd.recovered {path content : Bytes} {s : Nat} (hv : v.Ready) (hs : Same v v')
    (new : NewSide v v' path content (v.findEntry path) s)
    (disk : ∀ i < v.zfsSuper.entries,
      v'.diskEntry i = written s (stageEntry path content (v.findEntry path)) (v.findEntry path) v.diskEntry i)
    (entries : v'.zfsEntries = written s (stageEntry path content (v.findEntry path)) (v.findEntry path) v.zfsEntries) :
    Recovered (Switched v.zfsSuper.entries v.diskEntry s (stageEntry path content (v.findEntry path))
      (v.findEntry path)) v' v' where
  toSameDevice := SameDevice.refl v'
  slots _ _ := rfl
  table := new.table
  inSync i hi := by
    rw [hs.zfsSuper] at hi
    rw [entries, disk i hi]
    exact written_congr hv.inSync hi
  settled i hi := by
    rw [hs.zfsSuper] at hi
    by_cases his : i = s
    · rw [disk i hi, his]
      unfold written
      rw [Function.update_self]
      exact finalize_settled _
    · exact new.table.settled_of_ne hv.settledDisk hi his

/-- The new content is there, and every other path names what it named. -/
structure Wrote (path content : Bytes) (v v' : Volume) : Prop where
  kept : Kept (· ≠ path) v v'
  mounted : v'.zfsMounted = true → v'.lookup path = some (fileState content)
  durable : ∀ w, Remounted v' w → w.lookup path = some (fileState content)

theorem NewSide.durable {path content : Bytes} {s : Nat} (hv : v.Ready) (hd : SameDevice v v') (hslots : SlotsKept v v')
    (hz : (0 : UInt8) ∉ path) (hlen : path.length < 48) (hsize : content.length < 2 ^ 32)
    (hn : NewSide v v' path content (v.findEntry path) s) :
    Durable (· ≠ path) v v' ∧ ∀ w, Remounted v' w → w.lookup path = some (fileState content) := by
  refine ⟨fun w hw => ⟨?_, fun q hq => ?_⟩, fun w hw => ?_⟩
  · exact ready_switched hv hd hz hlen hn (hn.remounted hv hd hw)
  · exact (lookup_switched hv hd hslots hz hlen hsize hn (hn.remounted hv hd hw)).2 q hq
  · exact (lookup_switched hv hd hslots hz hlen hsize hn (hn.remounted hv hd hw)).1

theorem WriteEnd.wrote {path content : Bytes} {r : FsResult} (hv : v.Ready) (hs : Same v v') (hslots : SlotsKept v v')
    (hz : (0 : UInt8) ∉ path) (hlen : path.length < 48) (hsize : content.length < 2 ^ 32)
    (h : WriteEnd v v' path content (v.findEntry path) r) :
    Kept (· ≠ path) v v' ∧ (r.ok = true → Wrote path content v v') := by
  cases h with
  | done new disk entries mounted =>
    obtain ⟨hdur, hpath⟩ := new.durable hv hs.toSameDevice hslots hz hlen hsize
    have hrec := WriteEnd.recovered hv hs new disk entries
    have hready := ready_switched hv hs.toSameDevice hz hlen new hrec
    obtain ⟨hp, hq⟩ := lookup_switched hv hs.toSameDevice hslots hz hlen hsize new hrec
    have hkept : Kept (· ≠ path) v v' :=
      ⟨fun hm => ⟨⟨hm, hready.laid, hready.inSync, hready.settled, hready.distinct⟩, hq⟩, hdur⟩
    exact ⟨hkept, fun _ => ⟨hkept, fun _ => hp, hpath⟩⟩
  | pending status mounted fit new =>
    obtain ⟨hdur, hpath⟩ := new.durable hv hs.toSameDevice hslots hz hlen hsize
    have hno : ¬v'.zfsMounted = true := by simp [mounted]
    have hkept : Kept (· ≠ path) v v' := ⟨fun hm => absurd hm hno, hdur⟩
    exact ⟨hkept, fun _ => ⟨hkept, fun hm => absurd hm hno, hpath⟩⟩
  | failed ok sides mounted =>
    refine ⟨⟨fun hm => ?_, ?_⟩, fun hok => absurd hok (by simp [ok])⟩
    · obtain ⟨he, hd⟩ := mounted hm
      have hsync : InSync v' := by
        intro i hi
        rw [hs.zfsSuper] at hi
        rw [he, hd i hi, hv.inSync i hi]
      have hready : v'.Ready := by
        refine ⟨hm, hs.laid hv.laid, hsync, fun i hi => ?_, ?_⟩
        · rw [hs.zfsSuper] at hi
          rw [he]
          exact hv.settled i hi
        · rw [hs.zfsSuper, he]
          exact hv.distinct
      refine ⟨hready, fun q _ => lookup_congr hs.zfsSuper fun i hi hor => ⟨by rw [he], hslots i hi ?_⟩⟩
      rw [← hv.inSync i hi]
      rcases hor with ⟨hvis, -⟩ | ⟨hvis, -⟩
      · exact used_of_visible hvis
      · rw [he] at hvis
        exact used_of_visible hvis
    · rcases sides with hu | ⟨s, hn⟩
      · exact durable_untouched hv hs.toSameDevice hslots hu
      · exact (hn.durable hv hs.toSameDevice hslots hz hlen hsize).1

theorem Durable.mono {Q : Bytes → Prop} {u : Volume} (h : Durable Q u v) (hPQ : ∀ q, P q → Q q) : Durable P u v := by
  intro w hw
  obtain ⟨hr, hq⟩ := h w hw
  exact ⟨hr, fun q hP => hq q (hPQ q hP)⟩

theorem Kept.mono {Q : Bytes → Prop} {u : Volume} (h : Kept Q u v) (hPQ : ∀ q, P q → Q q) : Kept P u v := by
  refine ⟨fun hm => ?_, h.durable.mono hPQ⟩
  obtain ⟨hr, hq⟩ := h.mounted hm
  exact ⟨hr, fun q hP => hq q (hPQ q hP)⟩

theorem writeFileResult_kept {input data : Bytes} {append : Bool} (hv : v.Ready)
    (hP : ∀ p, normalizePath v.currentDirectory input = some p → ¬P p) :
    wp (writeFileResult input data append) (fun _ v' => Same v v' ∧ Kept P v v') (fun v' => Durable P v v') v := by
  have hne : ∀ {path}, normalizePath v.currentDirectory input = some path → ∀ q, P q → q ≠ path := by
    intro path hn q hq heq
    exact hP path hn (heq ▸ hq)
  refine wp_mono (writeFileResult_spec input data append hv.laid hv.inSync) ?_ ?_
  · intro r v' ⟨hs, hend⟩
    refine ⟨hs, ?_⟩
    cases hend with
    | refused ok disk entries => exact Alike.kept ⟨hs, disk, entries⟩ hv
    | skipped status disk entries => exact Alike.kept ⟨hs, disk, entries⟩ hv
    | written writes slots ends =>
      obtain ⟨hz, hlen⟩ := normalizePath_stored writes.normal
      have hsize := lt_of_le_of_lt writes.fits (maxFileBytes_lt _)
      exact (ends.wrote hv hs slots hz hlen hsize).1.mono (hne writes.normal)
  · intro v' ⟨_, hs, hend⟩
    rcases hend with hd | ⟨hslots, path, kept, writes, hsides⟩
    · exact fun w hw => hv.kept.durable w (hw.congr hs hd)
    · obtain ⟨hz, hlen⟩ := normalizePath_stored writes.normal
      rcases hsides with hu | ⟨s, hn⟩
      · exact durable_untouched hv hs.toSameDevice hslots hu
      · have hsize := lt_of_le_of_lt writes.fits (maxFileBytes_lt _)
        exact (hn.durable hv hs.toSameDevice hslots hz hlen hsize).1.mono (hne writes.normal)

theorem writeFileResult_wrote {input p data : Bytes} {append : Bool} (hv : v.Ready)
    (hp : normalizePath v.currentDirectory input = some p)
    (hagain : ∀ again, normalizePath v.currentDirectory p = some again → again = p) :
    wp (writeFileResult input data append) (fun r v' => r.ok = true → Wrote p (newContent v p data append) v v')
      (fun _ => True) v := by
  refine wp_mono (writeFileResult_spec input data append hv.laid hv.inSync) ?_ fun _ _ => trivial
  intro r v' ⟨hs, hend⟩ hok
  cases hend with
  | refused ok => exact absurd hok (by simp [ok])
  | @skipped path kept status disk entries mounted isMounted normal keeps short =>
    obtain rfl : p = path := Option.some.inj (hp.symm.trans normal)
    exact absurd (keeps.eq data hagain).2 short
  | @written path kept writes slots ends =>
    obtain rfl : p = path := Option.some.inj (hp.symm.trans writes.normal)
    obtain ⟨hz, hlen⟩ := normalizePath_stored hp
    have hsize := lt_of_le_of_lt writes.fits (maxFileBytes_lt _)
    rw [(writes.keeps.eq data hagain).1] at ends hsize
    exact (ends.wrote hv hs slots hz hlen hsize).2 hok

/-! ### Replacing an entry -/

/-- The volume that is mounted next after a replacement, with the new entry or without it. -/
def Volume.settledAt (v' : Volume) (entries : Nat → ZfsEntry) : Volume := { v' with zfsEntries := entries, zfsMounted := true }

/-- Entry `i` is replaced by `e`, of which the paths in `P` see neither. -/
structure Replaceable (P : Bytes → Prop) (v : Volume) (i : Nat) (e : ZfsEntry) : Prop where
  index : i < v.zfsSuper.entries
  settled : Settled e
  distinct : Distinct v.zfsSuper.entries (Function.update v.zfsEntries i e)
  old : ∀ q, P q → (v.zfsEntries i).visible → (v.zfsEntries i).name ≠ q
  new : ∀ q, P q → e.visible → e.name ≠ q

section Replace
variable {i : Nat} {e : ZfsEntry} {landed : Bool}

theorem Replaceable.entry (hr : Replaceable P v i e) (hv : v.Ready) {t : Nat → ZfsEntry}
    (ht : t = if landed then Function.update v.zfsEntries i e else v.zfsEntries) :
    (∀ j < v.zfsSuper.entries, Settled (t j)) ∧ Distinct v.zfsSuper.entries t ∧
      ∀ q, P q → ∀ j < v.zfsSuper.entries, (v.zfsEntries j).visible ∧ (v.zfsEntries j).name = q ∨
        (t j).visible ∧ (t j).name = q → t j = v.zfsEntries j := by
  cases landed with
  | false =>
    obtain rfl : t = v.zfsEntries := ht
    exact ⟨hv.settled, hv.distinct, fun _ _ _ _ _ => rfl⟩
  | true =>
    obtain rfl : t = Function.update v.zfsEntries i e := ht
    refine ⟨fun j hj => ?_, hr.distinct, fun q hq j hj hor => ?_⟩
    · by_cases hji : j = i
      · rw [hji, Function.update_self]
        exact hr.settled
      · rw [Function.update_of_ne hji]
        exact hv.settled j hj
    · by_cases hji : j = i
      · rw [hji, Function.update_self] at hor
        rcases hor with ⟨hvis, hn⟩ | ⟨hvis, hn⟩
        · exact absurd hn (hr.old q hq hvis)
        · exact absurd hn (hr.new q hq hvis)
      · exact Function.update_of_ne hji _ _

theorem Replaceable.ready (hr : Replaceable P v i e) (hv : v.Ready) (h : Replaced v v' i e landed) {t : Nat → ZfsEntry}
    (ht : t = if landed then Function.update v.zfsEntries i e else v.zfsEntries) :
    (v'.settledAt t).Ready ∧ ∀ q, P q → (v'.settledAt t).lookup q = v.lookup q := by
  obtain ⟨hset, hdist, hsame⟩ := hr.entry hv ht
  have hsuper : (v'.settledAt t).zfsSuper = v.zfsSuper := h.same.zfsSuper
  have hsync : ∀ j < v.zfsSuper.entries, t j = v'.diskEntry j := by
    intro j hj
    rw [ht, h.disk]
    cases landed with
    | false => exact hv.inSync j hj
    | true =>
      by_cases hji : j = i
      · simp [hji]
      · simp [Function.update_of_ne hji, hv.inSync j hj]
  refine ⟨⟨rfl, h.same.laid hv.laid, fun j hj => ?_, fun j hj => ?_, ?_⟩, fun q hq => ?_⟩
  · rw [hsuper] at hj
    exact hsync j hj
  · rw [hsuper] at hj
    exact hset j hj
  · rw [hsuper]
    exact hdist
  · refine lookup_congr hsuper fun j hj hor => ⟨hsame q hq j hj hor, ?_⟩
    exact (h.sameData hv.laid hr.index).slotBytes hv.laid hj

theorem Replaceable.durable (hr : Replaceable P v i e) (hv : v.Ready) (h : Replaced v v' i e landed) : Durable P v v' := by
  obtain ⟨hready, hlook⟩ := hr.ready hv h rfl
  have hdur := hready.kept.durable.trans hlook
  have hsame : Same (v'.settledAt (if landed then Function.update v.zfsEntries i e else v.zfsEntries)) v' :=
    ⟨⟨rfl, rfl, rfl, rfl⟩, rfl, rfl, fun hf => ⟨hf.present, hf.writable, hf.outcomes⟩⟩
  exact fun w hw => hdur w (hw.congr hsame rfl)

theorem replaceEntryResult_kept {operation : FsOperation} (hv : v.Ready) (hr : Replaceable P v i e) :
    wp (replaceEntryResult i e operation) (fun _ v' => Same v v' ∧ Kept P v v') (fun v' => Durable P v v') v := by
  refine wp_mono (replaceEntryResult_spec hv.laid hr.index) ?_ ?_
  · intro r v' h
    rcases h with ⟨-, h, he, hm⟩ | ⟨-, -, ⟨landed, h⟩, -, hm⟩
    · refine ⟨h.same, fun hmounted => ?_, hr.durable hv h⟩
      have hsame : v'.settledAt v'.zfsEntries = v' := by
        unfold Volume.settledAt
        rw [← hmounted]
      have := hr.ready hv h he
      rwa [hsame] at this
    · exact ⟨h.same, fun hmounted => absurd hmounted (by simp [hm]), hr.durable hv h⟩
  · intro v' ⟨_, landed, h⟩
    exact hr.durable hv h

end Replace

/-! ### The operations -/

/-- An operation keeps the paths in `P` when it does so on a mounted volume, and does nothing on another. -/
theorem Kept.op {α : Type} {u : Volume} {m : Mach Volume α} (hk : Kept P u v)
    (hidle : v.zfsMounted = false → wp m (fun _ v' => v' = v) (fun _ => False) v)
    (hready : v.Ready → wp m (fun _ v' => Same v v' ∧ Kept P v v') (fun v' => Durable P v v') v) :
    wp m (fun _ v' => Same v v' ∧ Kept P u v') (fun v' => Durable P u v') v := by
  rcases hm : v.zfsMounted with _ | _
  · refine wp_mono (hidle hm) (fun _ v' h => ?_) fun _ h => h.elim
    rw [h]
    exact ⟨Same.refl v, hk⟩
  · obtain ⟨hv, hq⟩ := hk.mounted hm
    exact wp_mono (hready hv) (fun _ _ h => ⟨h.1, h.2.trans hq⟩) fun _ h => h.trans hq

section Idle
variable (hm : v.zfsMounted = false)
include hm

theorem writeFileResult_idle {input data : Bytes} {append : Bool} :
    wp (writeFileResult input data append) (fun r v' => r.ok = false ∧ v' = v) (fun _ => False) v := by
  rw [writeFileResult, wp_bind, wp_get, if_pos (by simp [hm]), wp_pure]
  exact ⟨rfl, rfl⟩

theorem readFileResult_idle {input : Bytes} {capacity : Nat} :
    wp (readFileResult input capacity) (fun r v' => r.1.ok = false ∧ v' = v) (fun _ => False) v := by
  rw [readFileResult, wp_bind, wp_get, if_pos (by simp [hm]), wp_pure]
  exact ⟨rfl, rfl⟩

end Idle

variable {u : Volume}

theorem Kept.write {input data : Bytes} {append : Bool} (hk : Kept P u v)
    (hP : ∀ p, normalizePath v.currentDirectory input = some p → ¬P p) :
    wp (writeFileResult input data append) (fun _ v' => Same v v' ∧ Kept P u v') (fun v' => Durable P u v') v :=
  hk.op (fun hm => wp_mono (writeFileResult_idle hm) (fun _ _ h => h.2) fun _ h => h)
    fun hv => writeFileResult_kept hv hP

theorem Kept.read {input : Bytes} {capacity : Nat} (hk : Kept P u v) :
    wp (readFileResult input capacity) (fun _ v' => Same v v' ∧ Kept P u v') (fun v' => Durable P u v') v := by
  refine hk.op (fun hm => wp_mono (readFileResult_idle hm) (fun _ _ h => h.2) fun _ h => h) fun hv => ?_
  refine wp_mono (readFileResult_spec hv.laid) ?_ ?_
  · intro r v' ⟨hs, hd, he, _⟩
    exact ⟨hs, Alike.kept ⟨hs, hd, he⟩ hv⟩
  · intro v' ⟨_, hs, hd⟩ w hw
    exact hv.kept.durable w (hw.congr hs hd)

theorem Kept.query {input : Bytes} (hk : Kept P u v) :
    wp (queryResult input) (fun _ v' => Same v v' ∧ Kept P u v') (fun v' => Durable P u v') v := by
  refine hk.op (fun hm => ?_) fun hv => ?_
  · rw [queryResult, wp_bind, wp_get, if_pos (by simp [hm]), wp_pure]
  have hrecord : ∀ e, Same v (v.record e) ∧ Kept P v (v.record e) := by
    intro e
    have hs : Same v (v.record e) :=
      ⟨⟨rfl, rfl, rfl, rfl⟩, rfl, rfl, fun hf => ⟨hf.present, hf.writable, hf.outcomes⟩⟩
    exact ⟨hs, Alike.kept ⟨hs, rfl, rfl⟩ hv⟩
  rw [queryResult, wp_bind, wp_get]
  refine wp_ite (fun _ => ⟨Same.refl v, hv.kept⟩) fun _ => wp_ite (fun _ => ⟨Same.refl v, hv.kept⟩) fun _ => ?_
  rcases normalizePath v.currentDirectory input with _ | path
  · exact ⟨Same.refl v, hv.kept⟩
  dsimp only
  refine wp_ite (fun _ => ⟨Same.refl v, hv.kept⟩) fun _ => ?_
  rcases v.findEntry path with _ | index
  · exact ⟨Same.refl v, hv.kept⟩
  dsimp only
  rw [wp_bind, wp_modify]
  exact wp_ite (fun _ => hrecord _) fun _ => hrecord _

theorem name_ne_of_new {path : Bytes} (hv : v.Ready) (hnew : ¬(v.findEntry path).isSome = true) :
    ∀ j < v.zfsSuper.entries, (v.zfsEntries j).visible → (v.zfsEntries j).name ≠ path := by
  intro j hj hvis hn
  rw [findEntry_eq hv.laid hv.distinct hj hvis hn] at hnew
  exact hnew rfl

theorem Kept.makeDirectory {input : Bytes} (hk : Kept P u v)
    (hP : ∀ p, normalizePath v.currentDirectory input = some p → v.findEntry p = none → ¬P p) :
    wp (makeDirectoryResult input) (fun _ v' => Same v v' ∧ Kept P u v') (fun v' => Durable P u v') v := by
  refine hk.op (fun hm => ?_) fun hv => ?_
  · rw [makeDirectoryResult, wp_bind, wp_get, if_pos (by simp [hm]), wp_pure]
  have hsame : Same v v ∧ Kept P v v := ⟨Same.refl v, hv.kept⟩
  rw [makeDirectoryResult, wp_bind, wp_get]
  refine wp_ite (fun _ => hsame) fun _ => ?_
  rcases hn : normalizePath v.currentDirectory input with _ | path
  · exact hsame
  dsimp only
  refine wp_ite (fun _ => hsame) fun _ => wp_ite (fun _ => hsame) fun hnew => wp_ite (fun _ => hsame) fun _ => ?_
  rcases hfree : v.freeEntry none with _ | index
  · exact hsame
  rcases hcopy : pathCopy path pathBytes with _ | copy
  · exact hsame
  dsimp only
  rw [pathCopy_eq hcopy]
  obtain ⟨hi, -, hunused⟩ := freeEntry_some hfree
  obtain ⟨hz, hlen⟩ := normalizePath_stored hn
  have hname : ({ ZfsEntry.empty with used := 1, type := zfsTypeDirectory, path := Block.of path } : ZfsEntry).name = path :=
    cstr_of hz hlen
  refine replaceEntryResult_kept hv ⟨hi, ⟨rfl, rfl⟩, hv.distinct.update fun _ j hj _ hvis => ?_, fun q _ hvis => ?_, fun q hq _ => ?_⟩
  · rw [hname]
    exact name_ne_of_new hv hnew j hj hvis
  · exact absurd hunused (used_of_visible hvis)
  · rw [hname]
    intro heq
    exact hP path hn (by simpa using hnew) (heq ▸ hq)

theorem Kept.remove {input : Bytes} (hk : Kept P u v)
    (hP : ∀ p, normalizePath v.currentDirectory input = some p → ¬P p) :
    wp (removeResult input) (fun _ v' => Same v v' ∧ Kept P u v') (fun v' => Durable P u v') v := by
  refine hk.op (fun hm => ?_) fun hv => ?_
  · rw [removeResult, wp_bind, wp_get, if_pos (by simp [hm]), wp_pure]
  have hsame : Same v v ∧ Kept P v v := ⟨Same.refl v, hv.kept⟩
  rw [removeResult, wp_bind, wp_get]
  refine wp_ite (fun _ => hsame) fun _ => ?_
  rcases hn : normalizePath v.currentDirectory input with _ | path
  · exact hsame
  dsimp only
  refine wp_ite (fun _ => hsame) fun _ => ?_
  rcases hfind : v.findEntry path with _ | index
  · exact hsame
  dsimp only
  refine wp_ite (fun _ => hsame) fun _ => ?_
  obtain ⟨hi, hvis, hname⟩ := findEntry_some hfind
  have hgone : ¬ZfsEntry.empty.visible = true := by decide
  refine replaceEntryResult_kept hv ⟨hi, ⟨rfl, rfl⟩, hv.distinct.update fun h => absurd h hgone, fun q hq _ => ?_,
    fun q _ h => absurd h hgone⟩
  rw [hname]
  intro heq
  exact hP path hn (heq ▸ hq)

theorem Kept.rename {sourceInput destinationInput : Bytes} (hk : Kept P u v)
    (hs : ∀ p, normalizePath v.currentDirectory sourceInput = some p → ¬P p)
    (hd : ∀ p, normalizePath v.currentDirectory destinationInput = some p → ¬P p) :
    wp (renameEntryResult sourceInput destinationInput) (fun _ v' => Same v v' ∧ Kept P u v')
      (fun v' => Durable P u v') v := by
  refine hk.op (fun hm => ?_) fun hv => ?_
  · rw [renameEntryResult, wp_bind, wp_get, if_pos (by simp [hm]), wp_pure]
  have hsame : Same v v ∧ Kept P v v := ⟨Same.refl v, hv.kept⟩
  rw [renameEntryResult, wp_bind, wp_get]
  refine wp_ite (fun _ => hsame) fun _ => ?_
  rcases hns : normalizePath v.currentDirectory sourceInput with _ | source
  · exact hsame
  rcases hnd : normalizePath v.currentDirectory destinationInput with _ | destination
  · exact hsame
  dsimp only
  refine wp_ite (fun _ => hsame) fun _ => wp_ite (fun _ => hsame) fun hnew => wp_ite (fun _ => hsame) fun _ => ?_
  rcases hfind : v.findEntry source with _ | index
  · exact hsame
  dsimp only
  refine wp_ite (fun _ => hsame) fun _ => ?_
  rcases hcopy : pathCopy destination pathBytes with _ | copy
  · exact hsame
  dsimp only
  rw [pathCopy_eq hcopy]
  obtain ⟨hi, hvis, hname⟩ := findEntry_some hfind
  obtain ⟨hz, hlen⟩ := normalizePath_stored hnd
  have hdname := name_patch (e := v.zfsEntries index) hz hlen
  have hset := hv.settled index hi
  refine replaceEntryResult_kept hv ⟨hi, ⟨hset.notTransaction, hset.notCommitted⟩, hv.distinct.update fun _ j hj _ hvj => ?_,
    fun q hq _ => ?_, fun q hq _ => ?_⟩
  · rw [hdname]
    exact name_ne_of_new hv hnew j hj hvj
  · rw [hname]
    intro heq
    exact hs source hns (heq ▸ hq)
  · rw [hdname]
    intro heq
    exact hd destination hnd (heq ▸ hq)

theorem Kept.touch {input : Bytes} (hk : Kept P u v)
    (hP : ∀ p again, normalizePath v.currentDirectory input = some p → v.findEntry p = none →
      normalizePath v.currentDirectory p = some again → ¬P again) :
    wp (touchResult input) (fun _ v' => Same v v' ∧ Kept P u v') (fun v' => Durable P u v') v := by
  have hsame : Same v v ∧ Kept P u v := ⟨Same.refl v, hk⟩
  rw [touchResult, wp_bind, wp_get]
  rcases hn : normalizePath v.currentDirectory input with _ | path
  · exact hsame
  dsimp only
  rcases hfind : v.findEntry path with _ | found
  · exact wp_seq (hk.write fun again => hP path again hn hfind) (fun _ h => h) fun _ _ h => h
  · exact wp_ite (fun _ => hsame) fun _ => hsame

theorem Kept.copy {source destination : Bytes} (hk : Kept P u v)
    (hP : ∀ p, normalizePath v.currentDirectory destination = some p → ¬P p) :
    wp (copyFileResult source destination) (fun _ v' => Same v v' ∧ Kept P u v') (fun v' => Durable P u v') v := by
  rw [copyFileResult, wp_bind, wp_get]
  refine wp_ite (fun _ => ⟨Same.refl v, hk⟩) fun _ => wp_seq hk.read (fun _ h => h) ?_
  intro read v₁ ⟨hs₁, hk₁⟩
  refine wp_ite (fun _ => ⟨hs₁, hk₁⟩) fun _ => wp_seq (hk₁.write fun p hp => hP p ?_) (fun _ h => h) ?_
  · rwa [hs₁.currentDirectory] at hp
  · intro _ v₂ ⟨hs₂, hk₂⟩
    exact ⟨hs₁.trans hs₂, hk₂⟩

end ZenovOS.Storage
