import ZenovOS.Security.Quarantine
import ZenovOS.Theorems.Security.AuditJournal
import ZenovOS.Theorems.Security.Guard
import ZenovOS.Theorems.Storage.Catalog

/-! # What a quarantine moves and what it leaves

On a device without faults each step of `quarantine_path` is a step of the catalogue of files: the file is moved to
a name made of its digest, its metadata is put beside it, and the journal file is written. What is already under
these names decides whether that succeeds, and whether anything else is lost. -/

namespace ZenovOS.Security.Quarantine
open Bytes Storage Mach Volume

/-! ### Names in the quarantine -/

section Named
variable {name : Bytes} (hname : Storage.Clean name) (hlen : name.length < 36)
include hname hlen

end Named

section Steps
variable {s s' : GuardState}

/-- The journal takes `n` more events, each of them when there is a free entry for its write. -/
structure JournalReady (n : Nat) (s : GuardState) : Prop where
  ready : s.audit.ready = true
  fits : s.audit.journal.Fits
  sequence : s.audit.journal.nextSequence + n ≤ 0xFFFFFFFF
  ticks : s.timerTicks < 2 ^ 32
  file : IsFile s.volume.catalog Audit.journalPath
  directory : InDirectory s.volume.catalog Audit.journalPath
  size : Audit.journalBytes ≤ s.volume.zfsSuper.maxFileBytes

/-- A result that an event can be made of. -/
structure Recordable (result : ScanResult) : Prop where
  path_ne : result.path ≠ []
  path_lt : result.path.length < 48
  digest : result.digest.length = 32

theorem JournalReady.append {n : Nat} {result : ScanResult} (h : JournalReady (n + 1) s) (action : AuditAction)
    (hr : Recordable result) :
    ∃ journal, Audit.appendTo s.audit.journal s.timerTicks action.code result.verdict.code result.path result.digest =
        some journal ∧ journal.Fits ∧ journal.nextSequence + n ≤ 0xFFFFFFFF := by
  have haction : ∀ a : AuditAction, a.code ≤ AuditAction.readAudit.code := by
    intro a
    cases a <;> decide
  have hverdict : ∀ v : Verdict, v.code ≤ Verdict.error.code := by
    intro v
    cases v <;> decide
  have hseq := h.sequence
  obtain ⟨journal, hj, hfits, hnext⟩ := Audit.appendTo_taken h.fits (by omega)
    ⟨UInt32.ofNat s.timerTicks, action.code, result.verdict.code, result.path, ⟨result.digest, hr.digest⟩, haction _, hverdict _,
      hr.path_ne, hr.path_lt⟩
  have hticks : (UInt32.ofNat s.timerTicks).toNat = s.timerTicks := UInt32.toNat_ofNat_of_lt' h.ticks
  rw [hticks] at hj
  exact ⟨journal, hj, hfits, by omega⟩

/-- How the record of an event ends. -/
inductive RecordEnd (s s' : GuardState) : Bool → Prop
  | recorded {data : Bytes} (can : CanWrite s.volume.catalog s.volume.zfsSuper.maxFileBytes Audit.journalPath data.length)
      (catalog : s'.volume.catalog = s.volume.catalog.put Audit.journalPath (fileState data))
      (ready : ∀ n, JournalReady (n + 1) s → JournalReady n s') : RecordEnd s s' true
  | refused (why : ∀ n, JournalReady (n + 1) s → s.volume.catalog.free = 0) (catalog : s'.volume.catalog = s.volume.catalog) :
      RecordEnd s s' false

theorem put_journal_directory {c : Catalog Bytes FileState} {p data : Bytes}
    (hfile : ∀ st, c.files p = some st → st.type = zfsTypeFile) {q : Bytes} (h : InDirectory c q) :
    InDirectory (c.put p (fileState data)) q := by
  refine h.mono fun r st hst hdir => ?_
  by_cases hr : r = p
  · subst hr
    rw [hfile st hst] at hdir
    cases hdir
  · rw [Catalog.put_of_ne hr]
    exact hst

/-- The guard has only worked on the volume. -/
structure Shifted (s s' : GuardState) : Prop where
  volume : Onward s.volume s'.volume
  rest : s' = { s with volume := s'.volume }

theorem Shifted.refl (hv : s.volume.Works) : Shifted s s := ⟨.refl hv, rfl⟩

theorem Shifted.of {v' : Volume} (h : Onward s.volume v') : Shifted s { s with volume := v' } := ⟨h, rfl⟩

theorem Shifted.trans {t : GuardState} (h : Shifted s s') (h' : Shifted s' t) : Shifted s t where
  volume := h.volume.trans h'.volume
  rest := by
    rw [h'.rest, h.rest]

/-- The guard has only worked on the volume and the journal. -/
structure Forward (s s' : GuardState) : Prop where
  volume : Onward s.volume s'.volume
  rest : s' = { s with volume := s'.volume, audit := s'.audit }

theorem Forward.trans {t : GuardState} (h : Forward s s') (h' : Forward s' t) : Forward s t where
  volume := h.volume.trans h'.volume
  rest := by
    rw [h'.rest, h.rest]

/-- How the check of the quarantine directory ends. -/
inductive DirectoryEnd (c c' : Catalog Bytes FileState) : Bool → Prop
  | present {st : FileState} (found : c.files quarantineDirectory = some st) (type : st.type = zfsTypeDirectory) (same : c' = c) :
      DirectoryEnd c c' true
  | made (missing : c.files quarantineDirectory = none) (free : 0 < c.free)
      (catalog : c' = c.put quarantineDirectory directoryState) : DirectoryEnd c c' true
  | blocked {st : FileState} (found : c.files quarantineDirectory = some st) (type : st.type ≠ zfsTypeDirectory) (same : c' = c) :
      DirectoryEnd c c' false
  | full (missing : c.files quarantineDirectory = none) (free : c.free = 0) (same : c' = c) : DirectoryEnd c c' false

section Entrances
variable {name normalized a : Bytes}

/-- The file that a request of the quarantine for this path is about: the path is normalised by the request and
    again by the file system. -/
structure Reaches (d path a : Bytes) : Prop where
  twice : ∃ once, normalizePath d path = some once ∧ normalizePath d once = some a
  unprotected : protectedName a = false

theorem Reaches.unique {d path b : Bytes} (h : Reaches d path a) (h' : Reaches d path b) : a = b := by
  obtain ⟨once, ho, ha⟩ := h.twice
  obtain ⟨once', ho', hb⟩ := h'.twice
  obtain rfl : once = once' := Option.some.inj (ho.symm.trans ho')
  exact Option.some.inj (ha.symm.trans hb)

theorem normalizePath_shorter {d d' input p again : Bytes} (h : normalizePath d input = some p)
    (hagain : normalizePath d' p = some again) : again = p ∨ again.length < p.length := by
  by_cases hd : UnderData p
  · obtain ⟨cs, hn, rfl⟩ := normalizePath_normalForm h
    refine .inr ?_
    rw [normalizePath_render hn] at hagain
    cases cs with
    | nil => exact absurd hd (by decide)
    | cons c cs =>
      have hc := (underData_render (hn.clean c (by simp))).mp hd
      simp only [if_pos hc, Option.some.injEq] at hagain
      subst hagain
      subst hc
      have hdata : (ascii "data").length = 4 := by decide
      rw [render_cons]
      cases cs with
      | nil =>
        show 1 < _
        simp [hdata]
      | cons e es =>
        rw [render_of_ne_nil (List.cons_ne_nil _ _)]
        simp only [List.length_cons, List.length_append, hdata]
        omega
  · exact .inl (normalizePath_again h hd _ _ hagain)

theorem Reaches.self {d d' input p : Bytes} (h : normalizePath d' input = some p) (hr : Reaches d p p) :
    normalizePath d p = some p := by
  obtain ⟨once, ho, hp⟩ := hr.twice
  rcases normalizePath_shorter h ho with rfl | hshort
  · exact ho
  · rcases normalizePath_shorter ho hp with heq | hshort'
    · rw [heq] at hshort
      omega
    · omega

variable (hname : Storage.Clean name) (hlen : name.length < 36) (hv : s.volume.Works)
include hname hlen hv

end Entrances

/-! ### The file and its metadata -/

section File
variable {c cx : Catalog Bytes FileState} {p a destination m data text name : Bytes}

/-- The file of `p` is where the rename of `a` has put it. -/
structure Displaced (c cx : Catalog Bytes FileState) (p a destination : Bytes) : Prop where
  moved : a = p → cx.files destination = c.files p ∧ cx.files p = none ∧ InDirectory cx p
  other : a ≠ p → cx.files p = c.files p

theorem Displaced.put (h : Displaced c cx p a destination) (hmd : m ≠ destination) (hmp : m ≠ p)
    (hfile : ∀ st, cx.files m = some st → st.type = zfsTypeFile) : Displaced c (cx.put m (fileState data)) p a destination where
  moved ha := by
    obtain ⟨hdest, hnone, hdirectory⟩ := h.moved ha
    rw [Catalog.put_of_ne hmd.symm, Catalog.put_of_ne hmp.symm]
    exact ⟨hdest, hnone, put_journal_directory hfile hdirectory⟩
  other ha := by
    rw [Catalog.put_of_ne hmp.symm]
    exact h.other ha

theorem Displaced.drop (h : Displaced c cx p a destination) (hmd : m ≠ destination) (hmp : m ≠ p) (hfile : IsFile cx m) :
    Displaced c (cx.drop m) p a destination where
  moved ha := by
    obtain ⟨hdest, hnone, hdirectory⟩ := h.moved ha
    rw [Catalog.drop_of_ne hmd.symm, Catalog.drop_of_ne hmp.symm]
    refine ⟨hdest, hnone, hdirectory.mono fun q st hst htype => ?_⟩
    have hqm : q ≠ m := by
      rintro rfl
      obtain ⟨st', hst', htype'⟩ := hfile
      rw [hst'] at hst
      cases hst
      rw [htype'] at htype
      cases htype
    rw [Catalog.drop_of_ne hqm]
    exact hst
  other ha := by
    rw [Catalog.drop_of_ne hmp.symm]
    exact h.other ha

theorem JournalReady.shifted {n : Nat} (h : JournalReady n s) (hs : Shifted s s')
    (hfile : IsFile s'.volume.catalog Audit.journalPath) (hdirectory : InDirectory s'.volume.catalog Audit.journalPath) :
    JournalReady n s' where
  ready := by
    rw [hs.rest]
    exact h.ready
  fits := by
    rw [hs.rest]
    exact h.fits
  sequence := by
    rw [hs.rest]
    exact h.sequence
  ticks := by
    rw [hs.rest]
    exact h.ticks
  file := hfile
  directory := hdirectory
  size := by
    rw [hs.volume.zfsSuper]
    exact h.size

end File

/-! ### The scan -/

section Scans
variable {signature : Bytes → Bytes → Bytes} {path p content : Bytes}

theorem Shifted.appraise (h : Shifted s s') (data : Bytes) : appraise signature s' path data = appraise signature s path data := by
  have hclassify : s'.classify = s.classify := by rw [h.rest]
  unfold Quarantine.appraise
  rw [h.volume.currentDirectory, hclassify]

theorem RecordEnd.shifted {s₁ : GuardState} {ok : Bool} (hs : Shifted s s₁) (hc : s₁.volume.catalog = s.volume.catalog)
    (h : RecordEnd s₁ s' ok) : RecordEnd s s' ok := by
  have hready : ∀ n, JournalReady n s → JournalReady n s₁ := by
    intro n hn
    refine hn.shifted hs ?_ ?_
    · rw [hc]
      exact hn.file
    · rw [hc]
      exact hn.directory
  cases h with
  | recorded can catalog ready =>
    rw [hc, hs.volume.zfsSuper] at can
    rw [hc] at catalog
    exact .recorded can catalog fun n hn => ready n (hready _ hn)
  | refused why catalog =>
    rw [hc] at why catalog
    exact .refused (fun n hn => why n (hready _ hn)) catalog

end Scans

/-! ### The metadata names the file -/

/-- The text starts as the record of a file of that path. -/
def Names (text p : Bytes) : Prop := ascii "ZQMD1\noriginal=" ++ p ++ ascii "\n" <+: text

end Steps

end ZenovOS.Security.Quarantine
