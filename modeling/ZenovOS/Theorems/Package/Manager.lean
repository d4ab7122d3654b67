import ZenovOS.Package.Manager
import ZenovOS.Theorems.Package.Entrypoint
import ZenovOS.Theorems.Security.Guard
import ZenovOS.Theorems.Storage.Sync

/-! # What an installation leaves

An installation reads the package file, puts the payload into the file of its entrypoint, and commits a record.
Each step is described by what it keeps of the volume and what it has made of it. -/

namespace ZenovOS.Package
open Bytes Security Storage Mach Volume

/-! ### Entrypoints -/

/-- An entrypoint as `install` records it. -/
structure PayloadFile (entrypoint file : Bytes) : Prop where
  eq : entrypoint = ascii "/data/apps/" ++ file
  clean : Storage.Clean file
  named : (ascii "pkg-").isPrefixOf file = true
  short : entrypoint.length < 48

/-- The path that an entrypoint is an alias of. -/
def payloadPath (file : Bytes) : Bytes := ascii "/apps/" ++ file

theorem PayloadFile.normal {entrypoint file : Bytes} (h : PayloadFile entrypoint file) (d : Bytes) :
    normalizePath d entrypoint = some (payloadPath file) := by
  have hrender : entrypoint = render [ascii "data", ascii "apps", file] := by
    rw [h.eq, render_cons]
    simp only [List.flatMap_cons, List.flatMap_nil, List.append_nil]
    rfl
  have hnormal : NormalForm [ascii "data", ascii "apps", file] := by
    refine ⟨fun c hc => ?_, by simp, ?_⟩
    · simp only [List.mem_cons, List.not_mem_nil, or_false] at hc
      rcases hc with rfl | rfl | rfl
      · exact ⟨by decide, by decide, by decide, by decide, by decide⟩
      · exact ⟨by decide, by decide, by decide, by decide, by decide⟩
      · exact h.clean
    · rw [← hrender]
      exact h.short
  rw [hrender, normalizePath_render hnormal]
  dsimp only
  rw [if_pos rfl, render_cons]
  simp only [List.flatMap_cons, List.flatMap_nil, List.append_nil]
  rfl

theorem payloadPath_injective {file file' : Bytes} (h : payloadPath file = payloadPath file') : file = file' :=
  List.append_cancel_left h

theorem payloadPath_ne_journal (file : Bytes) : payloadPath file ≠ Audit.journalPath := by
  intro h
  have := congrArg (·.take 6) h
  revert this
  unfold payloadPath
  rw [List.take_left' (by decide)]
  decide

theorem payloadPath_ne_state (file : Bytes) : payloadPath file ≠ statePath := by
  intro h
  have := congrArg (·.take 6) h
  revert this
  unfold payloadPath
  rw [List.take_left' (by decide)]
  decide

/-- The fields of a verified package, of which the entrypoint is made. -/
structure Fields (m : Manifest) : Prop where
  name : safeLowerIdentifier m.name 31 = true
  version : safeVersion m.version = true
  entrypoint : printableValue m.entrypoint 47 = true
  expected : expectedEntrypoint m = some m.entrypoint

theorem verifyBytes_fields {b : Bytes} {package : VerifiedPackage} (h : verifyBytes b = .ok package) : Fields package.manifest := by
  obtain ⟨text, -, -, -, hm, -⟩ := Zenpkg.verify_sealed h
  obtain ⟨es, haccepted⟩ := parseManifest_accepted hm
  obtain ⟨hname, hversion, hentrypoint, -⟩ := Zenpkg.fields_eq haccepted
  refine ⟨?_, ?_, ?_, haccepted.entrypoint⟩
  · rw [hname]
    exact Zenpkg.checked_scalar haccepted (show 1 ≤ 12 by decide)
  · rw [hversion]
    exact Zenpkg.checked_scalar haccepted (show 2 ≤ 12 by decide)
  · rw [hentrypoint]
    exact Zenpkg.checked_scalar haccepted (show 6 ≤ 12 by decide)

theorem verifyBytes_payloadFile {b : Bytes} {package : VerifiedPackage} (h : verifyBytes b = .ok package) :
    ∃ file, PayloadFile package.manifest.entrypoint file := by
  obtain ⟨hname, hversion, hprintable, hexpected⟩ := verifyBytes_fields h
  have hgoodName := Zenpkg.goodName hname
  have hgoodVersion := Zenpkg.goodVersion hversion
  obtain ⟨file, heq, hpkg, hbytes⟩ := Zenpkg.expectedEntrypoint_file hexpected hgoodName.bytes hgoodVersion.bytes
  have hlong : ∀ {short : Bytes}, short.length < 4 → file ≠ short := by
    rintro short hshort rfl
    exact absurd hpkg.length_le (Nat.not_le.mpr hshort)
  refine ⟨file, heq, ⟨hlong (by decide), fun hmem => ?_, fun hmem => ?_, hlong (by decide), hlong (by decide)⟩, List.isPrefixOf_iff_prefix.mpr hpkg, ?_⟩
  · exact (Zenpkg.nameByte_spec (hbytes slash hmem)).2.1 rfl
  · exact absurd (Zenpkg.nameByte_spec (hbytes 0 hmem)).1 (by decide)
  · unfold printableValue at hprintable
    simp only [Bool.and_eq_true, decide_eq_true_eq] at hprintable
    omega

/-! ### Requests -/

variable {P : Bytes → Prop} {u : Volume} {g : GuardState}

/-- The paths in `P` name what they named in `u`, and the volume is where it was. -/
structure Held (P : Bytes → Prop) (u : Volume) (g g' : GuardState) : Prop extends SamePlace g.volume g'.volume where
  kept : Storage.Kept P u g'.volume

theorem Held.refl (hk : Storage.Kept P u g.volume) : Held P u g g := ⟨.refl _, hk⟩

theorem Held.trans {g₁ g₂ : GuardState} {Q : Bytes → Prop} {w : Volume} (h : Held Q w g g₁) (h' : Held P u g₁ g₂) :
    Held P u g g₂ :=
  ⟨h.toSamePlace.trans h'.toSamePlace, h'.kept⟩

theorem Held.mono {Q : Bytes → Prop} {g' : GuardState} (h : Held P u g g') (hQ : ∀ q, Q q → P q) : Held Q u g g' :=
  ⟨h.toSamePlace, h.kept.mono hQ⟩

theorem onVolume_held {α : Type} {m : Mach Volume α}
    (hm : wp m (fun _ v' => SamePlace g.volume v' ∧ Storage.Kept P u v') (fun v' => Durable P u v') g.volume) :
    wp (onVolume m) (fun _ g' => Held P u g g') (fun _ => True) g := by
  unfold Security.onVolume
  rw [wp_zoom]
  exact wp_mono hm (fun _ _ h => ⟨h.1, h.2⟩) fun _ _ => trivial

theorem syncMetadata_held (hk : Storage.Kept P u g.volume) :
    wp syncMetadata (fun _ g' => Held P u g g') (fun _ => True) g := by
  unfold syncMetadata
  exact wp_seq (onVolume_held hk.sync) (fun _ h => h) fun _ _ h => h

theorem packageRemove_held {path : Bytes} (hk : Storage.Kept P u g.volume)
    (hP : ∀ p, normalizePath g.volume.currentDirectory path = some p → ¬P p) :
    wp (packageRemove path) (fun _ g' => Held P u g g') (fun _ => True) g := by
  unfold packageRemove
  rw [wp_bind, wp_get]
  refine wp_ite (fun _ => .refl hk) fun _ => ?_
  refine wp_seq (onVolume_held (wp_mono (hk.remove hP) (fun _ _ h => ⟨h.1.samePlace, h.2⟩) fun _ h => h))
    (fun _ h => h) fun _ _ h => h

theorem readFile_held {path : Bytes} {capacity : Nat} (hk : Storage.Kept P u g.volume) :
    wp (onVolume (readFileResult path capacity))
      (fun r g' => Held P u g g' ∧
        (r.1.ok = true → g.volume.zfsMounted = true ∧ g'.volume.zfsMounted = true ∧ r.2 = contentAt g path))
      (fun _ => True) g := by
  unfold Security.onVolume
  rw [wp_zoom]
  have hkept := @Kept.read _ _ _ path capacity hk
  rcases hm : g.volume.zfsMounted with _ | _
  · refine wp_mono (wp_and hkept (readFileResult_idle hm)) (fun r v' h => ?_) fun _ _ => trivial
    obtain ⟨⟨hsame, hkept⟩, hfail, -⟩ := h
    refine ⟨⟨hsame.samePlace, hkept⟩, fun hok => ?_⟩
    rw [hfail] at hok
    cases hok
  · refine wp_mono (wp_and hkept (readFileResult_spec (hk.mounted hm).1.laid)) (fun r v' h => ?_) fun _ _ => trivial
    obtain ⟨⟨hsame, hkept⟩, -, -, -, ⟨-, hmounted, p, i, hn, hfind, -, -, hr, -⟩ | ⟨hfail, -⟩⟩ := h
    · refine ⟨⟨hsame.samePlace, hkept⟩, fun _ => ⟨rfl, hmounted.trans hm, ?_⟩⟩
      rw [hr]
      simp [contentAt, hn, Volume.lookup, hfind, Volume.stateAt]
    · refine ⟨⟨hsame.samePlace, hkept⟩, fun hok => ?_⟩
      rw [hfail] at hok
      cases hok

/-- What a query says of a file. -/
def infoOf (st : FileState) : FileInfo := ⟨st.type, st.size, st.checksum⟩

theorem query_held {path p : Bytes} (hk : Storage.Kept P u g.volume) (hp : normalizePath g.volume.currentDirectory path = some p)
    (hroot : p ≠ root) (hne : cstr path ≠ []) :
    wp (onVolume (queryResult path))
      (fun r g' => Held P u g g' ∧ g'.volume.zfsMounted = g.volume.zfsMounted ∧
        (g.volume.zfsMounted = true → r.2 = none → g.volume.lookup p = none ∨
          ∃ st, g.volume.lookup p = some st ∧ st.type ≠ zfsTypeFile) ∧
        ∀ info, r.2 = some info → g.volume.zfsMounted = true ∧ (g.volume.lookup p).map infoOf = some info)
      (fun _ => True) g := by
  unfold Security.onVolume
  rw [wp_zoom]
  have hquery : wp (queryResult path) (fun r v' => v'.zfsMounted = g.volume.zfsMounted ∧
      (g.volume.zfsMounted = true → r.2 = none → g.volume.lookup p = none ∨
        ∃ st, g.volume.lookup p = some st ∧ st.type ≠ zfsTypeFile) ∧
      ∀ info, r.2 = some info → g.volume.zfsMounted = true ∧ (g.volume.lookup p).map infoOf = some info)
      (fun _ => True) g.volume := by
    unfold queryResult
    rw [wp_bind, wp_get]
    refine wp_ite (fun hno => ⟨rfl, fun hm => absurd hm (by simpa using hno), fun _ h => by cases h⟩) fun hm =>
      wp_ite (fun hnil => absurd hnil hne) fun _ => ?_
    rw [hp]
    dsimp only
    refine wp_ite (fun h => absurd h hroot) fun _ => ?_
    unfold Volume.lookup
    rcases g.volume.findEntry p with _ | i
    · exact ⟨rfl, fun _ _ => .inl rfl, fun _ h => by cases h⟩
    dsimp only
    rw [wp_bind, wp_modify]
    refine wp_ite (fun hcorrupt => ⟨rfl, fun _ _ => .inr ⟨_, rfl, hcorrupt.1⟩, fun _ h => by cases h⟩) fun _ => ?_
    refine ⟨rfl, fun _ h => (by cases h), fun info h => ⟨by simpa using hm, ?_⟩⟩
    cases h
    rfl
  refine wp_mono (wp_and hk.query hquery) (fun r v' h => ?_) fun _ _ => trivial
  exact ⟨⟨h.1.1.samePlace, h.1.2⟩, h.2⟩

/-- The path was given this content. -/
structure Put (p data : Bytes) (g g' : GuardState) : Prop where
  mounted : g'.volume.zfsMounted = true → g'.volume.lookup p = some (fileState data)
  durable : ∀ w, Remounted g'.volume w → w.lookup p = some (fileState data)
  writable : g'.volume.Writable
  type : ∀ st, g.volume.lookup p = some st → st.type = zfsTypeFile

theorem not_underData_managed {p : Bytes} (h : packageManagedName p = true) : ¬UnderData p := by
  have hapart : ∀ {start : Bytes}, start.isPrefixOf p = true → start.take 5 ≠ ascii "/data" → 5 ≤ start.length → ¬UnderData p := by
    rintro start hstart hne hlen (hd | hd)
    · obtain ⟨rest, hrest⟩ := List.isPrefixOf_iff_prefix.mp hstart
      have := congrArg (·.take 5) hrest
      rw [List.take_append_of_le_length hlen, hd] at this
      exact hne (this.trans (by decide))
    · obtain ⟨rest, hrest⟩ := List.isPrefixOf_iff_prefix.mp hstart
      obtain ⟨rest', hrest'⟩ := List.isPrefixOf_iff_prefix.mp hd
      have := congrArg (·.take 5) (hrest.trans hrest'.symm)
      rw [List.take_append_of_le_length hlen, List.take_append_of_le_length (by decide)] at this
      exact hne (this.trans (by decide))
  unfold packageManagedName packagePayloadName packageDatabaseName repositoryStateName packageTransportStateName
    packageCacheObjectName at h
  simp only [Bool.or_eq_true, Bool.and_eq_true, decide_eq_true_eq] at h
  rcases h with (((h | rfl) | rfl) | rfl) | ⟨h, -⟩
  · exact hapart h (by decide) (by decide)
  · decide
  · decide
  · decide
  · exact hapart h (by decide) (by decide)

theorem packageWriteFile_spec {path p : Bytes} (data : Bytes) (hr : g.volume.Ready)
    (hp : normalizePath g.volume.currentDirectory path = some p) :
    wp (packageWriteFile path data)
      (fun ok g' => Held (fun q => q ≠ p ∧ q ≠ Audit.journalPath) g.volume g g' ∧
        (ok = true → p ≠ Audit.journalPath → Put p data g g')) (fun _ => True) g := by
  unfold packageWriteFile
  rw [wp_bind, wp_get]
  refine wp_ite (fun _ => ⟨.refl hr.kept, fun h => by cases h⟩) fun hmanaged => ?_
  have hd : ¬UnderData p := by
    rw [hp] at hmanaged
    exact not_underData_managed (by simpa using hmanaged)
  refine wp_seq (allowPersistentWrite_passed (P := (· ≠ Audit.journalPath)) hr.kept fun _ _ hj => absurd rfl hj)
    (fun _ _ => trivial) fun allowed g₁ h₁ => ?_
  obtain ⟨⟨log, h₁⟩, -, -⟩ := h₁
  have hdir : g₁.volume.currentDirectory = g.volume.currentDirectory := h₁.volume.currentDirectory
  have hheld : Held (fun q => q ≠ p ∧ q ≠ Audit.journalPath) g.volume g g₁ :=
    ⟨h₁.volume.samePlace, h₁.kept.mono fun q hq => hq.2⟩
  refine wp_ite (fun _ => ⟨hheld, fun h => by cases h⟩) fun _ => ?_
  rw [wp_bind]
  unfold Security.onVolume
  rw [wp_zoom]
  rcases hm : g₁.volume.zfsMounted with _ | _
  · refine wp_mono (writeFileResult_idle hm) (fun r v' h => ?_) fun _ h => h.elim
    obtain ⟨hok, hv'⟩ := h
    rw [hv']
    refine ⟨hheld, fun h => ?_⟩
    rw [hok] at h
    cases h
  · obtain ⟨hr₁, hq₁⟩ := h₁.kept.mounted hm
    have hp₁ : normalizePath g₁.volume.currentDirectory path = some p := by rw [hdir, hp]
    have hkept := @Kept.write _ _ _ path data false hheld.kept fun p' hp' hne => by
      rw [hp₁, Option.some.injEq] at hp'
      exact hne.1 hp'.symm
    have hwrote := @writeFileResult_wrote _ path p data false hr₁ hp₁ (normalizePath_again hp hd _)
    have htype := @writeFileResult_type _ path data p hp₁
    refine wp_mono (wp_and (wp_and hkept hwrote) (wp_and writeFileResult_writable htype)) (fun r v' h => ?_) fun _ _ => trivial
    obtain ⟨⟨⟨hsame, hkept⟩, hwrote⟩, hwritable, htype⟩ := h
    refine ⟨⟨h₁.volume.samePlace.trans hsame.samePlace, hkept⟩, fun hok hj => ?_⟩
    have hw := hwrote hok
    refine ⟨hw.mounted, hw.durable, hsame.toSameDevice.writable_iff.mpr (hwritable hok), fun st hst => htype hok st ?_⟩
    rw [hq₁ p hj]
    exact hst

/-! ### The payload -/

theorem PayloadFile.cstr_ne {entrypoint file : Bytes} (h : PayloadFile entrypoint file) : cstr entrypoint ≠ [] := by
  rw [h.eq]
  intro hnil
  have := congrArg List.head? hnil
  revert this
  show (List.takeWhile (· != 0) (47 :: (ascii "data/apps/" ++ file))).head? ≠ none
  rw [List.takeWhile_cons_of_pos (by decide)]
  exact Option.some_ne_none _

theorem payloadPath_ne_root (file : Bytes) : payloadPath file ≠ root := by
  intro h
  have := congrArg List.length h
  unfold payloadPath at this
  rw [List.length_append] at this
  have happs : (ascii "/apps/").length = 6 := by decide
  have hroot : root.length = 1 := by decide
  omega

/-- What the payload's path names once the payload is committed: the payload, if it named nothing before; else
    what it named, of which the kind, the size and the checksum are the payload's. -/
inductive Supplied (payload : Bytes) : Option FileState → FileState → Prop
  | put : Supplied payload none (fileState payload)
  | present {st : FileState} (same : payloadPresent payload (infoOf st) = true) : Supplied payload (some st) st

theorem payloadCommitted_spec {entrypoint payload file : Bytes} (hr : g.volume.Ready) (he : PayloadFile entrypoint file) :
    wp (payloadCommitted entrypoint payload)
      (fun ok g' => Held (fun q => q ≠ payloadPath file ∧ q ≠ Audit.journalPath) g.volume g g' ∧
        (ok = true → g'.volume.Ready ∧
          ∃ st, Supplied payload (g.volume.lookup (payloadPath file)) st ∧ g'.volume.lookup (payloadPath file) = some st))
      (fun _ => True) g := by
  have hp := he.normal g.volume.currentDirectory
  have hroot := payloadPath_ne_root file
  unfold payloadCommitted
  refine wp_seq (query_held (P := fun _ => True) hr.kept hp hroot he.cstr_ne) (fun _ h => h) fun queried g₁ h₁ => ?_
  obtain ⟨hheld, hmounted, hnone, hsome⟩ := h₁
  obtain ⟨hr₁, hq₁⟩ := hheld.kept.mounted (hmounted.trans hr.mounted)
  rcases hinfo : queried.2 with _ | info
  · dsimp only
    have hp₁ : normalizePath g₁.volume.currentDirectory entrypoint = some (payloadPath file) := by
      rw [hheld.currentDirectory, hp]
    refine wp_seq (packageWriteFile_spec payload hr₁ hp₁) (fun _ h => h) fun written g₂ h₂ => ?_
    obtain ⟨hheld₂, hput⟩ := h₂
    have hheld' : Held (fun q => q ≠ payloadPath file ∧ q ≠ Audit.journalPath) g.volume g g₂ :=
      hheld.trans ⟨hheld₂.toSamePlace, Storage.Kept.trans (fun q _ => hq₁ q trivial) hheld₂.kept⟩
    refine wp_ite (fun _ => ⟨hheld', fun h => by cases h⟩) fun hwritten => ?_
    have hput := hput (by simpa using hwritten) (payloadPath_ne_journal file)
    -- an entry that is no file and no directory is not found, and not written to either
    have habsent : g.volume.lookup (payloadPath file) = none := by
      rcases hnone hr.mounted hinfo with habsent | ⟨st, hst, htype⟩
      · exact habsent
      · exact absurd (hput.type st ((hq₁ _ trivial).trans hst)) htype
    have hp₂ : normalizePath g₂.volume.currentDirectory entrypoint = some (payloadPath file) := by
      rw [hheld₂.currentDirectory, hp₁]
    rcases hm₂ : g₂.volume.zfsMounted with _ | _
    · refine wp_seq (query_held hheld'.kept hp₂ hroot he.cstr_ne) (fun _ h => h) fun again g₃ h₃ => ?_
      obtain ⟨hheld₃, -, -, hsome₃⟩ := h₃
      refine ⟨hheld'.trans hheld₃, fun hok => ?_⟩
      rcases hagain : again.2 with _ | info
      · rw [hagain] at hok
        cases hok
      · rw [hm₂] at hsome₃
        exact absurd (hsome₃ info hagain).1 (by decide)
    · obtain ⟨hr₂, hq₂⟩ := hheld'.kept.mounted hm₂
      refine wp_seq (query_held (P := fun _ => True) hr₂.kept hp₂ hroot he.cstr_ne) (fun _ h => h) fun again g₃ h₃ => ?_
      obtain ⟨hheld₃, hmounted₃, -, -⟩ := h₃
      obtain ⟨hr₃, hq₃⟩ := hheld₃.kept.mounted (hmounted₃.trans hm₂)
      refine ⟨hheld'.trans ⟨hheld₃.toSamePlace, Storage.Kept.trans (fun q hq => hq₂ q hq) (hheld₃.kept.mono fun _ _ => trivial)⟩,
        fun _ => ⟨hr₃, fileState payload, ?_, ?_⟩⟩
      · rw [habsent]
        exact .put
      · rw [hq₃ _ trivial]
        exact hput.mounted hm₂
  · dsimp only
    obtain ⟨-, hlook⟩ := hsome info hinfo
    refine ⟨hheld.mono fun _ _ => trivial, fun hok => ⟨hr₁, ?_⟩⟩
    obtain ⟨st, hst, hst'⟩ := Option.map_eq_some_iff.mp hlook
    refine ⟨st, ?_, (hq₁ _ trivial).trans hst⟩
    rw [hst]
    exact .present (hst' ▸ hok)

/-! ### The database -/

variable {s : ManagerState}

theorem onGuard_spec {α : Type} {m : Mach GuardState α} {Q : α → GuardState → Prop}
    (hm : wp m Q (fun _ => True) s.guard) :
    wp (onGuard m) (fun a s' => ∃ g', s' = { s with guard := g' } ∧ Q a g') (fun _ => True) s := by
  unfold onGuard
  rw [wp_zoom]
  exact wp_mono hm (fun _ g' h => ⟨g', rfl, h⟩) fun _ _ => trivial

theorem statePath_normal (d : Bytes) : normalizePath d statePath = some statePath := rfl

theorem statePath_ne_journal : statePath ≠ Audit.journalPath := by decide

/-- The guard and the database that an operation leaves; the rest is as it was. -/
structure Changes (P : Bytes → Prop) (u : Volume) (s s' : ManagerState) (g' : GuardState) (db : Database) : Prop where
  eq : s' = { s with guard := g', database := db }
  held : Held P u s.guard g'

theorem recoveredDatabase_eq {next recovered : Database} {read : FsResult × Bytes}
    (hread : read.1.ok = true → read.2 = next.encode) (h : recoveredDatabase read = some recovered) : recovered = next := by
  unfold recoveredDatabase at h
  split at h
  next hok =>
    simp only [Bool.and_eq_true] at hok
    cases h
    rw [hread hok.1.1, Database.decode_encode]
  next => cases h

theorem syncMetadata_idle (hm : g.volume.zfsMounted = false) :
    wp syncMetadata (fun ok g' => ok = false ∧ g' = g) (fun _ => True) g := by
  unfold syncMetadata Security.onVolume
  rw [wp_bind, wp_zoom, syncMetadataResult, wp_bind, wp_get, if_pos (by simp [hm]), wp_pure]
  exact ⟨rfl, rfl⟩

section Settle
variable {next : Database}

theorem recover_spec {Q : Bytes → Prop}
    (hread : wp (onVolume (readFileResult statePath databaseSize))
      (fun r g' => Held Q u s.guard g' ∧ (r.1.ok = true → r.2 = next.encode)) (fun _ => True) s.guard) :
    wp (do
        let read ← onGuard (onVolume (readFileResult statePath databaseSize))
        match recoveredDatabase read with
        | none => pure false
        | some recovered => do
          setDatabase recovered
          pure (recovered.generation = next.generation && recovered.checksum = next.checksum))
      (fun ok s' => ∃ g' db, Changes Q u s s' g' db ∧ (ok = true ∧ db = next ∨ ok = false ∧ db = s.database))
      (fun _ => True) s := by
  refine wp_seq (onGuard_spec hread) (fun _ h => h) fun read s₁ h₁ => ?_
  obtain ⟨g₁, rfl, hheld, hcontent⟩ := h₁
  rcases hrec : recoveredDatabase read with _ | recovered
  · exact ⟨g₁, s.database, ⟨rfl, hheld⟩, .inr ⟨rfl, rfl⟩⟩
  · obtain rfl := recoveredDatabase_eq hcontent hrec
    dsimp only
    unfold setDatabase
    rw [wp_bind, wp_modify, wp_pure]
    exact ⟨g₁, recovered, ⟨rfl, hheld⟩, .inl ⟨by simp, rfl⟩⟩

theorem settleDatabase_spec {Q : Bytes → Prop} (hk : Storage.Kept Q u s.guard.volume)
    (hstate : s.guard.volume.zfsMounted = true → s.guard.volume.lookup statePath = some (fileState next.encode)) :
    wp (settleDatabase next)
      (fun ok s' => ∃ g' db, Changes Q u s s' g' db ∧ (ok = true ∧ db = next ∨ ok = false ∧ db = s.database))
      (fun _ => True) s := by
  unfold settleDatabase
  rcases hm : s.guard.volume.zfsMounted with _ | _
  · refine wp_seq (onGuard_spec (syncMetadata_idle hm)) (fun _ h => h) fun synced s₁ h₁ => ?_
    obtain ⟨g₁, rfl, rfl, rfl⟩ := h₁
    rw [if_neg (by decide)]
    refine recover_spec (wp_mono (readFile_held hk) (fun r g' h => ⟨h.1, fun hok => ?_⟩) fun _ h => h)
    exact absurd (h.2 hok).1 (by simp [hm])
  · obtain ⟨hr, hq⟩ := hk.mounted hm
    refine wp_seq (onGuard_spec (syncMetadata_held (P := fun _ => True) hr.kept)) (fun _ h => h) fun synced s₁ h₁ => ?_
    obtain ⟨g₁, rfl, hall⟩ := h₁
    have hheld : Held Q u s.guard g₁ := ⟨hall.toSamePlace, Storage.Kept.trans hq (hall.kept.mono fun _ _ => trivial)⟩
    refine wp_ite (fun _ => ?_) fun _ => ?_
    · unfold setDatabase
      rw [wp_bind, wp_modify, wp_pure]
      exact ⟨g₁, next, ⟨rfl, hheld⟩, .inl ⟨rfl, rfl⟩⟩
    · have hread : wp (onVolume (readFileResult statePath databaseSize))
          (fun r g' => Held Q u g₁ g' ∧ (r.1.ok = true → r.2 = next.encode)) (fun _ => True) g₁ := by
        refine wp_mono (readFile_held hheld.kept) (fun r g' h => ⟨h.1, fun hok => ?_⟩) fun _ h => h
        obtain ⟨hm₁, -, hcontent⟩ := h.2 hok
        rw [hcontent, contentAt, statePath_normal, Option.bind_some, (hall.kept.mounted hm₁).2 _ trivial, hstate hm]
        rfl
      refine wp_mono (recover_spec (s := { s with guard := g₁ }) hread) (fun ok s' h => ?_) fun _ h => h
      obtain ⟨g', db, hleaves, hend⟩ := h
      exact ⟨g', db, ⟨hleaves.eq, hheld.trans hleaves.held⟩, hend⟩

theorem persistDatabase_spec (hr : s.guard.volume.Ready) :
    wp (persistDatabase next)
      (fun ok s' => ∃ g' db, Changes (fun q => q ≠ statePath ∧ q ≠ Audit.journalPath) s.guard.volume s s' g' db ∧
        (ok = true ∧ db = sealDatabase s.database next ∧ g'.volume.Writable ∨ ok = false ∧ db = s.database))
      (fun _ => True) s := by
  have hself : Changes (fun q => q ≠ statePath ∧ q ≠ Audit.journalPath) s.guard.volume s s s.guard s.database :=
    ⟨rfl, .refl hr.kept⟩
  unfold persistDatabase
  rw [wp_bind, wp_get]
  refine wp_ite (fun _ => ⟨_, _, hself, .inr ⟨rfl, rfl⟩⟩) fun _ => ?_
  refine wp_seq (onGuard_spec (packageWriteFile_spec _ hr (statePath_normal _))) (fun _ h => h) fun written s₁ h₁ => ?_
  obtain ⟨g₁, rfl, hheld, hput⟩ := h₁
  refine wp_ite (fun _ => ⟨g₁, s.database, ⟨rfl, hheld⟩, .inr ⟨rfl, rfl⟩⟩) fun hwritten => ?_
  have hput := hput (by simpa using hwritten) statePath_ne_journal
  refine wp_mono (settleDatabase_spec (s := { s with guard := g₁ }) hheld.kept hput.mounted) (fun ok s' h => ?_) fun _ h => h
  obtain ⟨g', db, hleaves, hend⟩ := h
  refine ⟨g', db, ⟨hleaves.eq, hheld.trans hleaves.held⟩, ?_⟩
  rcases hend with ⟨hok, hdb⟩ | hend
  · exact .inl ⟨hok, hdb, hleaves.held.writable hput.writable⟩
  · exact .inr hend

end Settle

/-! ### The transaction -/

theorem dropObsolete_spec {obsolete : PackageReference} {record : PackageRecord} {u : Volume}
    (hk : Storage.Kept P u s.guard.volume)
    (hP : obsolete.valid ≠ 0 → cstr obsolete.entrypoint.bytes ≠ cstr record.active.entrypoint.bytes →
      ∀ p, normalizePath s.guard.volume.currentDirectory (cstr obsolete.entrypoint.bytes) = some p → ¬P p) :
    wp (dropObsolete obsolete record) (fun _ s' => ∃ g', s' = { s with guard := g' } ∧ Held P u s.guard g')
      (fun _ => True) s := by
  unfold dropObsolete
  refine wp_ite (fun h => ?_) fun _ => ⟨s.guard, rfl, .refl hk⟩
  obtain ⟨hvalid, hactive, -⟩ := h
  refine wp_seq (onGuard_spec (packageRemove_held hk (hP hvalid hactive))) (fun _ h => h) fun _ s₁ h₁ => ?_
  obtain ⟨g₁, rfl, hheld₁⟩ := h₁
  refine wp_seq (onGuard_spec (syncMetadata_held hheld₁.kept)) (fun _ h => h) fun _ s₂ h₂ => ?_
  obtain ⟨g₂, rfl, hheld₂⟩ := h₂
  exact ⟨g₂, rfl, hheld₁.trans hheld₂⟩

theorem PayloadFile.noZero {entrypoint file : Bytes} (h : PayloadFile entrypoint file) : (0 : UInt8) ∉ entrypoint := by
  rw [h.eq, List.mem_append]
  rintro (hmem | hmem)
  · revert hmem
    decide
  · exact h.clean.noZero hmem

theorem PayloadFile.stored {entrypoint file : Bytes} (h : PayloadFile entrypoint file) :
    cstr (Block.of ((copyTextExact 48 entrypoint).getD []) : Block 48).bytes = entrypoint := by
  have hshort := h.short
  unfold copyTextExact
  rw [if_neg (by omega), Option.getD_some]
  exact cstr_of h.noZero hshort

/-- Each reference was recorded by an installation. -/
def Database.Sane (db : Database) : Prop :=
  ∀ i, (db.records i).used ≠ 0 → ∀ reference, reference = (db.records i).active ∨ reference = (db.records i).previous →
    reference.valid ≠ 0 → ∃ file, PayloadFile (cstr reference.entrypoint.bytes) file

theorem nextRecord_active {old record : PackageRecord} {package : PackageView} {payload : Bytes}
    (h : nextRecord old package payload = some record) : record.active = setReference package payload := by
  unfold nextRecord at h
  split at h
  · cases h
    rfl
  · obtain ⟨name, -, rfl⟩ := Option.map_eq_some_iff.mp h
    rfl

variable {package : PackageView} {index : Fin maximumPackages} {file : Bytes}

/-- The record is committed and the payload's file stays as it was. -/
structure Commits (s s' : ManagerState) (g' : GuardState) (package : PackageView) (index : Fin maximumPackages)
    (file : Bytes) : Prop where
  database : ∃ record, nextRecord (s.database.records index) package (payloadBytes s package) = some record ∧
    s'.database = sealDatabase s.database { s.database with records := Function.update s.database.records index record }
  writable : g'.volume.Writable
  held : Held (· = payloadPath file) s.guard.volume s.guard g'

theorem commitRecord_spec (hr : s.guard.volume.Ready) (hsane : s.database.Sane)
    (he : PayloadFile package.manifest.entrypoint file) :
    wp (commitRecord package index)
      (fun ok s' => ∃ g' db, Changes (fun _ => False) s.guard.volume s s' g' db ∧
        (ok = false ∧ db = s.database ∨ ok = true ∧ Commits s s' g' package index file)) (fun _ => True) s := by
  unfold commitRecord
  rw [wp_bind, wp_get]
  dsimp only
  rcases hnext : nextRecord (s.database.records index) package (payloadBytes s package) with _ | record
  · exact ⟨s.guard, s.database, ⟨rfl, .refl hr.kept⟩, .inl ⟨rfl, rfl⟩⟩
  dsimp only
  refine wp_seq (persistDatabase_spec hr) (fun _ h => h) fun ok s₁ h₁ => ?_
  obtain ⟨g₁, db, ⟨rfl, hheld⟩, hend⟩ := h₁
  rcases hend with ⟨rfl, rfl, hwritable⟩ | ⟨rfl, rfl⟩
  · rw [if_neg (by decide)]
    have hpath : ∀ q, q = payloadPath file → q ≠ statePath ∧ q ≠ Audit.journalPath := by
      rintro q rfl
      exact ⟨payloadPath_ne_state file, payloadPath_ne_journal file⟩
    have hheld' := hheld.mono hpath
    refine wp_seq (dropObsolete_spec hheld'.kept fun hvalid hne p hp hpp => hne ?_) (fun _ h => h) fun _ s₂ h₂ => ?_
    · -- what is dropped is another file: its entrypoint is another one
      rw [nextRecord_active hnext]
      show _ = cstr (Block.of ((copyTextExact 48 package.manifest.entrypoint).getD [])).bytes
      rw [he.stored]
      unfold obsoleteReference at hvalid hp ⊢
      split at hvalid
      next hused =>
        rw [if_pos hused] at hp ⊢
        obtain ⟨file', he'⟩ := hsane index hused _ (.inr rfl) hvalid
        rw [he'.normal, Option.some.injEq, hpp] at hp
        rw [he'.eq, he.eq, payloadPath_injective hp]
      next => exact absurd rfl hvalid
    · obtain ⟨g₂, rfl, hheld₂⟩ := h₂
      refine ⟨g₂, _, ⟨rfl, (hheld'.trans hheld₂).mono fun _ h => h.elim⟩, .inr ⟨rfl, ⟨record, hnext, rfl⟩, ?_, hheld'.trans hheld₂⟩⟩
      exact hheld₂.writable hwritable
  · rw [if_pos (by decide), wp_pure]
    exact ⟨g₁, s.database, ⟨rfl, hheld.mono fun _ h => h.elim⟩, .inl ⟨rfl, rfl⟩⟩

/-- The record is committed, and the payload's path names what the payload was supplied with. -/
structure Installed (s s' : ManagerState) (package : PackageView) (index : Fin maximumPackages) (file : Bytes) : Prop where
  database : ∃ record, nextRecord (s.database.records index) package (payloadBytes s package) = some record ∧
    s'.database = sealDatabase s.database { s.database with records := Function.update s.database.records index record }
  writable : s'.guard.volume.Writable
  laid : s'.guard.volume.Laid
  content : ∃ st, Supplied (payloadBytes s package) (s.guard.volume.lookup (payloadPath file)) st ∧
    Shows s'.guard.volume (payloadPath file) (some st)

theorem installAt_spec (hr : s.guard.volume.Ready) (hsane : s.database.Sane)
    (he : PayloadFile package.manifest.entrypoint file) :
    wp (installAt package index)
      (fun ok s' => ∃ g' db, Changes (fun _ => False) s.guard.volume s s' g' db ∧
        (ok = false ∧ db = s.database ∨ ok = true ∧ Installed s s' package index file)) (fun _ => True) s := by
  unfold installAt
  rw [wp_bind, wp_get]
  refine wp_ite (fun _ => ⟨s.guard, s.database, ⟨rfl, .refl hr.kept⟩, .inl ⟨rfl, rfl⟩⟩) fun _ => ?_
  refine wp_seq (onGuard_spec (payloadCommitted_spec hr he)) (fun _ h => h) fun ok s₁ h₁ => ?_
  obtain ⟨g₁, rfl, hheld, hok⟩ := h₁
  refine wp_ite (fun _ => ⟨g₁, s.database, ⟨rfl, hheld.mono fun _ h => h.elim⟩, .inl ⟨rfl, rfl⟩⟩) fun hcommitted => ?_
  obtain ⟨hr₁, st, hsupplied, hst⟩ := hok (by simpa using hcommitted)
  refine wp_mono (commitRecord_spec (s := { s with guard := g₁ }) hr₁ hsane he) (fun ok s' h => ?_) fun _ h => h
  obtain ⟨g', db, hleaves, hend⟩ := h
  refine ⟨g', db, ⟨hleaves.eq, ⟨hheld.toSamePlace.trans hleaves.held.toSamePlace, ?_⟩⟩, ?_⟩
  · exact Storage.Kept.trans (fun _ h => h.elim) hleaves.held.kept
  · rcases hend with hend | ⟨hok, hcommits⟩
    · exact .inl hend
    · have hguard : s'.guard = g' := by rw [hleaves.eq]
      refine .inr ⟨hok, hcommits.database, ?_, ?_, st, hsupplied, ?_⟩
      · rw [hguard]
        exact hcommits.writable
      · rw [hguard]
        exact hcommits.held.laid hr₁.laid
      · rw [hguard, ← hst]
        exact hcommits.held.kept.shows rfl

/-! ### The package -/

/-- A verified package as it lies in the buffer. -/
def viewOf (bytes : Bytes) (package : VerifiedPackage) : PackageView :=
  ⟨package.manifest, headerSize + toNat (slice bytes 16 8), package.payload.length, package.packageDigest⟩

theorem viewBytes_ok {bytes : Bytes} {view : PackageView} (h : viewBytes bytes = .ok view) :
    ∃ package, verifyBytes bytes = .ok package ∧ view = viewOf bytes package := by
  unfold viewBytes at h
  obtain ⟨package, hpackage, h⟩ := bind_ok h
  cases h
  exact ⟨package, hpackage, rfl⟩

theorem payloadBytes_viewOf {bytes buffer : Bytes} {package : VerifiedPackage} (h : verifyBytes bytes = .ok package)
    (hbuffer : s.packageBuffer = some (overwrite buffer 0 bytes)) : payloadBytes s (viewOf bytes package) = package.payload := by
  obtain ⟨text, hsealed, -, -, -, -⟩ := Zenpkg.verify_sealed h
  have hlength := hsealed.length
  unfold payloadBytes viewOf
  rw [hbuffer, Option.getD_some, hsealed.manifestSize]
  show slice (buffer.take 0 ++ bytes ++ _) (headerSize + text.length) package.payload.length = _
  rw [List.take_zero, List.nil_append, slice_append_left (by show 128 + _ + _ ≤ _; omega)]
  show (bytes.drop (128 + text.length)).take _ = _
  rw [hsealed.payloadBytes, List.take_length]

/-- The file was read into the buffer and verified there. -/
structure Verified (s s' : ManagerState) (path : Bytes) (package : VerifiedPackage) : Prop where
  verified : verifyBytes (contentAt s.guard path) = .ok package
  payload : payloadBytes s' (viewOf (contentAt s.guard path) package) = package.payload
  mounted : s'.guard.volume.zfsMounted = true

theorem viewRead_ok {size : Nat} {read : FsResult × Bytes} {view : PackageView} {length : Nat}
    (h : viewRead size read = .ok (view, length)) : read.1.ok = true ∧ length = read.2.length ∧ viewBytes read.2 = .ok view := by
  unfold viewRead at h
  split at h
  · cases h
  · rename_i hread
    rw [not_or] at hread
    split at h
    · cases h
    · rename_i package hview
      cases h
      exact ⟨by simpa using hread.1, rfl, hview⟩

theorem verifyFile_spec {path : Bytes} (hr : s.guard.volume.Ready) :
    wp (verifyFile path)
      (fun r s' => ∃ g' buffer, s' = { s with guard := g', packageBuffer := buffer } ∧
        Held (fun _ => True) s.guard.volume s.guard g' ∧
        ∀ view size, r = .ok (view, size) → size = (contentAt s.guard path).length ∧
          ∃ package, Verified s s' path package ∧ view = viewOf (contentAt s.guard path) package) (fun _ => True) s := by
  have hself : Held (fun _ => True) s.guard.volume s.guard s.guard := .refl hr.kept
  unfold verifyFile
  rw [wp_bind, wp_get]
  dsimp only
  rcases hbuffer : s.packageBuffer with _ | buffer
  · exact ⟨s.guard, none, by rw [← hbuffer], hself, fun _ _ h => by cases h⟩
  dsimp only
  refine wp_ite (fun _ => ⟨s.guard, some buffer, by rw [← hbuffer], hself, fun _ _ h => by cases h⟩) fun _ => ?_
  have hquery := onVolume_held (g := s.guard) (wp_mono (@Kept.query _ (fun _ => True) _ path hr.kept)
    (fun _ _ h => ⟨h.1.samePlace, h.2⟩) fun _ h => h)
  refine wp_seq (onGuard_spec hquery) (fun _ h => h) fun queried s₁ h₁ => ?_
  obtain ⟨g₁, rfl, hheld⟩ := h₁
  have hleft : ∀ error : Error, ∃ g' b, ({ s with guard := g₁ } : ManagerState) = { s with guard := g', packageBuffer := b } ∧
      Held (fun _ => True) s.guard.volume s.guard g' ∧
      ∀ view size, (.error error : Except Error (PackageView × Nat)) = .ok (view, size) → size = (contentAt s.guard path).length ∧
        ∃ package, Verified s { s with guard := g₁ } path package ∧ view = viewOf (contentAt s.guard path) package :=
    fun error => ⟨g₁, some buffer, by rw [← hbuffer], hheld, fun _ _ h => by cases h⟩
  rcases queried.2 with _ | info
  · exact hleft .io
  dsimp only
  refine wp_ite (fun _ => hleft .io) fun _ => wp_ite (fun _ => hleft .tooLarge) fun _ => ?_
  refine wp_seq (onGuard_spec (readFile_held hheld.kept)) (fun _ h => h) fun read s₂ h₂ => ?_
  obtain ⟨g₂, rfl, hheld₂, hread⟩ := h₂
  rw [wp_bind, wp_modify, wp_pure]
  refine ⟨g₂, some (overwrite buffer 0 read.2), rfl, hheld.trans hheld₂, fun view size hview => ?_⟩
  obtain ⟨hok, rfl, hbytes⟩ := viewRead_ok hview
  obtain ⟨hm₁, hm₂, hcontent⟩ := hread hok
  have hsame : contentAt g₁ path = contentAt s.guard path := by
    have hlook := (hheld.kept.mounted hm₁).2
    unfold contentAt
    rw [hheld.currentDirectory]
    rcases normalizePath s.guard.volume.currentDirectory path with _ | p
    · rfl
    · rw [Option.bind_some, Option.bind_some, hlook p trivial]
  rw [hsame] at hcontent
  rw [hcontent] at hbytes ⊢
  obtain ⟨package, hpackage, rfl⟩ := viewBytes_ok hbytes
  exact ⟨rfl, package, ⟨hpackage, payloadBytes_viewOf hpackage rfl, hm₂⟩, rfl⟩

theorem verifyFile_idle {path : Bytes} (hm : s.guard.volume.zfsMounted = false) :
    wp (verifyFile path) (fun r s' => (∃ error, r = .error error) ∧ s' = s) (fun _ => True) s := by
  unfold verifyFile
  rw [wp_bind, wp_get]
  dsimp only
  rcases s.packageBuffer with _ | buffer
  · exact ⟨⟨_, rfl⟩, rfl⟩
  · dsimp only
    have hsmall : (if s.guard.volume.zfsMounted then s.guard.volume.zfsSuper.maxFileBytes else 0) < headerSize := by
      rw [hm]
      show 0 < 128
      decide
    rw [if_pos hsmall, wp_pure]
    exact ⟨⟨_, rfl⟩, rfl⟩

/-- The repository's entry for the package. -/
structure Authorized (s : ManagerState) (package : VerifiedPackage) (size : Nat) (trusted : Repository.Target) : Prop where
  ready : s.repositoryReady = true
  found : Repository.findTarget s.activeTargets package.manifest.name package.manifest.version package.manifest.entrypoint
    package.manifest.payloadType = some trusted
  length : trusted.packageLength = size
  packageDigest : trusted.packageDigest = package.packageDigest
  payloadDigest : trusted.payloadDigest = sha256 package.payload

/-- How an installation ends: with the database as it was, or with the record of a package that was verified and
    authorised. -/
inductive InstallEnd (s s' : ManagerState) (path : Bytes) (ok : Bool) : Prop
  | unchanged (database : s'.database = s.database)
  | committed {package : VerifiedPackage} {trusted : Repository.Target} {index : Fin maximumPackages}
      {record : PackageRecord} {file : Bytes} {st : FileState} (done : ok = true)
      (verified : verifyBytes (contentAt s.guard path) = .ok package)
      (authorized : Authorized s package (contentAt s.guard path).length trusted)
      (entrypoint : PayloadFile package.manifest.entrypoint file)
      (chosen : chooseRecord s.database (viewOf (contentAt s.guard path) package) = .ok index)
      (recorded : nextRecord (s.database.records index) (viewOf (contentAt s.guard path) package) package.payload = some record)
      (database : s'.database =
        sealDatabase s.database { s.database with records := Function.update s.database.records index record })
      (writable : s'.guard.volume.Writable) (laid : s'.guard.volume.Laid)
      (supplied : Supplied package.payload (s.guard.volume.lookup (payloadPath file)) st)
      (shows : Shows s'.guard.volume (payloadPath file) (some st))

theorem authorizedPackage_spec {bytes : Bytes} {package : VerifiedPackage} {size : Nat}
    (hpayload : payloadBytes s (viewOf bytes package) = package.payload)
    (h : authorizedPackage s (viewOf bytes package) size = true) : ∃ trusted, Authorized s package size trusted := by
  unfold authorizedPackage at h
  rw [hpayload] at h
  dsimp only at h
  split at h
  · cases h
  · rename_i trusted hfound
    simp only [Bool.and_eq_true, decide_eq_true_eq] at h
    obtain ⟨⟨hlength, hpackage⟩, hdigest⟩ := h
    unfold findAuthorized at hfound
    split at hfound
    next hready => exact ⟨trusted, hready, hfound, hlength, hpackage.symm, hdigest.symm⟩
    next => cases hfound

theorem install_spec {path : Bytes} {u : Volume} (hk : Storage.Kept (fun _ => False) u s.guard.volume)
    (hsane : s.database.Sane) :
    wp (install path) (fun ok s' => Held (fun _ => False) u s.guard s'.guard ∧ s'.activeTargets = s.activeTargets ∧
      s'.repositoryReady = s.repositoryReady ∧ InstallEnd s s' path ok) (fun _ => True) s := by
  have hself : Held (fun _ => False) u s.guard s.guard := .refl hk
  unfold install
  rw [wp_bind, wp_get]
  refine wp_ite (fun _ => ⟨hself, rfl, rfl, .unchanged rfl⟩) fun _ => ?_
  rcases hm : s.guard.volume.zfsMounted with _ | _
  · refine wp_seq (verifyFile_idle hm) (fun _ h => h) fun r s₁ h₁ => ?_
    obtain ⟨⟨error, rfl⟩, rfl⟩ := h₁
    exact ⟨hself, rfl, rfl, .unchanged rfl⟩
  obtain ⟨hr, -⟩ := hk.mounted hm
  refine wp_seq (verifyFile_spec hr) (fun _ h => h) fun r s₁ h₁ => ?_
  obtain ⟨g₁, buffer, rfl, hheld₁, hverified⟩ := h₁
  have hback : ∀ {g' : GuardState}, Held (fun _ => False) s.guard.volume s.guard g' → Held (fun _ => False) u s.guard g' :=
    fun h => ⟨h.toSamePlace, Storage.Kept.trans (fun _ hq => hq.elim) h.kept⟩
  have hheld₁' := hback (hheld₁.mono fun _ _ => trivial)
  rcases r with error | ⟨view, size⟩
  · exact ⟨hheld₁', rfl, rfl, .unchanged rfl⟩
  obtain ⟨rfl, package, hpackage, rfl⟩ := hverified view size rfl
  obtain ⟨file, he⟩ := verifyBytes_payloadFile hpackage.verified
  obtain ⟨hr₁, hlook⟩ := hheld₁.kept.mounted hpackage.mounted
  dsimp only
  unfold installVerified
  rw [wp_bind, wp_get]
  refine wp_ite (fun _ => ⟨hheld₁', rfl, rfl, .unchanged rfl⟩) fun hauthorized =>
    wp_ite (fun _ => ⟨hheld₁', rfl, rfl, .unchanged rfl⟩) fun _ => ?_
  obtain ⟨trusted, htrusted⟩ := authorizedPackage_spec hpackage.payload (by simpa using hauthorized)
  rcases hchosen : chooseRecord s.database (viewOf (contentAt s.guard path) package) with result | index
  · exact ⟨hheld₁', rfl, rfl, .unchanged rfl⟩
  dsimp only
  refine wp_mono (installAt_spec (s := { s with guard := g₁, packageBuffer := buffer }) hr₁ hsane he)
    (fun ok s' h => ?_) fun _ h => h
  obtain ⟨g', db, hleaves, hend⟩ := h
  have hheld' : Held (fun _ => False) u s.guard s'.guard := by
    rw [hleaves.eq]
    exact hheld₁'.trans ⟨hleaves.held.toSamePlace, Storage.Kept.trans (fun _ hq => hq.elim) hleaves.held.kept⟩
  refine ⟨hheld', by rw [hleaves.eq], by rw [hleaves.eq], ?_⟩
  rcases hend with ⟨-, hdb⟩ | ⟨hok, hinstalled⟩
  · refine .unchanged ?_
    rw [hleaves.eq]
    exact hdb
  · obtain ⟨record, hrecord, hdatabase⟩ := hinstalled.database
    obtain ⟨st, hsupplied, hshows⟩ := hinstalled.content
    rw [hpackage.payload] at hrecord hsupplied
    rw [hlook _ trivial] at hsupplied
    have htrusted' : Authorized s package (contentAt s.guard path).length trusted :=
      ⟨htrusted.ready, htrusted.found, htrusted.length, htrusted.packageDigest, htrusted.payloadDigest⟩
    exact .committed hok hpackage.verified htrusted' he hchosen hrecord hdatabase hinstalled.writable hinstalled.laid
      hsupplied hshows

/-! ### The recorded references -/

theorem initializeEmptyDatabase_sane : initializeEmptyDatabase.Sane :=
  fun _ hused => absurd rfl hused

theorem nextRecord_sane {old record : PackageRecord} {package : PackageView} {payload file : Bytes}
    (he : PayloadFile package.manifest.entrypoint file)
    (hold : old.used ≠ 0 → ∀ reference, reference = old.active ∨ reference = old.previous → reference.valid ≠ 0 →
      ∃ file, PayloadFile (cstr reference.entrypoint.bytes) file)
    (h : nextRecord old package payload = some record) :
    ∀ reference, reference = record.active ∨ reference = record.previous → reference.valid ≠ 0 →
      ∃ file, PayloadFile (cstr reference.entrypoint.bytes) file := by
  rintro reference (rfl | rfl) hvalid
  · refine ⟨file, ?_⟩
    rw [nextRecord_active h]
    show PayloadFile (cstr (Block.of ((copyTextExact 48 package.manifest.entrypoint).getD [])).bytes) file
    rw [he.stored]
    exact he
  · unfold nextRecord at h
    split at h
    next hused =>
      cases h
      exact hold hused _ (.inl rfl) hvalid
    next =>
      obtain ⟨name, -, rfl⟩ := Option.map_eq_some_iff.mp h
      exact absurd rfl hvalid

theorem InstallEnd.sane {s' : ManagerState} {path : Bytes} {ok : Bool} (h : InstallEnd s s' path ok) (hsane : s.database.Sane) : s'.database.Sane := by
  cases h with
  | unchanged database => rwa [database]
  | @committed package trusted index record file st done verified authorized entrypoint chosen recorded database =>
    rw [database]
    intro i hused
    show ∀ reference, reference = (Function.update s.database.records index record i).active ∨
      reference = (Function.update s.database.records index record i).previous → _
    by_cases hi : i = index
    · subst hi
      rw [Function.update_self]
      exact nextRecord_sane entrypoint (hsane i) recorded
    · have hused : (Function.update s.database.records index record i).used ≠ 0 := hused
      rw [Function.update_of_ne hi] at hused ⊢
      exact hsane i hused

end ZenovOS.Package
