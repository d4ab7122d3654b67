import ZenovOS.Theorems.Package.Manager
import ZenovOS.Theorems.Storage.Working

/-! # Installed bytes and verified bytes

A payload file that is there already is taken for the payload if its size and its FNV-1a checksum are the payload's.
So an installation has the verified bytes at the entrypoint exactly if nothing else was there before. -/

namespace ZenovOS.Package
open Bytes Security Storage Mach Volume

variable {s s' : ManagerState}

/-! ### The bytes at the entrypoint -/

/-- The path names a file with this content, now and after each mount to come. -/
def HoldsFile (v : Volume) (path content : Bytes) : Prop :=
  ∃ p st, normalizePath v.currentDirectory path = some p ∧ Shows v p (some st) ∧ st.type = zfsTypeFile ∧ st.content = content

/-- The file at the entrypoint of the reference holds the payload, and its SHA-256 is the recorded one. -/
def PayloadInstalled (v : Volume) (reference : PackageReference) (payload : Bytes) : Prop :=
  ∃ content, HoldsFile v (cstr reference.entrypoint.bytes) content ∧ content = payload ∧
    sha256 content = reference.payloadDigest.bytes

/-- There is nothing at the entrypoint, or the payload. -/
def EntrypointClear (v : Volume) (package : VerifiedPackage) : Prop :=
  ∀ p st, normalizePath v.currentDirectory package.manifest.entrypoint = some p → v.lookup p = some st → st.content = package.payload

theorem Supplied.type {payload : Bytes} {before : Option FileState} {st : FileState} (h : Supplied payload before st) :
    st.type = zfsTypeFile := by
  cases h with
  | put => rfl
  | present same =>
    unfold payloadPresent at same
    simp only [Bool.and_eq_true, decide_eq_true_eq] at same
    exact same.1.1

theorem Supplied.content_iff {payload : Bytes} {before : Option FileState} {st : FileState} (h : Supplied payload before st) :
    st.content = payload ↔ ∀ st', before = some st' → st'.content = payload := by
  cases h with
  | put => exact iff_of_true rfl fun _ h => by cases h
  | present same =>
    constructor
    · intro hcontent st' hst'
      cases hst'
      exact hcontent
    · intro hall
      exact hall st rfl

theorem InstallEnd.bytes_iff {path : Bytes} {ok : Bool} (h : InstallEnd s s' path ok) (hnew : s'.database ≠ s.database) :
    ∃ package trusted index, verifyBytes (contentAt s.guard path) = .ok package ∧
      Authorized s package (contentAt s.guard path).length trusted ∧
      (s'.database.records index).active = setReference (viewOf (contentAt s.guard path) package) package.payload ∧
      (PayloadInstalled s'.guard.volume (s'.database.records index).active package.payload ↔
        EntrypointClear s.guard.volume package) := by
  cases h with
  | unchanged database => exact absurd database hnew
  | @committed package trusted index record file st done verified authorized entrypoint chosen recorded database writable laid
      supplied shows =>
    have hactive : (s'.database.records index).active = setReference (viewOf (contentAt s.guard path) package) package.payload := by
      rw [database]
      show (Function.update s.database.records index record index).active = _
      rw [Function.update_self, nextRecord_active recorded]
    refine ⟨package, trusted, index, verified, authorized, hactive, ?_⟩
    have hentry : cstr (s'.database.records index).active.entrypoint.bytes = package.manifest.entrypoint := by
      rw [hactive]
      exact entrypoint.stored
    have hdigest : (s'.database.records index).active.payloadDigest.bytes = sha256 package.payload := by
      rw [hactive]
      show (Block.of (sha256 package.payload) : Block 32).bytes = _
      rw [Block.bytes_of (length_sha256 _).le, length_sha256, Nat.sub_self, List.replicate_zero, List.append_nil]
    have hbefore := entrypoint.normal s.guard.volume.currentDirectory
    have hafter := entrypoint.normal s'.guard.volume.currentDirectory
    have hcontent : st.content = package.payload ↔ EntrypointClear s.guard.volume package := by
      rw [supplied.content_iff]
      unfold EntrypointClear
      constructor
      · intro hall p st' hp hst'
        obtain rfl : payloadPath file = p := Option.some.inj (hbefore.symm.trans hp)
        exact hall st' hst'
      · exact fun hclear st' hst' => hclear _ st' hbefore hst'
    rw [← hcontent]
    unfold PayloadInstalled
    rw [hentry, hdigest]
    constructor
    · rintro ⟨content, ⟨p, st', hp, hshows, -, rfl⟩, hpayload, -⟩
      obtain rfl : payloadPath file = p := Option.some.inj (hafter.symm.trans hp)
      cases shows.unique laid writable hshows
      exact hpayload
    · intro hpayload
      exact ⟨st.content, ⟨payloadPath file, st, hafter, shows, supplied.type, rfl⟩, hpayload, by rw [hpayload]⟩

/-! ### Installations on a device without faults -/

section Works
variable {g : GuardState}

theorem onGuard_works {α : Type} {m : Mach GuardState α} {Q : α → GuardState → Prop}
    (hm : wp m Q (fun _ => False) s.guard) :
    wp (onGuard m) (fun a s' => ∃ g', s' = { s with guard := g' } ∧ Q a g') (fun _ => False) s := by
  unfold onGuard
  rw [wp_zoom]
  exact wp_mono hm (fun _ g' h => ⟨g', rfl, h⟩) fun _ h => h

/-- A file is at a path that is not the root. -/
structure FileAt (v : Volume) (path : Bytes) (i : Nat) : Prop where
  named : ∃ p, normalizePath v.currentDirectory path = some p ∧ p ≠ root ∧ v.findEntry p = some i
  notEmpty : cstr path ≠ []
  file : (v.zfsEntries i).type = zfsTypeFile

theorem FileAt.query {path : Bytes} {i : Nat} (h : FileAt g.volume path i) (hv : g.volume.Works) :
    wp (onVolume (queryResult path))
      (fun r g' => ∃ v', g' = { g with volume := v' } ∧ Alike g.volume v' ∧ v'.Works ∧
        r.2 = some ⟨zfsTypeFile, (g.volume.zfsEntries i).size, (g.volume.zfsEntries i).checksum⟩)
      (fun _ => False) g := by
  obtain ⟨p, hn, hroot, hfind⟩ := h.named
  have hquery := queryResult_works hv hn h.notEmpty hroot hfind (.inl h.file)
  rw [h.file] at hquery
  exact onVolume_works hquery

theorem FileAt.alike {v v' : Volume} {path : Bytes} {i : Nat} (h : FileAt v path i) (ha : Alike v v') : FileAt v' path i where
  named := by
    obtain ⟨p, hn, hroot, hfind⟩ := h.named
    exact ⟨p, by rw [ha.currentDirectory, hn], hroot, by rw [ha.findEntry, hfind]⟩
  notEmpty := h.notEmpty
  file := by rw [ha.zfsEntries, h.file]

theorem verifyFile_works {path bytes buffer : Bytes} {i : Nat} {package : VerifiedPackage} (hv : s.guard.volume.Works)
    (hbuffer : s.packageBuffer = some buffer) (hcapacity : headerSize ≤ s.guard.volume.zfsSuper.maxFileBytes)
    (hat : FileAt s.guard.volume path i) (hb : s.guard.volume.Holds i bytes) (hverify : verifyBytes bytes = .ok package) :
    wp (verifyFile path)
      (fun r s' => ∃ v', s' = { s with guard := { s.guard with volume := v' }, packageBuffer := some (overwrite buffer 0 bytes) } ∧
        Alike s.guard.volume v' ∧ v'.Works ∧ r = .ok (viewOf bytes package, bytes.length)) (fun _ => False) s := by
  have hlength : bytes.length ≤ s.guard.volume.zfsSuper.maxFileBytes := by
    rw [hb.length]
    exact hb.size
  unfold verifyFile
  rw [wp_bind, wp_get]
  dsimp only
  rw [hbuffer]
  dsimp only
  rw [hv.ready.mounted, if_pos rfl]
  refine wp_ite (fun h => absurd hcapacity (Nat.not_le.mpr h)) fun _ => ?_
  refine wp_seq (onGuard_works (hat.query hv)) (fun _ h => h) fun queried s₁ h₁ => ?_
  obtain ⟨_, rfl, v₁, rfl, halike₁, hv₁, hqueried⟩ := h₁
  rw [hqueried]
  dsimp only
  refine wp_ite (fun h => absurd rfl h) fun _ => wp_ite (fun h => absurd hb.size (Nat.not_le.mpr h)) fun _ => ?_
  obtain ⟨p, hn, -, hfind⟩ := hat.named
  have hyields : v₁.Yields path bytes := by
    refine ⟨p, i, ?_, ?_, halike₁.holds.mpr hb⟩
    · rw [halike₁.currentDirectory, hn]
    · rw [halike₁.findEntry, hfind]
  refine wp_seq (onGuard_works (onVolume_works (readFileResult_works hv₁ hyields hlength))) (fun _ h => h) fun read s₂ h₂ => ?_
  obtain ⟨_, rfl, v₂, rfl, halike₂, hv₂, rfl⟩ := h₂
  rw [wp_bind, wp_modify, wp_pure]
  refine ⟨v₂, rfl, ⟨halike₁.toSame.trans halike₂.toSame, halike₂.disk.trans halike₁.disk,
    halike₂.zfsEntries.trans halike₁.zfsEntries⟩, hv₂, ?_⟩
  unfold viewRead
  rw [if_neg (by simp [hb.length])]
  have hview : viewBytes bytes = .ok (viewOf bytes package) := by
    unfold viewBytes
    rw [hverify]
    rfl
  dsimp only
  rw [hview]

theorem payloadCommitted_works (payload : Bytes) {entrypoint : Bytes} {i : Nat} (hv : g.volume.Works) (hat : FileAt g.volume entrypoint i)
    (hsize : (g.volume.zfsEntries i).size.toNat = payload.length) (hsum : (g.volume.zfsEntries i).checksum = fnv1a payload) :
    wp (payloadCommitted entrypoint payload)
      (fun ok g' => ok = true ∧ ∃ v', g' = { g with volume := v' } ∧ Alike g.volume v' ∧ v'.Works) (fun _ => False) g := by
  unfold payloadCommitted
  refine wp_seq (hat.query hv) (fun _ h => h) fun queried g₁ h₁ => ?_
  obtain ⟨v₁, rfl, halike, hv₁, hqueried⟩ := h₁
  rw [hqueried]
  dsimp only
  rw [wp_pure]
  refine ⟨?_, v₁, rfl, halike, hv₁⟩
  unfold payloadPresent
  simp [hsize, hsum]

/-- The guard lets every write to the data base pass. -/
structure Lenient (g : GuardState) : Prop where
  enforcement : g.audit.enforcementReady = true
  zmid : g.zmidReady = true
  unknown : ∀ path data, g.classify path data = none

theorem packageWriteFile_works {data : Bytes} (hv : g.volume.Works) (hg : Lenient g) (hroom : Room g.volume statePath data)
    (hmagic : ∃ rest, data = ascii "ZPKDB1" ++ rest) :
    wp (packageWriteFile statePath data)
      (fun ok g' => ok = true ∧ ∃ v' checks, g' = { g with volume := v', checks := checks } ∧ Same g.volume v' ∧ v'.Works)
      (fun _ => False) g := by
  have hclean : (scanMemory g statePath data).verdict = .clean := by
    obtain ⟨rest, rfl⟩ := hmagic
    have hzex : (ascii "ZEX1").isPrefixOf (ascii "ZPKDB1" ++ rest) = false := rfl
    have helf : ([0x7F, 69, 76, 70] : Bytes).isPrefixOf (ascii "ZPKDB1" ++ rest) = false := rfl
    unfold scanMemory
    dsimp only
    rw [hg.unknown, hzex, helf]
    rfl
  have hmanaged : (normalizePath g.volume.currentDirectory statePath).any packageManagedName = true := by
    rw [statePath_normal]
    decide
  have hallow : wp (allowPersistentWrite statePath data false)
      (fun ok g' => ok = true ∧ ∃ checks, g' = { g with checks := checks }) (fun _ => False) g := by
    unfold allowPersistentWrite
    rw [wp_bind, wp_get, statePath_normal]
    dsimp only
    have hgate : (!g.audit.enforcementReady || !g.zmidReady || (ascii "/quarantine/").isPrefixOf statePath) = false := by
      rw [hg.enforcement, hg.zmid]
      decide
    rw [hgate, if_neg (by decide)]
    unfold scanCandidate inspectCandidate note
    rw [wp_bind, if_pos (by decide), wp_pure]
    dsimp only
    rw [wp_bind, wp_get, wp_bind, wp_modify, hclean, if_neg (by decide), if_neg (by decide), wp_pure]
    exact ⟨rfl, _, rfl⟩
  unfold packageWriteFile
  rw [wp_bind, wp_get, hmanaged, if_neg (by decide)]
  refine wp_seq hallow (fun _ h => h) fun allowed g₁ h₁ => ?_
  obtain ⟨rfl, checks, rfl⟩ := h₁
  rw [if_neg (by decide)]
  refine wp_seq (onVolume_works (writeFileResult_works hv (statePath_normal _) hroom)) (fun _ h => h) fun written g₂ h₂ => ?_
  obtain ⟨v₂, rfl, hok, hsame, hv₂⟩ := h₂
  rw [wp_pure]
  exact ⟨hok, v₂, checks, rfl, hsame, hv₂⟩

theorem syncMetadata_works (hv : g.volume.Works) (hlast : g.volume.zfsSuper.generation ≠ 0xFFFFFFFF) :
    wp syncMetadata (fun ok g' => ok = true ∧ ∃ v', g' = { g with volume := v' }) (fun _ => False) g := by
  unfold syncMetadata
  refine wp_seq (onVolume_works (syncMetadataResult_works hv hlast)) (fun _ h => h) fun synced g₁ h₁ => ?_
  obtain ⟨v₁, rfl, hok, -⟩ := h₁
  exact ⟨hok, v₁, rfl⟩

/-- The data base file can be written. -/
structure DatabaseWrites (g : GuardState) : Prop where
  works : g.volume.Works
  lenient : Lenient g
  notLast : g.volume.zfsSuper.generation ≠ 0xFFFFFFFF
  room : ∀ db : Database, Room g.volume statePath db.encode

theorem persistDatabase_works {next : Database} (hg : DatabaseWrites s.guard) (hvalid : databaseValid (sealDatabase s.database next) = true)
    (hmagic : next.magic = Block.of databaseMagic) :
    wp (persistDatabase next) (fun ok s' => ok = true ∧ s'.database = sealDatabase s.database next) (fun _ => False) s := by
  have hencode : ∃ rest, (sealDatabase s.database next).encode = ascii "ZPKDB1" ++ rest := by
    have hbytes : (Block.of databaseMagic : Block 8).bytes = ascii "ZPKDB1" ++ [0, 0] := by decide
    have hsealed : (sealDatabase s.database next).magic = Block.of databaseMagic := hmagic
    unfold Database.encode Database.encodeWith
    rw [hsealed, hbytes]
    simp only [List.append_assoc]
    exact ⟨_, rfl⟩
  unfold persistDatabase
  rw [wp_bind, wp_get]
  dsimp only
  rw [hvalid, if_neg (by decide)]
  refine wp_seq (onGuard_works (packageWriteFile_works hg.works hg.lenient (hg.room _) hencode)) (fun _ h => h) fun written s₁ h₁ => ?_
  obtain ⟨_, rfl, rfl, v₁, checks, rfl, hsame, hv₁⟩ := h₁
  rw [if_neg (by decide)]
  unfold settleDatabase
  have hlast : v₁.zfsSuper.generation ≠ 0xFFFFFFFF := by
    rw [hsame.zfsSuper]
    exact hg.notLast
  refine wp_seq (onGuard_works (syncMetadata_works hv₁ hlast)) (fun _ h => h) fun synced s₂ h₂ => ?_
  obtain ⟨_, rfl, rfl, v₂, rfl⟩ := h₂
  rw [if_pos rfl]
  unfold setDatabase
  rw [wp_bind, wp_modify, wp_pure]
  exact ⟨rfl, rfl⟩

/-- A first installation of a package. -/
structure FirstRecord (s : ManagerState) (package : PackageView) (payload : Bytes) (index : Fin maximumPackages) (record : PackageRecord) :
    Prop where
  chosen : chooseRecord s.database package = .ok index
  unused : (s.database.records index).used = 0
  recorded : nextRecord (s.database.records index) package payload = some record
  magic : s.database.magic = Block.of databaseMagic
  valid : databaseValid (sealDatabase s.database { s.database with records := Function.update s.database.records index record }) = true

theorem commitRecord_works {package : PackageView} {payload : Bytes} {index : Fin maximumPackages} {record : PackageRecord}
    (hg : DatabaseWrites s.guard) (hpayload : payloadBytes s package = payload) (hfresh : FirstRecord s package payload index record) :
    wp (commitRecord package index)
      (fun ok s' => ok = true ∧
        s'.database = sealDatabase s.database { s.database with records := Function.update s.database.records index record })
      (fun _ => False) s := by
  unfold commitRecord
  rw [wp_bind, wp_get]
  dsimp only
  rw [hpayload, hfresh.recorded]
  dsimp only
  refine wp_seq (persistDatabase_works hg hfresh.valid hfresh.magic) (fun _ h => h) fun ok s₁ h₁ => ?_
  obtain ⟨rfl, hdatabase⟩ := h₁
  rw [if_neg (by decide), wp_bind]
  unfold dropObsolete obsoleteReference
  rw [hfresh.unused, if_neg (fun h => absurd rfl h), if_neg (fun h => absurd rfl h.1), wp_pure, wp_pure]
  exact ⟨rfl, hdatabase⟩

/-- Everything is in place for a first installation of the package at `path`, and its payload is taken to be there. -/
structure Installable (s : ManagerState) (path bytes : Bytes) (package : VerifiedPackage) (index : Fin maximumPackages)
    (record : PackageRecord) : Prop where
  initialized : s.initialized = true
  guard : DatabaseWrites s.guard
  buffer : ∃ buffer, s.packageBuffer = some buffer
  capacity : headerSize ≤ s.guard.volume.zfsSuper.maxFileBytes
  file : ∃ i, FileAt s.guard.volume path i ∧ s.guard.volume.Holds i bytes
  verified : verifyBytes bytes = .ok package
  authorized : ∃ trusted, Authorized s package bytes.length trusted
  requirements : requirementsSatisfied s.database package.manifest = true
  fresh : FirstRecord s (viewOf bytes package) package.payload index record
  clean : (scanMemory s.guard package.manifest.entrypoint package.payload).verdict = .clean
  payload : ∃ i, FileAt s.guard.volume package.manifest.entrypoint i ∧
    (s.guard.volume.zfsEntries i).size.toNat = package.payload.length ∧
    (s.guard.volume.zfsEntries i).checksum = fnv1a package.payload

theorem Authorized.authorizedPackage {bytes : Bytes} {package : VerifiedPackage} {size : Nat} {trusted : Repository.Target}
    (h : Authorized s package size trusted) (hpayload : payloadBytes s (viewOf bytes package) = package.payload) :
    authorizedPackage s (viewOf bytes package) size = true := by
  have hfound : findAuthorized s package.manifest.name package.manifest.version package.manifest.entrypoint
      package.manifest.payloadType = some trusted := by
    unfold findAuthorized
    rw [h.ready, if_pos rfl, h.found]
  unfold Package.authorizedPackage
  rw [hpayload]
  dsimp only [viewOf]
  rw [hfound]
  simp [h.length, h.packageDigest, h.payloadDigest]

theorem DatabaseWrites.alike {v' : Volume} (h : DatabaseWrites g) (ha : Alike g.volume v') (hv' : v'.Works) : DatabaseWrites { g with volume := v' } where
  works := hv'
  lenient := ⟨h.lenient.enforcement, h.lenient.zmid, h.lenient.unknown⟩
  notLast := by
    show v'.zfsSuper.generation ≠ _
    rw [ha.zfsSuper]
    exact h.notLast
  room db := (h.room db).alike ha

theorem install_works {path bytes : Bytes} {package : VerifiedPackage} {index : Fin maximumPackages} {record : PackageRecord}
    (h : Installable s path bytes package index record) :
    wp (install path)
      (fun ok s' => ok = true ∧
        s'.database = sealDatabase s.database { s.database with records := Function.update s.database.records index record })
      (fun _ => False) s := by
  obtain ⟨buffer, hbuffer⟩ := h.buffer
  obtain ⟨i, hat, hholds⟩ := h.file
  obtain ⟨trusted, hauthorized⟩ := h.authorized
  obtain ⟨j, hpayloadAt, hsize, hsum⟩ := h.payload
  unfold install
  rw [wp_bind, wp_get, h.initialized, if_neg (by decide)]
  refine wp_seq (verifyFile_works h.guard.works hbuffer h.capacity hat hholds h.verified) (fun _ h => h) fun r s₁ h₁ => ?_
  obtain ⟨v₁, rfl, halike, hv₁, rfl⟩ := h₁
  dsimp only
  have hpayload : payloadBytes { s with guard := { s.guard with volume := v₁ }, packageBuffer := some (overwrite buffer 0 bytes) }
      (viewOf bytes package) = package.payload := payloadBytes_viewOf h.verified rfl
  unfold installVerified
  rw [wp_bind, wp_get]
  refine wp_ite (fun hno => ?_) fun _ => wp_ite (fun hno => ?_) fun _ => ?_
  · have hauthorized' : Authorized { s with guard := { s.guard with volume := v₁ }, packageBuffer := some (overwrite buffer 0 bytes) }
        package bytes.length trusted :=
      ⟨hauthorized.ready, hauthorized.found, hauthorized.length, hauthorized.packageDigest, hauthorized.payloadDigest⟩
    rw [hauthorized'.authorizedPackage hpayload] at hno
    cases hno
  · have hrequirements : requirementsSatisfied s.database (viewOf bytes package).manifest = true := h.requirements
    rw [hrequirements] at hno
    cases hno
  dsimp only
  rw [h.fresh.chosen]
  dsimp only
  unfold installAt
  rw [wp_bind, wp_get]
  dsimp only
  rw [hpayload]
  refine wp_ite (fun hno => ?_) fun _ => ?_
  · have hclean : (scanMemory { s.guard with volume := v₁ } package.manifest.entrypoint package.payload).verdict = .clean := by
      have hscan := h.clean
      unfold scanMemory at hscan ⊢
      dsimp only at hscan ⊢
      rw [halike.currentDirectory]
      exact hscan
    exact absurd hclean hno
  have hcommitted := payloadCommitted_works (g := { s.guard with volume := v₁ }) package.payload hv₁
    (hpayloadAt.alike halike) (by rw [halike.zfsEntries, hsize]) (by rw [halike.zfsEntries, hsum])
  refine wp_seq (onGuard_works hcommitted) (fun _ h => h) fun ok s₂ h₂ => ?_
  obtain ⟨_, rfl, rfl, v₂, rfl, halike₂, hv₂⟩ := h₂
  rw [if_neg (by decide)]
  have hwrites := (h.guard.alike halike hv₁).alike halike₂ hv₂
  have hfresh := h.fresh
  exact commitRecord_works hwrites (payloadBytes_viewOf h.verified rfl)
    ⟨hfresh.chosen, hfresh.unused, hfresh.recorded, hfresh.magic, hfresh.valid⟩

section Installs
variable {path bytes : Bytes} {package : VerifiedPackage} {index : Fin maximumPackages} {record : PackageRecord}
variable (h : Installable s path bytes package index record)
include h

theorem Installable.installs : ∃ s', install path s = (some true, s') ∧ s'.database ≠ s.database ∧
    (s.database.Sane → InstallEnd s s' path true) := by
  obtain ⟨ok, s', hrun, rfl, hdatabase⟩ := wp_ends (install_works h)
  refine ⟨s', hrun, fun hsame => ?_, fun hsane => ?_⟩
  · have hgeneration : s.database.generation + 1 = s.database.generation := congrArg Database.generation (hdatabase.symm.trans hsame)
    simp at hgeneration
  · have hkept : Storage.Kept (fun _ => False) s.guard.volume s.guard.volume := h.guard.works.ready.kept
    exact (wp_ended (install_spec hkept hsane) hrun).2.2.2

theorem Installable.unique {package' : VerifiedPackage} (hverify : verifyBytes (contentAt s.guard path) = .ok package') :
    package' = package := by
  obtain ⟨i, ⟨⟨p, hn, -, hfind⟩, -, -⟩, hholds⟩ := h.file
  have hcontent : contentAt s.guard path = bytes := by
    unfold contentAt Volume.lookup
    rw [hn, Option.bind_some, hfind]
    exact hholds.content
  rw [hcontent] at hverify
  exact Except.ok.inj (hverify.symm.trans h.verified)

end Installs
end Works

/-! ### Databases in order -/

theorem sealDatabase_valid {current next : Database} (hmagic : next.magic.bytes = databaseMagic) (hversion : next.version = 1)
    (hrecords : (List.finRange maximumPackages).all (recordValid next) = true) :
    databaseValid (sealDatabase current next) = true := by
  have hcount : recordCount next ≤ maximumPackages := by
    unfold recordCount
    exact List.countP_le_length.trans (by simp)
  have hsmall : (UInt32.ofNat (recordCount next)).toNat = recordCount next :=
    UInt32.toNat_ofNat_of_lt' (lt_of_le_of_lt hcount (by decide))
  have hvalid : ∀ i, recordValid (sealDatabase current next) i = recordValid next i := fun _ => rfl
  unfold databaseValid
  simp only [Bool.and_eq_true, decide_eq_true_eq]
  refine ⟨⟨⟨⟨hmagic, hversion⟩, hsmall⟩, ?_⟩, ?_⟩
  · unfold sealDatabase databaseChecksum Database.encodeWith
    rfl
  · rw [List.all_eq_true] at hrecords ⊢
    intro i hi
    rw [hvalid]
    exact hrecords i hi

theorem chooseRecord_empty (package : PackageView) : chooseRecord initializeEmptyDatabase package = .ok 0 := by
  have hfind : findRecord initializeEmptyDatabase package.manifest.name = none := by
    unfold findRecord
    split
    · rfl
    · rw [List.find?_eq_none]
      intro i _
      have hunused : (initializeEmptyDatabase.records i).used = 0 := rfl
      simp [hunused]
  have hfree : freeRecord initializeEmptyDatabase = some 0 := by
    unfold freeRecord
    rfl
  unfold chooseRecord
  rw [hfind, hfree]

/-! ### The law -/

theorem InstallEnd.clear {path : Bytes} {ok : Bool} {package : VerifiedPackage} {index : Fin maximumPackages}
    (h : InstallEnd s s' path ok) (hnew : s'.database ≠ s.database)
    (hverify : verifyBytes (contentAt s.guard path) = .ok package)
    (hactive : (s'.database.records index).active = setReference (viewOf (contentAt s.guard path) package) package.payload)
    (hinstalled : PayloadInstalled s'.guard.volume (s'.database.records index).active package.payload) :
    EntrypointClear s.guard.volume package := by
  obtain ⟨package', -, index', hverify', -, hactive', hiff⟩ := h.bytes_iff hnew
  obtain rfl : package = package' := Except.ok.inj (hverify.symm.trans hverify')
  rw [hactive', ← hactive] at hiff
  exact hiff.mp hinstalled

/-- An installation that commits a record has the verified bytes at the recorded entrypoint exactly if nothing else was
    there before. -/
theorem install_bytes_iff {path : Bytes} (hr : s.guard.volume.Ready) (hsane : s.database.Sane)
    (hrun : install path s = (some true, s')) (hnew : s'.database ≠ s.database) :
    ∃ package trusted index, verifyBytes (contentAt s.guard path) = .ok package ∧
      Authorized s package (contentAt s.guard path).length trusted ∧
      (s'.database.records index).active = setReference (viewOf (contentAt s.guard path) package) package.payload ∧
      (PayloadInstalled s'.guard.volume (s'.database.records index).active package.payload ↔
        EntrypointClear s.guard.volume package) := by
  have hkept : Storage.Kept (fun _ => False) s.guard.volume s.guard.volume := hr.kept
  obtain ⟨-, -, -, hend⟩ := wp_ended (install_spec hkept hsane) hrun
  exact hend.bytes_iff hnew

/-- A program of one byte. -/
def tinyZex : Bytes := ascii "ZEX1" ++ le 4 1 ++ le 4 32 ++ le 4 1 ++ le 4 0 ++ le 4 0 ++ le 4 0 ++ le 4 0x950baccf ++ [0x90]

/-- A text of the same size and FNV-1a checksum. -/
def lookalike : Bytes := List.replicate 28 65 ++ ascii "ajOhe"

def tinyPackage : Bytes := Zenpkg.container (Zenpkg.kernelText "MIT") tinyZex

def tinyVerified : VerifiedPackage := ⟨Zenpkg.kernelManifest, tinyZex, sha256 tinyPackage⟩

theorem tinyZex_shaped :
    payloadShapeValid Zenpkg.kernelManifest tinyZex = true ∧ 128 + (Zenpkg.kernelText "MIT").length + tinyZex.length = 481 := by
  decide +kernel

theorem tinyPackage_sealed : Zenpkg.Sealed tinyPackage (Zenpkg.kernelText "MIT") tinyZex :=
  Zenpkg.sealed_container (lt_of_le_of_lt Zenpkg.kernelText_parsed.1 (by decide)) (by decide)

theorem tinyPackage_verified : verifyBytes tinyPackage = .ok tinyVerified :=
  tinyPackage_sealed.verify Zenpkg.kernelText_parsed.1 (by decide) Zenpkg.kernelText_parsed.2.1 tinyZex_shaped.1

theorem length_tinyPackage : tinyPackage.length = 481 :=
  tinyPackage_sealed.length.trans tinyZex_shaped.2

/-- A formatted volume of eight entries with slots of eight sectors, mounted. -/
def roomy : Volume :=
  { fresh [] with
    ata0 := ⟨true, true, 66, fun _ => Block.of [], []⟩
    zfsSuper := ⟨Block.of (ascii "ZENOVFS1"), 1, 66, 8, 1, 2, 8, 0, Block.of [], Block.of []⟩ }

theorem roomy_ready : roomy.Ready where
  mounted := rfl
  laid := (by decide : mountLayoutValid roomy.zfsSuper 66 = true)
  inSync i _ := (fresh_diskEntry [] i).symm
  settled _ _ := ⟨rfl, rfl⟩
  distinct i _ j _ hi := by
    have hvisible : ZfsEntry.empty.visible = true := hi
    exact absurd hvisible (by decide)

/-- The package at `/p`, and at its entrypoint the text. -/
def disguised : Volume :=
  ((roomy.plant 0 (directoryEntry (ascii "/var/lib/zenpkg")) []).plant 1 (fileEntry (ascii "/p") tinyPackage) tinyPackage).plant 2
    (fileEntry (ascii "/apps/pkg-hello-1.0.0.zex") lookalike) lookalike

theorem directoryEntry_state : (directoryEntry (ascii "/var/lib/zenpkg")).name = ascii "/var/lib/zenpkg" :=
  name_directoryEntry (by decide) (by decide)

theorem fileEntry_package (content : Bytes) : (fileEntry (ascii "/p") content).name = ascii "/p" :=
  name_fileEntry (by decide) (by decide)

theorem fileEntry_entrypoint (content : Bytes) :
    (fileEntry (ascii "/apps/pkg-hello-1.0.0.zex") content).name = ascii "/apps/pkg-hello-1.0.0.zex" :=
  name_fileEntry (by decide) (by decide)

theorem vacant_ready : (roomy.plant 0 (directoryEntry (ascii "/var/lib/zenpkg")) []).Ready :=
  plant_ready_of_named roomy_ready (by decide) ⟨rfl, rfl⟩ (named_of_empty fun _ => rfl) List.not_mem_nil

theorem vacant_named : (roomy.plant 0 (directoryEntry (ascii "/var/lib/zenpkg")) []).Named [ascii "/var/lib/zenpkg"] :=
  directoryEntry_state ▸ plant_named (named_of_empty fun _ => rfl) _ _ _

theorem undisguised_ready :
    ((roomy.plant 0 (directoryEntry (ascii "/var/lib/zenpkg")) []).plant 1 (fileEntry (ascii "/p") tinyPackage) tinyPackage).Ready := by
  refine plant_ready_of_named vacant_ready (by decide) (finalize_settled _) vacant_named ?_
  rw [fileEntry_package]
  decide

theorem undisguised_named :
    ((roomy.plant 0 (directoryEntry (ascii "/var/lib/zenpkg")) []).plant 1 (fileEntry (ascii "/p") tinyPackage) tinyPackage).Named
      [ascii "/p", ascii "/var/lib/zenpkg"] := by
  have hn := plant_named vacant_named 1 (fileEntry (ascii "/p") tinyPackage) tinyPackage
  rwa [fileEntry_package] at hn

theorem disguised_ready : disguised.Ready := by
  refine plant_ready_of_named undisguised_ready (by decide) (finalize_settled _) undisguised_named ?_
  rw [fileEntry_entrypoint]
  decide

theorem disguised_named : disguised.Named [ascii "/apps/pkg-hello-1.0.0.zex", ascii "/p", ascii "/var/lib/zenpkg"] := by
  have hn := plant_named undisguised_named 2 (fileEntry (ascii "/apps/pkg-hello-1.0.0.zex") lookalike) lookalike
  rwa [fileEntry_entrypoint] at hn

theorem disguised_state : disguised.findEntry (ascii "/var/lib/zenpkg") = some 0 := by
  have hfind := plant_findEntry (by decide) vacant_ready (by rfl)
  rw [directoryEntry_state] at hfind
  exact plant_findEntry_of_ne disguised_ready (by decide) (plant_findEntry_of_ne undisguised_ready (by decide) hfind)

theorem disguised_file : disguised.findEntry (ascii "/p") = some 1 := by
  have hfind := plant_findEntry (by decide) undisguised_ready (by rfl)
  rw [fileEntry_package] at hfind
  exact plant_findEntry_of_ne disguised_ready (by decide) hfind

theorem disguised_entrypoint : disguised.findEntry (ascii "/apps/pkg-hello-1.0.0.zex") = some 2 := by
  have hfind := plant_findEntry (by decide) disguised_ready (by rfl)
  rwa [fileEntry_entrypoint] at hfind

theorem disguised_works : disguised.Works := ⟨disguised_ready, rfl, rfl, rfl⟩

theorem disguised_package : disguised.Holds 1 tinyPackage := by
  have hlength := length_tinyPackage
  have hmax : tinyPackage.length ≤ (roomy.plant 0 (directoryEntry (ascii "/var/lib/zenpkg")) []).zfsSuper.maxFileBytes := by
    rw [hlength]
    decide
  refine plant_holds_of_ne undisguised_ready (by decide) (by decide) (by decide) (by decide) (plant_holds (by decide) ?_ hmax)
  rw [hlength]
  decide

/-- The repository's entry for the package. -/
def tinyTarget : Repository.Target where
  path := ascii "native/hello"
  name := ascii "hello"
  version := ascii "1.0.0"
  entrypoint := ascii "/data/apps/pkg-hello-1.0.0.zex"
  readScope := []
  writeScope := []
  packageLength := 481
  payloadType := payloadZex1
  reserved0 := []
  syscallMask := 0
  packageDigest := sha256 tinyPackage
  payloadDigest := sha256 tinyZex

def disguisedState : ManagerState where
  guard := { freshGuard with volume := disguised }
  repositoryReady := true
  activeTargets := [tinyTarget]
  database := initializeEmptyDatabase
  packageBuffer := some []
  initialized := true

def tinyRecord : PackageRecord :=
  { PackageRecord.empty with
    used := 1
    name := Block.of (ascii "hello")
    active := setReference (viewOf tinyPackage tinyVerified) tinyZex }

theorem tinyRecord_fresh : FirstRecord disguisedState (viewOf tinyPackage tinyVerified) tinyZex 0 tinyRecord where
  chosen := chooseRecord_empty _
  unused := rfl
  recorded := rfl
  magic := rfl
  valid := sealDatabase_valid rfl rfl (by decide +kernel)

theorem disguised_room (db : Database) : Room disguised statePath db.encode := by
  have hnone : disguised.findEntry statePath = none := disguised_named.findEntry (by decide)
  refine ⟨by decide, parentExists_of_find (by decide) disguised_state rfl, fun i hi => ?_, ?_, ?_⟩
  · rw [hnone] at hi
    cases hi
  · rw [Database.length_encode]
    decide
  · rw [hnone]
    decide

theorem entrypoint_normal :
    normalizePath root Zenpkg.kernelManifest.entrypoint = some (ascii "/apps/pkg-hello-1.0.0.zex") := by decide

theorem lookalike_alike :
    (scanMemory disguisedState.guard Zenpkg.kernelManifest.entrypoint tinyZex).verdict = .clean ∧
      lookalike.length = tinyZex.length ∧ fnv1a lookalike = fnv1a tinyZex := by
  decide +kernel

theorem disguisedState_installable : Installable disguisedState (ascii "/p") tinyPackage tinyVerified 0 tinyRecord where
  initialized := rfl
  guard := ⟨disguised_works, ⟨rfl, rfl, fun _ _ => rfl⟩, by decide, disguised_room⟩
  buffer := ⟨[], rfl⟩
  capacity := by decide
  file := ⟨1, ⟨⟨ascii "/p", by decide, by decide, disguised_file⟩, by decide, rfl⟩, disguised_package⟩
  verified := tinyPackage_verified
  authorized := by
    refine ⟨tinyTarget, rfl, List.find?_cons_of_pos (by decide), ?_, ?_, ?_⟩
    · rw [length_tinyPackage]
      unfold tinyTarget
      rfl
    · dsimp only [tinyTarget, tinyVerified]
    · dsimp only [tinyTarget, tinyVerified]
  requirements := rfl
  fresh := tinyRecord_fresh
  clean := lookalike_alike.1
  payload := by
    refine ⟨2, ⟨⟨ascii "/apps/pkg-hello-1.0.0.zex", entrypoint_normal, by decide, disguised_entrypoint⟩, by decide, rfl⟩, ?_, ?_⟩
    · show (UInt32.ofNat lookalike.length).toNat = _
      rw [lookalike_alike.2.1]
      rfl
    · exact lookalike_alike.2.2

theorem disguised_occupied : ¬EntrypointClear disguisedState.guard.volume tinyVerified := by
  intro hclear
  have hlook : disguised.lookup (ascii "/apps/pkg-hello-1.0.0.zex") = some (disguised.stateAt 2) := by
    unfold Volume.lookup
    rw [disguised_entrypoint, Option.map_some]
  have hsame : disguised.content 2 (disguised.zfsEntries 2) = tinyZex := hclear _ _ entrypoint_normal hlook
  have hholds : disguised.Holds 2 lookalike := plant_holds (by decide) (by decide) (by decide)
  rw [hholds.content] at hsame
  exact absurd hsame (by decide)

theorem install_bytes_disguised : ∃ s', install (ascii "/p") disguisedState = (some true, s') ∧
    ∃ package trusted index, verifyBytes (contentAt disguisedState.guard (ascii "/p")) = .ok package ∧
      Authorized disguisedState package (contentAt disguisedState.guard (ascii "/p")).length trusted ∧
      (s'.database.records index).active =
        setReference (viewOf (contentAt disguisedState.guard (ascii "/p")) package) package.payload ∧
      (PayloadInstalled s'.guard.volume (s'.database.records index).active package.payload ↔
        EntrypointClear disguisedState.guard.volume package) := by
  obtain ⟨s', hrun, hnew, -⟩ := disguisedState_installable.installs
  exact ⟨s', hrun, install_bytes_iff disguised_ready initializeEmptyDatabase_sane hrun hnew⟩

/-- The text is there before and stays there, with the package recorded as installed. -/
theorem install_keeps_lookalike :
    ¬∀ (s s' : ManagerState) (path : Bytes), s.guard.volume.Ready → s.database.Sane → install path s = (some true, s') →
      s'.database ≠ s.database →
      ∃ package trusted index, verifyBytes (contentAt s.guard path) = .ok package ∧
        Authorized s package (contentAt s.guard path).length trusted ∧
        (s'.database.records index).active = setReference (viewOf (contentAt s.guard path) package) package.payload ∧
        PayloadInstalled s'.guard.volume (s'.database.records index).active package.payload := by
  intro hall
  obtain ⟨s', hrun, hnew, hend⟩ := disguisedState_installable.installs
  obtain ⟨package, trusted, index, hverify, -, hactive, hinstalled⟩ :=
    hall disguisedState s' (ascii "/p") disguised_ready initializeEmptyDatabase_sane hrun hnew
  have hpackage : package = tinyVerified := disguisedState_installable.unique hverify
  subst hpackage
  exact disguised_occupied ((hend initializeEmptyDatabase_sane).clear hnew hverify hactive hinstalled)

end ZenovOS.Package
