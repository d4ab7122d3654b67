import ZenovOS.Package.Repository
import ZenovOS.Theorems.Package.Disk

/-! # What an accepted repository is

All six documents pass through one buffer. The rules below say that each pointer is used while the buffer
holds its document, so that what is checked is a property of the stored files. -/

namespace ZenovOS.Package.Repository
open Bytes Security Mach

variable {g g' : Globals} {data : Bytes} {C : Globals → Prop} {E : Validation → Globals → Prop}

/-- What reading documents keeps. -/
structure Reads (g g' : Globals) : Prop where
  disk : Kept g.disk g'.disk
  activeTargets : g'.activeTargets = g.activeTargets
  persistentState : g'.persistentState = g.persistentState
  ready : g'.ready = g.ready

theorem Reads.refl (g : Globals) : Reads g g := ⟨Kept.refl _, rfl, rfl, rfl⟩

theorem Reads.trans {g'' : Globals} (h : Reads g g') (h' : Reads g' g'') : Reads g g'' where
  disk := Kept.after h.disk h'.disk
  activeTargets := h'.activeTargets.trans h.activeTargets
  persistentState := h'.persistentState.trans h.persistentState
  ready := h'.ready.trans h.ready

/-- The buffer holds a document, with the rest of older ones behind it. -/
def Shows (g : Globals) (data : Bytes) : Prop := ∃ buffer, g.metadataBuffer = some buffer ∧ data <+: buffer

/-! ### One document -/

/-- The body of a document. -/
def bodyOf (data : Bytes) : Bytes := slice data headerSize (Header.decode data).bodySize

/-- What the signatures of a document cover. -/
def messageOf (data : Bytes) : Bytes := slice data 0 (headerSize + (Header.decode data).bodySize)

def signaturesOf (data : Bytes) : List Signature :=
  let header := Header.decode data
  records Signature.decode signatureSize
    (slice data (headerSize + header.bodySize) (header.signatureCount * signatureSize)) header.signatureCount

/-- The test of `verify_threshold` on a document. -/
def thresholdMet (verify : Bytes → Bytes → Bytes → Bool) (trust : RootTrust) (role : Nat) (data : Bytes) : Bool :=
  match findRole trust role with
  | none => false
  | some spec =>
    if spec.threshold = 0 ∨ spec.keyCount < spec.threshold ∨ 2 < spec.keyCount then false
    else spec.threshold ≤ (acceptSignatures verify trust spec (sha256 (messageOf data)) (signaturesOf data) []).length

/-- What `read_envelope` establishes of a document. -/
structure Wrapped (data : Bytes) (role : Nat) (envelope : Envelope) : Prop where
  header : envelope.header = Header.decode data
  digest : envelope.fileDigest = sha256 data
  size : envelope.fileSize = data.length
  parsed : parseEnvelope data role = .ok envelope
  fits : headerSize + (Header.decode data).bodySize + (Header.decode data).signatureCount * signatureSize = data.length
  role : (Header.decode data).role = role
  version : (Header.decode data).version ≠ 0

theorem wrapped_of_parse {role : Nat} {envelope : Envelope} (h : parseEnvelope data role = .ok envelope) :
    Wrapped data role envelope := by
  have hparsed := h
  unfold parseEnvelope at h
  dsimp only at h
  split at h
  · cases h
  · split at h
    · cases h
    · rename_i hhead
      split at h
      · cases h
      · split at h
        · cases h
        · rename_i hfits
          split at h
          · cases h
          · split at h
            · cases h
            · cases h
              simp only [not_or, not_not] at hhead
              exact ⟨rfl, rfl, rfl, hparsed, not_not.mp hfits, hhead.2.2.1, hhead.2.2.2.1⟩

theorem slice_of_isPrefix {b data : Bytes} {offset size : Nat} (h : data <+: b) (hfits : offset + size ≤ data.length) :
    slice b offset size = slice data offset size := by
  obtain ⟨rest, rfl⟩ := h
  exact slice_append_left hfits

theorem wp_view {offset size : Nat} {Q : Bytes → Globals → Prop} (hs : Shows g data) (hfits : offset + size ≤ data.length)
    (h : Q (slice data offset size) g) : wpExcept (view offset size) Q E C g := by
  obtain ⟨buffer, hbuffer, hprefix⟩ := hs
  unfold view
  simp only [wpExcept_bind, wpExcept_lift, wp_get, wpExcept_pure, hbuffer, Option.getD_some]
  rw [slice_of_isPrefix hprefix hfits]
  exact h

theorem wp_require {c : Bool} {validation : Validation} {Q : Unit → Globals → Prop} (hok : c = true → Q () g)
    (herr : E validation g) : wpExcept (require c validation) Q E C g := by
  unfold require
  exact wpExcept_ite (fun h => hok h) fun _ => herr

theorem wp_require_true {validation : Validation} {Q : Unit → Globals → Prop} :
    wpExcept (require true validation) Q E C g ↔ Q () g := Iff.rfl

theorem wp_readEnvelope {path : Bytes} {role : Nat} {Q : Envelope → Globals → Prop}
    (hok : ∀ envelope data g', g.disk.content path = some data → Wrapped data role envelope → Reads g g' → Shows g' data →
      Q envelope g')
    (herr : ∀ validation g', Reads g g' → E validation g') (hcut : ∀ g', Reads g g' → C g') :
    wpExcept (readEnvelope path role) Q E C g := by
  unfold readEnvelope
  rw [wpExcept_bind, wpExcept_lift, wp_get]
  cases hb : g.metadataBuffer with
  | none => exact herr _ g (Reads.refl g)
  | some buffer =>
    dsimp only
    rw [wpExcept_bind, wpExcept_lift]
    unfold onDisk
    rw [wp_zoom]
    refine wp_readFile (fun data d' hdata _ hkept => ?_) (fun d' hkept _ => herr _ _ ⟨hkept, rfl, rfl, rfl⟩) fun d' hkept =>
      hcut _ ⟨hkept, rfl, rfl, rfl⟩
    dsimp only
    rw [wpExcept_bind, wpExcept_lift, wp_modify]
    cases hp : parseEnvelope data role with
    | error validation => exact herr _ _ ⟨hkept, rfl, rfl, rfl⟩
    | ok envelope =>
      refine hok envelope data _ hdata (wrapped_of_parse hp) ⟨hkept, rfl, rfl, rfl⟩ ⟨_, rfl, ?_⟩
      unfold overwrite
      rw [List.take_zero, List.nil_append]
      exact List.prefix_append _ _

theorem wp_body {role : Nat} {envelope : Envelope} {Q : Bytes → Globals → Prop} (hs : Shows g data)
    (hw : Wrapped data role envelope) (h : Q (bodyOf data) g) : wpExcept envelope.body Q E C g := by
  have hfits := hw.fits
  unfold Envelope.body
  rw [hw.header]
  exact wp_view hs (by omega) h

theorem wp_signedDigest {role : Nat} {envelope : Envelope} {Q : Bytes → Globals → Prop} (hs : Shows g data)
    (hw : Wrapped data role envelope) (h : Q (sha256 (messageOf data)) g) : wpExcept (signedDigest envelope) Q E C g := by
  have hfits := hw.fits
  unfold signedDigest
  rw [wpExcept_bind, hw.header]
  exact wp_view hs (by omega) h

theorem wp_signatures {role : Nat} {envelope : Envelope} {Q : List Signature → Globals → Prop} (hs : Shows g data)
    (hw : Wrapped data role envelope) (h : Q (signaturesOf data) g) : wpExcept envelope.signatures Q E C g := by
  have hfits := hw.fits
  unfold Envelope.signatures
  rw [wpExcept_bind, hw.header]
  exact wp_view hs (Nat.le_of_eq hfits) h

theorem wp_verifyThreshold {verify : Bytes → Bytes → Bytes → Bool} {trust : RootTrust} {role role' : Nat} {envelope : Envelope}
    {Q : Bool → Globals → Prop} (hs : Shows g data) (hw : Wrapped data role' envelope)
    (h : Q (thresholdMet verify trust role data) g) : wpExcept (verifyThreshold verify envelope trust role) Q E C g := by
  have hfits := hw.fits
  unfold verifyThreshold
  unfold thresholdMet at h
  cases hr : findRole trust role with
  | none =>
    rw [hr] at h
    exact h
  | some spec =>
    rw [hr] at h
    dsimp only at h ⊢
    split at h
    · rename_i hbad
      rw [if_pos hbad]
      exact h
    · rename_i hbad
      rw [if_neg hbad]
      rw [wpExcept_bind]
      refine wp_signedDigest hs hw ?_
      rw [wpExcept_bind]
      exact wp_signatures hs hw h

theorem wp_findReference {role : Nat} {envelope : Envelope} {name : Bytes} {Q : MetaReference → Globals → Prop}
    (hs : Shows g data) (hw : Wrapped data role envelope)
    (hok : ∀ reference, findReferenceIn (bodyOf data) name = some reference → Q reference g) (herr : E .reference g) :
    wpExcept (findReference envelope name) Q E C g := by
  unfold findReference
  rw [wpExcept_bind]
  refine wp_body hs hw ?_
  cases hf : findReferenceIn (bodyOf data) name with
  | none => exact herr
  | some reference => exact hok reference hf

theorem wp_parseRoot {role : Nat} {envelope : Envelope} {Q : RootTrust → Globals → Prop} (hs : Shows g data)
    (hw : Wrapped data role envelope)
    (hok : ∀ trust, parseRootBody (bodyOf data) (Header.decode data).version = .ok trust → Q trust g)
    (herr : ∀ validation, E validation g) : wpExcept (parseRoot envelope) Q E C g := by
  unfold parseRoot
  rw [wpExcept_bind]
  refine wp_body hs hw ?_
  rw [hw.header]
  cases hp : parseRootBody (bodyOf data) (Header.decode data).version with
  | error validation => exact herr validation
  | ok trust => exact hok trust hp

/-! ### The chain -/

variable {verify : Bytes → Bytes → Bytes → Bool} {bootstrapRootModulus : Bytes}

theorem wp_verifyRoleFile {path : Bytes} {role : Nat} {trust : RootTrust} {Q : Envelope → Globals → Prop}
    (hok : ∀ envelope data g', g.disk.content path = some data → Wrapped data role envelope →
      thresholdMet verify trust role data = true → Reads g g' → Shows g' data → Q envelope g')
    (herr : ∀ validation g', Reads g g' → E validation g') (hcut : ∀ g', Reads g g' → C g') :
    wpExcept (verifyRoleFile verify path role trust) Q E C g := by
  unfold verifyRoleFile
  rw [wpExcept_bind]
  refine wp_readEnvelope (fun envelope data g' hdata hw hreads hshows => ?_) herr hcut
  rw [wpExcept_bind]
  refine wp_verifyThreshold hshows hw ?_
  rw [wpExcept_bind]
  exact wp_require (fun hsigned => hok envelope data g' hdata hw hsigned hreads hshows) (herr _ _ hreads)

/-- The old root and the new one. -/
structure RootsAccepted (verify : Bytes → Bytes → Bytes → Bool) (bootstrapRootModulus bootstrap root : Bytes)
    (old new : RootTrust) : Prop where
  bootstrapVersion : (Header.decode bootstrap).version = 1
  bootstrapSigned : thresholdMet verify (compiledRoot bootstrapRootModulus) roleRoot bootstrap = true
  oldParsed : parseRootBody (bodyOf bootstrap) (Header.decode bootstrap).version = .ok old
  newParsed : parseRootBody (bodyOf root) (Header.decode root).version = .ok new
  version : (Header.decode root).version = (old.version + 1) % 2 ^ 32
  signedByOld : thresholdMet verify old roleRoot root = true
  signedByNew : thresholdMet verify new roleRoot root = true

theorem wp_bootstrapRoot {Q : RootTrust → Globals → Prop}
    (hok : ∀ trust data g', g.disk.content (ascii "/repo/root-bootstrap.zrm") = some data →
      (∃ envelope, parseEnvelope data roleRoot = .ok envelope) → (Header.decode data).version = 1 → thresholdMet verify (compiledRoot bootstrapRootModulus) roleRoot data = true →
      parseRootBody (bodyOf data) (Header.decode data).version = .ok trust → Reads g g' → Q trust g')
    (herr : ∀ validation g', Reads g g' → E validation g') (hcut : ∀ g', Reads g g' → C g') :
    wpExcept (bootstrapRoot verify bootstrapRootModulus) Q E C g := by
  unfold bootstrapRoot
  rw [wpExcept_bind]
  refine wp_readEnvelope (fun envelope data g' hdata hw hreads hshows => ?_) herr hcut
  rw [wpExcept_bind]
  refine wp_require (fun hversion => ?_) (herr _ _ hreads)
  rw [hw.header, decide_eq_true_eq] at hversion
  rw [wpExcept_bind]
  refine wp_verifyThreshold hshows hw ?_
  rw [wpExcept_bind]
  refine wp_require (fun hsigned => ?_) (herr _ _ hreads)
  exact wp_parseRoot hshows hw (fun trust hp => hok trust data g' hdata ⟨envelope, hw.parsed⟩ hversion hsigned hp hreads) fun _ => herr _ _ hreads

theorem wp_updateRoot {old : RootTrust} {Q : RootTrust → Globals → Prop}
    (hok : ∀ new data g', g.disk.content (ascii "/repo/root.zrm") = some data →
      (∃ envelope, parseEnvelope data roleRoot = .ok envelope) → (Header.decode data).version = (old.version + 1) % 2 ^ 32 →
      parseRootBody (bodyOf data) (Header.decode data).version = .ok new → thresholdMet verify old roleRoot data = true →
      thresholdMet verify new roleRoot data = true → Reads g g' → Q new g')
    (herr : ∀ validation g', Reads g g' → E validation g') (hcut : ∀ g', Reads g g' → C g') :
    wpExcept (updateRoot verify old) Q E C g := by
  unfold updateRoot
  rw [wpExcept_bind]
  refine wp_readEnvelope (fun envelope data g' hdata hw hreads hshows => ?_) herr hcut
  rw [wpExcept_bind]
  refine wp_require (fun hversion => ?_) (herr _ _ hreads)
  rw [hw.header, decide_eq_true_eq] at hversion
  rw [wpExcept_bind]
  refine wp_parseRoot hshows hw (fun new hp => ?_) fun _ => herr _ _ hreads
  rw [wpExcept_bind]
  refine wp_verifyThreshold hshows hw ?_
  rw [wpExcept_bind]
  refine wp_require (fun hold => ?_) (herr _ _ hreads)
  rw [wpExcept_bind]
  refine wp_verifyThreshold hshows hw ?_
  rw [wpExcept_bind]
  exact wp_require (fun hnew => hok new data g' hdata ⟨envelope, hw.parsed⟩ hversion hp hold hnew hreads) (herr _ _ hreads)

/-- The contents of the six metadata files. -/
structure Documents where
  bootstrap : Bytes
  root : Bytes
  timestamp : Bytes
  snapshot : Bytes
  targets : Bytes
  delegated : Bytes

/-- The documents are the contents of the files. -/
structure Documents.Stored (D : Documents) (d : Disk) : Prop where
  bootstrap : d.content (ascii "/repo/root-bootstrap.zrm") = some D.bootstrap
  root : d.content (ascii "/repo/root.zrm") = some D.root
  timestamp : d.content (ascii "/repo/timestamp.zrm") = some D.timestamp
  snapshot : d.content (ascii "/repo/snapshot.zrm") = some D.snapshot
  targets : d.content (ascii "/repo/targets.zrm") = some D.targets
  delegated : d.content (ascii "/repo/native-apps.zrm") = some D.delegated

/-- The documents pass the checks of their envelopes. -/
structure Documents.Enveloped (D : Documents) : Prop where
  bootstrap : ∃ envelope, parseEnvelope D.bootstrap roleRoot = .ok envelope
  root : ∃ envelope, parseEnvelope D.root roleRoot = .ok envelope
  timestamp : ∃ envelope, parseEnvelope D.timestamp roleTimestamp = .ok envelope
  snapshot : ∃ envelope, parseEnvelope D.snapshot roleSnapshot = .ok envelope
  targets : ∃ envelope, parseEnvelope D.targets roleTargets = .ok envelope
  delegated : ∃ envelope, parseEnvelope D.delegated roleDelegated = .ok envelope

/-- A document names another one by its version, length and digest. -/
def NamedIn (parent name document : Bytes) : Prop :=
  ∃ reference, findReferenceIn (bodyOf parent) name = some reference ∧
    reference.version = (Header.decode document).version ∧ reference.length = document.length ∧
      reference.digest = sha256 document

theorem namedIn_of_matches {parent name : Bytes} {role : Nat} {envelope : Envelope} {reference : MetaReference}
    (hr : findReferenceIn (bodyOf parent) name = some reference) (hw : Wrapped data role envelope)
    (hm : referenceMatches reference envelope = true) : NamedIn parent name data := by
  unfold referenceMatches at hm
  simp only [Bool.and_eq_true, decide_eq_true_eq, hw.header, hw.size, hw.digest] at hm
  exact ⟨reference, hr, hm.1.1, hm.1.2, hm.2⟩

/-- What is checked of the documents. -/
structure Chained (verify : Bytes → Bytes → Bytes → Bool) (bootstrapRootModulus : Bytes) (D : Documents) (old new : RootTrust)
    (output : List Target) : Prop where
  roots : RootsAccepted verify bootstrapRootModulus D.bootstrap D.root old new
  timestampSigned : thresholdMet verify new roleTimestamp D.timestamp = true
  snapshotSigned : thresholdMet verify new roleSnapshot D.snapshot = true
  targetsSigned : thresholdMet verify new roleTargets D.targets = true
  delegatedSigned : thresholdMet verify new roleDelegated D.delegated = true
  snapshotNamed : NamedIn D.timestamp (ascii "snapshot.zrm") D.snapshot
  targetsNamed : NamedIn D.snapshot (ascii "targets.zrm") D.targets
  delegatedNamed : NamedIn D.snapshot (ascii "native-apps.zrm") D.delegated
  delegation : delegationValid (bodyOf D.targets) new = true
  output : delegatedTargets (bodyOf D.delegated) = some output

/-- The state that records the versions of the documents. -/
def Documents.state (D : Documents) (new : RootTrust) : State :=
  State.sealed { stateInitialize with
    root := UInt32.ofNat new.version
    targets := UInt32.ofNat (Header.decode D.targets).version
    delegated := UInt32.ofNat (Header.decode D.delegated).version
    snapshot := UInt32.ofNat (Header.decode D.snapshot).version
    timestamp := UInt32.ofNat (Header.decode D.timestamp).version }

/-- The versions are not below the recorded ones. -/
def Documents.NotBelow (D : Documents) (new : RootTrust) (persistent : State) : Prop :=
  enforceRollback persistent new.version (Header.decode D.targets).version (Header.decode D.delegated).version
    (Header.decode D.snapshot).version (Header.decode D.timestamp).version = true

theorem wp_verifyRepository {Q : List Target × State → Globals → Prop}
    (hok : ∀ D old new output g', Documents.Stored D g.disk → D.Enveloped →
      Chained verify bootstrapRootModulus D old new output → D.NotBelow new g.persistentState → Reads g g' → Q (output, D.state new) g')
    (herr : ∀ validation g', Reads g g' → E validation g') (hcut : ∀ g', Reads g g' → C g') :
    wpExcept (verifyRepository verify bootstrapRootModulus) Q E C g := by
  unfold verifyRepository
  rw [wpExcept_bind]
  refine wp_bootstrapRoot (fun old bootstrap g₁ hbootstrap he₁ hv₁ hs₁ hp₁ r₁ => ?_) herr hcut
  have herr₁ : ∀ validation g', Reads g₁ g' → E validation g' := fun v g' h => herr v g' (r₁.trans h)
  have hcut₁ : ∀ g', Reads g₁ g' → C g' := fun g' h => hcut g' (r₁.trans h)
  rw [wpExcept_bind]
  refine wp_updateRoot (fun new root g₂ hroot he₂ hv₂ hp₂ hold hnew r₂ => ?_) herr₁ hcut₁
  replace r₂ := r₁.trans r₂
  rw [r₁.disk.content] at hroot
  rw [wpExcept_bind]
  refine wp_verifyRoleFile (fun te timestamp g₃ htimestamp hwt hts r₃ hshow₃ => ?_) (fun v g' h => herr v g' (r₂.trans h))
    fun g' h => hcut g' (r₂.trans h)
  replace r₃ := r₂.trans r₃
  rw [r₂.disk.content] at htimestamp
  rw [wpExcept_bind]
  refine wp_findReference hshow₃ hwt (fun snapshotReference hsr => ?_) (herr _ _ r₃)
  rw [wpExcept_bind]
  refine wp_verifyRoleFile (fun se snapshot g₄ hsnapshot hws hss r₄ hshow₄ => ?_) (fun v g' h => herr v g' (r₃.trans h))
    fun g' h => hcut g' (r₃.trans h)
  replace r₄ := r₃.trans r₄
  rw [r₃.disk.content] at hsnapshot
  rw [wpExcept_bind]
  refine wp_require (fun hsm => ?_) (herr _ _ r₄)
  rw [wpExcept_bind]
  refine wp_findReference hshow₄ hws (fun targetsReference htr => ?_) (herr _ _ r₄)
  rw [wpExcept_bind]
  refine wp_findReference hshow₄ hws (fun delegatedReference hdr => ?_) (herr _ _ r₄)
  rw [wpExcept_bind]
  refine wp_verifyRoleFile (fun ge targets g₅ htargets hwg hgs r₅ hshow₅ => ?_) (fun v g' h => herr v g' (r₄.trans h))
    fun g' h => hcut g' (r₄.trans h)
  replace r₅ := r₄.trans r₅
  rw [r₄.disk.content] at htargets
  rw [wpExcept_bind]
  refine wp_require (fun hgm => ?_) (herr _ _ r₅)
  rw [wpExcept_bind]
  refine wp_body hshow₅ hwg ?_
  rw [wpExcept_bind]
  refine wp_require (fun hdelegation => ?_) (herr _ _ r₅)
  rw [wpExcept_bind]
  refine wp_verifyRoleFile (fun de delegated g₆ hdelegated hwd hds r₆ hshow₆ => ?_) (fun v g' h => herr v g' (r₅.trans h))
    fun g' h => hcut g' (r₅.trans h)
  replace r₆ := r₅.trans r₆
  rw [r₅.disk.content] at hdelegated
  rw [wpExcept_bind]
  refine wp_require (fun hdm => ?_) (herr _ _ r₆)
  rw [wpExcept_bind]
  refine wp_body hshow₆ hwd ?_
  cases houtput : delegatedTargets (bodyOf delegated) with
  | none => exact herr _ _ r₆
  | some output =>
    dsimp only
    rw [wpExcept_bind, wpExcept_lift, wp_get, wpExcept_bind]
    refine wp_require (fun hrollback => ?_) (herr _ _ r₆)
    rw [wpExcept_pure]
    rw [hwg.header, hwd.header, hws.header, hwt.header, r₆.persistentState] at hrollback
    rw [hwg.header, hwd.header, hws.header, hwt.header]
    exact hok ⟨bootstrap, root, timestamp, snapshot, targets, delegated⟩ old new output g₆
      ⟨hbootstrap, hroot, htimestamp, hsnapshot, htargets, hdelegated⟩
      ⟨he₁, he₂, ⟨te, hwt.parsed⟩, ⟨se, hws.parsed⟩, ⟨ge, hwg.parsed⟩, ⟨de, hwd.parsed⟩⟩
      ⟨⟨hv₁, hs₁, hp₁, hp₂, hv₂, hold, hnew⟩, hts, hss, hgs, hds, namedIn_of_matches hsr hws hsm,
        namedIn_of_matches htr hwg hgm, namedIn_of_matches hdr hwd hdm, hdelegation, houtput⟩ hrollback r₆

/-! ### The converse

On a volume that does not fail, documents that belong together are accepted. -/

theorem wp_readEnvelope_quiet {path buffer : Bytes} {role : Nat} {Q : Envelope → Globals → Prop} (hq : Quiet g.disk)
    (hbuffer : g.metadataBuffer = some buffer) (hcontent : g.disk.content path = some data) {envelope : Envelope}
    (hp : parseEnvelope data role = .ok envelope)
    (h : ∀ buffer', data <+: buffer' → Q envelope { g with metadataBuffer := some buffer' }) :
    wpExcept (readEnvelope path role) Q E C g := by
  have hlen : data.length ≤ maximumMetadataBytes := by
    unfold parseEnvelope at hp
    dsimp only at hp
    split at hp
    · cases hp
    · rename_i hsize
      exact Nat.le_of_not_lt (not_or.mp hsize).2
  unfold readEnvelope
  rw [wpExcept_bind, wpExcept_lift, wp_get, hbuffer]
  dsimp only
  rw [wpExcept_bind, wpExcept_lift]
  unfold onDisk
  rw [wp_zoom]
  refine wp_readFile_quiet hq hcontent hlen ?_
  dsimp only
  rw [wpExcept_bind, wpExcept_lift, wp_modify, hp]
  refine h _ ?_
  unfold overwrite
  rw [List.take_zero, List.nil_append]
  exact List.prefix_append _ _

theorem wp_verifyRoleFile_quiet {path buffer : Bytes} {role : Nat} {trust : RootTrust} {Q : Envelope → Globals → Prop}
    (hq : Quiet g.disk) (hbuffer : g.metadataBuffer = some buffer) (hcontent : g.disk.content path = some data)
    (hp : ∃ envelope, parseEnvelope data role = .ok envelope) (hsigned : thresholdMet verify trust role data = true)
    (h : ∀ envelope buffer', Wrapped data role envelope → data <+: buffer' → Q envelope { g with metadataBuffer := some buffer' }) :
    wpExcept (verifyRoleFile verify path role trust) Q E C g := by
  obtain ⟨envelope, hp⟩ := hp
  have hw := wrapped_of_parse hp
  unfold verifyRoleFile
  rw [wpExcept_bind]
  refine wp_readEnvelope_quiet hq hbuffer hcontent hp fun buffer' hprefix => ?_
  rw [wpExcept_bind]
  refine wp_verifyThreshold ⟨buffer', rfl, hprefix⟩ hw ?_
  rw [wpExcept_bind, hsigned, wp_require_true]
  exact h envelope buffer' hw hprefix

theorem wp_findReference_found {role : Nat} {envelope : Envelope} {name : Bytes} {reference : MetaReference}
    {Q : MetaReference → Globals → Prop} (hs : Shows g data) (hw : Wrapped data role envelope)
    (hf : findReferenceIn (bodyOf data) name = some reference) (h : Q reference g) :
    wpExcept (findReference envelope name) Q E C g := by
  unfold findReference
  rw [wpExcept_bind]
  refine wp_body hs hw ?_
  rw [hf]
  exact h

theorem wp_parseRoot_parsed {role : Nat} {envelope : Envelope} {trust : RootTrust} {Q : RootTrust → Globals → Prop}
    (hs : Shows g data) (hw : Wrapped data role envelope)
    (hp : parseRootBody (bodyOf data) (Header.decode data).version = .ok trust) (h : Q trust g) :
    wpExcept (parseRoot envelope) Q E C g := by
  unfold parseRoot
  rw [wpExcept_bind]
  refine wp_body hs hw ?_
  rw [hw.header, hp]
  exact h

theorem wp_bootstrapRoot_quiet {bootstrap root buffer : Bytes} {old new : RootTrust} {Q : RootTrust → Globals → Prop}
    (hq : Quiet g.disk) (hbuffer : g.metadataBuffer = some buffer)
    (hcontent : g.disk.content (ascii "/repo/root-bootstrap.zrm") = some bootstrap)
    (hp : ∃ envelope, parseEnvelope bootstrap roleRoot = .ok envelope)
    (hr : RootsAccepted verify bootstrapRootModulus bootstrap root old new)
    (h : ∀ buffer', Q old { g with metadataBuffer := some buffer' }) :
    wpExcept (bootstrapRoot verify bootstrapRootModulus) Q E C g := by
  obtain ⟨envelope, hp⟩ := hp
  have hw := wrapped_of_parse hp
  unfold bootstrapRoot
  rw [wpExcept_bind]
  refine wp_readEnvelope_quiet hq hbuffer hcontent hp fun buffer' hprefix => ?_
  rw [wpExcept_bind, hw.header, decide_eq_true hr.bootstrapVersion, wp_require_true, wpExcept_bind]
  refine wp_verifyThreshold ⟨buffer', rfl, hprefix⟩ hw ?_
  rw [wpExcept_bind, hr.bootstrapSigned, wp_require_true]
  exact wp_parseRoot_parsed ⟨buffer', rfl, hprefix⟩ hw hr.oldParsed (h buffer')

theorem wp_updateRoot_quiet {bootstrap root buffer : Bytes} {old new : RootTrust} {Q : RootTrust → Globals → Prop}
    (hq : Quiet g.disk) (hbuffer : g.metadataBuffer = some buffer)
    (hcontent : g.disk.content (ascii "/repo/root.zrm") = some root)
    (hp : ∃ envelope, parseEnvelope root roleRoot = .ok envelope)
    (hr : RootsAccepted verify bootstrapRootModulus bootstrap root old new)
    (h : ∀ buffer', Q new { g with metadataBuffer := some buffer' }) :
    wpExcept (updateRoot verify old) Q E C g := by
  obtain ⟨envelope, hp⟩ := hp
  have hw := wrapped_of_parse hp
  unfold updateRoot
  rw [wpExcept_bind]
  refine wp_readEnvelope_quiet hq hbuffer hcontent hp fun buffer' hprefix => ?_
  have hshow : Shows { g with metadataBuffer := some buffer' } root := ⟨buffer', rfl, hprefix⟩
  rw [wpExcept_bind, hw.header, decide_eq_true hr.version, wp_require_true, wpExcept_bind]
  refine wp_parseRoot_parsed hshow hw hr.newParsed ?_
  rw [wpExcept_bind]
  refine wp_verifyThreshold hshow hw ?_
  rw [wpExcept_bind, hr.signedByOld, wp_require_true, wpExcept_bind]
  refine wp_verifyThreshold hshow hw ?_
  rw [wpExcept_bind, hr.signedByNew, wp_require_true]
  exact h buffer'

theorem NamedIn.matches {parent name : Bytes} {role : Nat} {envelope : Envelope} {reference : MetaReference}
    (h : NamedIn parent name data) (hr : findReferenceIn (bodyOf parent) name = some reference) (hw : Wrapped data role envelope) :
    referenceMatches reference envelope = true := by
  obtain ⟨reference', hr', hv, hl, hd⟩ := h
  obtain rfl : reference = reference' := Option.some.inj (hr.symm.trans hr')
  unfold referenceMatches
  rw [hw.header, hw.size, hw.digest, decide_eq_true hv, decide_eq_true hl, decide_eq_true hd]
  rfl

theorem wp_verifyRepository_quiet {D : Documents} {old new : RootTrust} {output : List Target} {buffer : Bytes}
    {Q : List Target × State → Globals → Prop} (hq : Quiet g.disk) (hbuffer : g.metadataBuffer = some buffer)
    (hstored : D.Stored g.disk) (henveloped : D.Enveloped) (hc : Chained verify bootstrapRootModulus D old new output)
    (hbelow : D.NotBelow new g.persistentState)
    (h : ∀ buffer', Q (output, D.state new) { g with metadataBuffer := some buffer' }) :
    wpExcept (verifyRepository verify bootstrapRootModulus) Q E C g := by
  unfold verifyRepository
  rw [wpExcept_bind]
  refine wp_bootstrapRoot_quiet hq hbuffer hstored.bootstrap henveloped.bootstrap hc.roots fun b₁ => ?_
  rw [wpExcept_bind]
  refine wp_updateRoot_quiet hq rfl hstored.root henveloped.root hc.roots fun b₂ => ?_
  rw [wpExcept_bind]
  refine wp_verifyRoleFile_quiet hq rfl hstored.timestamp henveloped.timestamp hc.timestampSigned fun te b₃ hwt hb₃ => ?_
  have hshow₃ : Shows { g with metadataBuffer := some b₃ } D.timestamp := ⟨b₃, rfl, hb₃⟩
  rw [wpExcept_bind]
  obtain ⟨snapshotReference, hsnapshot, -⟩ := hc.snapshotNamed
  refine wp_findReference_found hshow₃ hwt hsnapshot ?_
  rw [wpExcept_bind]
  refine wp_verifyRoleFile_quiet hq rfl hstored.snapshot henveloped.snapshot hc.snapshotSigned fun se b₄ hws hb₄ => ?_
  have hshow₄ : Shows { g with metadataBuffer := some b₄ } D.snapshot := ⟨b₄, rfl, hb₄⟩
  rw [wpExcept_bind, hc.snapshotNamed.matches hsnapshot hws, wp_require_true, wpExcept_bind]
  obtain ⟨targetsReference, htargets, -⟩ := hc.targetsNamed
  refine wp_findReference_found hshow₄ hws htargets ?_
  rw [wpExcept_bind]
  obtain ⟨delegatedReference, hdelegated, -⟩ := hc.delegatedNamed
  refine wp_findReference_found hshow₄ hws hdelegated ?_
  rw [wpExcept_bind]
  refine wp_verifyRoleFile_quiet hq rfl hstored.targets henveloped.targets hc.targetsSigned fun ge b₅ hwg hb₅ => ?_
  rw [wpExcept_bind, hc.targetsNamed.matches htargets hwg, wp_require_true, wpExcept_bind]
  refine wp_body ⟨b₅, rfl, hb₅⟩ hwg ?_
  rw [wpExcept_bind, hc.delegation, wp_require_true, wpExcept_bind]
  refine wp_verifyRoleFile_quiet hq rfl hstored.delegated henveloped.delegated hc.delegatedSigned fun de b₆ hwd hb₆ => ?_
  rw [wpExcept_bind, hc.delegatedNamed.matches hdelegated hwd, wp_require_true, wpExcept_bind]
  refine wp_body ⟨b₆, rfl, hb₆⟩ hwd ?_
  rw [hc.output]
  dsimp only
  rw [wpExcept_bind, wpExcept_lift, wp_get, wpExcept_bind, hwg.header, hwd.header, hws.header, hwt.header]
  unfold Documents.NotBelow at hbelow
  rw [hbelow, wp_require_true, wpExcept_pure]
  exact h b₆

theorem verifyRepository_accepts {D : Documents} {old new : RootTrust} {output : List Target} {buffer : Bytes}
    (hq : Quiet g.disk) (hbuffer : g.metadataBuffer = some buffer) (hstored : D.Stored g.disk) (henveloped : D.Enveloped)
    (hc : Chained verify bootstrapRootModulus D old new output) (hbelow : D.NotBelow new g.persistentState) :
    ∃ buffer', (verifyRepository verify bootstrapRootModulus).run g =
      (some (.ok (output, D.state new)), { g with metadataBuffer := some buffer' }) := by
  have hrun : wpExcept (verifyRepository verify bootstrapRootModulus)
      (fun r g' => r = (output, D.state new) ∧ ∃ buffer', g' = { g with metadataBuffer := some buffer' })
      (fun _ _ => False) (fun _ => False) g :=
    wp_verifyRepository_quiet hq hbuffer hstored henveloped hc hbelow fun buffer' => ⟨rfl, buffer', rfl⟩
  obtain ⟨r, g', hr, h⟩ := wp_ends hrun
  cases r with
  | error validation => exact h.elim
  | ok r =>
    obtain ⟨rfl, buffer', rfl⟩ := h
    exact ⟨buffer', hr⟩

/-! ### The release

What the checks mean, once a signature that verifies is one that was made. -/

/-- As many distinct keys of the role as its threshold demands have signed the document. -/
def SignedTo (signed : Bytes → Bytes → Prop) (trust : RootTrust) (role : Nat) (data : Bytes) : Prop :=
  ∃ (spec : RoleSpec) (ids : List Bytes), findRole trust role = some spec ∧ 0 < spec.threshold ∧ spec.threshold ≤ ids.length ∧ ids.Nodup ∧
    ∀ id ∈ ids, id ∈ spec.ids ∧ ∃ key, findKey trust id = some key ∧ signed key.modulus (messageOf data)

/-- Documents that belong together, and their targets. -/
structure Release (signed : Bytes → Bytes → Prop) (bootstrapRootModulus : Bytes) (D : Documents) (output : List Target) :
    Prop where
  roots : ∃ old new, parseRootBody (bodyOf D.bootstrap) (Header.decode D.bootstrap).version = .ok old ∧
    parseRootBody (bodyOf D.root) (Header.decode D.root).version = .ok new ∧
    SignedTo signed (compiledRoot bootstrapRootModulus) roleRoot D.bootstrap ∧
    SignedTo signed old roleRoot D.root ∧ SignedTo signed new roleRoot D.root ∧
    SignedTo signed new roleTimestamp D.timestamp ∧ SignedTo signed new roleSnapshot D.snapshot ∧
    SignedTo signed new roleTargets D.targets ∧ SignedTo signed new roleDelegated D.delegated
  version : (Header.decode D.root).version = (Header.decode D.bootstrap).version + 1
  snapshotNamed : NamedIn D.timestamp (ascii "snapshot.zrm") D.snapshot
  targetsNamed : NamedIn D.snapshot (ascii "targets.zrm") D.targets
  delegatedNamed : NamedIn D.snapshot (ascii "native-apps.zrm") D.delegated
  output : output = records Target.decode targetSize ((bodyOf D.delegated).drop 8) (toNat (slice (bodyOf D.delegated) 0 4))

/-- An accepted id is one of the role's, with a key whose signature verified. -/
def Accepts (verify : Bytes → Bytes → Bytes → Bool) (trust : RootTrust) (spec : RoleSpec) (digest id : Bytes) : Prop :=
  id ∈ spec.ids ∧ ∃ key, findKey trust id = some key ∧ ∃ signature, verify signature digest key.modulus = true

theorem acceptSignatures_sound {trust : RootTrust} {spec : RoleSpec} {digest : Bytes} (signatures : List Signature)
    (accepted : List Bytes) (hnodup : accepted.Nodup) (hall : ∀ id ∈ accepted, Accepts verify trust spec digest id) :
    (acceptSignatures verify trust spec digest signatures accepted).Nodup ∧
      ∀ id ∈ acceptSignatures verify trust spec digest signatures accepted, Accepts verify trust spec digest id := by
  induction signatures generalizing accepted with
  | nil => exact ⟨hnodup, hall⟩
  | cons signature rest ih =>
    unfold acceptSignatures
    split
    · rename_i h
      simp only [Bool.and_eq_true, Bool.not_eq_true', List.contains_iff_mem, Option.any_eq_true] at h
      obtain ⟨⟨hid, hfresh⟩, key, hkey, hverify⟩ := h
      have hnew : signature.keyId ∉ accepted := by
        intro hmem
        rw [List.contains_iff_mem.mpr hmem] at hfresh
        cases hfresh
      refine ih _ (List.nodup_append.mpr ⟨hnodup, List.pairwise_singleton _ _, ?_⟩) fun id hmem => ?_
      · intro a ha b hb hab
        rw [List.mem_singleton.mp hb] at hab
        exact hnew (hab ▸ ha)
      · rcases List.mem_append.mp hmem with hold | hlast
        · exact hall id hold
        · rw [List.mem_singleton.mp hlast]
          exact ⟨hid, key, hkey, _, hverify⟩
    · exact ih _ hnodup hall

theorem signedTo_of_threshold {signed : Bytes → Bytes → Prop} {trust : RootTrust} {role : Nat}
    (hsigned : ∀ signature message modulus, verify signature (sha256 message) modulus = true → signed modulus message)
    (h : thresholdMet verify trust role data = true) : SignedTo signed trust role data := by
  unfold thresholdMet at h
  cases hr : findRole trust role with
  | none =>
    rw [hr] at h
    cases h
  | some spec =>
    rw [hr] at h
    dsimp only at h
    split at h
    · cases h
    · rename_i hspec
      simp only [not_or] at hspec
      have hsound : (acceptSignatures verify trust spec (sha256 (messageOf data)) (signaturesOf data) []).Nodup ∧
          ∀ id ∈ acceptSignatures verify trust spec (sha256 (messageOf data)) (signaturesOf data) [],
            Accepts verify trust spec (sha256 (messageOf data)) id :=
        acceptSignatures_sound (signaturesOf data) [] List.nodup_nil fun _ h => nomatch h
      obtain ⟨hnodup, hall⟩ := hsound
      refine ⟨spec, _, hr, Nat.pos_of_ne_zero hspec.1, of_decide_eq_true h, hnodup, fun id hid => ?_⟩
      obtain ⟨hrole, key, hkey, signature, hverify⟩ := hall id hid
      exact ⟨hrole, key, hkey, hsigned _ _ _ hverify⟩

theorem version_of_parseRoot {body : Bytes} {version : Nat} {trust : RootTrust} (h : parseRootBody body version = .ok trust) :
    trust.version = version := by
  unfold parseRootBody at h
  dsimp only at h
  split at h
  · cases h
  · split at h
    · cases h
    · split at h
      · cases h
      · split at h
        · cases h
          trivial
        · cases h

theorem collectTargets_eq (targets output : List Target) {result : List Target} (h : collectTargets targets output = some result)
    (hd : output.Pairwise fun a b => cstr a.path ≠ cstr b.path) :
    result = output ++ targets ∧ result.Pairwise fun a b => cstr a.path ≠ cstr b.path := by
  induction targets generalizing output with
  | nil =>
    cases h
    exact ⟨(List.append_nil _).symm, hd⟩
  | cons target rest ih =>
    unfold collectTargets at h
    split at h
    · rename_i hnew
      simp only [Bool.and_eq_true, Bool.not_eq_true', List.any_eq_false, decide_eq_true_eq] at hnew
      have hd' : (output ++ [target]).Pairwise fun a b => cstr a.path ≠ cstr b.path := by
        refine List.pairwise_append.mpr ⟨hd, List.pairwise_singleton _ _, fun a ha b hb => ?_⟩
        rw [List.mem_singleton.mp hb]
        exact fun hab => hnew.2 a ha hab.symm
      obtain ⟨hresult, hpairwise⟩ := ih _ h hd'
      exact ⟨by rw [hresult, List.append_assoc, List.singleton_append], hpairwise⟩
    · cases h

theorem delegatedTargets_eq {body : Bytes} {output : List Target} (h : delegatedTargets body = some output) :
    output = records Target.decode targetSize (body.drop 8) (toNat (slice body 0 4)) ∧
      output.Pairwise fun a b => cstr a.path ≠ cstr b.path := by
  unfold delegatedTargets at h
  dsimp only at h
  split at h
  · cases h
  · split at h
    · cases h
    · exact collectTargets_eq _ [] h List.Pairwise.nil

theorem Chained.release {signed : Bytes → Bytes → Prop} {D : Documents} {old new : RootTrust} {output : List Target}
    (hsigned : ∀ signature message modulus, verify signature (sha256 message) modulus = true → signed modulus message)
    (h : Chained verify bootstrapRootModulus D old new output) : Release signed bootstrapRootModulus D output where
  roots := ⟨old, new, h.roots.oldParsed, h.roots.newParsed, signedTo_of_threshold hsigned h.roots.bootstrapSigned,
    signedTo_of_threshold hsigned h.roots.signedByOld, signedTo_of_threshold hsigned h.roots.signedByNew,
    signedTo_of_threshold hsigned h.timestampSigned, signedTo_of_threshold hsigned h.snapshotSigned,
    signedTo_of_threshold hsigned h.targetsSigned, signedTo_of_threshold hsigned h.delegatedSigned⟩
  version := by
    have hstep := h.roots.version
    have hold := version_of_parseRoot h.roots.oldParsed
    have hfirst := h.roots.bootstrapVersion
    omega
  snapshotNamed := h.snapshotNamed
  targetsNamed := h.targetsNamed
  delegatedNamed := h.delegatedNamed
  output := (delegatedTargets_eq h.output).1

/-- No two different documents of two releases have the same digest. -/
structure Collisionless (D D' : Documents) : Prop where
  snapshot : sha256 D'.snapshot = sha256 D.snapshot → D'.snapshot = D.snapshot
  targets : sha256 D'.targets = sha256 D.targets → D'.targets = D.targets
  delegated : sha256 D'.delegated = sha256 D.delegated → D'.delegated = D.delegated

theorem NamedIn.unique {parent name document document' : Bytes} (h : NamedIn parent name document)
    (h' : NamedIn parent name document') : sha256 document' = sha256 document := by
  obtain ⟨reference, hr, -, -, hd⟩ := h
  obtain ⟨reference', hr', -, -, hd'⟩ := h'
  obtain rfl : reference = reference' := Option.some.inj (hr.symm.trans hr')
  exact hd'.symm.trans hd

theorem Release.pinned {signed : Bytes → Bytes → Prop} {D D' : Documents} {output output' : List Target}
    (h : Release signed bootstrapRootModulus D output) (h' : Release signed bootstrapRootModulus D' output')
    (htimestamp : D'.timestamp = D.timestamp) (hc : Collisionless D D') :
    D'.snapshot = D.snapshot ∧ D'.targets = D.targets ∧ D'.delegated = D.delegated ∧ output' = output := by
  have hsnapshot : D'.snapshot = D.snapshot := by
    have hnamed := h'.snapshotNamed
    rw [htimestamp] at hnamed
    exact hc.snapshot (h.snapshotNamed.unique hnamed)
  have htargets : D'.targets = D.targets := by
    have hnamed := h'.targetsNamed
    rw [hsnapshot] at hnamed
    exact hc.targets (h.targetsNamed.unique hnamed)
  have hdelegated : D'.delegated = D.delegated := by
    have hnamed := h'.delegatedNamed
    rw [hsnapshot] at hnamed
    exact hc.delegated (h.delegatedNamed.unique hnamed)
  refine ⟨hsnapshot, htargets, hdelegated, ?_⟩
  rw [h.output, h'.output, hdelegated]

/-- An accepted repository is a release: the stored documents are signed by a root that the old root and it
    itself have signed, each names the next, and the targets are those of the last one. Another release with
    the same timestamp has the same documents. -/
theorem verifyRepository_release (signed : Bytes → Bytes → Prop) (verify : Bytes → Bytes → Bytes → Bool)
    (bootstrapRootModulus : Bytes)
    (hsigned : ∀ signature message modulus, verify signature (sha256 message) modulus = true → signed modulus message)
    (g g' : Globals) (output : List Target) (next : State)
    (h : (verifyRepository verify bootstrapRootModulus).run g = (some (.ok (output, next)), g')) :
    ∃ D, Documents.Stored D g.disk ∧ Release signed bootstrapRootModulus D output ∧
      output.Pairwise (fun a b => cstr a.path ≠ cstr b.path) ∧
      ∀ D' output', Release signed bootstrapRootModulus D' output' → D'.timestamp = D.timestamp → Collisionless D D' →
        D'.snapshot = D.snapshot ∧ D'.targets = D.targets ∧ D'.delegated = D.delegated ∧ output' = output := by
  have hrun : wpExcept (verifyRepository verify bootstrapRootModulus)
      (fun r _ => ∃ D old new, Documents.Stored D g.disk ∧ Chained verify bootstrapRootModulus D old new r.1)
      (fun _ _ => True) (fun _ => True) g :=
    wp_verifyRepository (fun D old new output _ hstored _ hchained _ _ => ⟨D, old, new, hstored, hchained⟩)
      (fun _ _ _ => trivial) fun _ _ => trivial
  obtain ⟨D, old, new, hstored, hchained⟩ := wp_ended hrun h
  have hrelease := hchained.release hsigned
  exact ⟨D, hstored, hrelease, (delegatedTargets_eq hchained.output).2, fun D' output' h' ht hc => hrelease.pinned h' ht hc⟩

/-! #### A small repository -/

/-- A digest that is given as a number. -/
def sampleDigest (value : Nat) : Bytes := (le 32 value).reverse

def sampleModulus : Bytes := 0x80 :: List.replicate 255 0

/-- A document with one signature. -/
def sampleDocument (role version : Nat) (body digest : Bytes) : Bytes :=
  ascii "ZRM1" ++ le 2 1 ++ le 2 role ++ le 4 version ++ le 8 (2 ^ 32) ++ le 4 body.length ++ le 2 1 ++ le 2 1 ++ digest ++
    le 4 0 ++ body ++ (bootstrapRootKeyId ++ List.replicate 256 0)

/-- A text in a field of `size` bytes. -/
def sampleField (text : Bytes) (size : Nat) : Bytes := text ++ List.replicate (size - text.length) 0

/-- A root document; one key has all roles. -/
def sampleRoot (version : Nat) : Bytes :=
  let body := le 4 1 ++ le 4 1 ++ le 4 5 ++ le 4 0 ++ bootstrapRootKeyId ++ sampleModulus ++
    [1, 2, 3, 4, 5].flatMap fun role => le 2 role ++ le 2 1 ++ le 2 1 ++ le 2 0 ++ sampleField bootstrapRootKeyId 16
  sampleDocument roleRoot version body
    (sampleDigest 0xbcd5f248d7a6c58c6f576da31a1730fd8193e7dff4cb09c9a25a6625ebdd1971)

/-- A reference to a first version. -/
def sampleReference (name document digest : Bytes) : Bytes :=
  sampleField name 32 ++ le 4 1 ++ le 4 document.length ++ digest

def sampleTarget : Bytes :=
  sampleField (ascii "native/a-1.0.0.zpk") 64 ++ sampleField (ascii "a") 32 ++ sampleField (ascii "1.0.0") 16 ++
    sampleField (ascii "/data/apps/pkg-a-1.0.0.zex") 48 ++ List.replicate 96 0 ++ le 4 400 ++ [1, 0, 0, 0] ++ le 4 1 ++
    List.replicate 64 7

def sampleDelegated : Bytes :=
  sampleDocument roleDelegated 1 (le 4 1 ++ le 4 0 ++ sampleTarget)
    (sampleDigest 0x89fff264a0f3d8046739b69c7f36c5a09d0c3197c6162b8692aaff6f841662cb)

def sampleTargets : Bytes :=
  sampleDocument roleTargets 1
    (le 4 0 ++ le 4 1 ++ sampleField (ascii "native-apps") 32 ++ sampleField (ascii "native/") 32 ++ bootstrapRootKeyId ++
      le 2 1 ++ [1, 0])
    (sampleDigest 0xbd34cfe3d75988353cfee14b1c00f5b001cfafaa6261118f145ae2cc98a378a0)

def sampleSnapshot : Bytes :=
  sampleDocument roleSnapshot 1
    (le 4 2 ++ le 4 0 ++
      sampleReference (ascii "targets.zrm") sampleTargets
        (sampleDigest 0x28d3a8215235eb4f8b8db2b1543212e78f0af94861479e986c92400990406fe7) ++
      sampleReference (ascii "native-apps.zrm") sampleDelegated
        (sampleDigest 0xcf3962df69c38f3c560d5c42b64a54428563d9ded077ab2ffe037bea2b8ee12c))
    (sampleDigest 0xb3431e03df1b60b71bbc8abd134227952f1a7a703016994f7c039c05c5a9e912)

def sampleTimestamp (version : Nat) : Bytes :=
  sampleDocument roleTimestamp version
    (le 4 1 ++ le 4 0 ++ sampleReference (ascii "snapshot.zrm") sampleSnapshot
      (sampleDigest 0x382b7744486d9969e9ce36ebc4293a3f60b7075ae023012c5c4dc26d9308a2ef))
    (sampleDigest 0xa68cdf1c17b1693d38ac1fbb02e5a89400ad43252c9634c559eaa49dda3b1bce)

/-- A release whose timestamp has version `version`. -/
def sampleRelease (version : Nat) : Documents :=
  ⟨sampleRoot 1, sampleRoot 2, sampleTimestamp version, sampleSnapshot, sampleTargets, sampleDelegated⟩

/-- The files of a release, beside others. -/
def Documents.publish (D : Documents) (files : Bytes → Option Bytes) (path : Bytes) : Option Bytes :=
  if path = ascii "/repo/root-bootstrap.zrm" then some D.bootstrap
  else if path = ascii "/repo/root.zrm" then some D.root
  else if path = ascii "/repo/timestamp.zrm" then some D.timestamp
  else if path = ascii "/repo/snapshot.zrm" then some D.snapshot
  else if path = ascii "/repo/targets.zrm" then some D.targets
  else if path = ascii "/repo/native-apps.zrm" then some D.delegated
  else files path

/-- A machine with a release on its volume, which has counted `generation` syncs. -/
def sampleGlobals (version generation : Nat) : Globals where
  disk := ⟨⟨(sampleRelease version).publish fun _ => none, true, 65536, generation, []⟩, Storage.root⟩
  metadataBuffer := some []
  activeTargets := []
  persistentState := stateInitialize
  ready := false

/-- A verifier that accepts everything. -/
def trusting (_ _ _ : Bytes) : Bool := true

/-- The root that a sample root document describes. -/
def sampleTrust (version : Nat) : RootTrust where
  keys := [⟨bootstrapRootKeyId, sampleModulus⟩]
  roles := [1, 2, 3, 4, 5].map fun role => ⟨role, 1, 1, 0, sampleField bootstrapRootKeyId 16⟩
  version

theorem enveloped_of_isSome {role : Nat} (h : (parseEnvelope data role).toOption.isSome = true) :
    ∃ envelope, parseEnvelope data role = .ok envelope := by
  cases hp : parseEnvelope data role with
  | error validation =>
    rw [hp] at h
    cases h
  | ok envelope => exact ⟨envelope, rfl⟩

section Sample
set_option maxRecDepth 100000

/-- A sample document passes the checks of its envelope and is signed. -/
def Signed (role : Nat) (data : Bytes) : Prop :=
  (parseEnvelope data role).toOption.isSome = true ∧ thresholdMet trusting (sampleTrust 2) role data = true

instance (role : Nat) (data : Bytes) : Decidable (Signed role data) := inferInstanceAs (Decidable (_ ∧ _))

theorem sampleDocuments_signed :
    (∀ version ∈ [3, 4, 5], Signed roleTimestamp (sampleTimestamp version)) ∧ Signed roleSnapshot sampleSnapshot ∧
      Signed roleTargets sampleTargets ∧ Signed roleDelegated sampleDelegated ∧
      ∀ version ∈ [1, 2], (parseEnvelope (sampleRoot version) roleRoot).toOption.isSome = true := by
  decide +kernel

theorem sampleRoot_accepted :
    RootsAccepted trusting sampleModulus (sampleRoot 1) (sampleRoot 2) (sampleTrust 1) (sampleTrust 2) where
  bootstrapVersion := by decide +kernel
  bootstrapSigned := by decide +kernel
  oldParsed := by decide +kernel
  newParsed := by decide +kernel
  version := by decide +kernel
  signedByOld := by decide +kernel
  signedByNew := by decide +kernel

theorem namedIn_sample {parent name document digest : Bytes}
    (h : findReferenceIn (bodyOf parent) name = some ⟨sampleField name 32, 1, document.length, digest⟩)
    (hversion : (Header.decode document).version = 1) (hdigest : sha256 document = digest) : NamedIn parent name document :=
  ⟨_, h, hversion.symm, rfl, hdigest.symm⟩

theorem sampleDocuments_referred :
    ((Header.decode sampleSnapshot).version = 1 ∧
        sha256 sampleSnapshot = sampleDigest 0x382b7744486d9969e9ce36ebc4293a3f60b7075ae023012c5c4dc26d9308a2ef) ∧
      ((Header.decode sampleTargets).version = 1 ∧
        sha256 sampleTargets = sampleDigest 0x28d3a8215235eb4f8b8db2b1543212e78f0af94861479e986c92400990406fe7) ∧
      (Header.decode sampleDelegated).version = 1 ∧
        sha256 sampleDelegated = sampleDigest 0xcf3962df69c38f3c560d5c42b64a54428563d9ded077ab2ffe037bea2b8ee12c := by
  decide +kernel

theorem sampleDocuments_refer :
    (∀ version ∈ [3, 4, 5], findReferenceIn (bodyOf (sampleTimestamp version)) (ascii "snapshot.zrm") =
        some ⟨sampleField (ascii "snapshot.zrm") 32, 1, sampleSnapshot.length, sampleDigest
          0x382b7744486d9969e9ce36ebc4293a3f60b7075ae023012c5c4dc26d9308a2ef⟩) ∧
      findReferenceIn (bodyOf sampleSnapshot) (ascii "targets.zrm") =
        some ⟨sampleField (ascii "targets.zrm") 32, 1, sampleTargets.length, sampleDigest
          0x28d3a8215235eb4f8b8db2b1543212e78f0af94861479e986c92400990406fe7⟩ ∧
      findReferenceIn (bodyOf sampleSnapshot) (ascii "native-apps.zrm") =
        some ⟨sampleField (ascii "native-apps.zrm") 32, 1, sampleDelegated.length, sampleDigest
          0xcf3962df69c38f3c560d5c42b64a54428563d9ded077ab2ffe037bea2b8ee12c⟩ ∧
      delegationValid (bodyOf sampleTargets) (sampleTrust 2) = true ∧
      delegatedTargets (bodyOf sampleDelegated) = some [Target.decode sampleTarget] ∧
      ∀ version ∈ [3, 4, 5], (Header.decode (sampleTimestamp version)).version = version := by
  decide +kernel

end Sample

theorem sampleRelease_enveloped {version : Nat} (hv : version ∈ [3, 4, 5]) : (sampleRelease version).Enveloped := by
  obtain ⟨htimestamp, hsnapshot, htargets, hdelegated, hroot⟩ := sampleDocuments_signed
  exact
    { bootstrap := enveloped_of_isSome (hroot 1 (List.mem_cons_self ..))
      root := enveloped_of_isSome (hroot 2 (List.mem_cons_of_mem _ (List.mem_cons_self ..)))
      timestamp := enveloped_of_isSome (htimestamp version hv).1
      snapshot := enveloped_of_isSome hsnapshot.1
      targets := enveloped_of_isSome htargets.1
      delegated := enveloped_of_isSome hdelegated.1 }

theorem sampleRelease_chained {version : Nat} (hv : version ∈ [3, 4, 5]) :
    Chained trusting sampleModulus (sampleRelease version) (sampleTrust 1) (sampleTrust 2) [Target.decode sampleTarget] := by
  obtain ⟨htimestamp, hsnapshot, htargets, hdelegated, -⟩ := sampleDocuments_signed
  obtain ⟨⟨hversion₁, hdigest₁⟩, ⟨hversion₂, hdigest₂⟩, hversion₃, hdigest₃⟩ := sampleDocuments_referred
  obtain ⟨hrefer₁, hrefer₂, hrefer₃, hdelegation, houtput, -⟩ := sampleDocuments_refer
  exact
    { roots := sampleRoot_accepted
      timestampSigned := (htimestamp version hv).2
      snapshotSigned := hsnapshot.2
      targetsSigned := htargets.2
      delegatedSigned := hdelegated.2
      snapshotNamed := namedIn_sample (hrefer₁ version hv) hversion₁ hdigest₁
      targetsNamed := namedIn_sample hrefer₂ hversion₂ hdigest₂
      delegatedNamed := namedIn_sample hrefer₃ hversion₃ hdigest₃
      delegation := hdelegation
      output := houtput }

theorem Documents.stored_publish (D : Documents) {d : Disk} {files : Bytes → Option Bytes}
    (hfiles : ∀ path, path ≠ statePath → d.files path = D.publish files path) : D.Stored d := by
  have hcontent : ∀ path, (cstr path).head? = some Storage.slash → Storage.normalizePath Storage.root path = some path →
      path ≠ statePath → d.content path = D.publish files path := by
    intro path habsolute hpath hne
    rw [d.content_absolute habsolute hpath, hfiles path hne]
  exact ⟨hcontent (ascii "/repo/root-bootstrap.zrm") rfl (by decide +kernel) (by decide +kernel),
    hcontent (ascii "/repo/root.zrm") rfl (by decide +kernel) (by decide +kernel),
    hcontent (ascii "/repo/timestamp.zrm") rfl (by decide +kernel) (by decide +kernel),
    hcontent (ascii "/repo/snapshot.zrm") rfl (by decide +kernel) (by decide +kernel),
    hcontent (ascii "/repo/targets.zrm") rfl (by decide +kernel) (by decide +kernel),
    hcontent (ascii "/repo/native-apps.zrm") rfl (by decide +kernel) (by decide +kernel)⟩

theorem verifyRepository_release_sample :
    ∃ D, Documents.Stored D (sampleGlobals 3 0).disk ∧
      Release (fun _ _ => True) sampleModulus D [Target.decode sampleTarget] ∧
      [Target.decode sampleTarget].Pairwise (fun a b => cstr a.path ≠ cstr b.path) ∧
      ∀ D' output', Release (fun _ _ => True) sampleModulus D' output' → D'.timestamp = D.timestamp → Collisionless D D' →
        D'.snapshot = D.snapshot ∧ D'.targets = D.targets ∧ D'.delegated = D.delegated ∧
          output' = [Target.decode sampleTarget] := by
  have hv : 3 ∈ [3, 4, 5] := List.mem_cons_self ..
  obtain ⟨buffer, hrun⟩ := verifyRepository_accepts (g := sampleGlobals 3 0) ⟨rfl, rfl⟩ rfl
    (Documents.stored_publish (sampleRelease 3) fun _ _ => rfl) (sampleRelease_enveloped hv) (sampleRelease_chained hv) rfl
  exact verifyRepository_release (fun _ _ => True) trusting sampleModulus (fun _ _ _ _ => trivial) (sampleGlobals 3 0) _
    [Target.decode sampleTarget] _ hrun

end ZenovOS.Package.Repository
