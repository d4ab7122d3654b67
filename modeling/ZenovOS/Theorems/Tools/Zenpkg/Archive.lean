import ZenovOS.Theorems.Tools.Zenpkg.Manifest
import ZenovOS.Theorems.Tools.Zenpkg.Sha256

/-! # Packages are read as they were built

A package is its header, its manifest and its payload, and the header is a function of the other two. So the bytes of a
package say its contents, and its contents the bytes. -/

namespace ZenovOS.Zenpkg
open Bytes Security

/-! ### The container -/

/-- The header without its own digest. -/
def header (text payload : Bytes) : Bytes :=
  packageMagic ++ le 4 1 ++ le 4 0 ++ le 8 text.length ++ le 8 payload.length ++ sha256 text ++ sha256 payload

def container (text payload : Bytes) : Bytes := header text payload ++ sha256 (header text payload) ++ text ++ payload

/-- What is written in a package of a manifest and a payload. -/
structure Sealed (b text payload : Bytes) : Prop where
  length : b.length = 128 + text.length + payload.length
  magic : slice b 0 8 = packageMagic
  version : toNat (slice b 8 4) = 1
  flags : toNat (slice b 12 4) = 0
  manifestSize : toNat (slice b 16 8) = text.length
  payloadSize : toNat (slice b 24 8) = payload.length
  manifestDigest : slice b 32 32 = sha256 text
  payloadDigest : slice b 64 32 = sha256 payload
  headerDigest : slice b 96 32 = sha256 (slice b 0 96)
  manifestText : slice b 128 text.length = text
  payloadBytes : b.drop (128 + text.length) = payload

theorem length_header (text payload : Bytes) : (header text payload).length = 96 := by
  unfold header
  simp only [List.length_append, length_le, length_sha256]
  rfl

theorem sealed_container {text payload : Bytes} (htext : text.length < 2 ^ 64) (hpayload : payload.length < 2 ^ 64) :
    Sealed (container text payload) text payload := by
  have hheader := length_header text payload
  have hmagic : packageMagic.length = 8 := rfl
  have hb : container text payload = packageMagic ++ (le 4 1 ++ (le 4 0 ++ (le 8 text.length ++ (le 8 payload.length ++ (sha256 text ++
      (sha256 payload ++ (sha256 (header text payload) ++ (text ++ payload)))))))) := by
    simp only [container, header, List.append_assoc]
  have hfirst : slice (container text payload) 0 96 = header text payload := by
    unfold container
    rw [List.append_assoc, List.append_assoc, slice_first hheader]
  have hfront : (header text payload ++ sha256 (header text payload) ++ text).length = 128 + text.length := by
    rw [List.length_append, List.length_append, hheader, length_sha256]
  refine ⟨?_, ?_, ?_, ?_, ?_, ?_, ?_, ?_, ?_, ?_, ?_⟩
  · unfold container
    rw [List.length_append, hfront]
  · rw [hb, slice_first hmagic]
  · rw [hb]
    simp (disch := simp [hmagic]) only [slice_append_right, hmagic, Nat.reduceSub, slice_first]
    rfl
  · rw [hb]
    simp (disch := simp [hmagic]) only [slice_append_right, hmagic, length_le, Nat.reduceSub, slice_first]
    rfl
  · rw [hb]
    simp (disch := simp [hmagic]) only [slice_append_right, hmagic, length_le, Nat.reduceSub, slice_first]
    exact toNat_le_of_lt htext
  · rw [hb]
    simp (disch := simp [hmagic]) only [slice_append_right, hmagic, length_le, Nat.reduceSub, slice_first]
    exact toNat_le_of_lt hpayload
  · rw [hb]
    simp (disch := simp [hmagic]) only [slice_append_right, hmagic, length_le, Nat.reduceSub, slice_first]
  · rw [hb]
    simp (disch := simp [hmagic]) only [slice_append_right, hmagic, length_le, length_sha256, Nat.reduceSub, slice_first]
  · rw [hfirst]
    unfold container
    simp (disch := simp [hheader]) only [List.append_assoc, slice_append_right, hheader, Nat.reduceSub, slice_first]
  · unfold container
    simp (disch := simp [hheader]) only [List.append_assoc, slice_append_right, hheader, length_sha256, Nat.reduceSub, slice_first]
  · unfold container
    rw [List.drop_left' hfront]

theorem Sealed.eq_container {b text payload : Bytes} (h : Sealed b text payload) : b = container text payload := by
  have hlength := h.length
  have hread : ∀ {off n : Nat} (x : Nat), off + n ≤ 128 → toNat (slice b off n) = x → slice b off n = le n x := by
    intro off n x hoff hx
    rw [← hx, le_toNat (length_slice (by omega))]
  have hfirst : slice b 0 96 = header text payload := by
    have h16 := slice_append_slice b 0 8 4
    have h32 := slice_append_slice b 0 12 4
    have h40 := slice_append_slice b 0 16 8
    have h48 := slice_append_slice b 0 24 8
    have h64 := slice_append_slice b 0 32 32
    have h96 := slice_append_slice b 0 64 32
    simp only [Nat.zero_add, Nat.reduceAdd] at h16 h32 h40 h48 h64 h96
    rw [← h96, ← h64, ← h48, ← h40, ← h32, ← h16, h.magic, hread 1 (by omega) h.version, hread 0 (by omega) h.flags,
      hread _ (by omega) h.manifestSize, hread _ (by omega) h.payloadSize, h.manifestDigest, h.payloadDigest]
    rfl
  have h128 := slice_append_slice b 0 96 32
  have htext := slice_append_slice b 0 128 text.length
  simp only [Nat.zero_add, Nat.reduceAdd] at h128 htext
  calc b = slice b 0 (128 + text.length) ++ b.drop (128 + text.length) := (List.take_append_drop _ b).symm
    _ = container text payload := by
      rw [← htext, ← h128, h.headerDigest, hfirst, h.manifestText, h.payloadBytes]
      rfl

/-! ### Building -/

theorem build_ok {m : Manifest} {payload b : Bytes} :
    buildPackageBytes m payload = .ok b ↔ Valid m payload.length ∧ (canonicalManifest m).length ≤ maxManifestSize ∧
      payload.length ≤ maxPayloadSize ∧ b = container (canonicalManifest m) payload := by
  unfold buildPackageBytes
  dsimp only
  rw [check_ok_iff, validateManifest_ok, check_ok_iff, refuse_ok, check_ok_iff, refuse_ok, Nat.not_lt, Nat.not_lt]
  refine and_congr_right fun _ => and_congr_right fun htext => and_congr_right fun hpayload => ?_
  have htext : (canonicalManifest m).length ≤ 64 * 1024 := htext
  have hpayload : payload.length ≤ 4 * 1024 * 1024 * 1024 := hpayload
  have hheader := length_header (canonicalManifest m) payload
  have hlength : ¬(header (canonicalManifest m) payload ++ sha256 (header (canonicalManifest m) payload)).length ≠ packageHeaderSize := by
    rw [List.length_append, hheader, length_sha256]
    decide
  rw [sha256Hash_eq (by omega), ok_bind, sha256Hash_eq (by omega), ok_bind, ← header, sha256Hash_eq (by omega), ok_bind,
    refuse_bind hlength, ← container, eq_comm]
  exact ⟨Except.ok.inj, congrArg Except.ok⟩

/-! ### Reading -/

/-- What has been found in a package that is read. -/
structure Opens (b : Bytes) (package : Package) : Prop where
  layout : Sealed b package.manifestText package.payload
  manifestLimit : package.manifestText.length ≤ maxManifestSize
  payloadLimit : package.payload.length ≤ maxPayloadSize
  manifest : parseManifest package.manifestText = .ok package.manifest
  valid : Valid package.manifest package.payload.length
  canonical : canonicalManifest package.manifest = package.manifestText
  manifestDigest : package.manifestDigest = sha256 package.manifestText
  payloadDigest : package.payloadDigest = sha256 package.payload
  packageDigest : package.packageDigestHex = hexEncode (sha256 b)

theorem readU32Le_ok {input : Bytes} {offset : Nat} (h : offset + 4 ≤ input.length) :
    readU32Le input offset = .ok (toNat (slice input offset 4)) := by
  unfold readU32Le
  rw [refuse_bind (by omega)]
  rfl

theorem readU64Le_ok {input : Bytes} {offset : Nat} (h : offset + 8 ≤ input.length) :
    readU64Le input offset = .ok (toNat (slice input offset 8)) := by
  unfold readU64Le
  rw [refuse_bind (by omega)]
  rfl

theorem parse_opens {b : Bytes} {package : Package} (h : parsePackageBytes b = .ok package) : Opens b package := by
  unfold parsePackageBytes at h
  dsimp only at h
  obtain ⟨hlength, h⟩ := refused h
  have hlength : 128 ≤ b.length := Nat.not_lt.mp hlength
  obtain ⟨hmagic, h⟩ := refused h
  rw [readU32Le_ok (by omega)] at h
  obtain ⟨version, hversion, h⟩ := bind_ok h
  cases hversion
  rw [readU32Le_ok (by omega)] at h
  obtain ⟨flags, hflags, h⟩ := bind_ok h
  cases hflags
  rw [readU64Le_ok (by omega)] at h
  obtain ⟨manifestSize, hmanifestSize, h⟩ := bind_ok h
  rw [readU64Le_ok (by omega)] at h
  obtain ⟨payloadSize, hpayloadSize, h⟩ := bind_ok h
  cases hmanifestSize
  cases hpayloadSize
  obtain ⟨hversion, h⟩ := refused h
  obtain ⟨hflags, h⟩ := refused h
  obtain ⟨hmanifestLimit, h⟩ := refused h
  obtain ⟨hpayloadLimit, h⟩ := refused h
  obtain ⟨-, h⟩ := refused h
  obtain ⟨hsize, h⟩ := refused h
  generalize hms : toNat (slice b 16 8) = ms at hmanifestLimit hsize h
  generalize hps : toNat (slice b 24 8) = ps at hpayloadLimit hsize h
  have hmanifestLimit : ms ≤ 64 * 1024 := Nat.not_lt.mp hmanifestLimit
  have hpayloadLimit : ps ≤ 4 * 1024 * 1024 * 1024 := Nat.not_lt.mp hpayloadLimit
  have hsize : 128 + ms + ps = b.length := not_not.mp hsize
  have htext : (slice b 128 ms).length = ms := length_slice (by omega)
  have hpayload : (b.drop (128 + ms)).length = ps := by
    rw [List.length_drop]
    omega
  have hfirst : (slice b 0 96).length = 96 := length_slice (by omega)
  rw [sha256Hash_eq (by omega)] at h
  obtain ⟨actualHeader, hactual, h⟩ := bind_ok h
  cases hactual
  obtain ⟨hheader, h⟩ := refused h
  rw [show packageHeaderSize = 128 from rfl, sha256Hash_eq (by omega)] at h
  obtain ⟨actualManifest, hactualManifest, h⟩ := bind_ok h
  rw [sha256Hash_eq (by omega)] at h
  obtain ⟨actualPayload, hactualPayload, h⟩ := bind_ok h
  cases hactualManifest
  cases hactualPayload
  obtain ⟨hmanifestDigest, h⟩ := refused h
  obtain ⟨hpayloadDigest, h⟩ := refused h
  obtain ⟨manifest, hmanifest, h⟩ := bind_ok h
  obtain ⟨hcanonical, h⟩ := refused h
  obtain ⟨hparse, hvalid⟩ := parseAndValidate_ok.mp hmanifest
  unfold sha256Hex at h
  rw [sha256Hash_eq (by omega)] at h
  cases h
  have hseal : Sealed b (slice b 128 ms) (b.drop (128 + ms)) := by
    refine ⟨?_, not_not.mp hmagic, not_not.mp hversion, not_not.mp hflags, ?_, ?_, ?_, ?_, ?_, ?_, ?_⟩
    · rw [htext, hpayload]
      exact hsize.symm
    · rw [hms, htext]
    · rw [hps, hpayload]
    · exact (not_not.mp hmanifestDigest).symm
    · exact (not_not.mp hpayloadDigest).symm
    · exact (not_not.mp hheader).symm
    · rw [htext]
    · rw [htext]
  exact ⟨hseal, htext.trans_le hmanifestLimit, hpayload.trans_le hpayloadLimit, hparse, hvalid, not_not.mp hcanonical, rfl, rfl, rfl⟩

theorem Opens.parse {b : Bytes} {package : Package} (h : Opens b package) : parsePackageBytes b = .ok package := by
  obtain ⟨manifest, text, payload, manifestDigest, payloadDigest, hex⟩ := package
  obtain ⟨hseal, htext, hpayload, hparse, hvalid, hcanonical, hmanifestDigest, hpayloadDigest, hhex⟩ := h
  dsimp only at hseal htext hpayload hparse hvalid hcanonical hmanifestDigest hpayloadDigest hhex
  have hlength := hseal.length
  have htext : text.length ≤ 64 * 1024 := htext
  have hpayload : payload.length ≤ 4 * 1024 * 1024 * 1024 := hpayload
  have hfirst : (slice b 0 96).length = 96 := length_slice (by omega)
  have hmanifestHash : sha256Hash text = .ok (sha256 text) := sha256Hash_eq (by omega)
  have hpayloadHash : sha256Hash payload = .ok (sha256 payload) := sha256Hash_eq (by omega)
  have hhexHash : sha256Hex b = .ok (hexEncode (sha256 b)) := by
    unfold sha256Hex
    rw [sha256Hash_eq (by omega)]
    rfl
  have hhost : ¬(sizeMax < text.length ∨ sizeMax < payload.length) := by
    show ¬(2 ^ 64 - 1 < text.length ∨ 2 ^ 64 - 1 < payload.length)
    omega
  unfold parsePackageBytes
  dsimp only
  rw [refuse_bind (show ¬b.length < 128 by omega), refuse_bind (not_not.mpr hseal.magic), readU32Le_ok (by omega), ok_bind,
    readU32Le_ok (by omega), ok_bind, readU64Le_ok (by omega), ok_bind, readU64Le_ok (by omega), ok_bind, hseal.version, hseal.flags,
    hseal.manifestSize, hseal.payloadSize, refuse_bind (not_not.mpr rfl), refuse_bind (not_not.mpr rfl), refuse_bind (Nat.not_lt.mpr htext),
    refuse_bind (Nat.not_lt.mpr hpayload), refuse_bind hhost, refuse_bind (not_not.mpr hlength.symm), sha256Hash_eq (by omega), ok_bind,
    refuse_bind (not_not.mpr hseal.headerDigest.symm), hseal.manifestText, hseal.payloadBytes, hmanifestHash, ok_bind, hpayloadHash, ok_bind,
    refuse_bind (not_not.mpr hseal.manifestDigest.symm), refuse_bind (not_not.mpr hseal.payloadDigest.symm),
    parseAndValidate_ok.mpr ⟨hparse, hvalid⟩, ok_bind, refuse_bind (not_not.mpr hcanonical), hhexHash, ok_bind, hmanifestDigest,
    hpayloadDigest, hhex]
  rfl

/-! ### The round trip -/

theorem Valid.of_size {m : Manifest} {n k : Nat} (h : Valid m n) (hsize : n = 0 ↔ k = 0) : Valid m k where
  scalars := { h.scalars with
    noPayload := fun hk => h.scalars.noPayload ⟨hk.1, fun hn => hk.2 (hsize.mp hn)⟩
    somePayload := fun hk => h.scalars.somePayload ⟨hk.1, hsize.mpr hk.2⟩ }
  capabilities := h.capabilities
  dependencies := h.dependencies
  conflicts := h.conflicts

/-- The package of a manifest and a payload. -/
def packed (m : Manifest) (payload : Bytes) : Package :=
  ⟨m.sorted, canonicalManifest m, payload, sha256 (canonicalManifest m), sha256 payload,
    hexEncode (sha256 (container (canonicalManifest m) payload))⟩

theorem opens_packed {m : Manifest} {payload : Bytes} (hclean : ∀ e ∈ m.entries, Clean e.value) (hvalid : Valid m payload.length)
    (htext : (canonicalManifest m).length ≤ maxManifestSize) (hpayload : payload.length ≤ maxPayloadSize) :
    Opens (container (canonicalManifest m) payload) (packed m payload) := by
  unfold packed
  have hlayout : Sealed (container (canonicalManifest m) payload) (canonicalManifest m) payload := by
    have htext : (canonicalManifest m).length ≤ 64 * 1024 := htext
    have hpayload : payload.length ≤ 4 * 1024 * 1024 * 1024 := hpayload
    exact sealed_container (by omega) (by omega)
  constructor <;> dsimp only
  · exact hlayout
  · exact htext
  · exact hpayload
  · exact parse_canonical hclean
  · exact hvalid.sorted
  · exact canonicalManifest_sorted m

/-- What is built is read back, with the repeated values sorted, and what is read is built again. -/
theorem package_round_trip :
    (∀ text size m payload, parseAndValidateManifest text size = .ok m → (size = 0 ↔ payload.length = 0) →
      (canonicalManifest m).length ≤ maxManifestSize → payload.length ≤ maxPayloadSize →
      ∃ b package, buildPackageBytes m payload = .ok b ∧ parsePackageBytes b = .ok package ∧ package.payload = payload ∧
        package.manifest = m.sorted) ∧
    ∀ b package, parsePackageBytes b = .ok package → buildPackageBytes package.manifest package.payload = .ok b := by
  constructor
  · intro text size m payload hm hsize htext hpayload
    obtain ⟨hparse, hvalid⟩ := parseAndValidate_ok.mp hm
    have hclean := valid_clean hparse hvalid
    have hvalid := hvalid.of_size hsize
    exact ⟨_, packed m payload, build_ok.mpr ⟨hvalid, htext, hpayload, rfl⟩, (opens_packed hclean hvalid htext hpayload).parse, rfl, rfl⟩
  · intro b package h
    have hopen := parse_opens h
    refine build_ok.mpr ⟨hopen.valid, hopen.canonical ▸ hopen.manifestLimit, hopen.payloadLimit, ?_⟩
    rw [hopen.canonical]
    exact hopen.layout.eq_container

/-- A text of lines. -/
def textOf (texts : List String) : Bytes := texts.flatMap fun text => ascii text ++ [10]

/-- A manifest as a developer writes it. -/
def sampleText : Bytes :=
  textOf ["# sample", " format = zenpkg-manifest-1\r", "name=hello", "version=1.0.0", "architecture=i686", "target=i686-zenov-none",
      "kind=native", "entrypoint=/data/apps/hello.zex", "payload_type=zex1", "runtime=native", "min_os=0.1.1", "", "license=MIT",
      "source=local build", "asset_policy=redistributable", "capability=storage.zenovfs1"] ++
    ascii "capability=kernel.ring3"

def sampleManifest : Manifest :=
  ⟨ascii "zenpkg-manifest-1", ascii "hello", ascii "1.0.0", ascii "i686", ascii "i686-zenov-none", ascii "native",
    ascii "/data/apps/hello.zex", ascii "zex1", ascii "native", ascii "0.1.1", ascii "MIT", ascii "local build",
    ascii "redistributable", [ascii "storage.zenovfs1", ascii "kernel.ring3"], [], []⟩

theorem package_round_trip_sample : ∃ b package, buildPackageBytes sampleManifest (ascii "ZEX1") = .ok b ∧
    parsePackageBytes b = .ok package ∧ package.manifest.capabilities = [ascii "kernel.ring3", ascii "storage.zenovfs1"] ∧
    buildPackageBytes package.manifest package.payload = .ok b := by
  have hparse : parseAndValidateManifest sampleText 4 = .ok sampleManifest := by decide +kernel
  obtain ⟨b, package, hbuild, hread, -, hmanifest⟩ :=
    package_round_trip.1 sampleText 4 sampleManifest (ascii "ZEX1") hparse (by decide) (by decide +kernel) (by decide)
  exact ⟨b, package, hbuild, hread, by rw [hmanifest]; decide, package_round_trip.2 b package hread⟩

end ZenovOS.Zenpkg
