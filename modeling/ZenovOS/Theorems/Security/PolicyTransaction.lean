import ZenovOS.Security.PolicyTransaction
import ZenovOS.Theorems.Storage.Path

/-! # Policy updates are atomic

A policy update can stop anywhere, and so can each attempt to recover from it. The invariant is about the
files alone: they are the old ones, or the journal is hot, a valid record of the old ones, and no other
file has changed. -/

namespace ZenovOS.Security
open Bytes Storage Mach

/-! ### The journal record -/

namespace JournalHeader

@[simp] theorem length_encode (h : JournalHeader) : h.encode.length = journalHeaderBytes := by
  simp [encode]

theorem decode_encode (h : JournalHeader) (payload : Bytes) : decode (h.encode ++ payload) = h := by
  unfold decode encode
  simp only [List.append_assoc]
  simp (disch := simp) only [slice_append_right, slice_first, length_le, Block.length_eq, List.length_cons,
    List.length_nil, Nat.reduceAdd, Nat.reduceSub, Block.of_bytes, ofNat_toNat_le16, ofNat_toNat_le32, ofNat_toNat_byte]

theorem encode_split (h : JournalHeader) : ∃ pre post : Bytes, pre.length = 32 ∧
    ∀ digest, { h with digest }.encode = pre ++ digest.bytes ++ post := by
  refine ⟨h.magic.bytes ++ (le 2 h.schema.toNat ++ (le 2 h.headerSize.toNat ++ ([h.state] ++ ([h.domain] ++
    (le 2 h.flags.toNat ++ (le 4 h.policySize.toNat ++ (le 4 h.versionSize.toNat ++ (le 4 h.auxiliarySize.toNat ++
    (le 4 h.previousVersion.toNat ++ le 4 h.payloadSize.toNat))))))))),
    h.livePath.bytes ++ (h.versionPath.bytes ++ (h.auxiliaryPath.bytes ++ h.reserved.bytes)), by simp, fun digest => ?_⟩
  simp only [encode, List.append_assoc]

theorem overwrite_digest (h : JournalHeader) (payload : Bytes) :
    overwrite (h.encode ++ payload) 32 (List.replicate 32 0) = { h with digest := Block.of [] }.encode ++ payload := by
  obtain ⟨pre, post, hpre, henc⟩ := h.encode_split
  have hz : (Block.of [] : Block 32).bytes = List.replicate 32 0 := by
    rw [Block.bytes_of (by simp)]
    rfl
  have hh : h.encode = pre ++ h.digest.bytes ++ post := henc h.digest
  rw [henc (Block.of []), hz, hh, List.append_assoc (pre ++ h.digest.bytes), overwrite_field hpre (by simp)]
  simp only [List.append_assoc]

theorem slice_digest (h : JournalHeader) (payload : Bytes) : slice (h.encode ++ payload) 32 32 = h.digest.bytes := by
  obtain ⟨pre, post, hpre, henc⟩ := h.encode_split
  rw [show h.encode = pre ++ h.digest.bytes ++ post from henc h.digest]
  exact slice_field pre _ hpre (by simp) (by simp only [List.append_assoc]; rfl)

end JournalHeader

theorem digestValid_journalRecord (header : JournalHeader) (payload : Bytes) : digestValid (journalRecord header payload) := by
  unfold digestValid journalRecord
  rw [decide_eq_true_eq, JournalHeader.overwrite_digest, JournalHeader.slice_digest, Block.bytes_of (by simp)]
  simp

@[simp] theorem length_journalRecord (header : JournalHeader) (payload : Bytes) :
    (journalRecord header payload).length = journalHeaderBytes + payload.length := by
  simp [journalRecord]

theorem slice_journalRecord (header : JournalHeader) (payload : Bytes) (off n : Nat) :
    slice (journalRecord header payload) (journalHeaderBytes + off) n = slice payload off n := by
  unfold journalRecord
  rw [slice_append_right (by simp)]
  simp

section
variable (header : JournalHeader) (policy version auxiliary : Bytes)

theorem slice_policy :
    slice (journalRecord header (policy ++ version ++ auxiliary)) journalHeaderBytes policy.length = policy := by
  rw [← Nat.add_zero journalHeaderBytes, slice_journalRecord, List.append_assoc, slice_first rfl]

theorem slice_version :
    slice (journalRecord header (policy ++ version ++ auxiliary)) (journalHeaderBytes + policy.length) version.length =
      version := by
  rw [slice_journalRecord, List.append_assoc]
  exact slice_field policy version rfl rfl rfl

theorem slice_auxiliary :
    slice (journalRecord header (policy ++ version ++ auxiliary)) (journalHeaderBytes + policy.length + version.length)
      auxiliary.length = auxiliary := by
  rw [Nat.add_assoc, slice_journalRecord]
  exact slice_field (policy ++ version) auxiliary (by simp) rfl (by rw [List.append_nil])

end

theorem JournalHeader.decode_journalRecord (header : JournalHeader) (payload : Bytes) :
    decode (journalRecord header payload) =
      { header with digest := Block.of (sha256 ({ header with digest := Block.of [] }.encode ++ payload)) } :=
  decode_encode _ _

theorem copyText_eq_some {n : Nat} {text : Option Bytes} {block : Block n} (h : copyText text = some block) :
    fixedTextEqual block text = true := by
  cases text with
  | none =>
    cases h
    simp [fixedTextEqual]
  | some text =>
    simp only [copyText] at h
    split at h
    · cases h
      simpa [fixedTextEqual]
    · cases h

theorem descriptorForDomain_code {d : Descriptor} (h : d ∈ descriptors) : descriptorForDomain d.domain.code = some d := by
  simp only [descriptors, List.mem_cons, List.not_mem_nil, or_false] at h
  obtain rfl | rfl | rfl := h <;> decide

theorem length_buildJournal {d : Descriptor} {policy version auxiliary journal : Bytes} {n : Nat}
    (h : buildJournal d policy version auxiliary n = some journal) : journal.length ≤ applicationBufferBytes := by
  simp only [buildJournal] at h
  split at h
  · cases h
  · rename_i hroom
    simp only [Option.bind_eq_bind, Option.bind_eq_some_iff, Option.some.injEq] at h
    obtain ⟨_, -, _, -, _, -, rfl⟩ := h
    rw [length_journalRecord]
    exact Nat.not_lt.mp hroom

theorem validateJournal_buildJournal {d : Descriptor} {policy version auxiliary journal : Bytes} {n : Nat}
    (hd : d ∈ descriptors) (hp : policy ≠ []) (hcap : policy.length ≤ d.policyCapacity)
    (hv : parseNonzeroDecimal version = some n) (ha : auxiliarySizeValid d auxiliary.length = true)
    (h : buildJournal d policy version auxiliary n = some journal) :
    validateJournal journal = some ⟨d, policy, version, auxiliary, n⟩ := by
  obtain ⟨hv2, hv11, hn0, hn⟩ := parseNonzeroDecimal_some hv
  simp only [buildJournal] at h
  split at h
  · cases h
  · rename_i hroom
    simp only [Option.bind_eq_bind, Option.bind_eq_some_iff, Option.some.injEq] at h
    obtain ⟨livePath, hlive, versionPath, hversion, auxiliaryPath, haux, rfl⟩ := h
    simp only [List.length_append, Nat.not_lt, u32Max, applicationBufferBytes, journalHeaderBytes] at hroom hn
    have small : ∀ k : Nat, k ≤ 0xFFFFFFFF → (UInt32.ofNat k).toNat = k := fun k hk => by
      rw [UInt32.toNat_ofNat']
      omega
    have hpos : policy.length ≠ 0 := fun hz => hp (List.length_eq_zero_iff.mp hz)
    have hn' : UInt32.ofNat n ≠ 0 := fun hz => hn0 (by rw [← small n hn, hz]; rfl)
    unfold validateJournal
    rw [if_neg (by simp)]
    simp only [JournalHeader.decode_journalRecord]
    rw [if_neg (by simp), descriptorForDomain_code hd, Option.bind_eq_bind, Option.bind_some]
    simp only [copyText_eq_some hlive, copyText_eq_some hversion, copyText_eq_some haux, Bool.not_true, Bool.or_self,
      Bool.false_eq_true, if_false]
    rw [small policy.length (by omega), small version.length (by omega), small auxiliary.length (by omega),
      small (policy ++ version ++ auxiliary).length (by simp; omega), if_neg, ha, if_neg (by simp), if_neg]
    · rw [slice_policy, slice_version, slice_auxiliary, hv, Option.bind_eq_bind, Option.bind_some, small n hn,
        if_neg (not_not_intro rfl)]
    · simp only [length_journalRecord, List.length_append, journalHeaderBytes, applicationBufferBytes,
        digestValid_journalRecord]
      simp
      omega
    · simp only [not_or]
      exact ⟨hpos, by omega, by omega, by omega, hn'⟩

/-! ### Requests to fixed paths -/

abbrev Files := Bytes → Option Bytes

/-- A path that `normalize_path` leaves as it is, whatever the current directory is. -/
def Fixed (path : Bytes) : Prop := ∀ currentDirectory, normalizePath currentDirectory path = some path

theorem fixed_journalPath : Fixed journalPath := fun _ => rfl

/-- No storage request will fail or be cut off. -/
def PolicyState.Calm (s : PolicyState) : Prop := s.store.Calm

/-- What no step of a transaction changes. -/
structure Same (s s' : PolicyState) : Prop where
  currentDirectory : s'.currentDirectory = s.currentDirectory
  audit : s'.audit = s.audit

theorem Same.trans {s s' s'' : PolicyState} (h : Same s s') (h' : Same s' s'') : Same s s'' :=
  ⟨h'.currentDirectory.trans h.currentDirectory, h'.audit.trans h.audit⟩

theorem Same.refl (s : PolicyState) : Same s s := ⟨rfl, rfl⟩

section Rules
variable {s : PolicyState} {path : Bytes}

/-- The state after a request: only the store has changed, and its files are `f`. -/
structure After (s : PolicyState) (f : Files) (s' : PolicyState) : Prop where
  eq : ∃ store, s' = { s with store }
  files : s'.files = f
  calm : s.Calm → s'.Calm

theorem After.same {f : Files} {s' : PolicyState} (h : After s f s') : Same s s' := by
  obtain ⟨store, rfl⟩ := h.eq
  exact ⟨rfl, rfl⟩

theorem wp_readFile_at {input : Bytes} {capacity : Nat} {Q : Option Bytes → PolicyState → Prop} {C : PolicyState → Prop}
    (hn : normalizePath s.currentDirectory input = some path)
    (hsome : ∀ b s', s.files path = some b → b.length ≤ capacity → After s s.files s' → Q (some b) s')
    (hnone : ∀ s', After s s.files s' → (s.Calm → ∀ b, s.files path = some b → capacity < b.length) → Q none s')
    (hcut : ¬s.Calm → ∀ s', s'.files = s.files → C s') : wp (readFile input capacity) Q C s := by
  unfold readFile
  simp only [wp_bind, wp_get, hn]
  unfold onStore
  rw [wp_zoom]
  refine FileStore.wp_read (fun b st hb hle hf hc => ?_) (fun st hf hc => ?_) fun hc st hf => ?_
  · exact hsome b _ hb hle ⟨⟨st, rfl⟩, hf, hc⟩
  · exact hnone _ ⟨⟨st, rfl⟩, hf, fun h => (hc h).1⟩ fun h => (hc h).2
  · exact hcut hc _ hf

theorem wp_readFile {capacity : Nat} {Q : Option Bytes → PolicyState → Prop} {C : PolicyState → Prop} (hp : Fixed path)
    (hsome : ∀ b s', s.files path = some b → b.length ≤ capacity → After s s.files s' → Q (some b) s')
    (hnone : ∀ s', After s s.files s' → (s.Calm → ∀ b, s.files path = some b → capacity < b.length) → Q none s')
    (hcut : ¬s.Calm → ∀ s', s'.files = s.files → C s') : wp (readFile path capacity) Q C s :=
  wp_readFile_at (hp _) hsome hnone hcut

theorem wp_writeFile {data : Bytes} {Q : Bool → PolicyState → Prop} {C : PolicyState → Prop} (hp : Fixed path)
    (hok : ∀ s', After s (Function.update s.files path (some data)) s' → Q true s')
    (hfail : ¬s.Calm → ∀ s', After s s.files s' ∨ After s (Function.update s.files path (some data)) s' → Q false s')
    (hcut : ¬s.Calm → ∀ s', s'.files = s.files ∨ s'.files = Function.update s.files path (some data) → C s') :
    wp (writeFile path data) Q C s := by
  unfold writeFile
  simp only [wp_bind, wp_get, hp s.currentDirectory]
  unfold onStore
  rw [wp_zoom]
  refine FileStore.wp_write (fun st hf hc => ?_) (fun hc st hf => ?_) fun hc st hf => ?_
  · exact hok _ ⟨⟨st, rfl⟩, hf, hc⟩
  · refine hfail hc _ ?_
    cases hf with
    | inl hf => exact .inl ⟨⟨st, rfl⟩, hf, fun h => absurd h hc⟩
    | inr hf => exact .inr ⟨⟨st, rfl⟩, hf, fun h => absurd h hc⟩
  · exact hcut hc _ hf

theorem wp_syncMetadata {Q : Bool → PolicyState → Prop} {C : PolicyState → Prop}
    (hok : ∀ s', After s s.files s' → Q true s') (hfail : ¬s.Calm → ∀ s', After s s.files s' → Q false s')
    (hcut : ¬s.Calm → ∀ s', s'.files = s.files → C s') : wp syncMetadata Q C s := by
  unfold syncMetadata onStore
  rw [wp_zoom]
  refine FileStore.wp_sync (fun st hf hc => ?_) (fun hc st hf => ?_) fun hc st hf => ?_
  · exact hok _ ⟨⟨st, rfl⟩, hf, hc⟩
  · exact hfail hc _ ⟨⟨st, rfl⟩, hf, fun h => absurd h hc⟩
  · exact hcut hc _ hf

end Rules

/-! ### Checked writes -/

/-- How a write that is read back ends: the file was replaced or not, and it was if the write reports so. -/
structure Wrote (s : PolicyState) (path data : Bytes) (ok : Bool) (s' : PolicyState) : Prop where
  same : Same s s'
  files : s'.files = s.files ∨ s'.files = Function.update s.files path (some data)
  done : ok = true → s'.files = Function.update s.files path (some data)
  calm : s.Calm → ok = true ∧ s'.Calm

/-- What is left when such a write is cut off. -/
def WriteCut (s : PolicyState) (path data : Bytes) (s' : PolicyState) : Prop :=
  ¬s.Calm ∧ (s'.files = s.files ∨ s'.files = Function.update s.files path (some data))

theorem Wrote.of_failed {s s' : PolicyState} {path data : Bytes} (hc : ¬s.Calm)
    (h : After s s.files s' ∨ After s (Function.update s.files path (some data)) s') : Wrote s path data false s' := by
  refine ⟨?_, ?_, by simp, fun h => absurd h hc⟩
  · cases h with
    | inl h => exact h.same
    | inr h => exact h.same
  · cases h with
    | inl h => exact .inl h.files
    | inr h => exact .inr h.files

theorem clearJournal_spec (s : PolicyState) :
    wp clearJournal (Wrote s journalPath []) (WriteCut s journalPath []) s := by
  unfold clearJournal
  rw [wp_bind]
  refine wp_writeFile fixed_journalPath (fun s₁ h₁ => ?_) (fun hc s₁ h₁ => ?_) fun hc s₁ h₁ => ⟨hc, h₁⟩
  · rw [if_neg (by simp), wp_bind]
    have hcleared : s₁.files journalPath = some [] := by rw [h₁.files, Function.update_self]
    refine wp_readFile fixed_journalPath (fun b s₂ hb _ h₂ => ?_) (fun s₂ h₂ hnone => ?_) fun hc s₂ h₂ =>
      ⟨fun h => hc (h₁.calm h), .inr (h₂.trans h₁.files)⟩
    · rw [hcleared] at hb
      cases hb
      refine wp_syncMetadata (fun s₃ h₃ => ?_) (fun hc s₃ h₃ => ?_) fun hc s₃ h₃ =>
        ⟨fun h => hc (h₂.calm (h₁.calm h)), .inr (h₃.trans (h₂.files.trans h₁.files))⟩
      · have hf := h₃.files.trans (h₂.files.trans h₁.files)
        exact ⟨(h₁.same.trans h₂.same).trans h₃.same, .inr hf, fun _ => hf, fun h => ⟨rfl, h₃.calm (h₂.calm (h₁.calm h))⟩⟩
      · exact ⟨(h₁.same.trans h₂.same).trans h₃.same, .inr (h₃.files.trans (h₂.files.trans h₁.files)), by simp,
          fun h => absurd (h₂.calm (h₁.calm h)) hc⟩
    · refine ⟨h₁.same.trans h₂.same, .inr (h₂.files.trans h₁.files), by simp, fun h => ?_⟩
      exact absurd (hnone (h₁.calm h) [] hcleared) (by simp)
  · rw [if_pos (by simp)]
    exact .of_failed hc h₁

theorem restoreFile_spec (s : PolicyState) {path data : Bytes} {capacity : Nat} {keep : PolicyState → Bytes → PolicyState}
    (hp : Fixed path) (hle : data.length ≤ capacity) (hkeep : ∀ s b, Same s (keep s b) ∧ (keep s b).store = s.store) :
    wp (restoreFile path data capacity keep) (Wrote s path data) (WriteCut s path data) s := by
  unfold restoreFile
  rw [wp_bind]
  refine wp_writeFile hp (fun s₁ h₁ => ?_) (fun hc s₁ h₁ => ?_) fun hc s₁ h₁ => ⟨hc, h₁⟩
  · rw [if_neg (by simp), wp_bind]
    have hnew : s₁.files path = some data := by rw [h₁.files, Function.update_self]
    refine wp_readFile hp (fun b s₂ hb _ h₂ => ?_) (fun s₂ h₂ hnone => ?_) fun hc s₂ h₂ =>
      ⟨fun h => hc (h₁.calm h), .inr (h₂.trans h₁.files)⟩
    · rw [hnew] at hb
      cases hb
      simp only [wp_bind, wp_modify, wp_pure]
      obtain ⟨hsame, hstore⟩ := hkeep s₂ data
      have hf : (keep s₂ data).files = Function.update s.files path (some data) := by
        rw [PolicyState.files, hstore]
        exact h₂.files.trans h₁.files
      refine ⟨(h₁.same.trans h₂.same).trans hsame, .inr hf, fun _ => hf, fun h => ⟨by simp, ?_⟩⟩
      rw [PolicyState.Calm, hstore]
      exact h₂.calm (h₁.calm h)
    · refine ⟨h₁.same.trans h₂.same, .inr (h₂.files.trans h₁.files), by simp, fun h => ?_⟩
      exact absurd (hnone (h₁.calm h) data hnew) (by omega)
  · rw [if_pos (by simp)]
    exact .of_failed hc h₁

theorem versionMatches_spec (s : PolicyState) {versionPath : Bytes} {expected : Nat} (hp : Fixed versionPath) :
    wp (versionMatches versionPath expected)
      (fun ok s' => After s s.files s' ∧ (s.Calm → ∀ b, s.files versionPath = some b → b.length ≤ versionBackupBytes →
        parseNonzeroDecimal b = some expected → ok = true))
      (fun s' => ¬s.Calm ∧ s'.files = s.files) s := by
  have hstay : After s s.files s := ⟨⟨s.store, rfl⟩, rfl, id⟩
  unfold versionMatches
  refine wp_ite (fun hempty => ⟨hstay, fun _ b _ _ hb => ?_⟩) fun _ => ?_
  · cases hempty with
    | inl hempty =>
      have := hp []
      rw [hempty] at this
      cases this
    | inr hempty => exact absurd hempty (parseNonzeroDecimal_some hb).2.2.1
  · rw [wp_bind]
    refine wp_readFile hp (fun b s₁ hb _ h₁ => ?_) (fun s₁ h₁ hnone => ?_) fun hc s₁ h₁ => ⟨hc, h₁⟩
    · refine ⟨h₁, fun _ b' hb' _ hparse => ?_⟩
      rw [hb] at hb'
      cases hb'
      simpa using hparse
    · refine ⟨h₁, fun hc b hb hle _ => ?_⟩
      exact absurd (hnone hc b hb) (by omega)

/-! ### Hot journals -/

/-- The paths of a domain's files. -/
def Descriptor.owned (d : Descriptor) : List Bytes := d.livePath :: d.versionPath :: d.auxiliaryPath.toList

theorem Descriptor.fixed {d : Descriptor} (h : d ∈ descriptors) {path : Bytes} (hp : path ∈ d.owned) : Fixed path := by
  simp only [descriptors, List.mem_cons, List.not_mem_nil, or_false] at h
  intro currentDirectory
  obtain rfl | rfl | rfl := h <;>
    simp only [owned, zgdbDescriptor, zcapDescriptor, zmidDescriptor, Option.toList, List.mem_cons, List.not_mem_nil,
      or_false] at hp
  · obtain rfl | rfl := hp <;> rfl
  · obtain rfl | rfl := hp <;> rfl
  · obtain rfl | rfl | rfl := hp <;> rfl

theorem Descriptor.journalPath_notMem {d : Descriptor} (h : d ∈ descriptors) : journalPath ∉ d.owned := by
  revert d
  decide

theorem Descriptor.nodup_owned {d : Descriptor} (h : d ∈ descriptors) : d.owned.Nodup := by
  revert d
  decide

/-- The backup holds the domain's files as they are in `f₀`. -/
structure Backup (d : Descriptor) (f₀ : Files) (b : Prepared) : Prop where
  descriptor : b.descriptor = d
  policy : f₀ d.livePath = some b.policy
  version : f₀ d.versionPath = some b.version
  auxiliary : ∀ path ∈ d.auxiliaryPath, f₀ path = some b.auxiliary
  policy_le : b.policy.length ≤ d.policyCapacity
  version_le : b.version.length ≤ versionBackupBytes
  auxiliary_le : ∀ path ∈ d.auxiliaryPath, b.auxiliary.length ≤ d.auxiliaryCapacity
  parsed : parseNonzeroDecimal b.version = some b.previousVersion

/-- The journal of `f` is a record of the domain's files in `f₀`, and `f` differs from `f₀` in the journal
    and in these files only. -/
structure Hot (d : Descriptor) (f₀ f : Files) : Prop where
  journal : ∃ journal prepared, f journalPath = some journal ∧ journal.length ≤ applicationBufferBytes ∧
    validateJournal journal = some prepared ∧ Backup d f₀ prepared
  frame : ∀ path, path ≠ journalPath → path ∉ d.owned → f path = f₀ path

/-- The files are the old ones, or can be made so from the journal. -/
def Recoverable (d : Descriptor) (f₀ f : Files) : Prop := f = f₀ ∨ Hot d f₀ f

section Hot
variable {d : Descriptor} {f₀ f g : Files}

theorem Hot.write (hd : d ∈ descriptors) (h : Hot d f₀ f) {path : Bytes} (hp : path ∈ d.owned) (data : Option Bytes) :
    Hot d f₀ (Function.update f path data) := by
  have hne : journalPath ≠ path := fun he => Descriptor.journalPath_notMem hd (he ▸ hp)
  refine ⟨?_, fun q hq hq' => ?_⟩
  · rw [Function.update_of_ne hne]
    exact h.journal
  · rw [Function.update_of_ne (fun he : q = path => hq' (he ▸ hp))]
    exact h.frame q hq hq'

theorem cleared_restored (hj : f₀ journalPath = some []) (hf : ∀ path, path ≠ journalPath → f path = f₀ path) :
    Function.update f journalPath (some []) = f₀ := by
  funext path
  by_cases hp : path = journalPath
  · rw [hp, Function.update_self, hj]
  · rw [Function.update_of_ne hp, hf path hp]

end Hot

/-! ### Putting a hot journal back -/

/-- How putting the journal back ends. -/
structure Restored (d : Descriptor) (f₀ : Files) (s : PolicyState) (ok : Bool) (s' : PolicyState) : Prop where
  same : Same s s'
  files : Recoverable d f₀ s'.files
  done : ok = true → s'.files = f₀
  calm : s.Calm → ok = true ∧ s'.Calm

section Restore
variable {d : Descriptor} {f₀ : Files}

theorem Restored.of_failed {s s' : PolicyState} (hsame : Same s s') (h : Hot d f₀ s'.files) (hc : ¬s.Calm) :
    Restored d f₀ s false s' := ⟨hsame, .inr h, by simp, fun h => absurd h hc⟩

theorem Hot.wrote {s s' : PolicyState} {path data : Bytes} (hd : d ∈ descriptors) (h : Hot d f₀ s.files) (hp : path ∈ d.owned)
    (hw : s'.files = s.files ∨ s'.files = Function.update s.files path (some data)) : Hot d f₀ s'.files := by
  cases hw with
  | inl hw => exact hw ▸ h
  | inr hw => exact hw ▸ h.write hd hp _

theorem restoreAuxiliary_spec (s : PolicyState) {b : Prepared} (hd : d ∈ descriptors) (hb : Backup d f₀ b)
    (h : Hot d f₀ s.files) :
    wp (restoreAuxiliary d b.auxiliary)
      (fun ok s' => Same s s' ∧ Hot d f₀ s'.files ∧ (s.Calm → ok = true ∧ s'.Calm) ∧
        (ok = true → ∀ path, path ≠ journalPath → path ∉ [d.livePath, d.versionPath] → s'.files path = f₀ path) ∧
        (∀ path ∈ [d.livePath, d.versionPath], s'.files path = s.files path))
      (fun s' => ¬s.Calm ∧ Hot d f₀ s'.files) s := by
  unfold restoreAuxiliary
  have howned : d.owned = [d.livePath, d.versionPath] ++ d.auxiliaryPath.toList := rfl
  cases ha : d.auxiliaryPath with
  | none =>
    rw [ha] at howned
    refine ⟨.refl s, h, fun hc => ⟨rfl, hc⟩, fun _ path hj hp => h.frame path hj ?_, fun _ _ => rfl⟩
    rw [howned]
    simpa using hp
  | some aux =>
    have hmem : aux ∈ d.owned := by simp [howned, ha]
    have hnot : aux ∉ [d.livePath, d.versionPath] := by
      have hnd := Descriptor.nodup_owned hd
      rw [howned, ha, Option.toList, List.nodup_append] at hnd
      exact fun hm => hnd.2.2 aux hm aux (by simp) rfl
    refine wp_mono (restoreFile_spec s (Descriptor.fixed hd hmem) (hb.auxiliary_le aux ha) fun _ _ => ⟨⟨rfl, rfl⟩, rfl⟩)
      (fun ok s' hw => ?_) fun s' hw => ⟨hw.1, h.wrote hd hmem hw.2⟩
    refine ⟨hw.same, h.wrote hd hmem hw.files, hw.calm, fun hok path hj hp => ?_, fun path hp => ?_⟩
    · rw [hw.done hok]
      by_cases hpa : path = aux
      · rw [hpa, Function.update_self, hb.auxiliary aux ha]
      · rw [Function.update_of_ne hpa]
        refine h.frame path hj ?_
        rw [howned, ha, List.mem_append, not_or]
        exact ⟨hp, by simpa using hpa⟩
    · cases hw.files with
      | inl hf => rw [hf]
      | inr hf => rw [hf, Function.update_of_ne (fun he : path = aux => hnot (he ▸ hp))]

theorem finishRestore_spec (s : PolicyState) (hj : f₀ journalPath = some []) (h : Hot d f₀ s.files)
    (hold : ∀ path, path ≠ journalPath → s.files path = f₀ path) :
    wp (finishRestore d) (Restored d f₀ s) (fun s' => ¬s.Calm ∧ Recoverable d f₀ s'.files) s := by
  have hcleared := cleared_restored hj hold
  unfold finishRestore
  rw [wp_bind]
  refine wp_syncMetadata (fun s₁ h₁ => ?_) (fun hc s₁ h₁ => ?_) fun hc s₁ h₁ => ⟨hc, .inr (h₁ ▸ h)⟩
  · rw [if_neg (by simp)]
    simp only [wp_bind, wp_modify]
    -- clearing the journal leaves it hot or makes the files the old ones
    have hsplit : ∀ s' : PolicyState, (s'.files = s₁.files ∨ s'.files = Function.update s₁.files journalPath (some [])) →
        Recoverable d f₀ s'.files := by
      intro s' hs'
      rw [h₁.files, hcleared] at hs'
      cases hs' with
      | inl hs' => exact .inr (hs' ▸ h)
      | inr hs' => exact .inl hs'
    refine wp_mono (clearJournal_spec _) (fun ok s₂ w => ?_) fun s₂ w => ⟨fun hc => w.1 (h₁.calm hc), hsplit s₂ w.2⟩
    have hsame : Same s s₂ := h₁.same.trans ⟨w.same.currentDirectory, w.same.audit⟩
    have hcalm : s.Calm → ok = true ∧ s₂.Calm := fun hc => w.calm (h₁.calm hc)
    refine wp_ite (fun hok => ⟨hsame, hsplit s₂ w.files, by simp, fun hc => ?_⟩) fun hok => ?_
    · simp [(hcalm hc).1] at hok
    · have hdone : s₂.files = f₀ := (w.done (by simpa using hok)).trans (h₁.files ▸ hcleared)
      exact ⟨⟨hsame.1, hsame.2⟩, .inl hdone, fun _ => hdone, fun hc => ⟨rfl, (hcalm hc).2⟩⟩
  · rw [if_pos (by simp)]
    exact .of_failed h₁.same (h₁.files ▸ h) hc

theorem restorePrepared_spec (s : PolicyState) {b : Prepared} (hd : d ∈ descriptors) (hj : f₀ journalPath = some [])
    (hb : Backup d f₀ b) (h : Hot d f₀ s.files) :
    wp (restorePrepared b) (Restored d f₀ s) (fun s' => ¬s.Calm ∧ Recoverable d f₀ s'.files) s := by
  obtain ⟨d', policy, version, auxiliary, previous⟩ := b
  obtain rfl : d' = d := hb.descriptor
  have hlive : d'.livePath ∈ d'.owned := by simp [Descriptor.owned]
  have hversion : d'.versionPath ∈ d'.owned := by simp [Descriptor.owned]
  have hlv : d'.livePath ≠ d'.versionPath := by
    have := Descriptor.nodup_owned hd
    simp only [Descriptor.owned, List.nodup_cons, List.mem_cons, not_or] at this
    exact this.1.1
  unfold restorePrepared
  dsimp only
  -- the policy
  refine wp_seq (restoreFile_spec s (Descriptor.fixed hd hlive) hb.policy_le fun _ _ => ⟨⟨rfl, rfl⟩, rfl⟩)
    (fun s' hw => ⟨hw.1, .inr (h.wrote hd hlive hw.2)⟩) fun ok₁ s₁ w₁ => ?_
  have h₁ := h.wrote hd hlive w₁.files
  refine wp_ite (fun hok => .of_failed w₁.same h₁ fun hc => by simp [(w₁.calm hc).1] at hok) fun hok₁ => ?_
  simp only [Bool.not_eq_true, Bool.not_eq_false'] at hok₁
  -- the version
  refine wp_seq (restoreFile_spec s₁ (Descriptor.fixed hd hversion) hb.version_le fun _ _ => ⟨⟨rfl, rfl⟩, rfl⟩)
    (fun s' hw => ⟨fun hc => hw.1 (w₁.calm hc).2, .inr (h₁.wrote hd hversion hw.2)⟩) fun ok₂ s₂ w₂ => ?_
  have h₂ := h₁.wrote hd hversion w₂.files
  have hsame₂ := w₁.same.trans w₂.same
  have hcalm₂ : s.Calm → ok₂ = true ∧ s₂.Calm := fun hc => w₂.calm (w₁.calm hc).2
  refine wp_ite (fun hok => .of_failed hsame₂ h₂ fun hc => by simp [(hcalm₂ hc).1] at hok) fun hok₂ => ?_
  simp only [Bool.not_eq_true, Bool.not_eq_false'] at hok₂
  have hf₂ : s₂.files d'.versionPath = some version := by rw [w₂.done hok₂, Function.update_self]
  refine wp_seq (versionMatches_spec s₂ (Descriptor.fixed hd hversion))
    (fun s' hv => ⟨fun hc => hv.1 (hcalm₂ hc).2, .inr (hv.2 ▸ h₂)⟩) fun ok₃ s₃ w₃ => ?_
  have h₃ : Hot d' f₀ s₃.files := w₃.1.files ▸ h₂
  have hsame₃ := hsame₂.trans w₃.1.same
  have hcalm₃ : s.Calm → ok₃ = true ∧ s₃.Calm := fun hc =>
    ⟨w₃.2 (hcalm₂ hc).2 version hf₂ hb.version_le hb.parsed, w₃.1.calm (hcalm₂ hc).2⟩
  refine wp_ite (fun hok => .of_failed hsame₃ h₃ fun hc => by simp [(hcalm₃ hc).1] at hok) fun hok₃ => ?_
  -- the auxiliary file
  refine wp_seq (restoreAuxiliary_spec s₃ hd hb h₃)
    (fun s' ha => ⟨fun hc => ha.1 (hcalm₃ hc).2, .inr ha.2⟩) fun ok₄ s₄ w₄ => ?_
  obtain ⟨hsame₄, h₄, hcalm₄, hrest, hkept⟩ := w₄
  have hsame₄ := hsame₃.trans hsame₄
  have hcalm₄ : s.Calm → ok₄ = true ∧ s₄.Calm := fun hc => hcalm₄ (hcalm₃ hc).2
  refine wp_ite (fun hok => .of_failed hsame₄ h₄ fun hc => by simp [(hcalm₄ hc).1] at hok) fun hok₄ => ?_
  simp only [Bool.not_eq_true, Bool.not_eq_false'] at hok₄
  have hold : ∀ path, path ≠ journalPath → s₄.files path = f₀ path := by
    intro path hpj
    by_cases hp : path ∈ [d'.livePath, d'.versionPath]
    · rw [hkept path hp, w₃.1.files, w₂.done hok₂]
      simp only [List.mem_cons, List.not_mem_nil, or_false] at hp
      obtain rfl | rfl := hp
      · rw [Function.update_of_ne hlv, w₁.done hok₁, Function.update_self, hb.policy]
      · rw [Function.update_self, hb.version]
    · exact hrest hok₄ path hpj hp
  refine wp_mono (finishRestore_spec s₄ hj h₄ hold) (fun ok s' w => ?_) fun s' w =>
    ⟨fun hc => w.1 (hcalm₄ hc).2, w.2⟩
  exact ⟨hsame₄.trans w.same, w.files, w.done, fun hc => w.calm (hcalm₄ hc).2⟩

theorem restoreHotJournal_spec (s : PolicyState) (hd : d ∈ descriptors) (hj : f₀ journalPath = some [])
    (h : Hot d f₀ s.files) :
    wp restoreHotJournal (Restored d f₀ s) (fun s' => ¬s.Calm ∧ Recoverable d f₀ s'.files) s := by
  obtain ⟨journal, prepared, hjournal, hle, hvalid, hb⟩ := h.journal
  unfold restoreHotJournal
  rw [wp_bind]
  refine wp_readFile fixed_journalPath (fun b s₁ hb₁ _ h₁ => ?_) (fun s₁ h₁ hnone => ?_) fun hc s₁ h₁ =>
    ⟨hc, .inr (h₁ ▸ h)⟩
  · rw [hjournal] at hb₁
    cases hb₁
    cases journal with
    | nil => cases hvalid
    | cons x rest =>
      dsimp only
      rw [hvalid]
      refine wp_mono (restorePrepared_spec s₁ hd hj hb (h₁.files ▸ h)) (fun ok s' w => ?_) fun s' w =>
        ⟨fun hc => w.1 (h₁.calm hc), w.2⟩
      exact ⟨h₁.same.trans w.same, w.files, w.done, fun hc => w.calm (h₁.calm hc)⟩
  · exact .of_failed h₁.same (h₁.files ▸ h) fun hc => absurd (hnone hc journal hjournal) (by omega)

theorem recoverPending_spec (s : PolicyState) (hd : d ∈ descriptors) (hj : f₀ journalPath = some [])
    (h : Recoverable d f₀ s.files) :
    wp recoverPending
      (fun ok s' => Recoverable d f₀ s'.files ∧ (ok = true → s'.files = f₀) ∧ (s.Calm → s.busy = false → ok = true))
      (fun s' => ¬s.Calm ∧ Recoverable d f₀ s'.files) s := by
  unfold recoverPending
  simp only [wp_bind, wp_get]
  refine wp_ite (fun hbusy => ⟨h, by simp, fun _ hb => ?_⟩) fun hbusy => ?_
  · simp [hb] at hbusy
  · simp only [wp_bind, wp_modify]
    refine wp_readFile fixed_journalPath (fun b s₁ hb₁ _ h₁ => ?_) (fun s₁ h₁ hnone => ?_) fun hc s₁ h₁ =>
      ⟨hc, by rw [h₁]; exact h⟩
    · have hf : s₁.files = s.files := h₁.files
      have hb : s.files journalPath = some b := hb₁
      cases h with
      | inl h =>
        rw [h, hj] at hb
        cases hb
        exact ⟨.inl (hf.trans h), fun _ => hf.trans h, fun _ _ => rfl⟩
      | inr h =>
        obtain ⟨journal, prepared, hjournal, -, hvalid, -⟩ := h.journal
        rw [hjournal] at hb
        cases hb
        cases b with
        | nil => cases hvalid
        | cons x rest =>
          dsimp only
          refine wp_mono (restoreHotJournal_spec s₁ hd hj (hf ▸ h)) (fun ok s' w => ?_) fun s' w =>
            ⟨fun hc => w.1 (h₁.calm hc), w.2⟩
          exact ⟨w.files, w.done, fun hc _ => (w.calm (h₁.calm hc)).1⟩
    · refine ⟨by rw [h₁.files]; exact h, by simp, fun hc _ => ?_⟩
      -- without faults an empty or a hot journal is read
      have hlong := hnone hc
      cases h with
      | inl h => exact absurd (hlong [] (by rw [← hj, ← h]; rfl)) (by simp)
      | inr h =>
        obtain ⟨journal, -, hjournal, hle, -⟩ := h.journal
        exact absurd (hlong journal hjournal) (by omega)

end Restore

end ZenovOS.Security
