import Mathlib.Data.List.Perm.Subperm
import ZenovOS.Theorems.Package.Repository

/-! # Signature thresholds

`verify_threshold` counts the ids of keys. The signatures that it counts are made under as many different keys as long as the
keys of a role of two have different moduli, which `parse_root` does not ask for. -/

namespace ZenovOS.Package.Repository
open Bytes Storage Security Mach

variable {verify : Bytes → Bytes → Bytes → Bool} {trust : RootTrust} {spec : RoleSpec} {role : Nat} {data digest : Bytes}

/-! ### What is counted -/

/-- A signature for this key id verifies. -/
def SignedAs (verify : Bytes → Bytes → Bytes → Bool) (trust : RootTrust) (signatures : List Signature) (digest id : Bytes) : Prop :=
  ∃ signature ∈ signatures, signature.keyId = id ∧
    ∃ key, findKey trust id = some key ∧ verify signature.bytes digest key.modulus = true

theorem SignedAs.cons {signatures : List Signature} {id : Bytes} (signature : Signature)
    (h : SignedAs verify trust signatures digest id) : SignedAs verify trust (signature :: signatures) digest id := by
  obtain ⟨found, hmem, hrest⟩ := h
  exact ⟨found, List.mem_cons_of_mem _ hmem, hrest⟩

theorem mem_acceptSignatures {id : Bytes} (signatures : List Signature) (accepted : List Bytes) :
    id ∈ acceptSignatures verify trust spec digest signatures accepted ↔
      id ∈ accepted ∨ (id ∈ spec.ids ∧ SignedAs verify trust signatures digest id) := by
  induction signatures generalizing accepted with
  | nil =>
    refine ⟨.inl, fun h => h.resolve_right fun hsigned => ?_⟩
    obtain ⟨-, signature, hmem, -⟩ := hsigned
    cases hmem
  | cons signature rest ih =>
    have hhead : ∀ {key : KeyRecord}, signature.keyId = id → findKey trust id = some key →
        verify signature.bytes digest key.modulus = true → SignedAs verify trust (signature :: rest) digest id :=
      fun hid hkey hverify => ⟨signature, List.mem_cons_self .., hid, _, hkey, hverify⟩
    unfold acceptSignatures
    split
    · rename_i h
      simp only [Bool.and_eq_true, List.contains_iff_mem, Option.any_eq_true] at h
      obtain ⟨⟨hrole, -⟩, key, hkey, hverify⟩ := h
      rw [ih, List.mem_append, List.mem_singleton]
      constructor
      · rintro ((hold | rfl) | ⟨hid, hsigned⟩)
        · exact .inl hold
        · exact .inr ⟨hrole, hhead rfl hkey hverify⟩
        · exact .inr ⟨hid, hsigned.cons signature⟩
      · rintro (hold | ⟨hid, found, hmem, hfound, hrest⟩)
        · exact .inl (.inl hold)
        · rcases List.mem_cons.mp hmem with rfl | hmem
          · exact .inl (.inr hfound.symm)
          · exact .inr ⟨hid, found, hmem, hfound, hrest⟩
    · rename_i h
      rw [ih]
      constructor
      · rintro (hold | ⟨hid, hsigned⟩)
        · exact .inl hold
        · exact .inr ⟨hid, hsigned.cons signature⟩
      · rintro (hold | ⟨hid, found, hmem, hfound, key, hkey, hverify⟩)
        · exact .inl hold
        · rcases List.mem_cons.mp hmem with rfl | hmem
          · -- the signature was passed over, so its id was counted before
            subst hfound
            by_cases hold : found.keyId ∈ accepted
            · exact .inl hold
            · refine absurd ?_ h
              simp only [Bool.and_eq_true, List.contains_iff_mem, Option.any_eq_true, Bool.not_eq_true']
              exact ⟨⟨hid, by simpa using hold⟩, key, hkey, hverify⟩
          · exact .inr ⟨hid, found, hmem, hfound, key, hkey, hverify⟩

/-- The ids that `verify_threshold` counts for a document. -/
def countedIds (verify : Bytes → Bytes → Bytes → Bool) (trust : RootTrust) (spec : RoleSpec) (data : Bytes) : List Bytes :=
  acceptSignatures verify trust spec (sha256 (messageOf data)) (signaturesOf data) []

theorem mem_countedIds {id : Bytes} : id ∈ countedIds verify trust spec data ↔
    id ∈ spec.ids ∧ SignedAs verify trust (signaturesOf data) (sha256 (messageOf data)) id := by
  unfold countedIds
  rw [mem_acceptSignatures]
  simp

theorem countedIds_nodup : (countedIds verify trust spec data).Nodup :=
  (acceptSignatures_sound (signaturesOf data) [] List.nodup_nil fun _ h => nomatch h).1

theorem thresholdMet_iff : thresholdMet verify trust role data = true ↔
    ∃ spec, findRole trust role = some spec ∧ spec.threshold ≠ 0 ∧ spec.threshold ≤ spec.keyCount ∧ spec.keyCount ≤ 2 ∧
      spec.threshold ≤ (countedIds verify trust spec data).length := by
  unfold thresholdMet
  cases findRole trust role with
  | none => simp
  | some spec =>
    simp only [Option.some.injEq, exists_eq_left']
    split
    · rename_i h
      constructor
      · intro hfalse
        cases hfalse
      · rintro ⟨hzero, hcount, htwo, -⟩
        omega
    · rename_i h
      simp only [not_or, not_lt] at h
      rw [decide_eq_true_iff]
      exact ⟨fun hlength => ⟨h.1, h.2.1, h.2.2, hlength⟩, fun hall => hall.2.2.2⟩

theorem verifyThreshold_run {g : Globals} {envelope : Envelope} {role' : Nat} (hs : Shows g data)
    (hp : parseEnvelope data role' = .ok envelope) :
    (verifyThreshold verify envelope trust role).run g = (some (.ok (thresholdMet verify trust role data)), g) := by
  have hwp : wpExcept (verifyThreshold verify envelope trust role) (fun met g' => met = thresholdMet verify trust role data ∧ g' = g)
      (fun _ _ => False) (fun _ => False) g := wp_verifyThreshold hs (wrapped_of_parse hp) ⟨rfl, rfl⟩
  obtain ⟨result, g', hrun, hend⟩ := wp_ends hwp
  cases result with
  | error validation => exact hend.elim
  | ok met =>
    obtain ⟨rfl, rfl⟩ := hend
    exact hrun

/-! ### Different keys -/

/-- As many signatures as the threshold asks for, under different moduli. -/
def DifferentKeys (verify : Bytes → Bytes → Bytes → Bool) (trust : RootTrust) (spec : RoleSpec) (data : Bytes) : Prop :=
  ∃ moduli : List Bytes, moduli.Nodup ∧ spec.threshold ≤ moduli.length ∧ ∀ modulus ∈ moduli,
    ∃ signature ∈ signaturesOf data, signature.keyId ∈ spec.ids ∧
      ∃ key, findKey trust signature.keyId = some key ∧ key.modulus = modulus ∧
        verify signature.bytes (sha256 (messageOf data)) modulus = true

/-- A role of two keys with one modulus, and a signature that verifies for each. -/
structure OneKeyTwice (verify : Bytes → Bytes → Bytes → Bool) (trust : RootTrust) (spec : RoleSpec) (data id id' : Bytes) : Prop where
  threshold : spec.threshold = 2
  ids : spec.ids = [id, id']
  ne : id ≠ id'
  modulus : (findKey trust id).map (·.modulus) = (findKey trust id').map (·.modulus)
  signed : SignedAs verify trust (signaturesOf data) (sha256 (messageOf data)) id
  signed' : SignedAs verify trust (signaturesOf data) (sha256 (messageOf data)) id'

theorem OneKeyTwice.met {id id' : Bytes} (h : OneKeyTwice verify trust spec data id id') (hrole : findRole trust role = some spec) :
    thresholdMet verify trust role data = true := by
  have hcount : spec.keyCount = 2 := by
    have hlength := congrArg List.length h.ids
    unfold RoleSpec.ids at hlength
    rw [List.length_map, List.length_range] at hlength
    exact hlength
  have hsub : [id, id'] ⊆ countedIds verify trust spec data := by
    intro x hx
    rw [mem_countedIds, h.ids]
    refine ⟨hx, ?_⟩
    simp only [List.mem_cons, List.not_mem_nil, or_false] at hx
    rcases hx with rfl | rfl
    · exact h.signed
    · exact h.signed'
  have hnodup : [id, id'].Nodup := by simp [h.ne]
  have htwo : 2 ≤ (countedIds verify trust spec data).length := (List.subperm_of_subset hnodup hsub).length_le
  have hthreshold := h.threshold
  exact thresholdMet_iff.mpr ⟨spec, hrole, by omega, by omega, by omega, by omega⟩

theorem OneKeyTwice.not_differentKeys {id id' : Bytes} (h : OneKeyTwice verify trust spec data id id') :
    ¬DifferentKeys verify trust spec data := by
  rintro ⟨moduli, hnodup, hlength, hall⟩
  obtain ⟨-, -, -, key, hkey, -⟩ := h.signed
  have hsame : ∀ modulus ∈ moduli, modulus = key.modulus := by
    intro modulus hmem
    obtain ⟨signature, -, hid, found, hfound, rfl, -⟩ := hall modulus hmem
    have hmodulus : (findKey trust id').map (·.modulus) = some key.modulus := by rw [← h.modulus, hkey, Option.map_some]
    rw [h.ids] at hid
    simp only [List.mem_cons, List.not_mem_nil, or_false] at hid
    rcases hid with hid | hid
    · rw [hid, hkey] at hfound
      rw [Option.some.inj hfound]
    · rw [hid] at hfound
      rw [hfound, Option.map_some] at hmodulus
      exact Option.some.inj hmodulus
  have hone : moduli.length ≤ 1 := by
    have hsub : moduli ⊆ [key.modulus] := fun modulus hmem => List.mem_singleton.mpr (hsame modulus hmem)
    exact (List.subperm_of_subset hnodup hsub).length_le
  rw [h.threshold] at hlength
  omega

theorem signature_of_counted {id : Bytes} (h : id ∈ countedIds verify trust spec data) :
    ∃ key, findKey trust id = some key ∧ ∃ signature ∈ signaturesOf data, signature.keyId ∈ spec.ids ∧
      ∃ found, findKey trust signature.keyId = some found ∧ found.modulus = key.modulus ∧
        verify signature.bytes (sha256 (messageOf data)) key.modulus = true := by
  obtain ⟨hid, signature, hmem, hkeyId, key, hkey, hverify⟩ := mem_countedIds.mp h
  refine ⟨key, hkey, signature, hmem, by rw [hkeyId]; exact hid, key, by rw [hkeyId]; exact hkey, rfl, hverify⟩

theorem differentKeys_of_met (hmet : spec.threshold ≤ (countedIds verify trust spec data).length) (hzero : spec.threshold ≠ 0)
    (hcount : spec.threshold ≤ spec.keyCount) (htwo : spec.keyCount ≤ 2)
    (hno : ∀ id id', ¬OneKeyTwice verify trust spec data id id') : DifferentKeys verify trust spec data := by
  have hthreshold : spec.threshold = 1 ∨ spec.threshold = 2 := by omega
  rcases hthreshold with hone | hboth
  · obtain ⟨id, hid⟩ := List.exists_mem_of_length_pos (by omega : 0 < (countedIds verify trust spec data).length)
    obtain ⟨key, -, hsignature⟩ := signature_of_counted hid
    refine ⟨[key.modulus], List.pairwise_singleton _ _, Nat.le_of_eq hone, fun modulus hmem => ?_⟩
    rw [List.mem_singleton.mp hmem]
    exact hsignature
  · have hkeys : spec.keyCount = 2 := by omega
    obtain ⟨id, id', hids⟩ : ∃ id id', spec.ids = [id, id'] := by
      unfold RoleSpec.ids
      rw [hkeys]
      exact ⟨_, _, rfl⟩
    have hsub : countedIds verify trust spec data ⊆ [id, id'] := fun x hx => hids ▸ (mem_countedIds.mp hx).1
    have hall : [id, id'] ⊆ countedIds verify trust spec data := by
      have hperm := (List.subperm_of_subset countedIds_nodup hsub).perm_of_length_le (by rw [hboth] at hmet; exact hmet)
      exact fun x hx => hperm.mem_iff.mpr hx
    have hne : id ≠ id' := by
      have hnodup := (List.subperm_of_subset countedIds_nodup hsub).perm_of_length_le (by rw [hboth] at hmet; exact hmet)
      have hpair := hnodup.nodup_iff.mp countedIds_nodup
      simpa using hpair
    obtain ⟨key, hkey, hsignature⟩ := signature_of_counted (hall (List.mem_cons_self ..))
    obtain ⟨key', hkey', hsignature'⟩ := signature_of_counted (hall (List.mem_cons_of_mem _ (List.mem_cons_self ..)))
    have hmodulus : key.modulus ≠ key'.modulus := by
      intro hsame
      refine hno id id' ⟨hboth, hids, hne, ?_, (mem_countedIds.mp (hall (List.mem_cons_self ..))).2,
        (mem_countedIds.mp (hall (List.mem_cons_of_mem _ (List.mem_cons_self ..)))).2⟩
      rw [hkey, hkey', Option.map_some, Option.map_some, hsame]
    refine ⟨[key.modulus, key'.modulus], by simp [hmodulus], Nat.le_of_eq hboth, fun modulus hmem => ?_⟩
    simp only [List.mem_cons, List.not_mem_nil, or_false] at hmem
    rcases hmem with rfl | rfl
    · exact hsignature
    · exact hsignature'

/-- A document that `verify_threshold` accepts is signed under as many different keys of the role as the threshold asks for
    exactly when no modulus stands behind both keys of a role that needs two, with a signature for each. -/
theorem threshold_differentKeys_iff {g : Globals} {envelope : Envelope} {role' : Nat} (hs : Shows g data)
    (hp : parseEnvelope data role' = .ok envelope) :
    ((verifyThreshold verify envelope trust role).run g = (some (.ok true), g) →
        ∃ spec, findRole trust role = some spec ∧ DifferentKeys verify trust spec data) ↔
      ∀ spec id id', findRole trust role = some spec → ¬OneKeyTwice verify trust spec data id id' := by
  rw [verifyThreshold_run hs hp]
  constructor
  · intro hkeys spec id id' hrole htwice
    obtain ⟨found, hfound, hdifferent⟩ := hkeys (by rw [htwice.met hrole])
    obtain rfl : spec = found := Option.some.inj (hrole.symm.trans hfound)
    exact htwice.not_differentKeys hdifferent
  · intro hno hrun
    have hmet : thresholdMet verify trust role data = true := by simpa using hrun
    obtain ⟨spec, hrole, hzero, hcount, htwo, hlength⟩ := thresholdMet_iff.mp hmet
    exact ⟨spec, hrole, differentKeys_of_met hlength hzero hcount htwo fun id id' => hno spec id id' hrole⟩

/-! #### One key under two ids -/

/-- A modulus of 2048 bits. -/
def twiceModulus : Bytes := (le 256
  0x9e21e561d668d6e918cae9fac327f8dcf3dc00c2abfbbc10a6f3cd4dbd472ff4f0ff33a19e0b8b08fe14a325c7d03801e9827fd04eded8add9c346c31a918c423fcfa4cdcb8e08bac4e9fa739d09aecefeb45f6f86155a92426f1f8cc2407317e8119611fdb192b690ba6229a3912d9efd712c5022db62dbc3fd2c0cf8e8aff8f14c22ca75d3b107acc1e7c4757af198ec7cb095bd187109bba435e28ed519fafc46227c06f98559a1f20170253a416f3e5b0708f6b1f94b952a6d3ba1fdbe2af1762aa5968c6340c63072621f6daca3f884205608444aaddce618d942b6ca08e48680082621a3f92b1ba957a5cd1954fbfe5ac40e596cf172c0e3530e34067f).reverse

/-- The signature of `twiceDocument` under that modulus. -/
def twiceSignature : Bytes := (le 256
  0x352a9969b7db6f42237c021943dfa376e2107e71ae94a4a3a5e39e9bbd25fc4dcdab3cba349869ee01d7d0f5f48322fa2ca1096fd01148b44cc18b4d458cb36e2ac5ff45034bca2a05f7d5487c78fdf9d5c04661daf91bcac16555cc755c6a5a31031db1a2fb0c927d576a38e12472e5bb6b7eb986bf87ada088eb442aeb7e94cef0482181830877116aa5574fbac2365714b94ca288eb7f5bb5cc23946f1ff432d706802c3ca50f575fec3c8b72a3b4f286ad78cc504372f822cfc73114400302dc8ba40b6fdb5cd977206348cecd0a7bebed7fd35ea3852b3b621fe0b28991f746f009f7cde309a11f908426834bd87586ceba8a59519552fe6d1c920cb5fa).reverse

/-- A root in which a role has the ids 1 and 2, and both have one modulus. -/
def twiceRoot : Bytes :=
  le 4 1 ++ le 4 2 ++ le 4 1 ++ le 4 0 ++ (le 8 1 ++ twiceModulus) ++ (le 8 2 ++ twiceModulus) ++
    (le 2 roleTargets ++ le 2 2 ++ le 2 2 ++ le 2 0 ++ le 8 1 ++ le 8 2)

def twiceSpec : RoleSpec := ⟨roleTargets, 2, 2, 0, le 8 1 ++ le 8 2⟩

def twiceTrust : RootTrust := ⟨[⟨le 8 1, twiceModulus⟩, ⟨le 8 2, twiceModulus⟩], [twiceSpec], 1⟩

/-- A document that is signed twice by one key. -/
def twiceDocument : Bytes :=
  ascii "ZRM1" ++ le 2 1 ++ le 2 roleTargets ++ le 4 1 ++ le 8 (2 ^ 32) ++ le 4 1 ++ le 2 2 ++ le 2 2 ++
    sampleDigest 0x6e340b9cffb37a989ca544e6bb780a2c78901d3fb33738768511a30617afa01d ++ le 4 0 ++ [0] ++
    (le 8 1 ++ twiceSignature) ++ (le 8 2 ++ twiceSignature)

/-- RSA-PSS, as far as this document goes. -/
def twiceVerify (signature digest modulus : Bytes) : Bool :=
  signature = twiceSignature && digest = sha256 (messageOf twiceDocument) && modulus = twiceModulus

section Twice
set_option maxRecDepth 100000

theorem twice_parsed :
    parseRootBody twiceRoot 1 = .ok twiceTrust ∧ (parseEnvelope twiceDocument roleTargets).toOption.isSome = true ∧
      signaturesOf twiceDocument = [⟨le 8 1, twiceSignature⟩, ⟨le 8 2, twiceSignature⟩] := by
  decide +kernel

end Twice

theorem twice_oneKeyTwice : OneKeyTwice twiceVerify twiceTrust twiceSpec twiceDocument (le 8 1) (le 8 2) where
  threshold := rfl
  ids := by decide
  ne := by decide
  modulus := rfl
  signed := by
    rw [twice_parsed.2.2]
    exact ⟨_, List.mem_cons_self .., rfl, ⟨le 8 1, twiceModulus⟩, rfl, by simp [twiceVerify]⟩
  signed' := by
    rw [twice_parsed.2.2]
    exact ⟨_, List.mem_cons_of_mem _ (List.mem_cons_self ..), rfl, ⟨le 8 2, twiceModulus⟩, rfl, by simp [twiceVerify]⟩

/-- A role of one key. -/
def soleSpec : RoleSpec := ⟨roleTargets, 1, 1, 0, le 8 1 ++ le 8 0⟩

def soleTrust : RootTrust := ⟨[⟨le 8 1, twiceModulus⟩], [soleSpec], 1⟩

theorem threshold_differentKeys_sample :
    ∃ spec, findRole soleTrust roleTargets = some spec ∧ DifferentKeys twiceVerify soleTrust spec twiceDocument := by
  obtain ⟨envelope, hp⟩ := enveloped_of_isSome twice_parsed.2.1
  have hs : Shows { sampleGlobals 1 0 with metadataBuffer := some twiceDocument } twiceDocument := ⟨_, rfl, List.prefix_rfl⟩
  have hcounted : le 8 1 ∈ countedIds twiceVerify soleTrust soleSpec twiceDocument := by
    rw [mem_countedIds]
    refine ⟨by decide, ⟨le 8 1, twiceSignature⟩, ?_, rfl, ⟨le 8 1, twiceModulus⟩, rfl, by simp [twiceVerify]⟩
    rw [twice_parsed.2.2]
    exact List.mem_cons_self ..
  have hrole : findRole soleTrust roleTargets = some soleSpec := rfl
  have hmet : thresholdMet twiceVerify soleTrust roleTargets twiceDocument = true :=
    thresholdMet_iff.mpr ⟨soleSpec, hrole, by decide, by decide, by decide, List.length_pos_of_mem hcounted⟩
  refine (threshold_differentKeys_iff hs hp).mpr (fun spec id id' hspec htwice => ?_) ?_
  · obtain rfl : soleSpec = spec := Option.some.inj (hrole.symm.trans hspec)
    exact absurd htwice.threshold (by decide)
  · rw [verifyThreshold_run hs hp, hmet]

/-- Two signatures of one key meet a threshold of two. -/
theorem threshold_of_one_key :
    ¬∀ (verify : Bytes → Bytes → Bytes → Bool) (root data : Bytes) (version role role' : Nat) (trust : RootTrust)
        (envelope : Envelope) (g : Globals), parseRootBody root version = .ok trust → parseEnvelope data role' = .ok envelope →
        Shows g data → (verifyThreshold verify envelope trust role).run g = (some (.ok true), g) →
        ∃ spec, findRole trust role = some spec ∧ DifferentKeys verify trust spec data := by
  intro hall
  obtain ⟨envelope, hp⟩ := enveloped_of_isSome twice_parsed.2.1
  have hs : Shows { sampleGlobals 1 0 with metadataBuffer := some twiceDocument } twiceDocument := ⟨_, rfl, List.prefix_rfl⟩
  have hrole : findRole twiceTrust roleTargets = some twiceSpec := rfl
  obtain ⟨spec, hspec, hdifferent⟩ := hall twiceVerify twiceRoot twiceDocument 1 roleTargets roleTargets twiceTrust envelope _
    twice_parsed.1 hp hs (by rw [verifyThreshold_run hs hp, twice_oneKeyTwice.met hrole])
  obtain rfl : twiceSpec = spec := Option.some.inj (hrole.symm.trans hspec)
  exact twice_oneKeyTwice.not_differentKeys hdifferent

end ZenovOS.Package.Repository
