import ZenovOS.Security.RansomwarePolicy
import ZenovOS.Theorems.Storage.Path

/-! # What an update of the ransomware policy leaves to the next start

An update writes the policy, then its version, and takes them back in the same order. The pair of files is
harmless as long as the version is not ahead of the policy, which it is when only the first of the two
restoring writes has landed behind the version. -/

namespace ZenovOS.Security.Ransomware
open Bytes Mach FileStore

/-! ### The version file -/

theorem parseDigits_append (digits : Bytes) (b : UInt8) (value : Nat) :
    parseDigits (digits ++ [b]) value = (parseDigits digits value).bind (parseDigits [b]) := by
  induction digits generalizing value with
  | nil => rfl
  | cons d digits ih =>
    simp only [List.cons_append, parseDigits]
    split
    · rfl
    · split
      · rfl
      · exact ih _

theorem parseDigits_digit {value : Nat} (h : value ≤ u32Max) :
    parseDigits [UInt8.ofNat (48 + value % 10)] (value / 10) = some value := by
  have hd : (UInt8.ofNat (48 + value % 10)).toNat = 48 + value % 10 := by
    rw [UInt8.toNat_ofNat']
    omega
  have h48 : ¬UInt8.ofNat (48 + value % 10) < 48 := by
    rw [UInt8.lt_iff_toNat_lt, hd]
    simp
  have h57 : ¬57 < UInt8.ofNat (48 + value % 10) := by
    rw [UInt8.lt_iff_toNat_lt, hd]
    simp
    omega
  have hsub : (UInt8.ofNat (48 + value % 10) - 48).toNat = value % 10 := by
    rw [UInt8.toNat_sub_of_le _ _ (by rw [UInt8.le_iff_toNat_le, hd]; simp), hd]
    simp
  simp only [parseDigits, h48, h57, or_self, if_false, hsub]
  rw [if_neg (by simp only [u32Max] at h ⊢; omega)]
  simp only [Option.some.injEq]
  omega

theorem parseDigits_versionDigits {room value : Nat} (hroom : value < 10 ^ room) (hpos : room ≠ 0) (h : value ≤ u32Max) :
    parseDigits (versionDigits room value) 0 = some value := by
  induction room generalizing value with
  | zero => exact absurd rfl hpos
  | succ room ih =>
    rw [versionDigits, parseDigits_append]
    split
    · rename_i hz
      have := parseDigits_digit h
      rw [hz] at this
      simpa [parseDigits] using this
    · rename_i hz
      have hlt : value / 10 < 10 ^ room := by
        rw [Nat.div_lt_iff_lt_mul (by omega)]
        rwa [← Nat.pow_succ]
      have hroom0 : room ≠ 0 := by
        rintro rfl
        exact hz (by omega)
      rw [ih hlt hroom0 (by omega), Option.bind_some]
      exact parseDigits_digit h

theorem length_versionDigits (room value : Nat) : (versionDigits room value).length ≤ room := by
  induction room generalizing value with
  | zero => exact Nat.le_refl 0
  | succ room ih =>
    rw [versionDigits]
    split
    · simp
    · simpa using ih (value / 10)

theorem versionDigits_ne_nil {room : Nat} (h : room ≠ 0) (value : Nat) : versionDigits room value ≠ [] := by
  cases room with
  | zero => exact absurd rfl h
  | succ room => simp [versionDigits]

theorem head?_versionDigits {room value : Nat} (hroom : value < 10 ^ room) (h : value ≠ 0) :
    (versionDigits room value).head? ≠ some 48 := by
  induction room generalizing value with
  | zero =>
    simp only [Nat.pow_zero, Nat.lt_one_iff] at hroom
    exact absurd hroom h
  | succ room ih =>
    rw [versionDigits]
    split
    · intro hd
      simp only [List.nil_append, List.head?_cons, Option.some.injEq] at hd
      have := congrArg UInt8.toNat hd
      rw [UInt8.toNat_ofNat'] at this
      simp at this
      omega
    · rename_i hz
      have hlt : value / 10 < 10 ^ room := by
        rw [Nat.div_lt_iff_lt_mul (by omega)]
        rwa [← Nat.pow_succ]
      have hroom0 : room ≠ 0 := by
        rintro rfl
        exact hz (by omega)
      rw [List.head?_append_of_ne_nil _ (versionDigits_ne_nil hroom0 _)]
      exact ih hlt hz

theorem parseNonzeroDecimal_versionText {version : Nat} (hpos : version ≠ 0) (h : version ≤ u32Max) :
    parseNonzeroDecimal (versionText version) = some version := by
  have hroom : version < 10 ^ 10 := Nat.lt_of_le_of_lt h (by decide)
  have hlen := length_versionDigits 10 version
  have hne := versionDigits_ne_nil (by decide : 10 ≠ 0) version
  unfold parseNonzeroDecimal versionText
  rw [if_neg (not_malformed_lined hne hlen)]
  simp only [List.dropLast_concat]
  rw [if_neg (fun hc => head?_versionDigits hroom hpos hc.2), parseDigits_versionDigits hroom (by decide) h]
  exact if_neg hpos

theorem length_versionText (version : Nat) : (versionText version).length ≤ 16 := by
  have := length_versionDigits 10 version
  simp [versionText]
  omega

/-! ### The pair of files -/

abbrev Files := Bytes → Option Bytes

theorem absolute_livePath : Absolute livePath := fun _ => rfl

theorem absolute_versionPath : Absolute versionPath := fun _ => rfl

/-- The policy file holds `data`, and the version file the number `n`. -/
structure Pair (f : Files) (data : Bytes) (n : Nat) : Prop where
  policy : f livePath = some data
  version : ∃ text, f versionPath = some text ∧ text.length ≤ 16 ∧ parseNonzeroDecimal text = some n

variable {f : Files} {data : Bytes} {n : Nat}

theorem Pair.writePolicy (h : Pair f data n) (other : Bytes) :
    Pair (Function.update f livePath (some other)) other n where
  policy := Function.update_self _ _ _
  version := by
    rw [Function.update_of_ne (by decide)]
    exact h.version

theorem Pair.writeVersion (h : Pair f data n) {m : Nat} (hpos : m ≠ 0) (hm : m ≤ u32Max) :
    Pair (Function.update f versionPath (some (versionText m))) data m where
  policy := by
    rw [Function.update_of_ne (by decide)]
    exact h.policy
  version := ⟨_, Function.update_self _ _ _, length_versionText m, parseNonzeroDecimal_versionText hpos hm⟩

theorem Pair.writeAudit (h : Pair f data n) (journal : Bytes) :
    Pair (Function.update f Audit.journalPath (some journal)) data n where
  policy := by
    rw [Function.update_of_ne (by decide)]
    exact h.policy
  version := by
    rw [Function.update_of_ne (by decide)]
    exact h.version

theorem Pair.bounds (h : Pair f data n) : n ≠ 0 ∧ n ≤ u32Max := by
  obtain ⟨_, _, _, hparse⟩ := h.version
  exact (parseNonzeroDecimal_some hparse).2.2

/-! ### Validation -/

variable {pssVerify : Bytes → Bytes → Bool}

theorem length_of_validate {minimum : Nat} {policy : LoadedPolicy} (h : validate pssVerify data minimum = .ok policy) :
    data ≠ [] ∧ data.length ≤ maxPolicyBytes := by
  unfold validate at h
  split at h
  · cases h
  · rename_i hsize
    push Not at hsize
    refine ⟨?_, hsize.2⟩
    rintro rfl
    simp at hsize

theorem ite_error_eq_ok {ε α : Type} {c : Prop} [Decidable c] {e : ε} {x : Except ε α} {a : α} :
    (if c then Except.error e else x) = .ok a ↔ ¬c ∧ x = .ok a := by
  split
  · rename_i hc
    exact ⟨fun h => (by cases h), fun h => absurd hc h.1⟩
  · rename_i hc
    exact ⟨fun h => ⟨hc, h⟩, fun h => h.2⟩

theorem validate_iff {minimum : Nat} {policy : LoadedPolicy} :
    validate pssVerify data minimum = .ok policy ↔ validate pssVerify data 0 = .ok policy ∧ minimum ≤ policy.version := by
  unfold validate
  simp only [ite_error_eq_ok, Nat.not_lt_zero, not_false_eq_true, true_and, Nat.not_lt]
  constructor
  · intro ⟨hsize, hheader, hengine, hkey, hdigest, hsignature, hversion, hrecords, hpolicy⟩
    cases hpolicy
    exact ⟨⟨hsize, hheader, hengine, hkey, hdigest, hsignature, hrecords, rfl⟩, hversion⟩
  · intro ⟨⟨hsize, hheader, hengine, hkey, hdigest, hsignature, hrecords, hpolicy⟩, hversion⟩
    cases hpolicy
    exact ⟨hsize, hheader, hengine, hkey, hdigest, hsignature, hversion, hrecords, rfl⟩

/-! ### The states of a run -/

/-- The files, the answers to come, and the audit journal. -/
structure At (f : Files) (a : List Answer) (u : AuditState) (s : PolicyState) : Prop where
  files : s.files = f
  answers : s.answers = a
  audit : s.audit = u

section Rules
variable {s : PolicyState} {a : List Answer} {u : AuditState} {path : Bytes}

theorem At.after (h : At f a u s) (f' : Files) : At f' a.tail u { s with toMounted := s.toMounted.after f' } where
  files := rfl
  answers := by
    rw [← h.answers]
    rfl
  audit := h.audit

theorem wp_read_at {input : Bytes} {capacity : Nat} {Q : Option Bytes → PolicyState → Prop} {C : PolicyState → Prop}
    (hs : At f a u s) (hp : Storage.normalizePath s.currentDirectory input = some path)
    (hpass : upcoming a = .passes → ∀ s', At f a.tail u s' → s' = { s with toMounted := s.toMounted.after f } →
      Q ((f path).filter fun b => b.length ≤ capacity) s')
    (hfail : ∀ l, upcoming a = .fails l → ∀ s', At f a.tail u s' → Q none s')
    (hcut : ∀ l, upcoming a = .cut l → ∀ s', s'.files = f → C s') :
    wp (onFiles (Mounted.readFile input capacity)) Q C s := by
  unfold onFiles
  rw [wp_zoom, Mounted.wp_readFile hp, hs.answers, hs.files]
  cases ha : upcoming a with
  | passes => exact hpass ha _ (hs.after f) rfl
  | fails l => exact hfail l ha _ (hs.after f)
  | cut l => exact hcut l ha _ rfl

theorem wp_write_at {data : Bytes} {Q : Bool → PolicyState → Prop} {C : PolicyState → Prop} (hs : At f a u s)
    (hp : Absolute path)
    (hpass : upcoming a = .passes → ∀ s', At (Function.update f path (some data)) a.tail u s' → Q true s')
    (hfail : ∀ l, upcoming a = .fails l → ∀ s', At (landing f path data l) a.tail u s' → Q false s')
    (hcut : ∀ l, upcoming a = .cut l → ∀ s', s'.files = landing f path data l → C s') :
    wp (onFiles (Mounted.writeFile path data)) Q C s := by
  unfold onFiles
  rw [wp_zoom, Mounted.wp_writeFile hp, hs.answers, hs.files]
  cases ha : upcoming a with
  | passes => exact hpass ha _ (hs.after _)
  | fails l => exact hfail l ha _ (hs.after _)
  | cut l => exact hcut l ha _ rfl

theorem wp_sync_at {Q : Bool → PolicyState → Prop} {C : PolicyState → Prop} (hs : At f a u s)
    (hpass : upcoming a = .passes → ∀ s', At f a.tail u s' → Q true s')
    (hfail : ∀ l, upcoming a = .fails l → ∀ s', At f a.tail u s' → Q false s')
    (hcut : ∀ l, upcoming a = .cut l → ∀ s', s'.files = f → C s') :
    wp (onFiles Mounted.syncMetadata) Q C s := by
  unfold onFiles
  rw [wp_zoom, Mounted.wp_syncMetadata, hs.answers, hs.files]
  cases ha : upcoming a with
  | passes => exact hpass ha _ (hs.after _)
  | fails l => exact hfail l ha _ (hs.after _)
  | cut l => exact hcut l ha _ rfl

end Rules

/-! ### Where the restoring writes stop -/

/-- Of the two writes of `restore_update` the policy lands and the version does not. -/
def policyAlone (a : List Answer) : Bool :=
  match upcoming a with
  | .fails landed | .cut landed => landed
  | .passes =>
    match upcoming a.tail with
    | .fails landed | .cut landed => !landed
    | .passes => false

/-- From the write of the version on, an update has it land, does not end well, and then takes only the
    policy back. `audited` says whether there is an audit record to write. -/
def versionStranded (audited : Bool) (a : List Answer) : Bool :=
  match upcoming a with
  | .fails landed => landed && policyAlone a.tail
  | .cut _ => false
  | .passes =>
    if !audited then policyAlone a.tail
    else
      match upcoming a.tail with
      | .fails _ => policyAlone a.tail.tail
      | .cut _ => false
      | .passes =>
        match upcoming a.tail.tail with
        | .fails _ => policyAlone a.tail.tail.tail
        | _ => false

/-- From its first write on, an update strands the version. -/
def commitStranded (audited : Bool) (a : List Answer) : Bool :=
  upcoming a = .passes && upcoming a.tail = .passes && versionStranded audited a.tail.tail

/-- An update whose three reads pass strands the version. -/
def updateStranded (audited : Bool) (a : List Answer) : Bool :=
  upcoming a = .passes && upcoming a.tail = .passes && upcoming a.tail.tail = .passes &&
    commitStranded audited a.tail.tail.tail

/-- The files after a restore of the policy `old` and the version `n`: where the policy alone is back, it
    stands beside the version `m` from before; else neither file or both have been restored. -/
def Restored (alone : Bool) (data : Bytes) (m : Nat) (old : Bytes) (n : Nat) (f : Files) : Prop :=
  if alone then Pair f old m else Pair f data m ∨ Pair f old n

theorem restoreFiles_spec {s : PolicyState} {a : List Answer} {u : AuditState} {old : Bytes} {m : Nat} (hs : At f a u s)
    (h : Pair f data m) (hold : old ≠ []) (hn : n ≠ 0) (hn' : n ≤ u32Max) :
    wp (restoreFiles n old) (fun _ s' => Restored (policyAlone a) data m old n s'.files)
      (fun s' => Restored (policyAlone a) data m old n s'.files) s := by
  have hpolicy : ∀ l, Restored l data m old n (landing f livePath old l) := by
    intro l
    cases l with
    | false => exact .inl h
    | true => exact h.writePolicy old
  have hold' := h.writePolicy old
  have hversion : ∀ l, Restored (!l) data m old n
      (landing (Function.update f livePath (some old)) versionPath (versionText n) l) := by
    intro l
    cases l with
    | false => exact hold'
    | true => exact .inr (hold'.writeVersion hn hn')
  unfold restoreFiles policyAlone
  rw [if_neg hold, wp_bind]
  refine wp_write_at hs absolute_livePath (fun ha s₁ h₁ => ?_) (fun l ha s₁ h₁ => ?_) fun l ha s₁ h₁ => ?_
  · simp only [ha, Bool.not_true, Bool.false_eq_true, if_false, wp_bind]
    unfold writeVersion
    refine wp_write_at h₁ absolute_versionPath (fun ha' s₂ h₂ => ?_) (fun l ha' s₂ h₂ => ?_) fun l ha' s₂ h₂ => ?_
    · simp only [ha', Bool.not_true, Bool.false_eq_true, if_false]
      have hboth := hversion true
      refine wp_sync_at h₂ (fun _ s₃ h₃ => ?_) (fun _ _ s₃ h₃ => ?_) fun _ _ s₃ h₃ => ?_
      · rw [h₃.files]
        exact hboth
      · rw [h₃.files]
        exact hboth
      · rw [h₃]
        exact hboth
    · simp only [ha', Bool.not_false, if_true, wp_pure]
      rw [h₂.files]
      exact hversion l
    · simp only [ha']
      rw [h₂]
      exact hversion l
  · simp only [ha, Bool.not_false, if_true, wp_pure]
    rw [h₁.files]
    exact hpolicy l
  · simp only [ha]
    rw [h₁]
    exact hpolicy l

theorem restoreUpdate_spec {s : PolicyState} {a : List Answer} {u : AuditState} {old : Bytes} {m : Nat}
    (previous : LoadedPolicy) (hs : At f a u s) (h : Pair f data m) (hold : old ≠ []) (hn : n ≠ 0) (hn' : n ≤ u32Max) :
    wp (restoreUpdate previous n old) (fun _ s' => Restored (policyAlone a) data m old n s'.files)
      (fun s' => Restored (policyAlone a) data m old n s'.files) s := by
  unfold restoreUpdate
  refine wp_seq (restoreFiles_spec hs h hold hn hn') (fun _ h => h) fun ok s₁ h₁ => ?_
  exact wp_ite (fun _ => h₁) fun _ => h₁

/-! ### An update -/

/-- The policy file and the version that an update from the version `n` may leave. -/
def Bootable (old new : Bytes) (n : Nat) (f : Files) : Prop :=
  Pair f old n ∨ Pair f new n ∨ Pair f new (n + 1)

/-- The two outcomes of an update: the version is stranded ahead of the old policy, or the pair is one that
    the next start accepts. -/
def Outcome (stranded : Bool) (old new : Bytes) (n : Nat) (f : Files) : Prop :=
  if stranded then Pair f old (n + 1) else Bootable old new n f

theorem Restored.early {alone : Bool} {old new : Bytes} (h : Restored alone new n old n f) : Bootable old new n f := by
  unfold Restored at h
  split at h
  · exact .inl h
  · cases h with
    | inl h => exact .inr (.inl h)
    | inr h => exact .inl h

theorem Restored.late {alone : Bool} {old new : Bytes} (h : Restored alone new (n + 1) old n f) :
    Outcome alone old new n f := by
  unfold Restored at h
  unfold Outcome
  split at h
  · rename_i ha
    rw [if_pos ha]
    exact h
  · rename_i ha
    rw [if_neg ha]
    cases h with
    | inl h => exact .inr (.inr h)
    | inr h => exact .inl h

/-- Whether `security_audit::append` comes to write the journal. -/
def audited (u : AuditState) : Bool := u.ready && u.journal.nextSequence ≠ 0xFFFFFFFF

theorem appendTo_livePath {journal : Audit.Journal} (tick : Nat) (action verdict : UInt8) (digest : Bytes) :
    (Audit.appendTo journal tick action verdict livePath digest).isSome = true ↔ journal.nextSequence ≠ 0xFFFFFFFF := by
  have hcopy : Storage.pathCopy livePath 48 = some livePath := by decide
  unfold Audit.appendTo
  split
  · rename_i hc
    cases hc with
    | inl hc => simp [hc]
    | inr hc => exact absurd hc (by decide)
  · rename_i hc
    rw [not_or] at hc
    simp [hcopy, hc.1]

theorem wp_recordUpdate {s : PolicyState} {a : List Answer} {u : AuditState} {tick : Nat} {committed : Bytes}
    {Q : Bool → PolicyState → Prop} {C : PolicyState → Prop} (hs : At f a u s) (h : Pair f data n)
    (hnone : audited u = false → ∀ f' u' s', Pair f' data n → At f' a u' s' → Q false s')
    (hpass : audited u = true → upcoming a = .passes → ∀ f' u' s', Pair f' data n → At f' a.tail u' s' → Q true s')
    (hfail : audited u = true → ∀ l, upcoming a = .fails l → ∀ f' u' s', Pair f' data n → At f' a.tail u' s' → Q false s')
    (hcut : audited u = true → ∀ l, upcoming a = .cut l → ∀ s', Pair s'.files data n → C s') :
    wp (recordUpdate tick committed) Q C s := by
  have hlanding : ∀ journal l, Pair (landing f Audit.journalPath journal l) data n := by
    intro journal l
    cases l with
    | false => exact h
    | true => exact h.writeAudit journal
  unfold recordUpdate Audit.record
  rw [if_neg (by decide : livePath ≠ []), wp_bind]
  unfold Audit.append
  simp only [wp_bind, wp_get, hs.audit]
  refine wp_ite (fun hr => ?_) fun hr => ?_
  · have hr' : audited u = false := by
      unfold audited
      simp at hr
      simp [hr]
    exact hnone hr' f _ _ h ⟨hs.files, hs.answers, rfl⟩
  · simp only [Bool.not_eq_true', Bool.not_eq_false] at hr
    have hsome := @appendTo_livePath u.journal tick AuditAction.ransomwarePolicy.code Verdict.trusted.code (sha256 committed)
    cases hj : Audit.appendTo u.journal tick AuditAction.ransomwarePolicy.code Verdict.trusted.code livePath
        (sha256 committed) with
    | none =>
      rw [hj] at hsome
      have hr' : audited u = false := by
        unfold audited
        simpa [hr] using hsome
      exact hnone hr' f _ _ h ⟨hs.files, hs.answers, rfl⟩
    | some journal =>
      rw [hj] at hsome
      have hr' : audited u = true := by
        unfold audited
        simpa [hr] using hsome
      dsimp only
      rw [wp_bind]
      refine wp_write_at hs (fun _ => rfl) (fun ha s₁ h₁ => ?_) (fun l ha s₁ h₁ => ?_) fun l ha s₁ h₁ => ?_
      · exact hpass hr' ha _ _ _ (hlanding _ true) ⟨h₁.files, h₁.answers, rfl⟩
      · exact hfail hr' l ha _ _ _ (hlanding _ l) ⟨h₁.files, h₁.answers, rfl⟩
      · refine hcut hr' l ha _ ?_
        rw [h₁]
        exact hlanding _ l

theorem readCommitted_spec {s : PolicyState} {a : List Answer} {u : AuditState} {new : Bytes} {next : Nat}
    {final : LoadedPolicy} {Q : Option (Bytes × LoadedPolicy) → PolicyState → Prop} {C : PolicyState → Prop}
    (hs : At f a u s) (hlive : f livePath = some new) (hfinal : validate pssVerify new next = .ok final)
    (hpass : upcoming a = .passes → ∀ s', At f a.tail u s' → Q (some (new, final)) s')
    (hfail : ∀ l, upcoming a = .fails l → ∀ s', At f a.tail u s' → Q none s')
    (hcut : ∀ l, upcoming a = .cut l → ∀ s', s'.files = f → C s') :
    wp (readCommitted pssVerify new.length next) Q C s := by
  unfold readCommitted
  rw [wp_bind]
  refine wp_read_at hs (absolute_livePath _) (fun ha s₁ h₁ _ => ?_) (fun l ha s₁ h₁ => hfail l ha s₁ h₁) hcut
  rw [hlive, Option.filter_some, if_pos (by simpa using (length_of_validate hfinal).2)]
  simp only [ne_eq, not_true_eq_false, if_false, hfinal]
  exact hpass ha s₁ h₁

theorem versionStranded_passes {audits : Bool} {a : List Answer} (ha : upcoming a = .passes) :
    versionStranded audits a = versionStranded audits (.passes :: a.tail) := by
  unfold versionStranded
  rw [ha]
  rfl

theorem Outcome.of_bootable {old new : Bytes} (h : Bootable old new n f) : Outcome false old new n f := h

section Commit
variable {s : PolicyState} {a : List Answer} {u : AuditState} {old new : Bytes} (previous : LoadedPolicy)

theorem restoreEarly_spec (hs : At f a u s) (h : Pair f new n) (hold : old ≠ []) :
    wp (do restoreUpdate previous n old; pure false) (fun _ s' => Bootable old new n s'.files)
      (fun s' => Bootable old new n s'.files) s := by
  refine wp_seq (restoreUpdate_spec previous hs h hold h.bounds.1 h.bounds.2) (fun _ h => h.early) fun _ s₁ h₁ => ?_
  exact h₁.early

theorem restoreLate_spec (hs : At f a u s) (h : Pair f new (n + 1)) (hold : old ≠ []) (hn : n ≠ 0) :
    wp (do restoreUpdate previous n old; pure false) (fun _ s' => Outcome (policyAlone a) old new n s'.files)
      (fun s' => Outcome (policyAlone a) old new n s'.files) s := by
  have hle : n ≤ u32Max := Nat.le_of_succ_le h.bounds.2
  refine wp_seq (restoreUpdate_spec previous hs h hold hn hle) (fun _ h => h.late) fun _ s₁ h₁ => ?_
  exact h₁.late

theorem closeUpdate_spec {tick : Nat} (hs : At f a u s) (h : Pair f new (n + 1)) (hold : old ≠ []) (hn : n ≠ 0) :
    wp (do
        if !(← recordUpdate tick new) then do
          restoreUpdate previous n old
          pure false
        else if !(← onFiles Mounted.syncMetadata) then do
          restoreUpdate previous n old
          pure false
        else pure true)
      (fun _ s' => Outcome (versionStranded (audited u) (.passes :: a)) old new n s'.files)
      (fun s' => Outcome (versionStranded (audited u) (.passes :: a)) old new n s'.files) s := by
  have hdone : ∀ f', Pair f' new (n + 1) → Outcome false old new n f' := fun f' h => .of_bootable (.inr (.inr h))
  rw [wp_bind]
  unfold versionStranded
  simp only [show upcoming (.passes :: a) = .passes from rfl, List.tail_cons]
  refine wp_recordUpdate hs h (fun hu f₁ u₁ s₁ h₁ hs₁ => ?_) (fun hu ha f₁ u₁ s₁ h₁ hs₁ => ?_)
    (fun hu l ha f₁ u₁ s₁ h₁ hs₁ => ?_) fun hu l ha s₁ h₁ => ?_
  · simp only [hu, Bool.not_false, if_true]
    exact restoreLate_spec previous hs₁ h₁ hold hn
  · simp only [hu, ha, Bool.not_true, Bool.false_eq_true, if_false, wp_bind]
    refine wp_sync_at hs₁ (fun ha' s₂ h₂ => ?_) (fun l ha' s₂ h₂ => ?_) fun l ha' s₂ h₂ => ?_
    · simp only [ha', Bool.not_true, Bool.false_eq_true, if_false, wp_pure]
      rw [h₂.files]
      exact hdone _ h₁
    · simp only [ha', Bool.not_false, if_true]
      exact restoreLate_spec previous h₂ h₁ hold hn
    · simp only [ha', h₂]
      exact hdone _ h₁
  · simp only [hu, ha, Bool.not_true, Bool.not_false, Bool.false_eq_true, if_true, if_false]
    exact restoreLate_spec previous hs₁ h₁ hold hn
  · simp only [hu, ha, Bool.not_true, Bool.false_eq_true, if_false]
    exact hdone _ h₁

/-- `update` from the first write on, when the candidate is good: `a` are the answers it gets. -/
theorem commitUpdate_spec {tick : Nat} {proposed final : LoadedPolicy} (hs : At f a u s) (h : Pair f old n)
    (hold : old ≠ []) (hnext : n + 1 ≤ u32Max) (hfinal : validate pssVerify new (n + 1) = .ok final)
    (hv : final.version = n + 1) (hp : proposed.version = n + 1) :
    wp (commitUpdate pssVerify tick new proposed previous (n + 1) n old)
      (fun _ s' => Outcome (commitStranded (audited u) a) old new n s'.files)
      (fun s' => Outcome (commitStranded (audited u) a) old new n s'.files) s := by
  have hn := h.bounds.1
  have hpolicy : ∀ l, Bootable old new n (landing f livePath new l) := by
    intro l
    cases l with
    | false => exact .inl h
    | true => exact .inr (.inl (h.writePolicy new))
  have hnew := h.writePolicy new
  unfold commitUpdate commitStranded
  rw [wp_bind]
  refine wp_write_at hs absolute_livePath (fun ha s₁ h₁ => ?_) (fun l ha s₁ h₁ => ?_) fun l ha s₁ h₁ => ?_
  · simp only [ha, Bool.not_true, Bool.false_eq_true, if_false, wp_bind, decide_true, Bool.true_and]
    refine readCommitted_spec h₁ (Function.update_self _ _ _) hfinal (fun ha' s₂ h₂ => ?_) (fun l ha' s₂ h₂ => ?_)
      fun l ha' s₂ h₂ => ?_
    · simp only [ha', hv, hp, ne_eq, not_true_eq_false, if_false, decide_true, Bool.true_and]
      rw [wp_bind]
      unfold writeVersion
      refine wp_write_at h₂ absolute_versionPath (fun ha'' s₃ h₃ => ?_) (fun l ha'' s₃ h₃ => ?_) fun l ha'' s₃ h₃ => ?_
      · simp only [Bool.not_true, Bool.false_eq_true, if_false]
        rw [versionStranded_passes ha'']
        have hs₃ : At _ a.tail.tail.tail u
            ⟨s₃.toMounted, true, final, emptyWindow, n + 1, s₃.audit⟩ := ⟨h₃.files, h₃.answers, h₃.audit⟩
        exact closeUpdate_spec previous hs₃ (hnew.writeVersion (Nat.succ_ne_zero n) hnext) hold hn
      · simp only [versionStranded, ha'', Bool.not_false]
        rw [if_pos trivial]
        cases l with
        | false =>
          simp only [Bool.false_and]
          exact restoreEarly_spec previous h₃ hnew hold
        | true =>
          simp only [Bool.true_and]
          exact restoreLate_spec previous h₃ (hnew.writeVersion (Nat.succ_ne_zero n) hnext) hold hn
      · simp only [versionStranded, ha'']
        rw [h₃]
        cases l with
        | false => exact .inr (.inl hnew)
        | true => exact .inr (.inr (hnew.writeVersion (Nat.succ_ne_zero n) hnext))
    · simp only [ha', reduceCtorEq, decide_false, Bool.false_and]
      exact restoreEarly_spec previous h₂ hnew hold
    · simp only [ha', reduceCtorEq, decide_false, Bool.false_and]
      rw [h₂]
      exact .inr (.inl hnew)
  · simp only [ha, Bool.not_false, if_true, wp_pure, reduceCtorEq, decide_false, Bool.false_and]
    rw [h₁.files]
    exact hpolicy l
  · simp only [ha, reduceCtorEq, decide_false, Bool.false_and]
    rw [h₁]
    exact hpolicy l

end Commit

/-! ### The claim about the next start -/

variable (pssVerify)

/-- The candidate is one that `update` goes on to commit, and `policy` is what it proposes. -/
def Proposes (s : PolicyState) (candidatePath : Bytes) (policy : LoadedPolicy) : Prop :=
  ∃ path candidate next, candidatePath ≠ [] ∧ nextVersion s.active.version = some next ∧
    Storage.normalizePath s.currentDirectory candidatePath = some path ∧ s.files path = some candidate ∧
    validate pssVerify candidate next = .ok policy ∧ policy.version = next

/-- A running system: the active policy is the one in its file, and its version the one in the other. -/
structure Active (s : PolicyState) : Prop where
  version : s.persistentPolicyVersion = s.active.version
  files : ∃ data, Pair s.files data s.active.version ∧ validate pssVerify data compiledPolicyFloor = .ok s.active

/-- The machine was started again: the files are as they were left, and no policy is loaded yet. -/
structure Restarted (s t : PolicyState) : Prop where
  files : t.files = s.files
  active : t.active = noPolicy

/-- `init` can read its two files. -/
def CanRead (t : PolicyState) : Prop := upcoming t.answers = .passes ∧ upcoming t.answers.tail = .passes

/-- The next start takes up the policy from before the update or the proposed one; it ends well if its own
    write of the version does. -/
def TakesUp (s : PolicyState) (candidatePath : Bytes) (t : PolicyState) : Prop :=
  wp (init pssVerify) (fun ok t' => (t'.active = s.active ∨ Proposes pssVerify s candidatePath t'.active) ∧
      (upcoming t.answers.tail.tail = .passes → ok = true ∧ t'.ready = true))
    (fun t' => (t'.active = s.active ∨ Proposes pssVerify s candidatePath t'.active) ∧
      upcoming t.answers.tail.tail ≠ .passes) t

variable {pssVerify}

theorem update_spec {s : PolicyState} {old new path candidatePath : Bytes} {tick : Nat} {policy : LoadedPolicy}
    (h : Pair s.files old s.active.version) (hpersistent : s.persistentPolicyVersion = s.active.version)
    (hold : old ≠ []) (hcap : old.length ≤ maxPolicyBytes) (hnext : nextVersion s.active.version = some (s.active.version + 1))
    (hpath : candidatePath ≠ []) (hnorm : Storage.normalizePath s.currentDirectory candidatePath = some path)
    (hnew : s.files path = some new) (hvalid : validate pssVerify new (s.active.version + 1) = .ok policy)
    (hv : policy.version = s.active.version + 1) :
    wp (update pssVerify candidatePath tick)
      (fun _ s' => Outcome (updateStranded (audited s.audit) s.answers) old new s.active.version s'.files)
      (fun s' => Outcome (updateStranded (audited s.audit) s.answers) old new s.active.version s'.files) s := by
  have hle : s.active.version + 1 ≤ u32Max := by
    unfold nextVersion at hnext
    split at hnext
    · cases hnext
    · have := h.bounds.2
      omega
  have hs : At s.files s.answers s.audit s := ⟨rfl, rfl, rfl⟩
  have hread : ∀ {b : Bytes}, b.length ≤ maxPolicyBytes →
      (some b).filter (fun b => decide (b.length ≤ maxPolicyBytes)) = some b := by
    intro b hb
    rw [Option.filter_some, if_pos (by simpa using hb)]
  have hnewlen := (length_of_validate hvalid).2
  -- a request that does not pass ends the update with the files as they were
  have hkept : ∀ {g : Files} {t : Bool}, g = s.files → Outcome (false && t) old new s.active.version g := by
    intro g t hg
    rw [hg]
    exact .inl h
  unfold update updateStranded
  simp only [wp_bind, wp_get, hnext, hpath, if_false]
  unfold readPolicy
  rw [wp_bind]
  refine wp_read_at hs hnorm (fun ha s₁ h₁ hcd => ?_) (fun l ha s₁ h₁ => ?_) fun l ha s₁ h₁ => ?_
  · simp only [ha, hnew, hread hnewlen, hvalid, wp_pure, hv, ne_eq, not_true_eq_false, if_false, wp_bind, decide_true,
      Bool.true_and]
    refine wp_read_at h₁ (absolute_livePath _) (fun ha' s₂ h₂ hcd' => ?_) (fun l ha' s₂ h₂ => ?_) fun l ha' s₂ h₂ => ?_
    · simp only [ha', h.policy, hread hcap, decide_true, Bool.true_and]
      cases old with
      | nil => exact absurd rfl hold
      | cons b old =>
        simp only [wp_bind]
        refine wp_read_at h₂ (by rw [hcd', hcd]; exact hnorm) (fun ha'' s₃ h₃ _ => ?_) (fun l ha'' s₃ h₃ => ?_)
          fun l ha'' s₃ h₃ => ?_
        · simp only [ha'', hnew, hread hnewlen, hvalid, hv, not_true_eq_false, if_false, hpersistent, decide_true,
            Bool.true_and]
          exact commitUpdate_spec _ h₃ h hold hle hvalid hv hv
        · simp only [ha'', reduceCtorEq, decide_false, wp_pure]
          exact hkept h₃.files
        · simp only [ha'', reduceCtorEq, decide_false]
          exact hkept h₃
    · simp only [ha', reduceCtorEq, decide_false, wp_pure]
      exact hkept h₂.files
    · simp only [ha', reduceCtorEq, decide_false]
      exact hkept h₂
  · simp only [ha, reduceCtorEq, decide_false, wp_pure]
    exact hkept h₁.files
  · simp only [ha, reduceCtorEq, decide_false]
    exact hkept h₁

/-- `update` on a candidate that it does not accept leaves the files as they are. -/
theorem update_refused {s : PolicyState} {candidatePath : Bytes} {tick : Nat}
    (h : ¬∃ policy, Proposes pssVerify s candidatePath policy) :
    wp (update pssVerify candidatePath tick) (fun _ s' => s'.files = s.files) (fun s' => s'.files = s.files) s := by
  have hs : At s.files s.answers s.audit s := ⟨rfl, rfl, rfl⟩
  unfold update
  simp only [wp_bind, wp_get]
  cases hnext : nextVersion s.active.version with
  | none => rfl
  | some next =>
    refine wp_ite (fun _ => rfl) fun hpath => ?_
    unfold readPolicy
    simp only [wp_bind]
    cases hnorm : Storage.normalizePath s.currentDirectory candidatePath with
    | none =>
      unfold onFiles Mounted.readFile
      simp only [wp_zoom, wp_bind, wp_get, hnorm, wp_pure]
    | some path =>
      refine wp_read_at hs hnorm (fun _ s₁ h₁ _ => ?_) (fun _ _ s₁ h₁ => h₁.files) fun _ _ s₁ h₁ => h₁
      cases hb : (s.files path).filter (fun b => decide (b.length ≤ maxPolicyBytes)) with
      | none => exact h₁.files
      | some candidate =>
        have hfile := (Option.filter_eq_some_iff.mp hb).1
        simp only [wp_pure]
        cases hvalid : validate pssVerify candidate next with
        | error e => exact h₁.files
        | ok policy =>
          refine wp_ite (fun _ => h₁.files) fun hv => ?_
          exact absurd ⟨policy, path, candidate, next, hpath, hnext, hnorm, hfile, hvalid, not_not.mp hv⟩ h

/-! ### The next start -/

section Start
variable {t : PolicyState}

theorem wp_init {Q : Bool → PolicyState → Prop} {C : PolicyState → Prop} (h : Pair t.files data n)
    (hcap : data.length ≤ maxPolicyBytes) (hread : CanRead t)
    (hrest : ∀ t', At t.files t.answers.tail.tail t.audit t' → t'.active = t.active →
      wp (match validate pssVerify data (max n compiledPolicyFloor) with
        | .error _ => do
          setReady false
          pure false
        | .ok loaded => initLoaded loaded n) Q C t') : wp (init pssVerify) Q C t := by
  obtain ⟨text, htext, hlen, hparse⟩ := h.version
  obtain ⟨hfirst, hsecond⟩ := hread
  have ht : At t.files t.answers t.audit t := ⟨rfl, rfl, rfl⟩
  unfold init
  rw [wp_bind]
  refine wp_read_at ht (absolute_versionPath _) (fun _ t₁ h₁ ht₁ => ?_) (fun l ha => ?_) fun l ha => ?_
  · rw [htext, Option.filter_some, if_pos (by simpa using hlen)]
    simp only [hparse, setPersistentPolicyVersion, wp_bind, wp_modify]
    unfold readPolicy
    rw [wp_bind]
    have hs₁ : At t.files t.answers.tail t.audit { t₁ with persistentPolicyVersion := n } :=
      ⟨h₁.files, h₁.answers, h₁.audit⟩
    refine wp_read_at hs₁ (absolute_livePath _) (fun _ t₂ h₂ ht₂ => ?_) (fun l ha => ?_) fun l ha => ?_
    · rw [h.policy, Option.filter_some, if_pos (by simpa using hcap)]
      simp only [wp_pure]
      exact hrest t₂ h₂ (by rw [ht₂, ht₁])
    · rw [hsecond] at ha
      cases ha
    · rw [hsecond] at ha
      cases ha
  · rw [hfirst] at ha
    cases ha
  · rw [hfirst] at ha
    cases ha

theorem init_accepts {loaded : LoadedPolicy} (h : Pair t.files data n)
    (hvalid : validate pssVerify data (max n compiledPolicyFloor) = .ok loaded) (htest : selfTest loaded = true)
    (hread : CanRead t) :
    wp (init pssVerify)
      (fun ok t' => t'.active = loaded ∧ (upcoming t.answers.tail.tail = .passes → ok = true ∧ t'.ready = true))
      (fun t' => t'.active = loaded ∧ upcoming t.answers.tail.tail ≠ .passes) t := by
  refine wp_init h (length_of_validate hvalid).2 hread fun t₁ h₁ _ => ?_
  rw [hvalid]
  dsimp only
  have hanswers : t₁.answers = t.answers.tail.tail := h₁.answers
  unfold initLoaded
  simp only [activate, wp_bind, wp_modify]
  refine wp_ite (fun _ => ?_) fun _ => ?_
  · unfold writeVersion onFiles
    rw [wp_bind, wp_zoom, Mounted.wp_writeFile absolute_versionPath]
    simp only [hanswers]
    cases ha : upcoming t.answers.tail.tail with
    | passes => simp [htest, setPersistentPolicyVersion, setReady]
    | fails l => simp [setReady]
    | cut l => simp
  · simp [htest, setPersistentPolicyVersion, setReady]

theorem init_rejects {e : Validation} (h : Pair t.files data n) (hcap : data.length ≤ maxPolicyBytes)
    (hvalid : validate pssVerify data (max n compiledPolicyFloor) = .error e) (hread : CanRead t) :
    wp (init pssVerify) (fun ok t' => ok = false ∧ t'.active = t.active) (fun _ => False) t := by
  refine wp_init h hcap hread fun t₁ h₁ hactive => ?_
  rw [hvalid]
  exact ⟨rfl, hactive⟩

end Start

/-- An update of a running system leaves the version ahead of the old policy. -/
def Strands (pssVerify : Bytes → Bytes → Bool) (s : PolicyState) (candidatePath : Bytes) : Prop :=
  (∃ policy, Proposes pssVerify s candidatePath policy) ∧ updateStranded (audited s.audit) s.answers = true

section Update
variable {s t : PolicyState} {old new candidatePath : Bytes} {policy : LoadedPolicy}

theorem Active.validate (h : Active pssVerify s) (hfile : Pair s.files old s.active.version) :
    validate pssVerify old 0 = .ok s.active := by
  obtain ⟨data, hpair, hvalid⟩ := h.files
  have : data = old := Option.some.inj (hpair.policy.symm.trans hfile.policy)
  rw [← this]
  exact (validate_iff.mp hvalid).1

theorem takesUp_of_bootable (hold : Ransomware.validate pssVerify old 0 = .ok s.active)
    (hnew : Ransomware.validate pssVerify new 0 = .ok policy) (hproposes : Proposes pssVerify s candidatePath policy)
    (hv : policy.version = s.active.version + 1) (htest : selfTest s.active = true) (htest' : selfTest policy = true)
    (h : Bootable old new s.active.version t.files) (hread : CanRead t) : TakesUp pssVerify s candidatePath t := by
  have hactive : ∀ {b : Bytes} {loaded : LoadedPolicy} {m : Nat}, Pair t.files b m →
      Ransomware.validate pssVerify b 0 = .ok loaded → m ≤ loaded.version → selfTest loaded = true →
      (loaded = s.active ∨ Proposes pssVerify s candidatePath loaded) → TakesUp pssVerify s candidatePath t := by
    intro b loaded m hpair hb hm ht hloaded
    have hpos := hpair.bounds.1
    refine wp_mono (init_accepts hpair (validate_iff.mpr ⟨hb, ?_⟩) ht hread) (fun ok t' h' => ?_) fun t' h' => ?_
    · simp only [compiledPolicyFloor]
      omega
    · rw [h'.1]
      exact ⟨hloaded, h'.2⟩
    · rw [h'.1]
      exact ⟨hloaded, h'.2⟩
  obtain h | h | h := h
  · exact hactive h hold (Nat.le_refl _) htest (.inl rfl)
  · exact hactive h hnew (by omega) htest' (.inr hproposes)
  · exact hactive h hnew (by omega) htest' (.inr hproposes)

theorem update_outcome (hactive : Active pssVerify s) (hfile : Pair s.files old s.active.version) (tick : Nat)
    (hproposes : Proposes pssVerify s candidatePath policy) :
    policy.version = s.active.version + 1 ∧ ∃ new, Ransomware.validate pssVerify new 0 = .ok policy ∧
      ∀ r s', update pssVerify candidatePath tick s = (r, s') →
        Outcome (updateStranded (audited s.audit) s.answers) old new s.active.version s'.files := by
  obtain ⟨path, new, next, hpath, hnext, hnorm, hfile', hvalid, hv⟩ := hproposes
  have hlen := length_of_validate (hactive.validate hfile)
  have hnext' : next = s.active.version + 1 := by
    unfold nextVersion at hnext
    split at hnext
    · cases hnext
    · exact (Option.some.inj hnext).symm
  subst hnext'
  refine ⟨hv, new, (validate_iff.mp hvalid).1, fun r s' hrun => ?_⟩
  have houtcome := @update_spec pssVerify s old new path candidatePath tick policy hfile hactive.version hlen.1 hlen.2 hnext hpath hnorm hfile' hvalid hv
  have h := wp_left houtcome hrun
  exact h

theorem not_takesUp_of_stranded (hold : Ransomware.validate pssVerify old 0 = .ok s.active)
    (h : Pair t.files old (s.active.version + 1)) (hread : CanRead t) (ht : t.active = noPolicy)
    (hpos : s.active.version ≠ 0) : ¬TakesUp pssVerify s candidatePath t := by
  intro htakes
  have hvalid : ∃ e, Ransomware.validate pssVerify old (max (s.active.version + 1) compiledPolicyFloor) = .error e := by
    cases hr : Ransomware.validate pssVerify old (max (s.active.version + 1) compiledPolicyFloor) with
    | error e => exact ⟨e, rfl⟩
    | ok loaded =>
      obtain ⟨hloaded, hle⟩ := validate_iff.mp hr
      rw [hold] at hloaded
      cases hloaded
      omega
  obtain ⟨e, he⟩ := hvalid
  have hreject := init_rejects h (length_of_validate hold).2 he hread
  obtain ⟨ok, t', -, ⟨hloaded, -⟩, -, hkept⟩ := wp_ends (wp_mono (wp_and htakes hreject) (fun _ _ h => h) fun _ h => h.2)
  rw [hkept, ht] at hloaded
  cases hloaded with
  | inl hs => exact hpos (by rw [← hs]; rfl)
  | inr hs =>
    obtain ⟨path, new, next, -, hnext, -, -, -, hv⟩ := hs
    unfold nextVersion at hnext
    split at hnext
    · cases hnext
    · cases hnext
      cases hv

theorem not_takesUp_of_strands (hactive : Active pssVerify s) (tick : Nat) (hstrands : Strands pssVerify s candidatePath) :
    ¬∀ r s' t, update pssVerify candidatePath tick s = (r, s') → Restarted s' t → CanRead t →
      TakesUp pssVerify s candidatePath t := by
  intro h
  obtain ⟨⟨policy, hproposes⟩, hstranded⟩ := hstrands
  obtain ⟨old, hfile, -⟩ := hactive.files
  obtain ⟨-, new, -, hrun⟩ := update_outcome hactive hfile tick hproposes
  rcases hu : update pssVerify candidatePath tick s with ⟨r, s'⟩
  have houtcome := hrun r s' hu
  rw [hstranded] at houtcome
  let t : PolicyState := { s' with store := ⟨s'.files, []⟩, active := noPolicy }
  have ht : TakesUp pssVerify s candidatePath t := h r s' t hu ⟨rfl, rfl⟩ ⟨rfl, rfl⟩
  have hpair : Pair t.files old (s.active.version + 1) := houtcome
  exact not_takesUp_of_stranded (hactive.validate hfile) hpair ⟨rfl, rfl⟩ rfl hfile.bounds.1 ht

end Update

/-- The next start after an update of a running system, whether it ended or was cut off, takes up the old
    policy or the proposed one, if and only if the update did not leave the version ahead of the policy. -/
theorem update_takesUp_iff (pssVerify : Bytes → Bytes → Bool) (s : PolicyState) (candidatePath : Bytes) (tick : Nat)
    (hactive : Active pssVerify s) (htest : selfTest s.active = true)
    (hcandidate : ∀ policy, Proposes pssVerify s candidatePath policy → selfTest policy = true) :
    (∀ r s' t, update pssVerify candidatePath tick s = (r, s') → Restarted s' t → CanRead t →
      TakesUp pssVerify s candidatePath t) ↔ ¬Strands pssVerify s candidatePath := by
  obtain ⟨old, hfile, -⟩ := hactive.files
  have hold := hactive.validate hfile
  constructor
  · intro h hstrands
    exact not_takesUp_of_strands hactive tick hstrands h
  · intro hnot r s' t hu hrestart hread
    by_cases hproposes : ∃ policy, Proposes pssVerify s candidatePath policy
    · obtain ⟨policy, hproposes⟩ := hproposes
      obtain ⟨hv, new, hnew, hrun⟩ := update_outcome hactive hfile tick hproposes
      have houtcome := hrun r s' hu
      rw [Bool.eq_false_iff.mpr fun hc => hnot ⟨⟨policy, hproposes⟩, hc⟩, ← hrestart.files] at houtcome
      exact takesUp_of_bootable hold hnew hproposes hv htest (hcandidate policy hproposes) houtcome hread
    · have hfiles := wp_left (update_refused hproposes) hu
      have hpair : Pair t.files old s.active.version := by
        rw [hrestart.files, hfiles]
        exact hfile
      have hvalid : validate pssVerify old (max s.active.version compiledPolicyFloor) = .ok s.active := by
        have := hfile.bounds.1
        exact validate_iff.mpr ⟨hold, by simp only [compiledPolicyFloor]; omega⟩
      refine wp_mono (init_accepts hpair hvalid htest hread) (fun ok t' h' => ?_) fun t' h' => ?_
      · exact ⟨.inl h'.1, h'.2⟩
      · exact ⟨.inl h'.1, h'.2⟩

/-! ### The policies of the repository

The two policies that `zrwp_builder.cpp` builds: the one a system is delivered with and its update. -/

def headerV1 : Bytes :=
  [0x5a, 0x52, 0x57, 0x50, 0x01, 0x00, 0x60, 0x00, 0x01, 0x00, 0x00, 0x00, 0x01, 0x01, 0x00, 0x00,
   0x00, 0x00, 0x00, 0x00, 0x03, 0x00, 0x00, 0x00, 0x20, 0x01, 0x00, 0x00, 0x10, 0x27, 0x00, 0x00,
   0x01, 0x00, 0x00, 0x00, 0x01, 0x00, 0x00, 0x00, 0x01, 0x00, 0x00, 0x00, 0x80, 0x00, 0x00, 0x00,
   0x4e, 0xfd, 0x7f, 0x17, 0x05, 0xca, 0x61, 0x13, 0xf0, 0x4f, 0xa0, 0xb5, 0x74, 0x46, 0x69, 0x39,
   0x36, 0x00, 0xe0, 0x24, 0x9b, 0x1f, 0xe0, 0x1e, 0xe7, 0x30, 0x7b, 0x50, 0xb5, 0x38, 0x4b, 0x0d,
   0x71, 0x86, 0xb2, 0xbd, 0x81, 0x9e, 0x47, 0xdc, 0x00, 0x00, 0x00, 0x00, 0x00, 0x00, 0x00, 0x00]

def signatureV1 : Bytes :=
  [0x32, 0x1e, 0x4c, 0x3b, 0x01, 0xac, 0x73, 0x1f, 0x8b, 0xf2, 0xa1, 0x9c, 0x0f, 0xbe, 0x2c, 0xa5,
   0x25, 0xa9, 0x5e, 0x5d, 0x6b, 0x84, 0xfe, 0x34, 0x6d, 0x1f, 0x03, 0x71, 0x5b, 0x48, 0x04, 0xc9,
   0xda, 0x80, 0xa9, 0x2c, 0x80, 0x59, 0x88, 0xff, 0x4b, 0xd8, 0x9b, 0xba, 0x50, 0x1b, 0xd7, 0x48,
   0x9d, 0x63, 0xca, 0x4b, 0xa7, 0xfd, 0x8e, 0x2c, 0xbd, 0xac, 0x04, 0xe8, 0xae, 0x48, 0xe3, 0x94,
   0xf2, 0xe3, 0x66, 0x2f, 0xfe, 0x4a, 0x41, 0x41, 0xd7, 0x36, 0x41, 0xe4, 0x83, 0x2f, 0x2c, 0x2b,
   0x46, 0xfb, 0x61, 0x3f, 0x03, 0x84, 0x3a, 0x9b, 0xf2, 0x87, 0x08, 0x37, 0xf8, 0x12, 0xa7, 0x71,
   0x52, 0x7e, 0x0c, 0xeb, 0x1d, 0xe4, 0x02, 0xc2, 0xb1, 0x50, 0x9b, 0x88, 0x3d, 0x50, 0xed, 0x0a,
   0xb1, 0xd4, 0xbc, 0x18, 0x5e, 0xfe, 0x22, 0x7c, 0x35, 0xce, 0x21, 0xab, 0xff, 0xdc, 0x21, 0x51,
   0x52, 0x3a, 0x46, 0xbc, 0xfb, 0x70, 0xb7, 0x33, 0x0a, 0x67, 0xf5, 0x0e, 0x13, 0x3a, 0x48, 0x9b,
   0xc4, 0xa2, 0x2f, 0x75, 0x69, 0x3c, 0x2c, 0x88, 0xd2, 0xed, 0xbe, 0xce, 0x70, 0xe6, 0x32, 0x93,
   0x88, 0x40, 0x50, 0xd8, 0x52, 0x11, 0xb6, 0x35, 0x6c, 0x34, 0x0d, 0x52, 0xcc, 0x7b, 0x85, 0xe4,
   0x16, 0xd3, 0x16, 0x81, 0xaa, 0xbd, 0x85, 0xf8, 0xe1, 0xa1, 0x77, 0x1c, 0x49, 0x81, 0xfe, 0x45,
   0x80, 0xa6, 0x32, 0xf0, 0xbb, 0x90, 0x54, 0x50, 0x7a, 0xce, 0x9f, 0x35, 0x0f, 0xeb, 0x3e, 0x31,
   0x91, 0xe3, 0x7a, 0x68, 0x9d, 0x51, 0x14, 0x80, 0x7e, 0x5a, 0xf4, 0xab, 0xe7, 0xff, 0xba, 0xa2,
   0x84, 0x3e, 0x0d, 0xd5, 0x32, 0x93, 0x44, 0x3a, 0x55, 0x05, 0x88, 0xa6, 0xa5, 0x7b, 0xe9, 0x7d,
   0xe0, 0xdb, 0x54, 0x72, 0x2f, 0x2c, 0x87, 0x32, 0x66, 0xad, 0x86, 0xb7, 0xd1, 0x0e, 0x30, 0x13]

def headerV2 : Bytes :=
  [0x5a, 0x52, 0x57, 0x50, 0x01, 0x00, 0x60, 0x00, 0x02, 0x00, 0x00, 0x00, 0x01, 0x01, 0x00, 0x00,
   0x01, 0x00, 0x00, 0x00, 0x03, 0x00, 0x00, 0x00, 0x20, 0x01, 0x00, 0x00, 0x10, 0x27, 0x00, 0x00,
   0x01, 0x00, 0x00, 0x00, 0x01, 0x00, 0x00, 0x00, 0x01, 0x00, 0x00, 0x00, 0x80, 0x00, 0x00, 0x00,
   0x4e, 0xfd, 0x7f, 0x17, 0x05, 0xca, 0x61, 0x13, 0xf0, 0x4f, 0xa0, 0xb5, 0x74, 0x46, 0x69, 0x39,
   0x36, 0x00, 0xe0, 0x24, 0x9b, 0x1f, 0xe0, 0x1e, 0xe7, 0x30, 0x7b, 0x50, 0xb5, 0x38, 0x4b, 0x0d,
   0x71, 0x86, 0xb2, 0xbd, 0x81, 0x9e, 0x47, 0xdc, 0x00, 0x00, 0x00, 0x00, 0x00, 0x00, 0x00, 0x00]

def signatureV2 : Bytes :=
  [0x58, 0x59, 0x3a, 0xfe, 0x0e, 0x98, 0xba, 0x5f, 0x56, 0xde, 0xf3, 0xd6, 0x63, 0xc5, 0xaf, 0x40,
   0x87, 0x44, 0x86, 0xec, 0x61, 0xea, 0x19, 0x77, 0x2c, 0x72, 0x24, 0xef, 0x6b, 0x34, 0x03, 0x3b,
   0xbf, 0xaf, 0xee, 0x5f, 0x3c, 0xe5, 0x17, 0x46, 0x31, 0x90, 0xea, 0x77, 0x0d, 0x92, 0xb8, 0x9d,
   0x6f, 0x91, 0x45, 0x70, 0x4d, 0xd5, 0xab, 0x48, 0xf4, 0x49, 0xba, 0x00, 0xf9, 0x34, 0xbe, 0xbb,
   0x19, 0x3a, 0xd4, 0x6f, 0xb4, 0x9c, 0x35, 0x4c, 0x42, 0x33, 0xc2, 0xdb, 0x00, 0x5d, 0xb6, 0x37,
   0xb0, 0xcb, 0xab, 0x0e, 0x4b, 0x31, 0x7f, 0x91, 0x69, 0x5f, 0x0e, 0x9c, 0x7e, 0x96, 0x7d, 0x4c,
   0xb9, 0x9f, 0xf7, 0x87, 0xc8, 0xf8, 0xba, 0x90, 0x63, 0xa7, 0x4a, 0x78, 0x2f, 0x65, 0xdd, 0x48,
   0x9a, 0xb0, 0x00, 0xa2, 0x08, 0x39, 0xab, 0x56, 0xf1, 0xd2, 0x84, 0xec, 0x70, 0x89, 0xe0, 0xad,
   0xc8, 0x77, 0x48, 0x47, 0x51, 0xda, 0x9f, 0x22, 0xb9, 0x9d, 0x22, 0xaf, 0x94, 0x52, 0x68, 0x0a,
   0xda, 0x00, 0x06, 0x15, 0xb6, 0xa2, 0x10, 0x35, 0x75, 0xf9, 0x91, 0x16, 0xdd, 0x74, 0xaa, 0xe0,
   0x32, 0x8b, 0x0b, 0x3f, 0x25, 0x52, 0x6f, 0xd5, 0x3b, 0xe6, 0x0a, 0x59, 0x4b, 0x6e, 0xd2, 0x90,
   0x29, 0xb0, 0x12, 0x3e, 0x14, 0x6d, 0xbb, 0x58, 0xb1, 0x4a, 0x69, 0xdf, 0x8e, 0x7c, 0xc1, 0xbf,
   0x42, 0xd5, 0x2d, 0x09, 0x53, 0x6f, 0x4d, 0x4d, 0xfd, 0x24, 0x06, 0x78, 0x39, 0x61, 0x02, 0x47,
   0x53, 0xa7, 0x40, 0xd3, 0xba, 0xd2, 0xa8, 0xd5, 0x09, 0xef, 0xe4, 0x04, 0x4b, 0x39, 0x51, 0x7d,
   0xb6, 0x58, 0x47, 0xf6, 0xec, 0xea, 0x52, 0x88, 0xa2, 0x45, 0x89, 0x35, 0xdc, 0x21, 0x86, 0x57,
   0xca, 0x0c, 0xcb, 0x80, 0xf5, 0x8a, 0xf1, 0x61, 0xf5, 0xd1, 0x60, 0xf4, 0xf2, 0xe8, 0x7b, 0x2c]

def diskRecord (type operations : UInt8) (path digest : Bytes) : Bytes :=
  [type, operations] ++ le 2 path.length ++ Audit.field 48 path ++ Audit.field 32 digest ++ List.replicate 12 0

def deliveredRecords : Bytes :=
  diskRecord 1 1 (ascii "/apps/userio.txt") [] ++ diskRecord 1 7 (ascii "/docs") [] ++
    diskRecord 2 1 (ascii "/apps/fileio.elf") fileioDigest

def policyV1 : Bytes := headerV1 ++ deliveredRecords ++ signatureV1
def policyV2 : Bytes := headerV2 ++ deliveredRecords ++ signatureV2

/-- The RSA-PSS check on these two files: each carries its signature. -/
def deliveredVerify (signature _ : Bytes) : Bool := signature = signatureV1 || signature = signatureV2

def loadedRecords : List Record :=
  [⟨.recordProtected, 1, ascii "/apps/userio.txt", List.replicate 32 0⟩,
   ⟨.recordProtected, 7, ascii "/docs", List.replicate 32 0⟩,
   ⟨.recordWriter, 1, ascii "/apps/fileio.elf", fileioDigest⟩]

def loadedV1 : LoadedPolicy := ⟨⟨false, 10000, 1, 1, 1, 128, loadedRecords⟩, 1⟩
def loadedV2 : LoadedPolicy := ⟨⟨true, 10000, 1, 1, 1, 128, loadedRecords⟩, 2⟩

theorem validate_policyV1 : (validate deliveredVerify policyV1 1).toOption = some loadedV1 := by decide +kernel

theorem validate_policyV2 : (validate deliveredVerify policyV2 2).toOption = some loadedV2 := by decide +kernel

def deliveredFiles : Files := fun path =>
  if path = livePath then some policyV1
  else if path = versionPath then some (ascii "1\n")
  else if path = ascii "/security/update.zrwp" then some policyV2
  else none

/-- The delivered system; the storage answers its requests as `answers` says. -/
def delivered (answers : List Answer) : PolicyState where
  store := ⟨deliveredFiles, answers⟩
  currentDirectory := ascii "/"
  ready := true
  active := loadedV1
  mutationWindow := emptyWindow
  persistentPolicyVersion := 1
  audit := ⟨Audit.initializeEmpty, true, true⟩

/-- The sync at the end of the update fails, the old policy is written back, and the machine stops in the
    write of the old version. -/
def cutRestore : List Answer := List.replicate 7 .passes ++ [.fails false, .passes, .cut false]

theorem ok_of_toOption {ε α : Type} {x : Except ε α} {a : α} (h : x.toOption = some a) : x = .ok a := by
  cases x with
  | error e => cases h
  | ok b =>
    cases h
    rfl

theorem deliveredFiles_live : deliveredFiles livePath = some policyV1 := if_pos rfl

theorem deliveredFiles_version : deliveredFiles versionPath = some (ascii "1\n") := by
  unfold deliveredFiles
  rw [if_neg (by decide), if_pos rfl]

theorem deliveredFiles_update : deliveredFiles (ascii "/security/update.zrwp") = some policyV2 := by
  unfold deliveredFiles
  rw [if_neg (by decide), if_neg (by decide), if_pos rfl]

theorem active_delivered (answers : List Answer) : Active deliveredVerify (delivered answers) where
  version := rfl
  files := by
    have hparse : parseNonzeroDecimal (ascii "1\n") = some 1 := by decide
    exact ⟨policyV1, ⟨deliveredFiles_live, ascii "1\n", deliveredFiles_version, by decide, hparse⟩,
      ok_of_toOption validate_policyV1⟩

theorem proposes_delivered (answers : List Answer) :
    Proposes deliveredVerify (delivered answers) (ascii "/security/update.zrwp") loadedV2 := by
  exact ⟨ascii "/security/update.zrwp", policyV2, 2, by decide, rfl, rfl, deliveredFiles_update,
    ok_of_toOption validate_policyV2, rfl⟩

theorem proposed_delivered {answers : List Answer} {policy : LoadedPolicy}
    (h : Proposes deliveredVerify (delivered answers) (ascii "/security/update.zrwp") policy) : policy = loadedV2 := by
  obtain ⟨path, candidate, next, -, hnext, hnorm, hfile, hvalid, -⟩ := h
  obtain ⟨path', candidate', next', -, hnext', hnorm', hfile', hvalid', -⟩ := proposes_delivered answers
  rw [hnorm'] at hnorm
  cases hnorm
  rw [hfile'] at hfile
  cases hfile
  rw [hnext'] at hnext
  cases hnext
  rw [hvalid'] at hvalid
  exact (Except.ok.inj hvalid).symm

theorem selfTest_delivered {answers : List Answer} {policy : LoadedPolicy}
    (h : Proposes deliveredVerify (delivered answers) (ascii "/security/update.zrwp") policy) : selfTest policy = true := by
  rw [proposed_delivered h]
  decide

/-- A restore that is cut off between its two writes leaves files that no start accepts. -/
theorem update_cut_in_restore :
    Active deliveredVerify (delivered cutRestore) ∧ selfTest (delivered cutRestore).active = true ∧
      (∀ policy, Proposes deliveredVerify (delivered cutRestore) (ascii "/security/update.zrwp") policy →
        selfTest policy = true) ∧
      ¬∀ r s' t, update deliveredVerify (ascii "/security/update.zrwp") 0 (delivered cutRestore) = (r, s') →
        Restarted s' t → CanRead t → TakesUp deliveredVerify (delivered cutRestore) (ascii "/security/update.zrwp") t :=
  ⟨active_delivered _, by decide, fun _ h => selfTest_delivered h,
    not_takesUp_of_strands (active_delivered _) 0 ⟨⟨loadedV2, proposes_delivered _⟩, by decide⟩⟩

/-- An update of the delivered system with a storage that fails nowhere. -/
theorem update_takesUp_delivered : ¬Strands deliveredVerify (delivered []) (ascii "/security/update.zrwp") ∧
    ∀ r s' t, update deliveredVerify (ascii "/security/update.zrwp") 0 (delivered []) = (r, s') → Restarted s' t →
      CanRead t → TakesUp deliveredVerify (delivered []) (ascii "/security/update.zrwp") t := by
  have hnot : ¬Strands deliveredVerify (delivered []) (ascii "/security/update.zrwp") := by
    intro h
    exact absurd h.2 (by decide)
  exact ⟨hnot, (update_takesUp_iff deliveredVerify (delivered []) (ascii "/security/update.zrwp") 0 (active_delivered _)
    (by decide) fun _ h => selfTest_delivered h).mpr hnot⟩

end ZenovOS.Security.Ransomware
