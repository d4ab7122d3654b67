import ZenovOS.Theorems.Security.Severity

/-! # The scan cache is transparent

The cache is emptied whenever the active records change, so every entry holds what inspection says of some
scanned content under the records that are active now. A digest and a path then find no other content's
answer, as long as digests do not collide and the path fits the field that it is kept in. -/

namespace ZenovOS.Security.Intelligence
open Bytes Inspection Mach

/-- `zmid::classify` as it would be without a cache. -/
def classifyUncached (path data digest : Bytes) (result : ScanResult) (s : IntelligenceState) : Bool × ScanResult :=
  if !s.ready then (false, result)
  else
    match classifyRaw s.activeRecords data digest with
    | some hit => (true, hit)
    | none =>
      if workspaceBytes < data.length then
        (true, { result with verdict := .suspicious, signature := ascii "Inspection.SizeLimit" })
      else if !s.workspaceMapped then
        (true, { result with verdict := .suspicious, signature := ascii "Inspection.Workspace" })
      else inspectAnswer s path data result

/-- The states that scans of allowed paths and database updates lead to from a system after start-up, with
    the contents scanned so far. What else happens may change the files and the audit journal, but not the
    database. -/
inductive Reached (pssVerify : Bytes → Bytes → Bool) (allowed : Bytes → Prop) (s₀ : IntelligenceState) :
    List Bytes → IntelligenceState → Prop
  | start : Reached pssVerify allowed s₀ [] (clearCache s₀)
  | scan {scanned : List Bytes} {s : IntelligenceState} (h : Reached pssVerify allowed s₀ scanned s) (path data : Bytes)
      (hpath : allowed path) : Reached pssVerify allowed s₀ (data :: scanned) (classify path data (sha256 data) .fresh s).2
  | update {scanned : List Bytes} {s s' : IntelligenceState} (h : Reached pssVerify allowed s₀ scanned s)
      (candidatePath : Bytes) (tick : Nat) (updated : Bool)
      (hrun : Intelligence.update pssVerify candidatePath tick s = (some updated, s')) :
      Reached pssVerify allowed s₀ scanned s'
  | other {scanned : List Bytes} {s : IntelligenceState} (h : Reached pssVerify allowed s₀ scanned s) (policy : PolicyState)
      (hzmid : policy.managers .zmid = s.policy.managers .zmid) : Reached pssVerify allowed s₀ scanned { s with policy }

/-- No two of the contents have the same digest. -/
def NoCollision (contents : List Bytes) : Prop := ∀ x ∈ contents, ∀ y ∈ contents, sha256 x = sha256 y → x = y

/-- A path that fits `path_context` and `ScanResult::path`. -/
def FitsField (path : Bytes) : Prop := path.length < 48

instance (path : Bytes) : Decidable (FitsField path) := inferInstanceAs (Decidable (_ < _))

/-- An entry holds what inspection says, under the active records, of a content scanned before. -/
def Recorded (scanned : List Bytes) (s : IntelligenceState) (entry : CacheEntry) : Prop :=
  s.workspaceMapped = true ∧ ∃ version path data, data ∈ scanned ∧ FitsField path ∧
    entry = newEntry version path (sha256 data) (inspectAnswer s path data .fresh)

def CacheSound (scanned : List Bytes) (s : IntelligenceState) : Prop :=
  ∀ entry ∈ s.cache, entry.valid = true → Recorded scanned s entry

section Sound
variable {scanned : List Bytes} {s s' : IntelligenceState}

theorem cacheSound_clearCache (scanned : List Bytes) (s : IntelligenceState) : CacheSound scanned (clearCache s) := by
  intro entry hentry hvalid
  rw [List.eq_of_mem_replicate hentry] at hvalid
  cases hvalid

theorem Recorded.mono {entry : CacheEntry} {contents : List Bytes} (h : Recorded scanned s entry)
    (hcontents : ∀ x ∈ scanned, x ∈ contents) (hrecords : s'.activeRecords = s.activeRecords)
    (hmapped : s'.workspaceMapped = s.workspaceMapped) : Recorded contents s' entry := by
  obtain ⟨hm, version, path, data, hdata, hpath, hentry⟩ := h
  refine ⟨hmapped.trans hm, version, path, data, hcontents data hdata, hpath, ?_⟩
  rw [hentry]
  unfold inspectAnswer
  rw [hrecords]

theorem CacheSound.mono {contents : List Bytes} (h : CacheSound scanned s) (hcontents : ∀ x ∈ scanned, x ∈ contents)
    (hrecords : s'.activeRecords = s.activeRecords) (hmapped : s'.workspaceMapped = s.workspaceMapped)
    (hcache : s'.cache = s.cache) : CacheSound contents s' := by
  intro entry hentry hvalid
  rw [hcache] at hentry
  exact (h entry hentry hvalid).mono hcontents hrecords hmapped

theorem cacheSound_cacheStore {path data : Bytes} (h : CacheSound (data :: scanned) s) (hmapped : s.workspaceMapped = true)
    (hpath : FitsField path) :
    CacheSound (data :: scanned) (cacheStore s path (sha256 data) (inspectAnswer s path data .fresh)) := by
  intro entry hentry hvalid
  obtain hold | hnew := List.mem_or_eq_of_mem_set hentry
  · exact (h entry hold hvalid).mono (fun _ hx => hx) rfl rfl
  · exact ⟨hmapped, s.activeDatabaseVersion, path, data, List.mem_cons_self, hpath, hnew⟩

theorem cacheSound_classify {path : Bytes} (data : Bytes) (h : CacheSound scanned s) (hpath : FitsField path) :
    CacheSound (data :: scanned) (classify path data (sha256 data) .fresh s).2 := by
  have hkept : CacheSound (data :: scanned) s := h.mono (fun _ hx => List.mem_cons_of_mem _ hx) rfl rfl rfl
  unfold classify
  split
  · exact hkept
  · split
    · exact hkept
    · split
      · exact hkept
      · split
        · exact hkept
        · split
          · exact hkept
          · rename_i hmapped
            exact cacheSound_cacheStore hkept (by simpa using hmapped) hpath

theorem cacheSound_update {pssVerify : Bytes → Bytes → Bool} {candidatePath : Bytes} {tick : Nat} {updated : Bool}
    (h : CacheSound scanned s) (hrun : update pssVerify candidatePath tick s = (some updated, s')) : CacheSound scanned s' := by
  have hwp : wp (update pssVerify candidatePath tick) (fun _ s' => CacheSound scanned s') (fun _ => True) s := by
    unfold update
    rw [wp_bind, wp_zoom]
    refine wp_always (fun ok policy => ?_) fun _ => trivial
    refine wp_ite (fun _ => ?_) fun _ => ?_
    · exact cacheSound_clearCache _ _
    · exact h.mono (fun _ hx => hx) rfl rfl rfl
  have hsound := wp_ended hwp hrun
  exact hsound

theorem Reached.cacheSound {pssVerify : Bytes → Bytes → Bool} {s₀ : IntelligenceState}
    (h : Reached pssVerify FitsField s₀ scanned s) : CacheSound scanned s := by
  induction h with
  | start => exact cacheSound_clearCache _ _
  | scan h path data hpath ih => exact cacheSound_classify data ih hpath
  | update h candidatePath tick updated hrun ih => exact cacheSound_update ih hrun
  | other h policy hzmid ih => exact ih.mono (fun _ hx => hx) rfl rfl rfl

theorem answer_newEntry (version : Nat) (path digest : Bytes) (s : IntelligenceState) (data : Bytes) :
    (newEntry version path digest (inspectAnswer s path data .fresh)).answer .fresh = inspectAnswer s path data .fresh := by
  unfold inspectAnswer inspectionAnswer newEntry CacheEntry.answer
  split <;> rfl

theorem pathField_of_fits {path : Bytes} (h : FitsField path) : pathField path = path := by
  unfold FitsField at h
  exact List.take_of_length_le (by omega)

theorem CacheSound.lookup {path data : Bytes} {entry : CacheEntry} (h : CacheSound scanned s)
    (hcollide : NoCollision (data :: scanned)) (hentry : cacheLookup s path (sha256 data) = some entry) :
    s.workspaceMapped = true ∧ entry.answer .fresh = inspectAnswer s path data .fresh := by
  have hfound := List.find?_some hentry
  simp only [Bool.and_eq_true, decide_eq_true_eq, pathContextEqual] at hfound
  obtain ⟨⟨⟨hvalid, -⟩, -, hcontext⟩, hdigest⟩ := hfound
  obtain ⟨hmapped, version, path', data', hdata', hpath', rfl⟩ := h entry (List.mem_of_find?_eq_some hentry) hvalid
  have hd : sha256 data' = sha256 data := by
    rw [← hdigest]
    unfold newEntry
    split <;> rfl
  have hp : pathField path' = path := by
    rw [← hcontext]
    unfold newEntry
    split <;> rfl
  rw [pathField_of_fits hpath'] at hp
  have hsame := hcollide data' (List.mem_cons_of_mem _ hdata') data List.mem_cons_self hd
  rw [hp, hsame]
  exact ⟨hmapped, answer_newEntry _ _ _ _ _⟩

end Sound

/-- In every state that scans of paths that fit their field and updates lead to, a scan answers as it would
    without the cache. -/
theorem classify_eq_uncached {pssVerify : Bytes → Bytes → Bool} {s₀ s : IntelligenceState} {scanned : List Bytes}
    (h : Reached pssVerify FitsField s₀ scanned s) (path data : Bytes) (hcollide : NoCollision (data :: scanned)) :
    (classify path data (sha256 data) .fresh s).1 = classifyUncached path data (sha256 data) .fresh s := by
  unfold classify classifyUncached
  cases s.ready with
  | false => rfl
  | true =>
    cases classifyRaw s.activeRecords data (sha256 data) with
    | some hit => rfl
    | none =>
      by_cases hsize : workspaceBytes < data.length
      · simp only [Bool.not_true, Bool.false_eq_true, if_false, if_pos hsize]
      · simp only [Bool.not_true, Bool.false_eq_true, if_false, if_neg hsize]
        cases hentry : cacheLookup s path (sha256 data) with
        | none => cases s.workspaceMapped <;> rfl
        | some entry =>
          obtain ⟨hmapped, hanswer⟩ := h.cacheSound.lookup hcollide hentry
          rw [hmapped]
          exact hanswer

/-! ### A path that does not fit -/

/-- A path of 47 characters. -/
def shortPath : Bytes := ascii "/docs/" ++ List.replicate 41 97

/-- The same path with an extension that `path_context` has no room for. -/
def longPath : Bytes := shortPath ++ ascii ".zip"

def smallContent : Bytes := ascii "abcd"

/-- The state after a scan under the long path. -/
def scannedLong : IntelligenceState := (classify longPath smallContent (sha256 smallContent) .fresh (clearCache deliveredState)).2

/-- Under the long path the content is taken for an archive, and the answer is kept under the short one. -/
theorem classify_long_path : ¬∀ (s : IntelligenceState) (scanned : List Bytes) (path data : Bytes),
    Reached (fun _ _ => true) (fun _ => True) deliveredState scanned s → NoCollision (data :: scanned) →
      (classify path data (sha256 data) .fresh s).1 = classifyUncached path data (sha256 data) .fresh s := by
  intro h
  have hreached : Reached (fun _ _ => true) (fun _ => True) deliveredState [smallContent] scannedLong :=
    .scan .start longPath smallContent trivial
  have hcollide : NoCollision [smallContent, smallContent] := by
    intro x hx y hy _
    simp only [List.mem_cons, List.not_mem_nil, or_false, or_self] at hx hy
    rw [hx, hy]
  have hcached : (classify shortPath smallContent (sha256 smallContent) .fresh scannedLong).1.1 = true := by decide +kernel
  have huncached : (classifyUncached shortPath smallContent (sha256 smallContent) .fresh scannedLong).1 = false := by
    decide +kernel
  have hequal := congrArg Prod.fst (h scannedLong [smallContent] shortPath smallContent hreached hcollide)
  exact absurd (hcached.symm.trans (hequal.trans huncached)) (by decide)

/-- A second scan of the same content under the same path. -/
theorem classify_eq_uncached_twice :
    FitsField shortPath ∧ NoCollision [smallContent, smallContent] ∧
      (classify shortPath smallContent (sha256 smallContent) .fresh
          (classify shortPath smallContent (sha256 smallContent) .fresh (clearCache deliveredState)).2).1 =
        classifyUncached shortPath smallContent (sha256 smallContent) .fresh
          (classify shortPath smallContent (sha256 smallContent) .fresh (clearCache deliveredState)).2 := by
  have hfits : FitsField shortPath := by decide
  have hcollide : NoCollision [smallContent, smallContent] := by
    intro x hx y hy _
    simp only [List.mem_cons, List.not_mem_nil, or_false, or_self] at hx hy
    rw [hx, hy]
  have hreached : Reached (fun _ _ => true) FitsField deliveredState [smallContent]
      (classify shortPath smallContent (sha256 smallContent) .fresh (clearCache deliveredState)).2 :=
    .scan .start shortPath smallContent hfits
  exact ⟨hfits, hcollide, classify_eq_uncached hreached shortPath smallContent hcollide⟩

end ZenovOS.Security.Intelligence
