import ZenovOS.Security.Intelligence

/-! # How severe a verdict is

An inspection is a search: it shows one view after the other to the classifier and ends at the first that the
classifier reports. Which views it would show does not depend on the classifier, so the verdict is that of
the first record, in the order of the database, on the first view that any record matches. -/

namespace ZenovOS.Security.Intelligence
open Bytes Inspection

/-! ### Inspection as a search -/

/-- The same inspection by a classifier that reports nothing. -/
def unmatched (env : Env) : Env := { env with classify := fun _ => none }

/-- A piece of an inspection ends as it does without a classifier, unless the classifier reports a view that
    it reaches then; it ends with the first such report. -/
def Searches {α : Type} (m : Inspect α) : Prop :=
  ∀ env w, (m env w).2 =
    match (m (unmatched env) w).1.findSome? env.classify with
    | some result => .error (.matched result)
    | none => (m (unmatched env) w).2

section Combinators
variable {α β : Type}

theorem searches_pure (a : α) : Searches (pure a : Inspect α) := fun _ _ => rfl

theorem searches_unsupported : Searches (Inspect.unsupported : Inspect α) := fun _ _ => rfl

theorem searches_path : Searches Inspect.path := fun _ _ => rfl

theorem searches_bytes (region : Region) : Searches (Inspect.bytes region) := fun _ _ => rfl

theorem searches_write (id : BufferId) (data : Bytes) : Searches (Inspect.write id data) := fun _ _ => rfl

theorem searches_decodeBase64 (source : Source) (offset size : Nat) (output : BufferId) :
    Searches (decodeBase64 source offset size output) := fun _ _ => rfl

theorem searches_classifyDecoded (layer : Layer) (data : Bytes) : Searches (Inspect.classifyDecoded layer data) := by
  intro env w
  simp only [Inspect.classifyDecoded, unmatched, List.findSome?_cons, List.findSome?_nil]
  cases env.classify ⟨layer, data⟩ <;> rfl

theorem searches_bind {m : Inspect α} {f : α → Inspect β} (hm : Searches m) (hf : ∀ a, Searches (f a)) :
    Searches (m >>= f) := by
  intro env w
  have hm := hm env w
  show (Inspect.andThen m f env w).2 = match (Inspect.andThen m f (unmatched env) w).1.findSome? env.classify with
    | some result => .error (.matched result)
    | none => (Inspect.andThen m f (unmatched env) w).2
  unfold Inspect.andThen
  rcases hfree : m (unmatched env) w with ⟨views, free⟩
  rcases hrun : m env w with ⟨views', stop⟩
  rw [hfree, hrun] at hm
  dsimp only at hm
  cases hit : views.findSome? env.classify with
  | some result =>
    rw [hit] at hm
    subst hm
    cases free with
    | error e => simp [hit]
    | ok p => simp [hit]
  | none =>
    rw [hit] at hm
    subst hm
    cases stop with
    | error e => simp [hit]
    | ok p => simpa [hit] using hf p.1 env p.2

theorem searches_ite {c : Prop} [Decidable c] {m n : Inspect α} (hm : Searches m) (hn : Searches n) :
    Searches (if c then m else n) := by
  split
  · exact hm
  · exact hn

theorem searches_when (c : Bool) {m : Inspect Unit} (hm : Searches m) : Searches (Inspect.when c m) :=
  searches_ite hm (searches_pure _)

end Combinators

/-- An inspector whose runs are searches. -/
def SearchesAll (inspector : Inspector) : Prop := ∀ region scratch alternate, Searches (inspector region scratch alternate)

section Inspectors
variable {inner prefixed zip : Inspector}

theorem searches_inspectEntries (hi : SearchesAll inner) (layer : Layer) (region : Region) (output : BufferId)
    (alternate : Option BufferId) (entries : List ZipEntryView) (total : Nat) :
    Searches (inspectEntries inner layer region output alternate entries total) := by
  induction entries generalizing total with
  | nil => exact searches_pure ()
  | cons entry rest ih =>
    unfold inspectEntries
    refine searches_ite searches_unsupported ?_
    refine searches_bind (searches_bytes region) fun data => ?_
    cases unpackEntry data entry with
    | none => exact searches_unsupported
    | some unpacked =>
      refine searches_bind (searches_write _ _) fun _ => searches_bind (searches_classifyDecoded _ _) fun _ => ?_
      exact searches_bind (hi _ _ _) fun _ => ih _

theorem searches_inspectZip (hi : SearchesAll inner) (hp : SearchesAll prefixed) (layer : Layer) :
    SearchesAll (inspectZip inner prefixed layer) := by
  intro region output alternate
  unfold inspectZip
  refine searches_bind (searches_bytes region) fun data => ?_
  cases readBounds data with
  | none => exact searches_unsupported
  | some bounds =>
    dsimp only
    cases readEntries data bounds bounds.totalEntries bounds.centralOffset [] with
    | none => exact searches_unsupported
    | some entries =>
      refine searches_ite searches_unsupported ?_
      refine searches_bind (searches_when _ (hp _ _ _)) fun _ => ?_
      refine searches_ite (searches_pure _) (searches_ite searches_unsupported ?_)
      exact searches_inspectEntries hi _ _ _ _ _ _

theorem searches_inspectCase (region : Region) (scratch : BufferId) (layer : Layer) :
    Searches (inspectCase region scratch layer) := by
  unfold inspectCase
  refine searches_bind (searches_bytes _) fun data => searches_when _ ?_
  exact searches_bind (searches_write _ _) fun _ => searches_classifyDecoded _ _

theorem searches_inspectDecodedPayload (hi : SearchesAll inner) (decoded : BufferId) (size : Nat)
    (alternate : Option BufferId) (layer : Layer) :
    Searches (inspectDecodedPayload inner decoded size alternate layer) := by
  unfold inspectDecodedPayload
  refine searches_bind (searches_bytes _) fun data => searches_bind (searches_classifyDecoded _ _) fun _ => ?_
  exact searches_bind (searches_when _ (hi _ _ _)) fun _ => searches_inspectCase _ _ _

theorem searches_inspectBase64 (hi : SearchesAll inner) (source : Source) (offset size : Nat) (scratch : BufferId)
    (alternate : Option BufferId) (layer : Layer) :
    Searches (inspectBase64 inner source offset size scratch alternate layer) := by
  unfold inspectBase64
  refine searches_bind (searches_decodeBase64 _ _ _ _) fun decoded => ?_
  split
  · exact searches_pure _
  · exact searches_pure _
  · exact searches_inspectDecodedPayload hi _ _ _ _

theorem searches_inspectTokens (hi : SearchesAll inner) (region : Region) (scratch : BufferId)
    (alternate : Option BufferId) (left cursor : Nat) : Searches (inspectTokens inner region scratch alternate left cursor) := by
  induction left generalizing cursor with
  | zero => exact searches_pure ()
  | succ left ih =>
    unfold inspectTokens
    refine searches_ite (searches_pure _) (searches_bind (searches_bytes _) fun data => ?_)
    exact searches_bind (searches_when _ (searches_inspectBase64 hi _ _ _ _ _ _)) fun _ => ih _

theorem searches_inspectArchive (hz : SearchesAll zip) : SearchesAll (inspectArchive zip) := by
  intro region scratch alternate
  unfold inspectArchive
  refine searches_ite ?_ (hz _ _ _)
  cases alternate with
  | none => exact searches_unsupported
  | some other => exact searches_ite searches_unsupported (hz _ _ _)

theorem searches_inspectText (hi : SearchesAll inner) : SearchesAll (inspectText inner) := by
  intro region scratch alternate
  unfold inspectText
  refine searches_bind (searches_inspectBase64 hi _ _ _ _ _ _) fun _ => ?_
  exact searches_bind (searches_inspectTokens hi _ _ _ _ _) fun _ => searches_inspectCase _ _ _

theorem searches_payloadWith (top : Bool) (hz : SearchesAll zip) (hi : SearchesAll inner) :
    SearchesAll (payloadWith top zip inner) := by
  intro region scratch alternate
  unfold payloadWith
  refine searches_bind (searches_bytes _) fun data => searches_bind searches_path fun path => ?_
  exact searches_ite (searches_inspectArchive hz _ _ _) (searches_inspectText hi _ _ _)

theorem searches_inspectFlat : SearchesAll inspectFlat :=
  searches_payloadWith _ (fun _ _ _ => searches_unsupported) fun _ _ _ => searches_unsupported

theorem searches_inspectPayload (levels : Nat) : SearchesAll (inspectPayload levels) := by
  induction levels with
  | zero => exact searches_inspectFlat
  | succ levels ih => exact searches_payloadWith _ (searches_inspectZip ih searches_inspectFlat _) ih

end Inspectors

/-! ### The verdict -/

/-- The views that inspection reaches when nothing is reported. -/
def reached (path data : Bytes) : List View := (inspectContent (fun _ => none) path data).1

/-- The first record, in the order of the database, that matches these bytes. -/
def firstRecord (records : List Record) (data : Bytes) : Option Record := records.find? (·.matches data (sha256 data))

/-- The first record on the first view that any record matches. -/
def firstOfViews (records : List Record) (views : List View) : Option Record :=
  views.findSome? fun view => firstRecord records view.data

theorem inspectContent_eq (classifier : View → Option Match) (path data : Bytes) :
    (inspectContent classifier path data).2 =
      match (reached path data).findSome? classifier with
      | some result => .error (.matched result)
      | none => (inspectContent (fun _ => none) path data).2 :=
  searches_inspectPayload maxArchiveDepth _ _ _ ⟨path, data, classifier⟩ wipedWorkspace

/-- What a record makes of a view. -/
def matchOf (r : Record) (layer : Layer) : Match :=
  ⟨if r.blocks then .infected else .suspicious, r.action, composeSignature layer.name r.name⟩

theorem classifyView_eq (records : List Record) (view : View) :
    classifyView records view = (firstRecord records view.data).map (matchOf · view.layer) := by
  unfold classifyView classifyRaw firstRecord
  rw [Option.map_map]
  rfl

theorem findSome?_classifyView (records : List Record) (views : List View) :
    match firstOfViews records views with
    | none => views.findSome? (classifyView records) = none
    | some r => ∃ layer, views.findSome? (classifyView records) = some (matchOf r layer) := by
  unfold firstOfViews
  induction views with
  | nil => rfl
  | cons view rest ih =>
    simp only [List.findSome?_cons, classifyView_eq]
    cases firstRecord records view.data with
    | none => exact ih
    | some r => exact ⟨view.layer, rfl⟩

/-- Some record that blocks matches the content, or a view of it that inspection reaches. -/
def Blocked (s : IntelligenceState) (path data : Bytes) : Prop :=
  ∃ r ∈ s.activeRecords, r.blocks = true ∧ (r.matches data (sha256 data) = true ∨
    data.length ≤ workspaceBytes ∧ s.workspaceMapped = true ∧
      ∃ view ∈ reached path data, r.matches view.data (sha256 view.data) = true)

/-- A record that does not block comes first: on the raw bytes, or on the first view that any record
    matches. An answer that the cache holds counts for the inspection that it was taken from. -/
def Shadowed (s : IntelligenceState) (path data : Bytes) : Prop :=
  match firstRecord s.activeRecords data with
  | some r => r.blocks = false
  | none =>
    match cacheLookup s path (sha256 data) with
    | some entry => ¬(entry.isMatch = true ∧ entry.verdict = .infected)
    | none => ∃ r, firstOfViews s.activeRecords (reached path data) = some r ∧ r.blocks = false

theorem shadowed_of_first {s : IntelligenceState} {path data : Bytes} {r : Record}
    (h : firstRecord s.activeRecords data = some r) : Shadowed s path data ↔ r.blocks = false := by
  unfold Shadowed
  rw [h]

theorem firstRecord_isSome {records : List Record} {r : Record} {data : Bytes} (hr : r ∈ records)
    (hm : r.matches data (sha256 data) = true) : ∃ first, firstRecord records data = some first := by
  unfold firstRecord
  cases hf : records.find? (·.matches data (sha256 data)) with
  | some first => exact ⟨first, rfl⟩
  | none => exact absurd hm (List.find?_eq_none.mp hf r hr)

theorem firstOfViews_isSome {records : List Record} {views : List View} {r : Record} {view : View} (hr : r ∈ records)
    (hv : view ∈ views) (hm : r.matches view.data (sha256 view.data) = true) :
    ∃ first, firstOfViews records views = some first := by
  unfold firstOfViews
  cases hf : views.findSome? fun view => firstRecord records view.data with
  | some first => exact ⟨first, rfl⟩
  | none =>
    obtain ⟨first, hfirst⟩ := firstRecord_isSome hr hm
    have := List.findSome?_eq_none_iff.mp hf view hv
    rw [hfirst] at this
    cases this

theorem inspectAnswer_infected {s : IntelligenceState} {path data : Bytes} {r : Record} (result : ScanResult)
    (h : firstOfViews s.activeRecords (reached path data) = some r) :
    ((inspectAnswer s path data result).1 = true ∧ (inspectAnswer s path data result).2.verdict = .infected) ↔
      r.blocks = true := by
  have hfind := findSome?_classifyView s.activeRecords (reached path data)
  rw [h] at hfind
  obtain ⟨layer, hlayer⟩ := hfind
  unfold inspectAnswer
  rw [inspectContent_eq, hlayer]
  simp only [inspectionAnswer, matchOf, true_and]
  cases r.blocks <;> simp

/-- A blocking match makes the verdict infected, whatever the order of the records and the other matches, if
    and only if no record that does not block comes first. -/
theorem classify_infected_iff (s : IntelligenceState) (path data : Bytes) (hready : s.ready = true) :
    (Blocked s path data → (classify path data (sha256 data) .fresh s).1.1 = true ∧
        (classify path data (sha256 data) .fresh s).1.2.verdict = .infected) ↔
      ¬(Blocked s path data ∧ Shadowed s path data) := by
  rw [not_and]
  refine forall_congr' fun hblocked => ?_
  obtain ⟨b, hb, hblocks, hmatch⟩ := hblocked
  unfold classify Shadowed
  simp only [hready, Bool.not_true, Bool.false_eq_true, if_false]
  have hraw : classifyRaw s.activeRecords data (sha256 data) = (firstRecord s.activeRecords data).map fun r =>
      ⟨if r.blocks then .infected else .suspicious, r.action, r.name⟩ := rfl
  rw [hraw]
  cases hfirst : firstRecord s.activeRecords data with
  | some r =>
    simp only [Option.map_some, true_and]
    cases r.blocks <;> simp
  | none =>
    -- no record matches the raw bytes, so the blocking one matches a view
    cases hmatch with
    | inl hm =>
      obtain ⟨first, hsome⟩ := firstRecord_isSome hb hm
      rw [hfirst] at hsome
      cases hsome
    | inr hm =>
      obtain ⟨hsize, hmapped, view, hview, hm⟩ := hm
      simp only [Option.map_none, if_neg (Nat.not_lt.mpr hsize)]
      cases hcache : cacheLookup s path (sha256 data) with
      | some entry =>
        simp only [CacheEntry.answer, not_not]
        cases entry.isMatch <;> simp
      | none =>
        simp only [hmapped, Bool.not_true, Bool.false_eq_true, if_false]
        obtain ⟨r, hr⟩ := firstOfViews_isSome hb hview hm
        rw [inspectAnswer_infected _ hr, hr]
        simp

/-! ### The delivered database -/

/-- The rules of version 1, as `zmid_builder.cpp` writes them. -/
def deliveredRecords : List Record :=
  [⟨.hash, 3, [0x27, 0x5a, 0x02, 0x1b, 0xbf, 0xb6, 0x48, 0x9e, 0x54, 0xd4, 0x71, 0x89, 0x9f, 0x7d, 0xb9, 0xd1,
      0x66, 0x3f, 0xc6, 0x95, 0xec, 0x2f, 0xe2, 0xa2, 0xc4, 0x53, 0x8a, 0xab, 0xf6, 0x51, 0xfd, 0x0f],
    ascii "Eicar.Test.File"⟩,
   ⟨.hash, 3, [0x3e, 0x98, 0xe2, 0xf4, 0x8d, 0x88, 0x47, 0x40, 0x92, 0xd6, 0xf8, 0x0e, 0xb5, 0xf9, 0x04, 0x1c,
      0x4a, 0x77, 0xc0, 0xd9, 0x20, 0xd1, 0x22, 0x9e, 0x6b, 0xd1, 0x08, 0x88, 0x88, 0xb6, 0x7c, 0x82],
    ascii "Zenov.Guard.Test-Signature"⟩,
   ⟨.pattern, 3, ascii "EICAR-STANDARD-ANTIVIRUS", ascii "Eicar.Pattern"⟩,
   ⟨.pattern, 3, ascii "ZENOV_RANSOMWARE_TEST_V1", ascii "Pattern.Ransomware.Test"⟩,
   ⟨.pattern, 4, ascii "ZENOV_PUA_TEST_V1", ascii "PUA.Zenov.Test"⟩]

/-- A system with these rules, after start-up. -/
def deliveredState : IntelligenceState where
  policy := ⟨⟨fun _ => none, []⟩, ascii "/", false, .none, [], [], fun _ => ⟨true, 1, 1⟩, ⟨Audit.initializeEmpty, true, true⟩⟩
  activeRecords := deliveredRecords
  cache := List.replicate cacheCapacity CacheEntry.empty
  cacheNext := 0
  workspaceMapped := true

def ransomwareRecord : Record := ⟨.pattern, 3, ascii "ZENOV_RANSOMWARE_TEST_V1", ascii "Pattern.Ransomware.Test"⟩

/-- The marker of the audit-only rule, and behind it the one of the blocking rule in lower case. -/
def hiddenContent : Bytes := ascii "ZENOV_PUA_TEST_V1 zenov_ransomware_test_v1"

theorem blocked_hiddenContent : Blocked deliveredState (ascii "/docs/a.txt") hiddenContent := by
  have hview : (⟨.caseFold, ascii "ZENOV_PUA_TEST_V1 ZENOV_RANSOMWARE_TEST_V1"⟩ : View) ∈
      reached (ascii "/docs/a.txt") hiddenContent := by decide +kernel
  exact ⟨ransomwareRecord, by decide, by decide, .inr ⟨by decide, rfl, _, hview, by decide +kernel⟩⟩

/-- The raw match of the audit-only rule ends the classification before the text is folded. -/
theorem classify_hiddenContent : deliveredState.ready = true ∧
    ¬(Blocked deliveredState (ascii "/docs/a.txt") hiddenContent →
      (classify (ascii "/docs/a.txt") hiddenContent (sha256 hiddenContent) .fresh deliveredState).1.1 = true ∧
        (classify (ascii "/docs/a.txt") hiddenContent (sha256 hiddenContent) .fresh deliveredState).1.2.verdict =
          .infected) := by
  refine ⟨rfl, fun h => ?_⟩
  have hverdict : (classify (ascii "/docs/a.txt") hiddenContent (sha256 hiddenContent) .fresh deliveredState).1.2.verdict =
      .suspicious := by decide +kernel
  have hinfected := (h blocked_hiddenContent).2
  exact absurd (hverdict.symm.trans hinfected) (by decide)

/-- The blocking rule alone is reported as infected. -/
theorem classify_ransomware :
    ¬(Blocked deliveredState (ascii "/docs/a.txt") (ascii "ZENOV_RANSOMWARE_TEST_V1") ∧
        Shadowed deliveredState (ascii "/docs/a.txt") (ascii "ZENOV_RANSOMWARE_TEST_V1")) ∧
      (Blocked deliveredState (ascii "/docs/a.txt") (ascii "ZENOV_RANSOMWARE_TEST_V1") →
        (classify (ascii "/docs/a.txt") (ascii "ZENOV_RANSOMWARE_TEST_V1") (sha256 (ascii "ZENOV_RANSOMWARE_TEST_V1")) .fresh
            deliveredState).1.1 = true ∧
          (classify (ascii "/docs/a.txt") (ascii "ZENOV_RANSOMWARE_TEST_V1") (sha256 (ascii "ZENOV_RANSOMWARE_TEST_V1")) .fresh
            deliveredState).1.2.verdict = .infected) := by
  have hfirst : firstRecord deliveredState.activeRecords (ascii "ZENOV_RANSOMWARE_TEST_V1") = some ransomwareRecord := by decide +kernel
  have hnot : ¬(Blocked deliveredState (ascii "/docs/a.txt") (ascii "ZENOV_RANSOMWARE_TEST_V1") ∧
      Shadowed deliveredState (ascii "/docs/a.txt") (ascii "ZENOV_RANSOMWARE_TEST_V1")) := by
    rw [shadowed_of_first hfirst, not_and]
    exact fun _ => by decide
  have hready : deliveredState.ready = true := rfl
  exact ⟨hnot, (classify_infected_iff deliveredState _ _ hready).mpr hnot⟩

end ZenovOS.Security.Intelligence
