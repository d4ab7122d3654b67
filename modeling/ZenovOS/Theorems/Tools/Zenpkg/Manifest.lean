import ZenovOS.Tools.Zenpkg.Manifest

/-! # Manifests and their canonical form

The canonical form of a manifest is a row of entries, one a line, and a row of entries with clean values is read back
entry by entry. What is read from any text is clean: blanks and line ends never get into a value. -/

namespace ZenovOS.Zenpkg
open Bytes Text

/-! ### Entries -/

inductive Key
  | scalar (s : Scalar)
  | capability
  | dependency
  | conflict
  deriving DecidableEq

def Key.text : Key → Bytes
  | .scalar s => s.key
  | .capability => ascii "capability"
  | .dependency => ascii "dependency"
  | .conflict => ascii "conflict"

structure Entry where
  key : Key
  value : Bytes
  deriving DecidableEq

/-- The line of an entry, without its end. -/
def Entry.line (e : Entry) : Bytes := e.key.text ++ 61 :: e.value

def Entry.scalar? (e : Entry) : Option Scalar :=
  match e.key with
  | .scalar s => some s
  | _ => none

/-- The manifest with an entry more. -/
def Manifest.put (m : Manifest) (e : Entry) : Manifest :=
  match e.key with
  | .scalar s => m.set e.value s
  | .capability => { m with capabilities := m.capabilities ++ [e.value] }
  | .dependency => { m with dependencies := m.dependencies ++ [e.value] }
  | .conflict => { m with conflicts := m.conflicts ++ [e.value] }

/-- The entries of a manifest, in the canonical order. -/
def Manifest.entries (m : Manifest) : List Entry :=
  Scalar.all.map (fun s => ⟨.scalar s, m.get s⟩) ++ m.capabilities.map (⟨.capability, ·⟩) ++
    m.dependencies.map (⟨.dependency, ·⟩) ++ m.conflicts.map (⟨.conflict, ·⟩)

/-- The manifest with its capabilities, dependencies and conflicts sorted. -/
def Manifest.sorted (m : Manifest) : Manifest :=
  { m with
    capabilities := Zenpkg.sorted m.capabilities
    dependencies := Zenpkg.sorted m.dependencies
    conflicts := Zenpkg.sorted m.conflicts }

theorem canonicalManifest_eq (m : Manifest) : canonicalManifest m = m.sorted.entries.flatMap fun e => e.line ++ [10] := by
  unfold canonicalManifest Manifest.entries
  simp only [List.flatMap_append, List.flatMap_map]
  rfl

theorem key_text (k : Key) : k.text ≠ [] ∧ ∀ ch ∈ k.text, isSpace ch = false ∧ ch ≠ 61 ∧ ch ≠ 35 ∧ ch ≠ 10 := by
  have hkey : k.text ≠ [] ∧ k.text.all (fun ch => !isSpace ch && ch != 61 && ch != 35 && ch != 10) = true := by
    cases k with
    | scalar s => cases s <;> decide
    | capability => decide
    | dependency => decide
    | conflict => decide
  refine ⟨hkey.1, fun ch hch => ?_⟩
  have hall := List.all_eq_true.mp hkey.2 ch hch
  simp only [Bool.and_eq_true, Bool.not_eq_true', bne_iff_ne] at hall
  obtain ⟨⟨⟨hspace, h61⟩, h35⟩, h10⟩ := hall
  exact ⟨hspace, h61, h35, h10⟩

theorem find_key (s : Scalar) : Scalar.find s.key = some s := by
  cases s <;> decide

theorem put_key {r : ManifestReader} {e : Entry} (h : ∀ s ∈ e.scalar?, s ∉ r.seenScalars) :
    r.put e.key.text e.value = .ok ⟨r.manifest.put e, e.scalar?.toList ++ r.seenScalars, r.lineNumber⟩ := by
  obtain ⟨k, value⟩ := e
  cases k with
  | scalar s =>
    have hcapability : s.key ≠ ascii "capability" := by cases s <;> decide
    have hdependency : s.key ≠ ascii "dependency" := by cases s <;> decide
    have hconflict : s.key ≠ ascii "conflict" := by cases s <;> decide
    show r.put s.key value = _
    unfold ManifestReader.put
    dsimp only
    rw [if_neg hcapability, if_neg hdependency, if_neg hconflict, find_key]
    exact if_neg (h s rfl)
  | capability => rfl
  | dependency => rfl
  | conflict => rfl

theorem put_entry {r r' : ManifestReader} {key value : Bytes} (h : r.put key value = .ok r') :
    ∃ k, r'.manifest = r.manifest.put ⟨k, value⟩ := by
  unfold ManifestReader.put at h
  dsimp only at h
  split at h
  · cases h
    exact ⟨.capability, rfl⟩
  · split at h
    · cases h
      exact ⟨.dependency, rfl⟩
    · split at h
      · cases h
        exact ⟨.conflict, rfl⟩
      · split at h
        · cases h
        · split at h
          · cases h
          · cases h
            exact ⟨.scalar _, rfl⟩

/-! ### Clean values -/

/-- A value that survives a line: it is there, has no blank at an end and no line end in it. -/
structure Clean (value : Bytes) : Prop where
  nonempty : value ≠ []
  trimmed : Trimmed isSpace value
  line : (10 : UInt8) ∉ value

theorem Entry.line_trimmed {e : Entry} (h : Clean e.value) : Trimmed isSpace e.line := by
  obtain ⟨hne, hkey⟩ := key_text e.key
  refine ⟨fun a ha => ?_, fun a ha => ?_⟩
  · rw [Entry.line, List.head?_append] at ha
    cases htext : e.key.text with
    | nil => exact absurd htext hne
    | cons b rest =>
      rw [htext] at ha
      cases ha
      exact (hkey a (htext ▸ List.mem_cons_self)).1
  · rw [Entry.line, List.getLast?_append, List.getLast?_cons_of_ne_nil h.nonempty] at ha
    cases hlast : e.value.getLast? with
    | none => exact absurd (List.getLast?_eq_none_iff.mp hlast) h.nonempty
    | some b =>
      rw [hlast] at ha
      cases ha
      exact h.trimmed.last a hlast

theorem Entry.takeWhile_line (e : Entry) : e.line.takeWhile (· ≠ 61) = e.key.text := by
  have hall : ∀ ch ∈ e.key.text, decide (ch ≠ 61) = true := fun ch hch => decide_eq_true ((key_text e.key).2 ch hch).2.1
  rw [Entry.line, List.takeWhile_append_of_pos hall, List.takeWhile_cons_of_neg (by decide), List.append_nil]

theorem line_entry {e : Entry} (h : Clean e.value) (r : ManifestReader) :
    r.line e.line = ManifestReader.put { r with lineNumber := r.lineNumber + 1 } e.key.text e.value := by
  have htrimmed := Entry.line_trimmed h
  obtain ⟨hne, hkey⟩ := key_text e.key
  have hlast : e.line.getLast? ≠ some 13 := fun hr => Bool.noConfusion ((htrimmed.last 13 hr).symm.trans rfl)
  have hclean : trimmed e.line = e.line := htrimmed.trim_eq
  have hhead : ¬(e.line = [] ∨ e.line.head? = some 35) := by
    rw [Entry.line, not_or, List.head?_append]
    refine ⟨by simp, fun hhash => ?_⟩
    cases htext : e.key.text with
    | nil => exact hne htext
    | cons b rest =>
      rw [htext] at hhash
      cases hhash
      exact (hkey 35 (htext ▸ List.mem_cons_self)).2.2.1 rfl
  have hequal : ¬(e.key.text.length = e.line.length ∨ e.key.text.length = 0) := by
    rw [Entry.line, not_or, List.length_append, List.length_cons]
    exact ⟨by omega, fun h0 => hne (List.eq_nil_of_length_eq_zero h0)⟩
  have hname : trimmed (e.line.take e.key.text.length) = e.key.text := by
    rw [Entry.line, List.take_left]
    refine Trimmed.trim_eq ⟨fun a ha => (hkey a (List.mem_of_head? ha)).1, fun a ha => (hkey a (List.mem_of_getLast? ha)).1⟩
  have hvalue : trimmed (e.line.drop (e.key.text.length + 1)) = e.value := by
    have hsplit : e.line = (e.key.text ++ [61]) ++ e.value := by
      rw [Entry.line, List.append_assoc, List.singleton_append]
    rw [hsplit, List.drop_left' (by rw [List.length_append, List.length_singleton])]
    exact h.trimmed.trim_eq
  unfold ManifestReader.line
  dsimp only
  rw [if_neg hlast, hclean, if_neg hhead, Entry.takeWhile_line, if_neg hequal, hname, hvalue, if_neg h.nonempty]

/-! ### Rows of entries -/

/-- Clean entries with scalar keys that have not been seen, and none of them twice. -/
structure Readable (seen : List Scalar) (es : List Entry) : Prop where
  clean : ∀ e ∈ es, Clean e.value
  once : (es.filterMap Entry.scalar?).Nodup
  fresh : ∀ s ∈ es.filterMap Entry.scalar?, s ∉ seen

theorem read_entries {es : List Entry} {r : ManifestReader} (h : Readable r.seenScalars es) :
    ∃ r', (es.map Entry.line).foldlM ManifestReader.line r = .ok r' ∧ r'.manifest = es.foldl Manifest.put r.manifest := by
  induction es generalizing r with
  | nil => exact ⟨r, rfl, rfl⟩
  | cons e es ih =>
    have hclean : ∀ e ∈ es, Clean e.value := fun x hx => h.clean x (List.mem_cons_of_mem e hx)
    have honce := h.once
    have hfresh := h.fresh
    have hcons : (e :: es).filterMap Entry.scalar? = e.scalar?.toList ++ es.filterMap Entry.scalar? := by
      cases hs : e.scalar? with
      | none => exact List.filterMap_cons_none hs
      | some s => exact List.filterMap_cons_some hs
    rw [hcons] at honce hfresh
    obtain ⟨-, honce, hdisjoint⟩ := List.nodup_append.mp honce
    have hput := @put_key { r with lineNumber := r.lineNumber + 1 } e fun s hs =>
      hfresh s (List.mem_append_left _ (Option.mem_toList.mpr hs))
    rw [List.map_cons, List.foldlM_cons, List.foldl_cons, line_entry (h.clean e List.mem_cons_self), hput]
    refine @ih ⟨r.manifest.put e, e.scalar?.toList ++ r.seenScalars, r.lineNumber + 1⟩ ⟨hclean, honce, fun s hs hseen => ?_⟩
    rcases List.mem_append.mp hseen with hseen | hseen
    · exact hdisjoint s hseen s hs rfl
    · exact hfresh s (List.mem_append_right _ hs) hseen

theorem newline_notMem_line {e : Entry} (h : (10 : UInt8) ∉ e.value) : (10 : UInt8) ∉ e.line := by
  rw [Entry.line, List.mem_append, List.mem_cons, not_or, not_or]
  exact ⟨fun hkey => ((key_text e.key).2 10 hkey).2.2.2 rfl, by decide, h⟩

theorem parse_entries {es : List Entry} (h : Readable [] es) :
    parseManifest (es.flatMap fun e => e.line ++ [10]) = .ok (es.foldl Manifest.put .empty) := by
  have hlines := lines_flatMap fun e he => newline_notMem_line (h.clean e he).line
  obtain ⟨r, hread, hmanifest⟩ := read_entries (r := .start) h
  unfold parseManifest
  rw [hlines, hread]
  exact congrArg Except.ok hmanifest

/-- The manifest with more values of a repeated key. -/
def Manifest.extend (m : Manifest) (values : List Bytes) : Key → Manifest
  | .scalar _ => m
  | .capability => { m with capabilities := m.capabilities ++ values }
  | .dependency => { m with dependencies := m.dependencies ++ values }
  | .conflict => { m with conflicts := m.conflicts ++ values }

theorem foldl_repeated {k : Key} (hk : ∀ s, k ≠ .scalar s) (values : List Bytes) (m : Manifest) :
    (values.map (⟨k, ·⟩ : Bytes → Entry)).foldl Manifest.put m = m.extend values k := by
  induction values generalizing m with
  | nil =>
    cases k <;> simp [Manifest.extend]
  | cons v values ih =>
    rw [List.map_cons, List.foldl_cons, ih]
    cases k with
    | scalar s => exact absurd rfl (hk s)
    | capability => simp [Manifest.extend, Manifest.put]
    | dependency => simp [Manifest.extend, Manifest.put]
    | conflict => simp [Manifest.extend, Manifest.put]

theorem filterMap_repeated {k : Key} (hk : ∀ s, k ≠ .scalar s) (values : List Bytes) :
    (values.map (⟨k, ·⟩ : Bytes → Entry)).filterMap Entry.scalar? = [] := by
  rw [List.filterMap_eq_nil_iff]
  intro e he
  obtain ⟨v, -, rfl⟩ := List.mem_map.mp he
  cases k with
  | scalar s => exact absurd rfl (hk s)
  | capability => rfl
  | dependency => rfl
  | conflict => rfl

theorem filterMap_entries (m : Manifest) : m.entries.filterMap Entry.scalar? = Scalar.all := by
  unfold Manifest.entries
  rw [List.filterMap_append, List.filterMap_append, List.filterMap_append, filterMap_repeated (by simp),
    filterMap_repeated (by simp), filterMap_repeated (by simp), List.append_nil, List.append_nil, List.append_nil]
  rfl

theorem foldl_entries (m : Manifest) : m.entries.foldl Manifest.put .empty = m := by
  unfold Manifest.entries
  rw [List.foldl_append, List.foldl_append, List.foldl_append, foldl_repeated (by simp), foldl_repeated (by simp),
    foldl_repeated (by simp)]
  simp [Manifest.extend, Scalar.all, Manifest.put, Manifest.set, Manifest.get, Manifest.empty]

/-! ### What is read -/

theorem mem_entries {m : Manifest} {e : Entry} :
    e ∈ m.entries ↔ (∃ s, e = ⟨.scalar s, m.get s⟩) ∨ (∃ v ∈ m.capabilities, e = ⟨.capability, v⟩) ∨
      (∃ v ∈ m.dependencies, e = ⟨.dependency, v⟩) ∨ ∃ v ∈ m.conflicts, e = ⟨.conflict, v⟩ := by
  have hall : ∀ s, s ∈ Scalar.all := by
    intro s
    cases s <;> decide
  unfold Manifest.entries
  simp only [List.mem_append, List.mem_map, hall, true_and, eq_comm (a := e), or_assoc]

theorem get_set (m : Manifest) (value : Bytes) (s t : Scalar) : (m.set value s).get t = if s = t then value else m.get t := by
  cases s <;> cases t <;> rfl

theorem mem_entries_put {m : Manifest} {e e' : Entry} (h : e' ∈ (m.put e).entries) : e' ∈ m.entries ∨ e' = e := by
  obtain ⟨k, value⟩ := e
  rw [mem_entries] at h ⊢
  cases k with
  | scalar s =>
    have hrest : (m.set value s).capabilities = m.capabilities ∧ (m.set value s).dependencies = m.dependencies ∧
        (m.set value s).conflicts = m.conflicts := by cases s <;> exact ⟨rfl, rfl, rfl⟩
    change (∃ t, e' = ⟨.scalar t, (m.set value s).get t⟩) ∨ (∃ v ∈ (m.set value s).capabilities, _) ∨
      (∃ v ∈ (m.set value s).dependencies, _) ∨ ∃ v ∈ (m.set value s).conflicts, _ at h
    rw [hrest.1, hrest.2.1, hrest.2.2] at h
    rcases h with ⟨t, rfl⟩ | h
    · rw [get_set]
      split
      · rename_i hst
        exact .inr (hst ▸ rfl)
      · exact .inl (.inl ⟨t, rfl⟩)
    · exact .inl (.inr h)
  | capability =>
    rcases h with ⟨t, rfl⟩ | ⟨v, hv, rfl⟩ | h
    · exact .inl (.inl ⟨t, by cases t <;> rfl⟩)
    · rcases List.mem_append.mp hv with hv | hv
      · exact .inl (.inr (.inl ⟨v, hv, rfl⟩))
      · exact .inr (List.mem_singleton.mp hv ▸ rfl)
    · exact .inl (.inr (.inr h))
  | dependency =>
    rcases h with ⟨t, rfl⟩ | h | ⟨v, hv, rfl⟩ | h
    · exact .inl (.inl ⟨t, by cases t <;> rfl⟩)
    · exact .inl (.inr (.inl h))
    · rcases List.mem_append.mp hv with hv | hv
      · exact .inl (.inr (.inr (.inl ⟨v, hv, rfl⟩)))
      · exact .inr (List.mem_singleton.mp hv ▸ rfl)
    · exact .inl (.inr (.inr (.inr h)))
  | conflict =>
    rcases h with ⟨t, rfl⟩ | h | h | ⟨v, hv, rfl⟩
    · exact .inl (.inl ⟨t, by cases t <;> rfl⟩)
    · exact .inl (.inr (.inl h))
    · exact .inl (.inr (.inr (.inl h)))
    · rcases List.mem_append.mp hv with hv | hv
      · exact .inl (.inr (.inr (.inr ⟨v, hv, rfl⟩)))
      · exact .inr (List.mem_singleton.mp hv ▸ rfl)

theorem clean_trimmed {text : Bytes} (hne : trimmed text ≠ []) (hline : (10 : UInt8) ∉ text) : Clean (trimmed text) :=
  ⟨hne, trimmed_trim text, fun h => hline ((trim_sublist text).subset h)⟩

theorem line_cases {r r' : ManifestReader} {line : Bytes} (hline : (10 : UInt8) ∉ line) (h : r.line line = .ok r') :
    r'.manifest = r.manifest ∨ ∃ k value, Clean value ∧ r'.manifest = r.manifest.put ⟨k, value⟩ := by
  have hkept : (10 : UInt8) ∉ if line.getLast? = some 13 then line.dropLast else line := by
    split
    · exact fun hmem => hline ((List.dropLast_sublist line).subset hmem)
    · exact hline
  unfold ManifestReader.line at h
  dsimp only at h
  generalize (if line.getLast? = some 13 then line.dropLast else line) = kept at h hkept
  split at h
  · cases h
    exact .inl rfl
  · split at h
    · cases h
    · split at h
      · cases h
      · rename_i hvalue
        obtain ⟨k, hk⟩ := put_entry h
        refine .inr ⟨k, _, clean_trimmed hvalue fun hmem => hkept ?_, hk⟩
        exact (trim_sublist kept).subset (List.mem_of_mem_drop hmem)

theorem parse_clean {text : Bytes} {m : Manifest} (h : parseManifest text = .ok m) : ∀ e ∈ m.entries, e.value = [] ∨ Clean e.value := by
  unfold parseManifest at h
  obtain ⟨r, hr, hm⟩ := bind_ok h
  cases hm
  refine foldlM_keeps (P := fun r => ∀ e ∈ r.manifest.entries, e.value = [] ∨ Clean e.value) ?_ hr ?_
  · intro a line b hline ha hb e he
    rcases line_cases (sep_notMem_of_mem_lines hline) hb with hsame | ⟨k, value, hclean, hput⟩
    · exact ha e (hsame ▸ he)
    · rcases mem_entries_put (hput ▸ he) with he | rfl
      · exact ha e he
      · exact .inr hclean
  · intro e he
    rcases mem_entries.mp he with ⟨s, rfl⟩ | ⟨v, hv, -⟩ | ⟨v, hv, -⟩ | ⟨v, hv, -⟩
    · exact .inl (by cases s <;> rfl)
    · cases hv
    · cases hv
    · cases hv

/-! ### Sorting -/

instance : Std.Total fun a b : Bytes => a ≤ b := ⟨List.le_total⟩
instance : IsTrans Bytes fun a b => a ≤ b := ⟨fun _ _ _ => List.le_trans⟩

theorem sorted_perm (values : List Bytes) : (sorted values).Perm values := List.perm_insertionSort _ values

theorem pairwise_sorted (values : List Bytes) : (sorted values).Pairwise (· ≤ ·) := List.pairwise_insertionSort _ values

theorem sorted_of_pairwise {values : List Bytes} (h : values.Pairwise (· ≤ ·)) : sorted values = values := h.insertionSort_eq

theorem sorted_sorted (m : Manifest) : m.sorted.sorted = m.sorted := by
  unfold Manifest.sorted
  dsimp only
  rw [sorted_of_pairwise (pairwise_sorted _), sorted_of_pairwise (pairwise_sorted _), sorted_of_pairwise (pairwise_sorted _)]

theorem canonicalManifest_sorted (m : Manifest) : canonicalManifest m.sorted = canonicalManifest m := by
  rw [canonicalManifest_eq, canonicalManifest_eq, sorted_sorted]

theorem mem_entries_sorted {m : Manifest} {e : Entry} : e ∈ m.sorted.entries ↔ e ∈ m.entries := by
  rw [mem_entries, mem_entries]
  have hget : ∀ s, m.sorted.get s = m.get s := by
    intro s
    cases s <;> rfl
  simp only [hget]
  show _ ∨ (∃ v ∈ sorted m.capabilities, _) ∨ (∃ v ∈ sorted m.dependencies, _) ∨ (∃ v ∈ sorted m.conflicts, _) ↔ _
  simp only [(sorted_perm _).mem_iff]

/-! ### Validation -/

/-- A value of a repeated key. -/
def Requirement (value : Bytes) : Prop := value ≠ [] ∧ value.length ≤ 96 ∧ value.all requirementByte = true

theorem validateRequirement_ok {value field : Bytes} : validateRequirement value field = .ok () ↔ Requirement value := by
  unfold validateRequirement Requirement
  rw [check_ok_iff, refuse_ok, refuse_ok]
  simp only [not_or, Nat.not_lt, Bool.not_eq_false, and_assoc, ne_eq]

theorem validateList_ok {field : Bytes} {unique values : List Bytes} :
    validateList field unique values = .ok () ↔ (∀ v ∈ values, Requirement v ∧ v ∉ unique) ∧ values.Nodup := by
  induction values generalizing unique with
  | nil => exact ⟨fun _ => ⟨fun _ h => (nomatch h), List.nodup_nil⟩, fun _ => rfl⟩
  | cons v values ih =>
    rw [validateList, check_ok_iff, check_ok_iff, validateRequirement_ok, refuse_ok, ih, List.forall_mem_cons, List.nodup_cons]
    simp only [List.mem_cons, not_or]
    constructor
    · rintro ⟨hv, hnot, hrest, hnodup⟩
      exact ⟨⟨⟨hv, hnot⟩, fun x hx => ⟨(hrest x hx).1, (hrest x hx).2.2⟩⟩, fun hmem => (hrest v hmem).2.1 rfl, hnodup⟩
    · rintro ⟨⟨⟨hv, hnot⟩, hrest⟩, hmem, hnodup⟩
      refine ⟨hv, hnot, fun x hx => ⟨(hrest x hx).1, ?_, (hrest x hx).2⟩, hnodup⟩
      rintro rfl
      exact hmem hx

/-- What `validate_manifest` asks of the scalars. -/
structure ValidScalars (m : Manifest) (payloadSize : Nat) : Prop where
  format : m.format = ascii "zenpkg-manifest-1"
  name : isSafeIdentifier m.name = true
  version : isSafeVersion m.version = true
  architecture : isSafeIdentifier m.architecture = true
  target : isSafeIdentifier m.target = true
  kind : isAllowedKind m.kind = true
  entrypoint : isSafeAbsoluteEntrypoint m.entrypoint = true
  payloadType : isAllowedPayloadType m.payloadType = true
  runtime : isAllowedRuntime m.runtime = true
  minOs : isSafeVersion m.minOs = true
  license : isPrintableText m.license 96 = true
  source : isPrintableText m.source 256 = true
  assetPolicy : ¬(m.assetPolicy ≠ ascii "redistributable" ∧ m.assetPolicy ≠ ascii "user-supplied" ∧ m.assetPolicy ≠ ascii "metadata-only")
  noPayload : ¬(m.payloadType = ascii "none" ∧ payloadSize ≠ 0)
  somePayload : ¬(m.payloadType ≠ ascii "none" ∧ payloadSize = 0)
  metadata : ¬((m.kind = ascii "compat-profile" ∨ m.kind = ascii "firmware-descriptor") ∧ m.entrypoint ≠ ascii "-")
  executable : ¬((m.kind = ascii "application" ∨ m.kind = ascii "native" ∨ m.kind = ascii "runtime") ∧ m.entrypoint = ascii "-")

/-- Values of a repeated key that are valid, and none of them twice. -/
def ValidList (values : List Bytes) : Prop := (∀ v ∈ values, Requirement v) ∧ values.Nodup

structure Valid (m : Manifest) (payloadSize : Nat) : Prop where
  scalars : ValidScalars m payloadSize
  capabilities : ValidList m.capabilities
  dependencies : ValidList m.dependencies
  conflicts : ValidList m.conflicts

theorem validateManifest_ok {m : Manifest} {payloadSize : Nat} : validateManifest m payloadSize = .ok () ↔ Valid m payloadSize := by
  unfold validateManifest
  have hlist : ∀ {values : List Bytes}, ((∀ v ∈ values, Requirement v ∧ v ∉ ([] : List Bytes)) ∧ values.Nodup) ↔ ValidList values := by
    intro values
    simp only [ValidList, List.not_mem_nil, not_false_eq_true, and_true]
  simp only [check_ok_iff, refuse_ok, validateList_ok, hlist, Bool.not_eq_true', Bool.not_eq_false, ne_eq, not_not]
  constructor
  · rintro ⟨h1, h2, h3, h4, h5, h6, h7, h8, h9, h10, h11, h12, h13, h14, h15, h16, h17, hc, hd, hx⟩
    exact ⟨⟨h1, h2, h3, h4, h5, h6, h7, h8, h9, h10, h11, h12, h13, h14, h15, h16, h17⟩, hc, hd, hx⟩
  · rintro ⟨⟨h1, h2, h3, h4, h5, h6, h7, h8, h9, h10, h11, h12, h13, h14, h15, h16, h17⟩, hc, hd, hx⟩
    exact ⟨h1, h2, h3, h4, h5, h6, h7, h8, h9, h10, h11, h12, h13, h14, h15, h16, h17, hc, hd, hx⟩

theorem ValidList.sorted {values : List Bytes} (h : ValidList values) : ValidList (sorted values) :=
  ⟨fun v hv => h.1 v ((sorted_perm values).mem_iff.mp hv), (sorted_perm values).nodup_iff.mpr h.2⟩

theorem Valid.sorted {m : Manifest} {payloadSize : Nat} (h : Valid m payloadSize) : Valid m.sorted payloadSize :=
  ⟨{ h.scalars with }, h.capabilities.sorted, h.dependencies.sorted, h.conflicts.sorted⟩

theorem ne_nil_of_check {c : Bytes → Bool} {value : Bytes} (hnil : c [] = false) (h : c value = true) : value ≠ [] := by
  rintro rfl
  exact Bool.noConfusion (hnil.symm.trans h)

theorem Valid.nonempty {m : Manifest} {payloadSize : Nat} (h : Valid m payloadSize) : ∀ e ∈ m.entries, e.value ≠ [] := by
  intro e he hnil
  have hs := h.scalars
  rcases mem_entries.mp he with ⟨s, rfl⟩ | ⟨v, hv, rfl⟩ | ⟨v, hv, rfl⟩ | ⟨v, hv, rfl⟩
  · cases s with
    | format => exact absurd (hs.format.symm.trans hnil) (by decide)
    | name => exact ne_nil_of_check rfl hs.name hnil
    | version => exact ne_nil_of_check rfl hs.version hnil
    | architecture => exact ne_nil_of_check rfl hs.architecture hnil
    | target => exact ne_nil_of_check rfl hs.target hnil
    | kind => exact ne_nil_of_check rfl hs.kind hnil
    | entrypoint => exact ne_nil_of_check rfl hs.entrypoint hnil
    | payloadType => exact ne_nil_of_check rfl hs.payloadType hnil
    | runtime => exact ne_nil_of_check rfl hs.runtime hnil
    | minOs => exact ne_nil_of_check rfl hs.minOs hnil
    | license => exact ne_nil_of_check (c := (isPrintableText · 96)) rfl hs.license hnil
    | source => exact ne_nil_of_check (c := (isPrintableText · 256)) rfl hs.source hnil
    | assetPolicy =>
      have hnil : m.assetPolicy = [] := hnil
      exact hs.assetPolicy (by rw [hnil]; decide)
  · exact (h.capabilities.1 v hv).1 hnil
  · exact (h.dependencies.1 v hv).1 hnil
  · exact (h.conflicts.1 v hv).1 hnil

theorem parse_canonical {m : Manifest} (h : ∀ e ∈ m.entries, Clean e.value) : parseManifest (canonicalManifest m) = .ok m.sorted := by
  have honce : (m.sorted.entries.filterMap Entry.scalar?).Nodup := by
    rw [filterMap_entries]
    decide
  rw [canonicalManifest_eq, parse_entries ⟨fun e he => h e (mem_entries_sorted.mp he), honce, fun _ _ => List.not_mem_nil⟩,
    foldl_entries]

theorem parseAndValidate_ok {text : Bytes} {payloadSize : Nat} {m : Manifest} :
    parseAndValidateManifest text payloadSize = .ok m ↔ parseManifest text = .ok m ∧ Valid m payloadSize := by
  unfold parseAndValidateManifest
  constructor
  · intro h
    obtain ⟨m', hparse, h⟩ := bind_ok h
    obtain ⟨hvalid, h⟩ := check_ok_iff.mp h
    cases h
    exact ⟨hparse, validateManifest_ok.mp hvalid⟩
  · rintro ⟨hparse, hvalid⟩
    rw [hparse]
    exact check_ok_iff.mpr ⟨validateManifest_ok.mpr hvalid, rfl⟩

theorem valid_clean {text : Bytes} {payloadSize : Nat} {m : Manifest} (hparse : parseManifest text = .ok m)
    (hvalid : Valid m payloadSize) : ∀ e ∈ m.entries, Clean e.value :=
  fun e he => (parse_clean hparse e he).resolve_left (hvalid.nonempty e he)

end ZenovOS.Zenpkg
