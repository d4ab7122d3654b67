import ZenovOS.Theorems.Tools.Zenpkg.Manifest
import ZenovOS.Tools.Zenuniverse.Canonical

/-! # Descriptors and their canonical form

The canonical form of a descriptor is a row of entries, one a line, with the values of a repeated key sorted. A reader gets them back
entry by entry. The launch arguments are an exception: what they are is in their order, so they keep it. -/

namespace ZenovOS.Zenuniverse
open Bytes Text KeyValue
open Zenpkg (sorted sorted_perm pairwise_sorted sorted_of_pairwise)

/-! ### Alternatives -/

/-- The alternatives in their order. -/
def canonicalGroup (group : Bytes) : Bytes := [124].intercalate (sorted (group.splitOn 124))

/-- Some known capabilities, none of them twice. -/
structure ValidGroup (group : Bytes) : Prop where
  known : ∀ token ∈ group.splitOn 124, knownCapability token = true
  several : 2 ≤ (group.splitOn 124).length
  nodup : (group.splitOn 124).Nodup

theorem checkTokens_ok {tokens : List Bytes} : checkTokens tokens = .ok () ↔ ∀ token ∈ tokens, knownCapability token = true := by
  induction tokens with
  | nil => exact ⟨fun _ _ h => (nomatch h), fun _ => rfl⟩
  | cons token rest ih =>
    rw [checkTokens, check_ok_iff, refuse_ok, ih, List.forall_mem_cons]
    simp only [Bool.not_eq_true', Bool.not_eq_false]

theorem no_neighbours_iff {l : List Bytes} (h : l.Pairwise (· ≤ ·)) :
    ¬((l.zip l.tail).any fun pair => pair.1 = pair.2) = true ↔ l.Nodup := by
  induction l with
  | nil => simp
  | cons a l ih =>
    obtain ⟨ha, hl⟩ := List.pairwise_cons.mp h
    cases l with
    | nil => simp
    | cons b l =>
      have hrest := ih hl
      simp only [List.tail_cons, List.zip_cons_cons, List.any_cons, Bool.or_eq_true, decide_eq_true_eq, not_or] at hrest ⊢
      rw [hrest, List.nodup_cons (a := a)]
      constructor
      · rintro ⟨hab, hnodup⟩
        refine ⟨fun hmem => ?_, hnodup⟩
        rcases List.mem_cons.mp hmem with hmem | hmem
        · exact hab hmem
        · exact hab (List.le_antisymm (ha b List.mem_cons_self) ((List.pairwise_cons.mp hl).1 a hmem))
      · rintro ⟨hmem, hnodup⟩
        exact ⟨fun hab => hmem (hab ▸ List.mem_cons_self), hnodup⟩

theorem parseCapabilityAlternatives_ok {group : Bytes} {options : List Bytes} :
    parseCapabilityAlternatives group = .ok options ↔ ValidGroup group ∧ options = sorted (group.splitOn 124) := by
  unfold parseCapabilityAlternatives
  dsimp only
  rw [check_ok_iff, checkTokens_ok, check_ok_iff, refuse_ok, check_ok_iff, refuse_ok, no_neighbours_iff (pairwise_sorted _),
    (sorted_perm _).nodup_iff]
  constructor
  · rintro ⟨hknown, hseveral, hnodup, hpure⟩
    cases hpure
    exact ⟨⟨hknown, by omega, hnodup⟩, rfl⟩
  · rintro ⟨⟨hknown, hseveral, hnodup⟩, rfl⟩
    exact ⟨hknown, by omega, hnodup, rfl⟩

theorem canonicalAlternatives_ok {group text : Bytes} :
    canonicalAlternatives group = .ok text ↔ ValidGroup group ∧ text = canonicalGroup group := by
  unfold canonicalAlternatives
  constructor
  · intro h
    obtain ⟨options, hoptions, h⟩ := bind_ok h
    obtain ⟨hvalid, rfl⟩ := parseCapabilityAlternatives_ok.mp hoptions
    cases h
    exact ⟨hvalid, rfl⟩
  · rintro ⟨hvalid, rfl⟩
    rw [parseCapabilityAlternatives_ok.mpr ⟨hvalid, rfl⟩]
    rfl

theorem knownCapability_plain {token : Bytes} (h : knownCapability token = true) :
    token ≠ [] ∧ ∀ c ∈ token, isBlank c = false ∧ c ≠ 124 := by
  have hstatic : ∀ token ∈ staticCapabilities, token ≠ [] ∧ token.all (fun c => !isBlank c && c != 124) = true := by
    decide +kernel
  have hruntime : ∀ name ∈ runtimeNames, (ascii "runtime." ++ name).all (fun c => !isBlank c && c != 124) = true := by decide
  have hall : token ≠ [] ∧ token.all (fun c => !isBlank c && c != 124) = true := by
    unfold knownCapability at h
    rw [Bool.or_eq_true, Bool.and_eq_true, List.contains_iff_mem, List.contains_iff_mem, List.isPrefixOf_iff_prefix] at h
    rcases h with h | ⟨⟨name, rfl⟩, hname⟩
    · exact hstatic token h
    · have hname : name ∈ runtimeNames := hname
      exact ⟨by simp [ascii], hruntime name hname⟩
  refine ⟨hall.1, fun c hc => ?_⟩
  have hplain := List.all_eq_true.mp hall.2 c hc
  simpa only [Bool.and_eq_true, Bool.not_eq_true', bne_iff_ne] using hplain

theorem splitOn_canonicalGroup {group : Bytes} (h : ValidGroup group) : (canonicalGroup group).splitOn 124 = sorted (group.splitOn 124) := by
  refine List.splitOn_intercalate 124 (fun token htoken hmem => ?_) fun hnil => ?_
  · have hknown := h.known token ((sorted_perm _).mem_iff.mp htoken)
    exact ((knownCapability_plain hknown).2 124 hmem).2 rfl
  · have hlength := (sorted_perm (group.splitOn 124)).length_eq
    have hseveral := h.several
    rw [hnil, List.length_nil] at hlength
    omega

theorem ValidGroup.canonical {group : Bytes} (h : ValidGroup group) : ValidGroup (canonicalGroup group) := by
  have hperm := sorted_perm (group.splitOn 124)
  refine ⟨?_, ?_, ?_⟩
  · rw [splitOn_canonicalGroup h]
    exact fun token htoken => h.known token (hperm.mem_iff.mp htoken)
  · rw [splitOn_canonicalGroup h, hperm.length_eq]
    exact h.several
  · rw [splitOn_canonicalGroup h]
    exact hperm.nodup_iff.mpr h.nodup

theorem canonicalGroup_canonical {group : Bytes} (h : ValidGroup group) : canonicalGroup (canonicalGroup group) = canonicalGroup group := by
  rw [canonicalGroup, splitOn_canonicalGroup h, sorted_of_pairwise (pairwise_sorted _)]
  rfl

theorem mem_intercalate {sep c : UInt8} {l : List Bytes} (h : c ∈ [sep].intercalate l) : c = sep ∨ ∃ token ∈ l, c ∈ token := by
  induction l with
  | nil => cases h
  | cons token l ih =>
    cases l with
    | nil => exact .inr ⟨token, List.mem_cons_self, by simpa using h⟩
    | cons next l =>
      rw [List.intercalate_cons_cons, List.mem_append, List.mem_append] at h
      rcases h with (h | h) | h
      · exact .inr ⟨token, List.mem_cons_self, h⟩
      · exact .inl (List.mem_singleton.mp h)
      · rcases ih h with h | ⟨t, ht, hc⟩
        · exact .inl h
        · exact .inr ⟨t, List.mem_cons_of_mem token ht, hc⟩

/-! ### Clean values -/

abbrev CleanValue (value : Bytes) : Prop := Clean isBlank 10 value

theorem clean_of_plain {value : Bytes} (hne : value ≠ []) (h : ∀ c ∈ value, isBlank c = false) : CleanValue value :=
  ⟨hne, ⟨fun a ha => h a (List.mem_of_head? ha), fun a ha => h a (List.mem_of_getLast? ha)⟩,
    fun hmem => Bool.noConfusion ((h 10 hmem).symm.trans rfl)⟩

theorem clean_decimal (n : Nat) : CleanValue (decimal n) := by
  refine clean_of_plain (Decimal.decimal_ne_nil n) fun c hc => ?_
  obtain ⟨hlow, hhigh⟩ := Decimal.isDigit_decimal n c hc
  rw [UInt8.le_iff_toNat_le] at hlow
  have hplain : ∀ b : UInt8, b.toNat < 48 → c ≠ b := by
    rintro b hb rfl
    exact absurd hlow (Nat.not_le.mpr hb)
  simp [isBlank, hplain]

theorem clean_canonicalGroup {group : Bytes} (h : ValidGroup group) : CleanValue (canonicalGroup group) := by
  refine clean_of_plain (fun hnil => ?_) fun c hc => ?_
  · have hseveral := h.canonical.several
    rw [hnil] at hseveral
    exact absurd hseveral (by decide)
  · rcases mem_intercalate hc with rfl | ⟨token, htoken, hc⟩
    · rfl
    · exact ((knownCapability_plain (h.known token ((sorted_perm _).mem_iff.mp htoken))).2 c hc).1

/-! ### Numbers -/

theorem le_number (n : Nat) (digits : Bytes) : n ≤ Decimal.number n digits := by
  induction digits generalizing n with
  | nil => exact Nat.le_refl n
  | cons c digits ih => exact Nat.le_trans (by omega) (ih (n * 10 + (c.toNat - 48)))

theorem parseU64Digits_ok {field digits : Bytes} {result n : Nat} (hresult : result ≤ u64Max) :
    parseU64Digits field result digits = .ok n ↔
      (∀ c ∈ digits, Decimal.IsDigit c) ∧ n ≤ u64Max ∧ Decimal.number result digits = n := by
  induction digits generalizing result with
  | nil =>
    rw [parseU64Digits, Except.ok.injEq]
    constructor
    · rintro rfl
      exact ⟨fun _ h => (nomatch h), hresult, rfl⟩
    · exact fun h => h.2.2
  | cons c digits ih =>
    rw [parseU64Digits, check_ok_iff, refuse_ok, not_or, check_ok_iff, refuse_ok, UInt8.not_lt, UInt8.not_lt, List.forall_mem_cons]
    have hnumber : Decimal.number result (c :: digits) = Decimal.number (result * 10 + (c.toNat - 48)) digits := rfl
    rw [hnumber]
    constructor
    · rintro ⟨⟨hlow, hhigh⟩, hfits, h⟩
      have hdigit : c.toNat ≤ 57 := UInt8.le_iff_toNat_le.mp hhigh
      obtain ⟨hall, hn, hvalue⟩ := (ih (by unfold u64Max at *; omega)).mp h
      exact ⟨⟨⟨hlow, hhigh⟩, hall⟩, hn, hvalue⟩
    · rintro ⟨⟨⟨hlow, hhigh⟩, hall⟩, hn, hvalue⟩
      have hdigit : c.toNat ≤ 57 := UInt8.le_iff_toNat_le.mp hhigh
      have hle := le_number (result * 10 + (c.toNat - 48)) digits
      refine ⟨⟨hlow, hhigh⟩, by unfold u64Max at *; omega, (ih (by omega)).mpr ⟨hall, hn, hvalue⟩⟩

theorem parseU64_le {value field : Bytes} {n : Nat} (h : parseU64 value field = .ok n) : n ≤ u64Max := by
  unfold parseU64 at h
  obtain ⟨-, h⟩ := refused h
  obtain ⟨-, h⟩ := refused h
  exact ((parseU64Digits_ok (Nat.zero_le _)).mp h).2.1

theorem parseU64_decimal {n : Nat} (h : n ≤ u64Max) (field : Bytes) : parseU64 (decimal n) field = .ok n := by
  have hcanonical : ¬(1 < (decimal n).length ∧ (decimal n).head? = some 48) := by
    rintro ⟨hlength, hhead⟩
    obtain rfl := Decimal.head?_decimal hhead
    exact absurd hlength (by decide)
  unfold parseU64
  rw [refuse_bind (Decimal.decimal_ne_nil n), refuse_bind hcanonical]
  exact (parseU64Digits_ok (Nat.zero_le _)).mpr ⟨Decimal.isDigit_decimal n, h, Decimal.number_decimal n⟩

/-! ### Entries -/

/-- The members that keep all the values of their key. -/
inductive Repeated
  | mirror
  | accepts
  | asset
  | requires
  | requiresAny
  | provides
  | arg
  deriving DecidableEq

def Repeated.key : Repeated → Bytes
  | .mirror => ascii "mirror"
  | .accepts => ascii "accepts"
  | .asset => ascii "asset"
  | .requires => ascii "requires"
  | .requiresAny => ascii "requires-any"
  | .provides => ascii "provides"
  | .arg => ascii "arg"

def Descriptor.list (d : Descriptor) : Repeated → List Bytes
  | .mirror => d.mirrors
  | .accepts => d.accepts
  | .asset => d.assets
  | .requires => d.requirements
  | .requiresAny => d.requirementAny
  | .provides => d.provides
  | .arg => d.launchArgs

def Descriptor.extend (d : Descriptor) (values : List Bytes) : Repeated → Descriptor
  | .mirror => { d with mirrors := d.mirrors ++ values }
  | .accepts => { d with accepts := d.accepts ++ values }
  | .asset => { d with assets := d.assets ++ values }
  | .requires => { d with requirements := d.requirements ++ values }
  | .requiresAny => { d with requirementAny := d.requirementAny ++ values }
  | .provides => { d with provides := d.provides ++ values }
  | .arg => { d with launchArgs := d.launchArgs ++ values }

inductive Key
  | scalar (s : Scalar)
  | bytes
  | repeated (k : Repeated)
  deriving DecidableEq

def Key.text : Key → Bytes
  | .scalar s => s.key
  | .bytes => ascii "bytes"
  | .repeated k => k.key

/-- The key, where it may stand only once. -/
def Key.single : Key → Option Bytes
  | .scalar s => some s.key
  | .bytes => some (ascii "bytes")
  | .repeated _ => none

structure Entry where
  key : Key
  value : Bytes
  deriving DecidableEq

def Entry.line (e : Entry) : Bytes := KeyValue.line 61 e.key.text e.value

/-- The descriptor with an entry more. -/
def Descriptor.put (d : Descriptor) (e : Entry) : Descriptor :=
  match e.key with
  | .scalar s => d.set e.value s
  | .bytes => { d with bytes := Decimal.number 0 e.value }
  | .repeated k => d.extend [e.value] k

/-- The keys in the order of the canonical form. -/
def Key.order : List Key :=
  [.scalar .schema, .scalar .id, .scalar .version, .scalar .kind, .scalar .platform, .scalar .architecture, .scalar .artifact,
    .scalar .delivery, .scalar .runtime, .scalar .availability, .scalar .entrypoint, .scalar .providerAbi, .scalar .launchMode,
    .scalar .channel, .scalar .category, .scalar .license, .scalar .description, .scalar .homepage, .bytes, .scalar .sha,
    .repeated .mirror, .repeated .accepts, .repeated .asset, .repeated .requires, .repeated .requiresAny, .repeated .provides,
    .repeated .arg]

/-- The values of a key; a scalar without a value has none. -/
def Descriptor.values (d : Descriptor) : Key → List Bytes
  | .scalar s => if d.get s = [] then [] else [d.get s]
  | .bytes => [decimal d.bytes]
  | .repeated k => d.list k

def Descriptor.entries (d : Descriptor) : List Entry := Key.order.flatMap fun k => (d.values k).map (Entry.mk k)

theorem key_plain (k : Key) : Plain isBlank 61 10 k.text ∧ (35 : UInt8) ∉ k.text := by
  have hkey : k.text ≠ [] ∧ k.text.all (fun ch => !isBlank ch && ch != 61 && ch != 35 && ch != 10) = true := by
    cases k with
    | scalar s => cases s <;> decide
    | bytes => decide
    | repeated k => cases k <;> decide
  have hall : ∀ ch ∈ k.text, ((isBlank ch = false ∧ ch ≠ 61) ∧ ch ≠ 35) ∧ ch ≠ 10 := by
    intro ch hch
    simpa only [Bool.and_eq_true, Bool.not_eq_true', bne_iff_ne] using List.all_eq_true.mp hkey.2 ch hch
  exact ⟨⟨hkey.1, fun ch hch => (hall ch hch).1.1.1, fun h => (hall 61 h).1.1.2 rfl, fun h => (hall 10 h).2 rfl⟩,
    fun h => (hall 35 h).1.2 rfl⟩

/-! ### Reading entries -/

/-- The number of a descriptor is given by a decimal that fits. -/
def Entry.Readable (e : Entry) : Prop := CleanValue e.value ∧ (e.key = .bytes → ∃ n ≤ u64Max, e.value = decimal n)

theorem put_eq (r : DescriptorReader) (key value : Bytes) : r.put key value =
    if key = Repeated.mirror.key then .ok { r with descriptor := r.descriptor.extend [value] .mirror }
    else if key = Repeated.requires.key then .ok { r with descriptor := r.descriptor.extend [value] .requires }
    else if key = Repeated.requiresAny.key then .ok { r with descriptor := r.descriptor.extend [value] .requiresAny }
    else if key = Repeated.provides.key then .ok { r with descriptor := r.descriptor.extend [value] .provides }
    else if key = Repeated.asset.key then .ok { r with descriptor := r.descriptor.extend [value] .asset }
    else if key = Repeated.accepts.key then .ok { r with descriptor := r.descriptor.extend [value] .accepts }
    else if key = Repeated.arg.key then .ok { r with descriptor := r.descriptor.extend [value] .arg }
    else if key = Key.bytes.text then
      refuse (key ∈ r.seen) (ascii "duplicate bytes") >>= fun _ => parseU64 value (ascii "bytes") >>= fun n =>
        .ok { r with descriptor := { r.descriptor with bytes := n }, seen := key :: r.seen }
    else
      match Scalar.find key with
      | none => .error (r.place ++ ascii ": unknown key " ++ key)
      | some s => refuse (key ∈ r.seen) (ascii "duplicate " ++ key) >>= fun _ =>
          .ok { r with descriptor := r.descriptor.set value s, seen := key :: r.seen } := rfl

theorem find_scalar (s : Scalar) : Scalar.find s.key = some s := by
  cases s <;> decide

theorem put_key {r : DescriptorReader} {e : Entry} (hread : e.Readable) (hfresh : ∀ text ∈ e.key.single, text ∉ r.seen) :
    r.put e.key.text e.value = .ok ⟨r.descriptor.put e, e.key.single.toList ++ r.seen, r.lineNumber⟩ := by
  obtain ⟨k, value⟩ := e
  cases k with
  | scalar s =>
    have hother : ∀ k : Repeated, s.key ≠ k.key := by
      intro k
      cases s <;> cases k <;> decide
    have hbytes : s.key ≠ Key.bytes.text := by cases s <;> decide
    show r.put s.key value = _
    rw [put_eq, if_neg (hother .mirror), if_neg (hother .requires), if_neg (hother .requiresAny), if_neg (hother .provides),
      if_neg (hother .asset), if_neg (hother .accepts), if_neg (hother .arg), if_neg hbytes, find_scalar]
    exact refuse_bind (hfresh s.key rfl)
  | bytes =>
    obtain ⟨n, hn, hvalue⟩ := hread.2 rfl
    obtain rfl : value = decimal n := hvalue
    have hother : ∀ k : Repeated, Key.bytes.text ≠ k.key := by
      intro k
      cases k <;> decide
    show r.put Key.bytes.text (decimal n) = _
    rw [put_eq, if_neg (hother .mirror), if_neg (hother .requires), if_neg (hother .requiresAny), if_neg (hother .provides),
      if_neg (hother .asset), if_neg (hother .accepts), if_neg (hother .arg), if_pos rfl, refuse_bind (hfresh Key.bytes.text rfl),
      parseU64_decimal hn, ok_bind, Descriptor.put, Decimal.number_decimal]
    rfl
  | repeated k =>
    show r.put k.key value = _
    rw [put_eq]
    cases k <;> rfl

theorem put_entry {r r' : DescriptorReader} {key value : Bytes} (h : r.put key value = .ok r') :
    (∃ s, r'.descriptor = r.descriptor.set value s) ∨ (∃ k, r'.descriptor = r.descriptor.extend [value] k) ∨
      ∃ n ≤ u64Max, r'.descriptor = { r.descriptor with bytes := n } := by
  rw [put_eq] at h
  split at h
  · cases h
    exact .inr (.inl ⟨.mirror, rfl⟩)
  split at h
  · cases h
    exact .inr (.inl ⟨.requires, rfl⟩)
  split at h
  · cases h
    exact .inr (.inl ⟨.requiresAny, rfl⟩)
  split at h
  · cases h
    exact .inr (.inl ⟨.provides, rfl⟩)
  split at h
  · cases h
    exact .inr (.inl ⟨.asset, rfl⟩)
  split at h
  · cases h
    exact .inr (.inl ⟨.accepts, rfl⟩)
  split at h
  · cases h
    exact .inr (.inl ⟨.arg, rfl⟩)
  split at h
  · obtain ⟨-, h⟩ := refused h
    obtain ⟨n, hn, h⟩ := bind_ok h
    cases h
    exact .inr (.inr ⟨n, parseU64_le hn, rfl⟩)
  split at h
  · cases h
  · next s _ =>
    obtain ⟨-, h⟩ := refused h
    cases h
    exact .inl ⟨s, rfl⟩

theorem line_entry {e : Entry} (h : CleanValue e.value) (r : DescriptorReader) :
    r.line e.line = DescriptorReader.put { r with lineNumber := r.lineNumber + 1 } e.key.text e.value := by
  obtain ⟨hplain, hhash⟩ := key_plain e.key
  have htrimmed : Trimmed isBlank e.line := line_trimmed hplain h
  have hlast : e.line.getLast? ≠ some 13 := fun hr => Bool.noConfusion ((htrimmed.last 13 hr).symm.trans rfl)
  have hclean : trimmed e.line = e.line := htrimmed.trim_eq
  have hhead : e.line.head? = e.key.text.head? := head?_line hplain
  obtain ⟨first, rest, htext⟩ := List.exists_cons_of_ne_nil hplain.nonempty
  have hskipped : ¬(e.line = [] ∨ e.line.head? = some 35) := by
    rintro (hnil | h35)
    · rw [hnil, htext] at hhead
      cases hhead
    · exact hhash (List.mem_of_head? (hhead ▸ h35))
  have hequals : (61 : UInt8) ∈ e.line := List.mem_append_right _ List.mem_cons_self
  have hstop : e.line ≠ [46] := by
    intro hline
    rw [hline] at hequals
    exact absurd hequals (by decide)
  have hequal : ¬(e.key.text.length = e.line.length ∨ e.key.text.length = 0) := by
    have hlength : e.key.text.length < e.line.length := length_line
    rw [not_or, List.length_eq_zero_iff]
    exact ⟨by omega, hplain.nonempty⟩
  have hname : trimmed (e.line.take e.key.text.length) = e.key.text := by
    rw [Entry.line, take_line]
    exact hplain.trimmed.trim_eq
  have hvalue : trimmed (e.line.drop (e.key.text.length + 1)) = e.value := by
    rw [Entry.line, drop_line]
    exact h.trimmed.trim_eq
  have hcut : e.line.takeWhile (· ≠ 61) = e.key.text := takeWhile_line hplain.equals
  unfold DescriptorReader.line
  dsimp only
  rw [if_neg hlast, hclean, if_neg hskipped, if_neg hstop, hcut, if_neg hequal, hname, hvalue, if_neg h.nonempty]

/-! ### Rows of entries -/

def Entry.single (e : Entry) : Option Bytes := e.key.single

/-- Readable entries with single keys that have not been seen, and none of them twice. -/
structure ReadableRow (seen : List Bytes) (es : List Entry) : Prop where
  readable : ∀ e ∈ es, e.Readable
  once : (es.filterMap Entry.single).Nodup
  fresh : ∀ text ∈ es.filterMap Entry.single, text ∉ seen

theorem read_entries {es : List Entry} {r : DescriptorReader} (h : ReadableRow r.seen es) :
    ∃ r', (es.map Entry.line).foldlM DescriptorReader.line r = .ok r' ∧ r'.descriptor = es.foldl Descriptor.put r.descriptor := by
  induction es generalizing r with
  | nil => exact ⟨r, rfl, rfl⟩
  | cons e es ih =>
    have hreadable : ∀ e ∈ es, e.Readable := fun x hx => h.readable x (List.mem_cons_of_mem e hx)
    have honce := h.once
    have hfresh := h.fresh
    have hcons : (e :: es).filterMap Entry.single = e.single.toList ++ es.filterMap Entry.single := by
      cases hs : e.single with
      | none => exact List.filterMap_cons_none hs
      | some s => exact List.filterMap_cons_some hs
    rw [hcons] at honce hfresh
    obtain ⟨-, honce, hdisjoint⟩ := List.nodup_append.mp honce
    have hput := @put_key { r with lineNumber := r.lineNumber + 1 } e (h.readable e List.mem_cons_self) fun s hs =>
      hfresh s (List.mem_append_left _ (Option.mem_toList.mpr hs))
    rw [List.map_cons, List.foldlM_cons, List.foldl_cons, line_entry (h.readable e List.mem_cons_self).1, hput]
    refine @ih ⟨r.descriptor.put e, e.single.toList ++ r.seen, r.lineNumber + 1⟩ ⟨hreadable, honce, fun s hs hseen => ?_⟩
    rcases List.mem_append.mp hseen with hseen | hseen
    · exact hdisjoint s hseen s hs rfl
    · exact hfresh s (List.mem_append_right _ hs) hseen

theorem parse_entries {es : List Entry} (path : Bytes) (h : ReadableRow [] es)
    (hsize : (es.flatMap fun e => e.line ++ [10]).length ≤ 64 * 1024) :
    parseDescriptor path (es.flatMap fun e => e.line ++ [10]) = .ok (es.foldl Descriptor.put (.empty path)) := by
  have hlines := lines_flatMap fun e he => sep_notMem_line (key_plain e.key).1 (by decide) (h.readable e he).1.line
  obtain ⟨r, hread, hdescriptor⟩ := read_entries (r := ⟨.empty path, [], 0⟩) h
  have hlines : lines 10 (es.flatMap fun e => e.line ++ [10]) = es.map Entry.line := hlines
  have hinput : readTextBounded path (64 * 1024) (es.flatMap fun e => e.line ++ [10]) = .ok (es.flatMap fun e => e.line ++ [10]) :=
    refuse_bind (Nat.not_lt.mpr hsize)
  unfold parseDescriptor
  rw [hinput, ok_bind, hlines, hread, ok_bind]
  exact congrArg Except.ok hdescriptor

/-! ### The entries of a descriptor -/

/-- A descriptor whose values survive being written out. -/
structure Writable (d : Descriptor) : Prop where
  scalar : ∀ s, d.get s = [] ∨ CleanValue (d.get s)
  repeated : ∀ k, ∀ value ∈ d.list k, CleanValue value
  bytes : d.bytes ≤ u64Max

variable {d : Descriptor}

theorem get_set (value : Bytes) (s t : Scalar) : (d.set value s).get t = if s = t then value else d.get t := by
  cases s <;> cases t <;> rfl

theorem list_set (value : Bytes) (s : Scalar) (k : Repeated) : (d.set value s).list k = d.list k := by
  cases s <;> cases k <;> rfl

theorem bytes_set (value : Bytes) (s : Scalar) : (d.set value s).bytes = d.bytes := by
  cases s <;> rfl

theorem get_extend (values : List Bytes) (k : Repeated) (s : Scalar) : (d.extend values k).get s = d.get s := by
  cases k <;> cases s <;> rfl

theorem list_extend (values : List Bytes) (k k' : Repeated) :
    (d.extend values k).list k' = if k = k' then d.list k' ++ values else d.list k' := by
  cases k <;> cases k' <;> rfl

theorem bytes_extend (values : List Bytes) (k : Repeated) : (d.extend values k).bytes = d.bytes := by
  cases k <;> rfl

theorem Writable.set (h : Writable d) {value : Bytes} (hvalue : CleanValue value) (s : Scalar) : Writable (d.set value s) := by
  refine ⟨fun t => ?_, fun k => ?_, (bytes_set value s).symm ▸ h.bytes⟩
  · rw [get_set]
    split
    · exact .inr hvalue
    · exact h.scalar t
  · rw [list_set]
    exact h.repeated k

theorem Writable.extend (h : Writable d) {value : Bytes} (hvalue : CleanValue value) (k : Repeated) : Writable (d.extend [value] k) := by
  refine ⟨fun s => ?_, fun k' v hv => ?_, (bytes_extend [value] k).symm ▸ h.bytes⟩
  · rw [get_extend]
    exact h.scalar s
  · rw [list_extend] at hv
    split at hv
    · rcases List.mem_append.mp hv with hv | hv
      · exact h.repeated k' v hv
      · exact List.mem_singleton.mp hv ▸ hvalue
    · exact h.repeated k' v hv

theorem Writable.number (h : Writable d) {n : Nat} (hn : n ≤ u64Max) : Writable { d with bytes := n } := by
  refine ⟨fun s => ?_, fun k => ?_, hn⟩
  · have hget : ({ d with bytes := n } : Descriptor).get s = d.get s := by cases s <;> rfl
    rw [hget]
    exact h.scalar s
  · have hlist : ({ d with bytes := n } : Descriptor).list k = d.list k := by cases k <;> rfl
    rw [hlist]
    exact h.repeated k

theorem line_writable {r r' : DescriptorReader} {line : Bytes} (hline : (10 : UInt8) ∉ line) (hr : Writable r.descriptor)
    (h : r.line line = .ok r') : Writable r'.descriptor := by
  have hkept : (10 : UInt8) ∉ if line.getLast? = some 13 then line.dropLast else line := by
    split
    · exact fun hmem => hline ((List.dropLast_sublist line).subset hmem)
    · exact hline
  unfold DescriptorReader.line at h
  dsimp only at h
  generalize (if line.getLast? = some 13 then line.dropLast else line) = kept at h hkept
  split at h
  · cases h
    exact hr
  split at h
  · cases h
    exact hr
  split at h
  · cases h
  split at h
  · cases h
  · next hvalue =>
    have hclean : CleanValue _ := clean_trim hvalue fun hmem => hkept ((trim_sublist kept).subset (List.mem_of_mem_drop hmem))
    rcases put_entry h with ⟨s, hput⟩ | ⟨k, hput⟩ | ⟨n, hn, hput⟩
    · exact hput ▸ hr.set hclean s
    · exact hput ▸ hr.extend hclean k
    · exact hput ▸ Writable.number hr hn

theorem parse_writable {path data : Bytes} (h : parseDescriptor path data = .ok d) : Writable d := by
  unfold parseDescriptor at h
  obtain ⟨input, -, h⟩ := bind_ok h
  obtain ⟨r, hr, h⟩ := bind_ok h
  cases h
  refine foldlM_keeps (P := fun r : DescriptorReader => Writable r.descriptor) ?_ hr ?_
  · exact fun a line b hline ha hb => line_writable (sep_notMem_of_mem_lines hline) ha hb
  · refine ⟨fun s => .inl ?_, fun k v hv => ?_, Nat.zero_le _⟩
    · cases s <;> rfl
    · cases k <;> exact absurd hv List.not_mem_nil

theorem mem_entries {e : Entry} : e ∈ d.entries ↔ e.key ∈ Key.order ∧ e.value ∈ d.values e.key := by
  unfold Descriptor.entries
  rw [List.mem_flatMap]
  constructor
  · rintro ⟨k, hk, he⟩
    obtain ⟨value, hvalue, rfl⟩ := List.mem_map.mp he
    exact ⟨hk, hvalue⟩
  · exact fun ⟨hk, hvalue⟩ => ⟨e.key, hk, List.mem_map.mpr ⟨e.value, hvalue, rfl⟩⟩

theorem values_nil {s : Scalar} (h : d.get s = []) : d.values (.scalar s) = [] := if_pos h

theorem values_ne_nil {s : Scalar} (h : d.get s ≠ []) : d.values (.scalar s) = [d.get s] := if_neg h

theorem Writable.readable (h : Writable d) : ∀ e ∈ d.entries, e.Readable := by
  rintro ⟨k, value⟩ he
  have hvalue : value ∈ d.values k := (mem_entries.mp he).2
  cases k with
  | scalar s =>
    refine ⟨?_, fun hk => nomatch hk⟩
    by_cases hnil : d.get s = []
    · rw [values_nil hnil] at hvalue
      cases hvalue
    · rw [values_ne_nil hnil, List.mem_singleton] at hvalue
      exact hvalue ▸ (h.scalar s).resolve_left hnil
  | bytes =>
    obtain rfl : value = decimal d.bytes := List.mem_singleton.mp hvalue
    exact ⟨clean_decimal d.bytes, fun _ => ⟨d.bytes, h.bytes, rfl⟩⟩
  | repeated k => exact ⟨h.repeated k value hvalue, fun hk => nomatch hk⟩

theorem once_entries (d : Descriptor) : (d.entries.filterMap Entry.single).Nodup := by
  have hkeys : (Key.order.flatMap fun k => k.single.toList).Nodup := by decide
  refine hkeys.sublist ?_
  unfold Descriptor.entries
  rw [List.filterMap_flatMap]
  induction Key.order with
  | nil => exact List.Sublist.refl _
  | cons k order ih =>
    rw [List.flatMap_cons, List.flatMap_cons]
    refine List.Sublist.append ?_ ih
    rw [List.filterMap_map]
    cases k with
    | scalar s =>
      by_cases hnil : d.get s = []
      · rw [values_nil hnil]
        exact List.nil_sublist _
      · rw [values_ne_nil hnil]
        exact List.Sublist.refl _
    | bytes => exact List.Sublist.refl _
    | repeated k =>
      have hnone : (d.list k).filterMap (Entry.single ∘ Entry.mk (.repeated k)) = [] := List.filterMap_eq_nil_iff.mpr fun _ _ => rfl
      exact hnone ▸ List.Sublist.refl _

theorem readableRow_entries (h : Writable d) : ReadableRow [] d.entries :=
  ⟨h.readable, once_entries d, fun _ _ => List.not_mem_nil⟩

/-- All the values of a key at once. -/
def Descriptor.take (d m : Descriptor) : Key → Descriptor
  | .scalar s => m.set (d.get s) s
  | .bytes => { m with bytes := d.bytes }
  | .repeated k => m.extend (d.list k) k

theorem set_get {m : Descriptor} {s : Scalar} : m.set (m.get s) s = m := by
  cases s <;> rfl

theorem extend_extend (m : Descriptor) (a b : List Bytes) (k : Repeated) : (m.extend a k).extend b k = m.extend (a ++ b) k := by
  cases k <;> simp [Descriptor.extend]

theorem extend_nil (m : Descriptor) (k : Repeated) : m.extend [] k = m := by
  cases k <;> simp [Descriptor.extend]

theorem foldl_values {m : Descriptor} {k : Key} (hk : ∀ s, k = .scalar s → m.get s = []) :
    ((d.values k).map (Entry.mk k)).foldl Descriptor.put m = d.take m k := by
  cases k with
  | scalar s =>
    by_cases hnil : d.get s = []
    · rw [values_nil hnil, Descriptor.take, hnil, ← hk s rfl, set_get]
      rfl
    · rw [values_ne_nil hnil]
      rfl
  | bytes =>
    show ({ m with bytes := Decimal.number 0 (decimal d.bytes) } : Descriptor) = _
    rw [Decimal.number_decimal]
    rfl
  | repeated k =>
    show ((d.list k).map (Entry.mk (.repeated k))).foldl Descriptor.put m = m.extend (d.list k) k
    induction d.list k generalizing m with
    | nil => exact (extend_nil m k).symm
    | cons value values ih =>
      rw [List.map_cons, List.foldl_cons, ih fun _ h => nomatch h]
      exact extend_extend m [value] values k

theorem get_take {m : Descriptor} {k : Key} {s : Scalar} (h : k ≠ .scalar s) : (d.take m k).get s = m.get s := by
  cases k with
  | scalar t => exact (get_set _ _ _).trans (if_neg fun hts => h (congrArg Key.scalar hts))
  | bytes => cases s <;> rfl
  | repeated k => exact get_extend _ _ _

theorem foldl_keys {order : List Key} {m : Descriptor} (honce : order.Nodup) (hm : ∀ s, .scalar s ∈ order → m.get s = []) :
    (order.flatMap fun k => (d.values k).map (Entry.mk k)).foldl Descriptor.put m = order.foldl d.take m := by
  induction order generalizing m with
  | nil => rfl
  | cons k order ih =>
    obtain ⟨hk, honce⟩ := List.nodup_cons.mp honce
    rw [List.flatMap_cons, List.foldl_append, List.foldl_cons, foldl_values fun s hs => hm s (hs ▸ List.mem_cons_self)]
    refine ih honce fun s hs => ?_
    rw [get_take fun hks : k = .scalar s => hk (hks ▸ hs)]
    exact hm s (List.mem_cons_of_mem k hs)

theorem list_take {m : Descriptor} {k : Key} {r : Repeated} (h : k ≠ .repeated r) : (d.take m k).list r = m.list r := by
  cases k with
  | scalar t => exact list_set _ _ _
  | bytes => cases r <;> rfl
  | repeated k => exact (list_extend _ _ _).trans (if_neg fun hkr => h (congrArg Key.repeated hkr))

theorem bytes_take {m : Descriptor} {k : Key} (h : k ≠ .bytes) : (d.take m k).bytes = m.bytes := by
  cases k with
  | scalar t => exact bytes_set _ _
  | bytes => exact absurd rfl h
  | repeated k => exact bytes_extend _ _

theorem source_take {m : Descriptor} {k : Key} : (d.take m k).source = m.source := by
  cases k with
  | scalar t => cases t <;> rfl
  | bytes => rfl
  | repeated k => cases k <;> rfl

theorem foldl_take {order : List Key} (m : Descriptor) (honce : order.Nodup) :
    (∀ s, (order.foldl d.take m).get s = if .scalar s ∈ order then d.get s else m.get s) ∧
    (∀ k, (order.foldl d.take m).list k = if .repeated k ∈ order then m.list k ++ d.list k else m.list k) ∧
    ((order.foldl d.take m).bytes = if .bytes ∈ order then d.bytes else m.bytes) ∧ (order.foldl d.take m).source = m.source := by
  induction order generalizing m with
  | nil => simp
  | cons k order ih =>
    obtain ⟨hk, honce⟩ := List.nodup_cons.mp honce
    obtain ⟨hget, hlist, hbytes, hsource⟩ := ih (d.take m k) honce
    rw [List.foldl_cons]
    refine ⟨fun s => ?_, fun r => ?_, ?_, hsource.trans source_take⟩
    · rw [hget s]
      by_cases hks : k = .scalar s
      · subst hks
        rw [if_neg hk, if_pos List.mem_cons_self, Descriptor.take, get_set, if_pos rfl]
      · simp only [List.mem_cons, Ne.symm hks, false_or, get_take hks]
    · rw [hlist r]
      by_cases hkr : k = .repeated r
      · subst hkr
        rw [if_neg hk, if_pos List.mem_cons_self, Descriptor.take, list_extend, if_pos rfl]
      · simp only [List.mem_cons, Ne.symm hkr, false_or, list_take hkr]
    · rw [hbytes]
      by_cases hkb : k = .bytes
      · subst hkb
        rw [if_neg hk, if_pos List.mem_cons_self]
        rfl
      · simp only [List.mem_cons, Ne.symm hkb, false_or, bytes_take hkb]

theorem descriptor_ext {d' : Descriptor} (hget : ∀ s, d.get s = d'.get s) (hlist : ∀ k, d.list k = d'.list k) (hbytes : d.bytes = d'.bytes)
    (hsource : d.source = d'.source) : d = d' := by
  obtain ⟨⟩ := d
  obtain ⟨⟩ := d'
  simp only [Descriptor.mk.injEq]
  exact ⟨hget .schema, hget .id, hget .version, hget .kind, hget .platform, hget .architecture, hget .artifact, hget .delivery,
    hget .runtime, hget .availability, hget .entrypoint, hget .channel, hget .category, hget .license, hget .description,
    hget .homepage, hget .sha, hget .providerAbi, hget .launchMode, hbytes, hlist .mirror, hlist .requires, hlist .requiresAny,
    hlist .provides, hlist .asset, hlist .accepts, hlist .arg, hsource⟩

theorem foldl_entries (path : Bytes) : d.entries.foldl Descriptor.put (.empty path) = { d with source := path } := by
  have honce : Key.order.Nodup := by decide
  have hempty : ∀ s, (Descriptor.empty path).get s = [] := by
    intro s
    cases s <;> rfl
  obtain ⟨hget, hlist, hbytes, hsource⟩ := foldl_take (d := d) (.empty path) honce
  have hrow : d.entries.foldl Descriptor.put (.empty path) = Key.order.foldl d.take (.empty path) := foldl_keys honce fun s _ => hempty s
  rw [hrow]
  refine descriptor_ext (fun s => (hget s).trans ?_) (fun k => (hlist k).trans ?_) (hbytes.trans rfl) (hsource.trans rfl)
  · cases s <;> rfl
  · cases k <;> rfl

/-! ### The canonical form -/

/-- The descriptor with its repeated members sorted, except for the launch arguments, and its alternatives in their order. -/
def Descriptor.normal (d : Descriptor) : Descriptor :=
  { d with
    mirrors := sorted d.mirrors
    requirements := sorted d.requirements
    requirementAny := sorted (d.requirementAny.map canonicalGroup)
    provides := sorted d.provides
    assets := sorted d.assets
    accepts := sorted d.accepts }

/-- The members that may be empty. -/
def Scalar.optional : Scalar → Bool
  | .providerAbi | .launchMode => true
  | _ => false

/-- What the canonical form writes for a key. -/
def Descriptor.written (d : Descriptor) (k : Key) : Bytes := (d.values k).flatMap (Zenpkg.rendered k.text)

theorem flatMap_entries : (d.entries.flatMap fun e => e.line ++ [10]) = Key.order.flatMap d.written := by
  unfold Descriptor.entries
  rw [List.flatMap_assoc]
  refine List.flatMap_congr fun k _ => ?_
  rw [List.flatMap_map]
  refine List.flatMap_congr fun value _ => ?_
  simp [Entry.line, KeyValue.line, Zenpkg.rendered]

theorem written_scalar {s : Scalar} (h : d.get s ≠ []) : d.written (.scalar s) = Zenpkg.rendered s.key (d.get s) := by
  rw [Descriptor.written, values_ne_nil h]
  exact List.flatMap_singleton _ _

theorem written_optional (s : Scalar) : d.written (.scalar s) = renderedOptional s.key (d.get s) := by
  by_cases h : d.get s = []
  · rw [Descriptor.written, values_nil h, renderedOptional, if_pos h]
    rfl
  · rw [written_scalar h, renderedOptional, if_neg h]

theorem mapM_canonicalAlternatives {groups texts : List Bytes} :
    groups.mapM canonicalAlternatives = .ok texts ↔ (∀ group ∈ groups, ValidGroup group) ∧ texts = groups.map canonicalGroup := by
  induction groups generalizing texts with
  | nil =>
    rw [List.mapM_nil]
    exact ⟨fun h => ⟨fun _ h => (nomatch h), by cases h; rfl⟩, fun h => by rw [h.2]; rfl⟩
  | cons group groups ih =>
    rw [List.mapM_cons]
    constructor
    · intro h
      obtain ⟨text, htext, h⟩ := bind_ok h
      obtain ⟨rest, hrest, h⟩ := bind_ok h
      cases h
      obtain ⟨hvalid, rfl⟩ := canonicalAlternatives_ok.mp htext
      obtain ⟨hgroups, rfl⟩ := ih.mp hrest
      exact ⟨List.forall_mem_cons.mpr ⟨hvalid, hgroups⟩, rfl⟩
    · rintro ⟨hgroups, rfl⟩
      obtain ⟨hvalid, hgroups⟩ := List.forall_mem_cons.mp hgroups
      rw [canonicalAlternatives_ok.mpr ⟨hvalid, rfl⟩, ok_bind, ih.mpr ⟨hgroups, rfl⟩]
      rfl

theorem canonicalText_eq (hd : ∀ s : Scalar, s.optional = false → d.get s ≠ []) :
    canonicalText d (d.requirementAny.map canonicalGroup) = Key.order.flatMap d.normal.written := by
  have hget : ∀ s : Scalar, d.normal.get s = d.get s := by
    intro s
    cases s <;> rfl
  have hscalar : ∀ s : Scalar, s.optional = false → d.normal.written (.scalar s) = Zenpkg.rendered s.key (d.get s) := by
    intro s hs
    rw [written_scalar (by rw [hget]; exact hd s hs), hget]
  have hbytes : d.normal.written .bytes = Zenpkg.rendered (ascii "bytes") (decimal d.bytes) := List.flatMap_singleton _ _
  simp only [Key.order, List.flatMap_cons, List.flatMap_nil, List.append_nil, ← List.append_assoc]
  rw [hscalar .schema rfl, hscalar .id rfl, hscalar .version rfl, hscalar .kind rfl, hscalar .platform rfl,
    hscalar .architecture rfl, hscalar .artifact rfl, hscalar .delivery rfl, hscalar .runtime rfl, hscalar .availability rfl,
    hscalar .entrypoint rfl, written_optional .providerAbi, written_optional .launchMode, hscalar .channel rfl,
    hscalar .category rfl, hscalar .license rfl, hscalar .description rfl, hscalar .homepage rfl, hbytes, hscalar .sha rfl]
  rfl

theorem canonical_ok {text : Bytes} (hd : ∀ s : Scalar, s.optional = false → d.get s ≠ []) :
    canonical d = .ok text ↔
      (∀ group ∈ d.requirementAny, ValidGroup group) ∧ text = d.normal.entries.flatMap fun e => e.line ++ [10] := by
  rw [flatMap_entries, ← canonicalText_eq hd]
  unfold canonical
  constructor
  · intro h
    obtain ⟨groups, hgroups, h⟩ := bind_ok h
    obtain ⟨hvalid, rfl⟩ := mapM_canonicalAlternatives.mp hgroups
    exact ⟨hvalid, (Except.ok.inj h).symm⟩
  · rintro ⟨hvalid, htext⟩
    have hgroups : d.requirementAny.mapM canonicalAlternatives = .ok (d.requirementAny.map canonicalGroup) :=
      mapM_canonicalAlternatives.mpr ⟨hvalid, rfl⟩
    rw [hgroups, ok_bind, htext]
    rfl

/-! ### Validation -/

theorem validateUnique_ok {valid : Bytes → Bool} {text : Bytes → Bytes} {unique values : List Bytes} :
    validateUnique valid text unique values = .ok () ↔ (∀ v ∈ values, valid v = true ∧ v ∉ unique) ∧ values.Nodup := by
  induction values generalizing unique with
  | nil => exact ⟨fun _ => ⟨fun _ h => (nomatch h), List.nodup_nil⟩, fun _ => rfl⟩
  | cons v values ih =>
    rw [validateUnique, check_ok_iff, refuse_ok, not_or, ih, List.forall_mem_cons, List.nodup_cons]
    simp only [List.mem_cons, not_or, Bool.not_eq_true', Bool.not_eq_false]
    constructor
    · rintro ⟨hv, hrest, hnodup⟩
      exact ⟨⟨hv, fun x hx => ⟨(hrest x hx).1, (hrest x hx).2.2⟩⟩, fun hmem => (hrest v hmem).2.1 rfl, hnodup⟩
    · rintro ⟨⟨hv, hrest⟩, hmem, hnodup⟩
      refine ⟨hv, fun x hx => ⟨(hrest x hx).1, ?_, (hrest x hx).2⟩, hnodup⟩
      rintro rfl
      exact hmem hx

/-- Values that are valid, and none of them twice. -/
def ValidList (valid : Bytes → Bool) (values : List Bytes) : Prop := (∀ v ∈ values, valid v = true) ∧ values.Nodup

theorem validateUnique_nil_ok {valid : Bytes → Bool} {text : Bytes → Bytes} {values : List Bytes} :
    validateUnique valid text [] values = .ok () ↔ ValidList valid values := by
  rw [validateUnique_ok]
  simp only [ValidList, List.not_mem_nil, not_false_eq_true, and_true]

theorem ValidList.sorted {valid : Bytes → Bool} {values : List Bytes} (h : ValidList valid values) : ValidList valid (sorted values) :=
  ⟨fun v hv => h.1 v ((sorted_perm values).mem_iff.mp hv), (sorted_perm values).nodup_iff.mpr h.2⟩

theorem validateGroups_ok {source : Bytes} {anyGroups groups : List Bytes} :
    validateGroups source anyGroups groups = .ok () ↔
      (∀ group ∈ groups, ValidGroup group ∧ canonicalGroup group ∉ anyGroups) ∧ (groups.map canonicalGroup).Nodup := by
  induction groups generalizing anyGroups with
  | nil => exact ⟨fun _ => ⟨fun _ h => (nomatch h), List.nodup_nil⟩, fun _ => rfl⟩
  | cons group groups ih =>
    rw [validateGroups, List.forall_mem_cons, List.map_cons, List.nodup_cons]
    constructor
    · intro h
      obtain ⟨text, htext, h⟩ := bind_ok h
      obtain ⟨hvalid, rfl⟩ := canonicalAlternatives_ok.mp htext
      obtain ⟨hnew, h⟩ := refused h
      obtain ⟨hall, hnodup⟩ := ih.mp h
      refine ⟨⟨⟨hvalid, hnew⟩, fun g hg => ⟨(hall g hg).1, fun hmem => (hall g hg).2 (List.mem_cons_of_mem _ hmem)⟩⟩, ?_, hnodup⟩
      intro hmem
      obtain ⟨g, hg, hsame⟩ := List.mem_map.mp hmem
      exact (hall g hg).2 (hsame ▸ List.mem_cons_self)
    · rintro ⟨⟨⟨hvalid, hnew⟩, hall⟩, hfresh, hnodup⟩
      rw [canonicalAlternatives_ok.mpr ⟨hvalid, rfl⟩, ok_bind, refuse_bind hnew]
      refine ih.mpr ⟨fun g hg => ⟨(hall g hg).1, fun hmem => ?_⟩, hnodup⟩
      rcases List.mem_cons.mp hmem with hsame | hmem
      · exact hfresh (List.mem_map.mpr ⟨g, hg, hsame⟩)
      · exact (hall g hg).2 hmem

theorem forM_refuse_ok {β : Type} {c : β → Prop} [DecidablePred c] {text : β → Bytes} {l : List β} :
    (l.forM fun b => refuse (c b) (text b)) = .ok () ↔ ∀ b ∈ l, ¬c b := by
  induction l with
  | nil => exact ⟨fun _ _ h => (nomatch h), fun _ => rfl⟩
  | cons b l ih =>
    show (refuse (c b) (text b) >>= fun _ => l.forM fun b => refuse (c b) (text b)) = .ok () ↔ _
    rw [check_ok_iff, refuse_ok, List.forall_mem_cons, ih]

/-- Groups that are valid, and no two of them the same in another order. -/
def ValidGroups (groups : List Bytes) : Prop := (∀ group ∈ groups, ValidGroup group) ∧ (groups.map canonicalGroup).Nodup

theorem ValidGroups.normal {groups : List Bytes} (h : ValidGroups groups) : ValidGroups (sorted (groups.map canonicalGroup)) := by
  have hperm := sorted_perm (groups.map canonicalGroup)
  have hsame : (groups.map canonicalGroup).map canonicalGroup = groups.map canonicalGroup := by
    rw [List.map_map]
    exact List.map_congr_left fun group hgroup => canonicalGroup_canonical (h.1 group hgroup)
  refine ⟨fun group hgroup => ?_, ?_⟩
  · obtain ⟨g, hg, rfl⟩ := List.mem_map.mp (hperm.mem_iff.mp hgroup)
    exact (h.1 g hg).canonical
  · rw [(hperm.map canonicalGroup).nodup_iff, hsame]
    exact h.2

theorem sorted_eq_nil_iff {values : List Bytes} : sorted values = [] ↔ values = [] := by
  have hperm := sorted_perm values
  exact ⟨fun h => List.nil_perm.mp (h ▸ hperm), fun h => by rw [h]; rfl⟩

/-- What `validate_descriptor` asks of the scalars and the number. -/
structure ValidScalars (d : Descriptor) : Prop where
  schema : d.schema = ascii "zen-source-1"
  identity : safeId d.id = true ∧ safeId d.version = true
  enums : kinds.contains d.kind = true ∧ platforms.contains d.platform = true ∧ architectures.contains d.architecture = true ∧
    artifacts.contains d.artifact = true ∧ deliveries.contains d.delivery = true ∧ runtimeNames.contains d.runtime = true ∧
    availabilityValues.contains d.availability = true
  metadata : safeId d.channel = true ∧ safeId d.category = true ∧ printable d.license 96 = true ∧ printable d.description 240 = true ∧
    httpsUrl d.homepage = true
  entrypoint : d.entrypoint ≠ [] ∧ ¬192 < d.entrypoint.length ∧ ¬(d.entrypoint.any fun c => c = 13 || c = 10) = true
  console : ¬(consolePlatforms.contains d.platform = true ∧ d.kind = ascii "game" ∧ d.delivery ≠ ascii "user-supplied")
  artifact : (allowedArtifacts d.platform).contains d.artifact = true
  runtime : ¬(d.kind ≠ ascii "runtime" ∧ (platformRuntimes d.platform).contains d.runtime = false)

/-- What `validate_descriptor` asks. -/
structure Valid (d : Descriptor) : Prop where
  scalars : ValidScalars d
  requirements : ValidList knownCapability d.requirements
  provides : ValidList knownCapability d.provides
  groups : ValidGroups d.requirementAny
  assets : ValidList safeId d.assets
  accepts : ValidList artifacts.contains d.accepts
  launchArgs : ∀ value ∈ d.launchArgs, validLaunchArgument value d.assets = true
  mirrors : ValidList httpsUrl d.mirrors
  delivery : validateDelivery d = .ok ()
  kind : (if d.kind = ascii "runtime" then validateRuntime d
    else refuse (d.providerAbi ≠ [] ∨ d.launchMode ≠ [] ∨ d.accepts ≠ [] ∨ d.launchArgs ≠ [])
      (ascii "only runtime providers may declare provider ABI, accepts or launch arguments: " ++ d.source)) = .ok ()

theorem validateDescriptor_ok : validateDescriptor d = .ok () ↔ Valid d := by
  unfold validateDescriptor validateUniqueCapabilities
  have hgroups : ((∀ group ∈ d.requirementAny, ValidGroup group ∧ canonicalGroup group ∉ ([] : List Bytes)) ∧
      (d.requirementAny.map canonicalGroup).Nodup) ↔ ValidGroups d.requirementAny := by
    simp only [ValidGroups, List.not_mem_nil, not_false_eq_true, and_true]
  simp only [check_ok_iff, refuse_ok, validateUnique_nil_ok, validateGroups_ok, hgroups, forM_refuse_ok, Bool.not_eq_true',
    Bool.not_eq_false, ne_eq, not_not, not_or]
  constructor
  · rintro ⟨h1, h2, h3, h4, h5, hrequirements, hprovides, hgroups, hassets, haccepts, hargs, hmirrors, hdelivery, h6, h7, h8, hkind⟩
    exact ⟨⟨h1, h2, h3, h4, h5, h6, h7, h8⟩, hrequirements, hprovides, hgroups, hassets, haccepts, hargs, hmirrors, hdelivery, hkind⟩
  · rintro ⟨⟨h1, h2, h3, h4, h5, h6, h7, h8⟩, hrequirements, hprovides, hgroups, hassets, haccepts, hargs, hmirrors, hdelivery, hkind⟩
    exact ⟨h1, h2, h3, h4, h5, hrequirements, hprovides, hgroups, hassets, haccepts, hargs, hmirrors, hdelivery, h6, h7, h8, hkind⟩

theorem refuse_congr {c c' : Prop} [Decidable c] [Decidable c'] {text text' : Bytes} (hc : c' ↔ c) (h : refuse c text = .ok ()) :
    refuse c' text' = .ok () := refuse_ok.mpr fun h' => refuse_ok.mp h (hc.mp h')

theorem validateDelivery_congr {d' : Descriptor} (hdelivery : d'.delivery = d.delivery) (hmirrors : d'.mirrors = [] ↔ d.mirrors = [])
    (hsha : d'.sha = d.sha) (hbytes : d'.bytes = d.bytes) (hkind : d'.kind = d.kind) (h : validateDelivery d = .ok ()) :
    validateDelivery d' = .ok () := by
  unfold validateDelivery at h ⊢
  rw [hdelivery]
  split_ifs at h ⊢
  · exact refuse_congr (by rw [hmirrors, hsha, hbytes]) h
  · exact refuse_congr (by rw [Ne, hmirrors, hsha, hbytes]) h
  · exact refuse_congr (by rw [Ne, hmirrors, hsha, hbytes, hkind]) h
  · exact refuse_congr (by rw [Ne, hmirrors, hsha, hbytes]) h
  · exact refuse_congr (by rw [Ne, hmirrors, hsha, hbytes]) h
  · rfl

theorem validateRuntime_congr {d' : Descriptor} (hget : ∀ s, d'.get s = d.get s) (haccepts : d'.accepts = [] ↔ d.accepts = [])
    (hprovides : d.provides.length = 1 → d'.provides = d.provides) (h : validateRuntime d = .ok ()) : validateRuntime d' = .ok () := by
  have hruntime : d'.runtime = d.runtime := hget .runtime
  have habi : d'.providerAbi = d.providerAbi := hget .providerAbi
  have hmode : d'.launchMode = d.launchMode := hget .launchMode
  have hentry : d'.entrypoint = d.entrypoint := hget .entrypoint
  have hid : d'.id = d.id := hget .id
  have hdelivery : d'.delivery = d.delivery := hget .delivery
  have havailability : d'.availability = d.availability := hget .availability
  unfold validateRuntime at h ⊢
  obtain ⟨h1, h⟩ := refused h
  obtain ⟨h2, h⟩ := refused h
  obtain ⟨h3, h⟩ := refused h
  obtain ⟨h4, h⟩ := refused h
  obtain ⟨h5, h⟩ := refused h
  obtain ⟨h6, h⟩ := refused h
  obtain ⟨h7, h⟩ := refused h
  have hsame : d'.provides = d.provides := hprovides (not_not.mp (not_or.mp h6).1)
  rw [hruntime, refuse_bind h1, habi, refuse_bind h2, hmode, refuse_bind h3, refuse_bind (haccepts.not.mpr h4), hentry, refuse_bind h5,
    hsame, refuse_bind h6, hid, refuse_bind h7, hdelivery, havailability]
  split_ifs at h ⊢
  · obtain ⟨h8, h9⟩ := refused h
    rw [refuse_bind h8]
    exact refuse_congr Iff.rfl h9
  · obtain ⟨h8, h9⟩ := refused h
    rw [refuse_bind h8]
    exact refuse_congr Iff.rfl h9

theorem sorted_of_length_one {values : List Bytes} (h : values.length = 1) : sorted values = values := by
  obtain ⟨value, rfl⟩ := List.length_eq_one_iff.mp h
  rfl

theorem Valid.normal (h : Valid d) (path : Bytes) : Valid { d.normal with source := path } where
  scalars := ⟨h.scalars.schema, h.scalars.identity, h.scalars.enums, h.scalars.metadata, h.scalars.entrypoint, h.scalars.console,
    h.scalars.artifact, h.scalars.runtime⟩
  requirements := h.requirements.sorted
  provides := h.provides.sorted
  groups := h.groups.normal
  assets := h.assets.sorted
  accepts := h.accepts.sorted
  launchArgs value hvalue := by
    have hassets : ∀ id : Bytes, (sorted d.assets).contains id = d.assets.contains id := by
      intro id
      rw [Bool.eq_iff_iff, List.contains_iff_mem, List.contains_iff_mem, (sorted_perm d.assets).mem_iff]
    have hargument := h.launchArgs value hvalue
    unfold validLaunchArgument at hargument ⊢
    rw [show ({ d.normal with source := path } : Descriptor).assets = sorted d.assets from rfl, hassets]
    exact hargument
  mirrors := h.mirrors.sorted
  delivery := validateDelivery_congr (d := d) rfl (@sorted_eq_nil_iff d.mirrors) rfl rfl rfl h.delivery
  kind := by
    have hkind := h.kind
    show (if d.kind = ascii "runtime" then _ else _) = _
    split_ifs at hkind ⊢
    · refine validateRuntime_congr (fun s => ?_) (@sorted_eq_nil_iff d.accepts) sorted_of_length_one hkind
      cases s <;> rfl
    · refine refuse_congr ?_ hkind
      show (_ ∨ _ ∨ sorted d.accepts ≠ [] ∨ _) ↔ _
      rw [Ne, Ne, Ne, Ne, sorted_eq_nil_iff]
      exact Iff.rfl

theorem Valid.required (h : Valid d) : ∀ s : Scalar, s.optional = false → d.get s ≠ [] := by
  have hof : ∀ (valid : Bytes → Bool) {value : Bytes}, valid [] = false → valid value = true → value ≠ [] := by
    rintro valid value hnil hvalue rfl
    exact Bool.noConfusion (hnil.symm.trans hvalue)
  have hs := h.scalars
  obtain ⟨hkind, hplatform, harchitecture, hartifact, hdelivery, hruntime, havailability⟩ := hs.enums
  intro s
  cases s with
  | schema => exact fun _ hnil => absurd (hs.schema.symm.trans hnil) (by decide)
  | id => exact fun _ => hof safeId (by decide) hs.identity.1
  | version => exact fun _ => hof safeId (by decide) hs.identity.2
  | kind => exact fun _ => hof kinds.contains (by decide) hkind
  | platform => exact fun _ => hof platforms.contains (by decide) hplatform
  | architecture => exact fun _ => hof architectures.contains (by decide) harchitecture
  | artifact => exact fun _ => hof artifacts.contains (by decide) hartifact
  | delivery => exact fun _ => hof deliveries.contains (by decide) hdelivery
  | runtime => exact fun _ => hof runtimeNames.contains (by decide) hruntime
  | availability => exact fun _ => hof availabilityValues.contains (by decide) havailability
  | entrypoint => exact fun _ => hs.entrypoint.1
  | channel => exact fun _ => hof safeId (by decide) hs.metadata.1
  | category => exact fun _ => hof safeId (by decide) hs.metadata.2.1
  | license => exact fun _ => hof (printable · 96) (by decide) hs.metadata.2.2.1
  | description => exact fun _ => hof (printable · 240) (by decide) hs.metadata.2.2.2.1
  | homepage => exact fun _ => hof httpsUrl (by decide) hs.metadata.2.2.2.2
  | sha =>
    intro _ hnil
    have hnil : d.sha = [] := hnil
    have hcheck := h.delivery
    unfold validateDelivery at hcheck
    rw [hnil] at hcheck
    -- whatever the delivery, an empty digest is refused
    have hhex : hex64 [] = false := by decide
    split_ifs at hcheck with h1 h2 h3 h4 h5
    · exact refuse_ok.mp hcheck (.inr (.inl (by rw [hhex]; rfl)))
    · exact refuse_ok.mp hcheck (.inr (.inl (by rw [hhex]; rfl)))
    · exact refuse_ok.mp hcheck (.inr (.inl (by decide)))
    · exact refuse_ok.mp hcheck (.inr (.inl (by decide)))
    · exact refuse_ok.mp hcheck (.inr (.inl (by decide)))
    · have hmem : d.delivery ∈ deliveries := List.contains_iff_mem.mp hdelivery
      simp only [deliveries, List.mem_cons, List.not_mem_nil, or_false] at hmem
      rcases hmem with hmem | hmem | hmem | hmem | hmem
      · exact h3 hmem
      · exact h2 hmem
      · exact h1 hmem
      · exact h5 hmem
      · exact h4 hmem
  | providerAbi => exact fun hs => Bool.noConfusion hs
  | launchMode => exact fun hs => Bool.noConfusion hs

/-! ### The round trip -/

theorem entries_source (d : Descriptor) (path : Bytes) : ({ d with source := path } : Descriptor).entries = d.entries := by
  unfold Descriptor.entries
  refine List.flatMap_congr fun k _ => ?_
  cases k with
  | scalar s => cases s <;> rfl
  | bytes => rfl
  | repeated k => cases k <;> rfl

theorem normal_normal (h : ValidGroups d.requirementAny) : d.normal.normal = d.normal := by
  have hgroups : (sorted (d.requirementAny.map canonicalGroup)).map canonicalGroup = sorted (d.requirementAny.map canonicalGroup) := by
    refine (List.map_congr_left fun group hgroup => ?_).trans (List.map_id _)
    obtain ⟨g, hg, rfl⟩ := List.mem_map.mp ((sorted_perm _).mem_iff.mp hgroup)
    exact canonicalGroup_canonical (h.1 g hg)
  have hsorted : ∀ values : List Bytes, sorted (sorted values) = sorted values := fun values => sorted_of_pairwise (pairwise_sorted values)
  unfold Descriptor.normal
  simp only [hsorted, hgroups]

theorem Writable.normal (h : Writable d) (hgroups : ValidGroups d.requirementAny) : Writable d.normal := by
  have hsorted : ∀ k : Repeated, ∀ value ∈ sorted (d.list k), CleanValue value := fun k value hvalue =>
    h.repeated k value ((sorted_perm _).mem_iff.mp hvalue)
  refine ⟨fun s => ?_, fun k value hvalue => ?_, h.bytes⟩
  · have hget : d.normal.get s = d.get s := by cases s <;> rfl
    exact hget ▸ h.scalar s
  · cases k with
    | mirror => exact hsorted .mirror value hvalue
    | accepts => exact hsorted .accepts value hvalue
    | asset => exact hsorted .asset value hvalue
    | requires => exact hsorted .requires value hvalue
    | requiresAny =>
      obtain ⟨group, hgroup, rfl⟩ := List.mem_map.mp ((sorted_perm _).mem_iff.mp hvalue)
      exact clean_canonicalGroup (hgroups.1 group hgroup)
    | provides => exact hsorted .provides value hvalue
    | arg => exact h.repeated .arg value hvalue

theorem canonical_read {path data : Bytes} (hparse : parseDescriptor path data = .ok d) (hvalid : Valid d) :
    canonical d = .ok (d.normal.entries.flatMap fun e => e.line ++ [10]) ∧
      ((d.normal.entries.flatMap fun e => e.line ++ [10]).length ≤ 64 * 1024 → ∀ path',
        parseDescriptor path' (d.normal.entries.flatMap fun e => e.line ++ [10]) = .ok { d.normal with source := path' }) := by
  have hwritable := (parse_writable hparse).normal hvalid.groups
  refine ⟨(canonical_ok hvalid.required).mpr ⟨hvalid.groups.1, rfl⟩, fun hsize path' => ?_⟩
  rw [parse_entries path' (readableRow_entries hwritable) hsize, foldl_entries]

theorem canonical_normal (hvalid : Valid d) (path : Bytes) :
    canonical { d.normal with source := path } = .ok (d.normal.entries.flatMap fun e => e.line ++ [10]) := by
  have hnormal := hvalid.normal path
  refine (canonical_ok hnormal.required).mpr ⟨hnormal.groups.1, ?_⟩
  have hentries : ({ d.normal with source := path } : Descriptor).normal.entries = d.normal.normal.entries :=
    entries_source d.normal.normal path
  rw [normal_normal hvalid.groups] at hentries
  exact congrArg (List.flatMap fun e => e.line ++ [10]) hentries.symm

/-- The canonical form of a descriptor that is read and valid, where it is no larger than a descriptor file may be, is read back as the
    normal descriptor, which is valid and has the same canonical form. -/
theorem canonical_roundtrip (path data : Bytes) (d : Descriptor) (hparse : parseDescriptor path data = .ok d)
    (hvalid : validateDescriptor d = .ok ()) :
    ∃ text, canonical d = .ok text ∧ (text.length ≤ 64 * 1024 → ∀ path',
      parseDescriptor path' text = .ok { d.normal with source := path' } ∧
        validateDescriptor { d.normal with source := path' } = .ok () ∧ canonical { d.normal with source := path' } = .ok text) := by
  have hvalid := validateDescriptor_ok.mp hvalid
  obtain ⟨hcanonical, hread⟩ := canonical_read hparse hvalid
  exact ⟨_, hcanonical, fun hsize path' =>
    ⟨hread hsize path', validateDescriptor_ok.mpr (hvalid.normal path'), canonical_normal hvalid path'⟩⟩

/-- A runtime that is run with two arguments, in no order of the alphabet. -/
def sampleDescriptor : Descriptor where
  schema := ascii "zen-source-1"
  id := ascii "org.zenov.runtime.wine"
  version := ascii "9.0"
  kind := ascii "runtime"
  platform := ascii "zenov"
  architecture := ascii "x86"
  artifact := ascii "metadata"
  delivery := ascii "metadata-only"
  runtime := ascii "native"
  availability := ascii "planned"
  entrypoint := ascii "/opt/wine"
  channel := ascii "stable"
  category := ascii "runtime"
  license := ascii "LGPL"
  description := ascii "Windows"
  homepage := ascii "https://zenov.org/"
  sha := ascii "-"
  providerAbi := ascii "zen-runtime-provider-1"
  launchMode := ascii "exec"
  bytes := 0
  mirrors := []
  requirements := []
  requirementAny := [ascii "graphics.vulkan|graphics.opengl"]
  provides := [ascii "runtime.wine"]
  assets := []
  accepts := [ascii "msi", ascii "exe"]
  launchArgs := [ascii "run", ascii "%artifact%"]
  source := ascii "wine.zsource"

/-- Its members line by line, as they are. -/
def sampleFile : Bytes := sampleDescriptor.entries.flatMap fun e => e.line ++ [10]

theorem writable_sampleDescriptor : Writable sampleDescriptor := by
  have hplain : ∀ value : Bytes, (value ≠ [] ∧ value.all (fun c => !isBlank c) = true) → CleanValue value := by
    rintro value ⟨hne, hall⟩
    exact clean_of_plain hne fun c hc => by simpa using List.all_eq_true.mp hall c hc
  refine ⟨fun s => .inr (hplain _ ?_), fun k value hvalue => hplain value ?_, Nat.zero_le _⟩
  · cases s <;> decide
  · have hall : ∀ k, ∀ value ∈ sampleDescriptor.list k, value ≠ [] ∧ value.all (fun c => !isBlank c) = true := by
      intro k
      cases k <;> decide
    exact hall k value hvalue

theorem parse_sampleFile : parseDescriptor (ascii "wine.zsource") sampleFile = .ok sampleDescriptor := by
  have hsize : sampleFile.length ≤ 64 * 1024 := by decide +kernel
  exact (parse_entries (ascii "wine.zsource") (readableRow_entries writable_sampleDescriptor) hsize).trans
    (congrArg Except.ok (foldl_entries (ascii "wine.zsource")))

theorem validate_sampleDescriptor : validateDescriptor sampleDescriptor = .ok () := by decide +kernel

theorem canonical_roundtrip_sample :
    ∃ text, canonical sampleDescriptor = .ok text ∧ (text.length ≤ 64 * 1024 → ∀ path',
      parseDescriptor path' text = .ok { sampleDescriptor.normal with source := path' } ∧
        validateDescriptor { sampleDescriptor.normal with source := path' } = .ok () ∧
          canonical { sampleDescriptor.normal with source := path' } = .ok text) :=
  canonical_roundtrip (ascii "wine.zsource") sampleFile sampleDescriptor parse_sampleFile validate_sampleDescriptor

/-- Launch arguments are not sorted: the program would be run with others. -/
theorem launchArgs_unsorted :
    ¬∀ path data d, parseDescriptor path data = .ok d → validateDescriptor d = .ok () →
      ∃ text, canonical d = .ok text ∧ (text.length ≤ 64 * 1024 →
        parseDescriptor path text = .ok { d.normal with launchArgs := sorted d.launchArgs }) := by
  intro h
  obtain ⟨text, htext, hread⟩ := h _ _ _ parse_sampleFile validate_sampleDescriptor
  obtain ⟨hcanonical, hback⟩ := canonical_read parse_sampleFile (validateDescriptor_ok.mp validate_sampleDescriptor)
  obtain rfl := Except.ok.inj (hcanonical.symm.trans htext)
  have hsize : (sampleDescriptor.normal.entries.flatMap fun e => e.line ++ [10]).length ≤ 64 * 1024 := by decide +kernel
  have hsame := (hback hsize (ascii "wine.zsource")).symm.trans (hread hsize)
  have hargs := congrArg Descriptor.launchArgs (Except.ok.inj hsame)
  have hsorted : sorted sampleDescriptor.launchArgs ≠ sampleDescriptor.launchArgs := by decide
  exact hsorted hargs.symm

end ZenovOS.Zenuniverse
