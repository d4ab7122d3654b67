import ZenovOS.Theorems.Package.Manifest
import ZenovOS.Theorems.Tools.Zenpkg.Archive

/-! # The two package parsers

The manifest of a package that the kernel accepts is the canonical form of a manifest of the host. The host reads that
manifest back, unless its licence or its source has a blank at an end, which the host cuts off and the kernel keeps. -/

namespace ZenovOS.Zenpkg
open Bytes Security Text ZenovOS.Package

/-! ### Rows by rank -/

theorem filter_lt_append_filter_eq {α : Type} {rank : α → Nat} {l : List α} {n : Nat} (horder : l.Pairwise fun a b => rank a ≤ rank b)
    (hrank : ∀ a ∈ l, rank a ≤ n) : l.filter (fun a => rank a < n) ++ l.filter (fun a => rank a = n) = l := by
  induction l with
  | nil => rfl
  | cons a l ih =>
    obtain ⟨hfirst, horder⟩ := List.pairwise_cons.mp horder
    obtain ⟨hle, hrank⟩ := List.forall_mem_cons.mp hrank
    rcases Nat.lt_or_eq_of_le hle with hlt | heq
    · rw [List.filter_cons_of_pos (by simpa using hlt), List.filter_cons_of_neg (by simp; omega), List.cons_append, ih horder hrank]
    · have hall : ∀ b ∈ a :: l, rank b = n := by
        intro b hb
        rcases List.mem_cons.mp hb with rfl | hb
        · exact heq
        · exact Nat.le_antisymm (hrank b hb) (heq ▸ hfirst b hb)
      have hnone : (a :: l).filter (fun b => rank b < n) = [] := by
        rw [List.filter_eq_nil_iff]
        intro b hb
        rw [hall b hb]
        simp
      rw [hnone, List.nil_append, List.filter_eq_self]
      exact fun b hb => decide_eq_true (hall b hb)

theorem eq_flatMap_filter {α : Type} {rank : α → Nat} {l : List α} {n : Nat} (horder : l.Pairwise fun a b => rank a ≤ rank b)
    (hrank : ∀ a ∈ l, rank a < n) : l = (List.range n).flatMap fun r => l.filter fun a => rank a = r := by
  induction n generalizing l with
  | zero =>
    cases l with
    | nil => rfl
    | cons a l => exact absurd (hrank a List.mem_cons_self) (Nat.not_lt_zero _)
  | succ n ih =>
    have hsplit := filter_lt_append_filter_eq horder fun a ha => Nat.lt_succ_iff.mp (hrank a ha)
    have hfront := ih (horder.filter fun a => rank a < n) fun a ha => of_decide_eq_true (List.mem_filter.mp ha).2
    have hsame : ((List.range n).flatMap fun r => (l.filter fun a => rank a < n).filter fun a => rank a = r) =
        (List.range n).flatMap fun r => l.filter fun a => rank a = r := by
      refine List.flatMap_congr fun r hr => ?_
      rw [List.filter_filter]
      refine List.filter_congr fun a _ => ?_
      have hlt := List.mem_range.mp hr
      by_cases h : rank a = r <;> simp [h]
      omega
    rw [List.range_succ, List.flatMap_append, ← hsame, ← hfront, List.flatMap_singleton, hsplit]

/-! ### The manifest of a row -/

/-- The key of a rank. -/
def rankKey (rank : Nat) : Key :=
  ([.scalar .format, .scalar .name, .scalar .version, .scalar .architecture, .scalar .target, .scalar .kind, .scalar .entrypoint,
    .scalar .payloadType, .scalar .runtime, .scalar .minOs, .scalar .license, .scalar .source, .scalar .assetPolicy, .capability,
    .dependency, .conflict] : List Key).getD rank .conflict

def entryOf (e : Ranked) : Entry := ⟨rankKey e.1, e.2⟩

theorem line_entryOf {e : Ranked} (h : e.1 ≤ 15) : (entryOf e).line = e.line := by
  obtain ⟨rank, value⟩ := e
  have hkey : ∀ r < 16, (rankKey r).text = keys.getD r [] := by decide
  unfold Entry.line Ranked.line entryOf
  rw [hkey rank (Nat.lt_succ_of_le h)]

/-- The value of a scalar. -/
def valueOf (es : List Ranked) (rank : Nat) : Bytes := (valuesOf es rank).headD []

/-- The host's manifest of a row. -/
def hostManifest (es : List Ranked) : Manifest :=
  ⟨valueOf es 0, valueOf es 1, valueOf es 2, valueOf es 3, valueOf es 4, valueOf es 5, valueOf es 6, valueOf es 7, valueOf es 8,
    valueOf es 9, valueOf es 10, valueOf es 11, valueOf es 12, valuesOf es 13, valuesOf es 14, valuesOf es 15⟩

section Row
variable {text : Bytes} {es : List Ranked} {m : Package.Manifest}

theorem mem_valuesOf {rank : Nat} {value : Bytes} : value ∈ valuesOf es rank ↔ (rank, value) ∈ es := by
  unfold valuesOf
  rw [List.mem_map]
  constructor
  · rintro ⟨⟨r, v⟩, hfilter, rfl⟩
    obtain ⟨hmem, hr⟩ := List.mem_filter.mp hfilter
    obtain rfl : r = rank := of_decide_eq_true hr
    exact hmem
  · exact fun h => ⟨(rank, value), List.mem_filter.mpr ⟨h, decide_eq_true rfl⟩, rfl⟩

theorem valuesOf_scalar (h : Accepted text es m) {rank : Nat} (hrank : rank ≤ 12) : valuesOf es rank = [valueOf es rank] := by
  have hpairwise : (valuesOf es rank).Pairwise fun _ _ => False := by
    unfold valuesOf
    rw [List.pairwise_map]
    refine (h.order.filter fun e => e.1 = rank).imp_of_mem fun {a b} ha hb hab => ?_
    have ha : a.1 = rank := of_decide_eq_true (List.mem_filter.mp ha).2
    have hb : b.1 = rank := of_decide_eq_true (List.mem_filter.mp hb).2
    rcases hab with hlt | ⟨-, hlt, -⟩ <;> omega
  obtain ⟨v, hv⟩ := h.complete rank hrank
  have hmem := mem_valuesOf.mpr hv
  unfold valueOf
  cases hvalues : valuesOf es rank with
  | nil =>
    rw [hvalues] at hmem
    cases hmem
  | cons x rest =>
    rw [hvalues] at hpairwise
    cases rest with
    | nil => rfl
    | cons y rest => exact absurd ((List.pairwise_cons.mp hpairwise).1 y List.mem_cons_self) id

theorem valueOf_mem (h : Accepted text es m) {rank : Nat} (hrank : rank ≤ 12) : (rank, valueOf es rank) ∈ es := by
  rw [← mem_valuesOf, valuesOf_scalar h hrank]
  exact List.mem_singleton_self _

theorem strict_valuesOf (h : Accepted text es m) (rank : Nat) : (valuesOf es rank).Pairwise (· < ·) := by
  unfold valuesOf
  rw [List.pairwise_map]
  refine (h.order.filter fun e => e.1 = rank).imp_of_mem fun {a b} ha hb hab => ?_
  have ha : a.1 = rank := of_decide_eq_true (List.mem_filter.mp ha).2
  have hb : b.1 = rank := of_decide_eq_true (List.mem_filter.mp hb).2
  rcases hab with hlt | ⟨-, -, hless⟩
  · omega
  · exact hless

theorem sorted_valuesOf (h : Accepted text es m) (rank : Nat) : sorted (valuesOf es rank) = valuesOf es rank :=
  sorted_of_pairwise ((strict_valuesOf h rank).imp List.le_of_lt)

theorem hostManifest_sorted (h : Accepted text es m) : (hostManifest es).sorted = hostManifest es := by
  unfold Manifest.sorted hostManifest
  dsimp only
  rw [sorted_valuesOf h, sorted_valuesOf h, sorted_valuesOf h]

theorem entries_hostManifest (h : Accepted text es m) : (hostManifest es).entries = es.map entryOf := by
  have horder : es.Pairwise fun a b => a.1 ≤ b.1 := by
    refine h.order.imp fun {a b} hab => ?_
    rcases hab with hlt | ⟨heq, -⟩ <;> omega
  have hrow := congrArg (List.map entryOf) (eq_flatMap_filter horder fun e he => Nat.lt_succ_of_le (h.plain e he).rank)
  have hrank : ∀ r, (es.filter fun e => e.1 = r).map entryOf = (valuesOf es r).map (⟨rankKey r, ·⟩ : Bytes → Entry) := by
    intro r
    unfold valuesOf
    rw [List.map_map]
    refine List.map_congr_left fun e he => ?_
    have he : e.1 = r := of_decide_eq_true (List.mem_filter.mp he).2
    show entryOf e = ⟨rankKey r, e.2⟩
    rw [entryOf, he]
  have hscalars : ((List.range 13).flatMap fun r => (valuesOf es r).map (⟨rankKey r, ·⟩ : Bytes → Entry)) =
      (List.range 13).flatMap fun r => [⟨rankKey r, valueOf es r⟩] := by
    refine List.flatMap_congr fun r hr => ?_
    rw [valuesOf_scalar h (Nat.lt_succ_iff.mp (List.mem_range.mp hr))]
    rfl
  rw [hrow, List.map_flatMap]
  simp only [hrank]
  rw [show List.range (Nat.succ 15) = List.range 13 ++ [13, 14, 15] from rfl, List.flatMap_append, hscalars, List.flatMap_cons,
    List.flatMap_cons, List.flatMap_singleton]
  unfold Manifest.entries
  rw [List.append_assoc, List.append_assoc]
  rfl

theorem canonical_hostManifest (h : Accepted text es m) : canonicalManifest (hostManifest es) = text := by
  rw [canonicalManifest_eq, hostManifest_sorted h, entries_hostManifest h, List.flatMap_map]
  refine Eq.trans ?_ h.text.symm
  refine List.flatMap_congr fun e he => ?_
  rw [line_entryOf (h.plain e he).rank]

end Row

/-! ### Bytes -/

/-- A byte of a name or a version. -/
def nameByte (ch : UInt8) : Bool := isLower ch || isDigit ch || ch = 46 || ch = 45 || ch = 95 || ch = 43

theorem nameByte_spec {ch : UInt8} (h : nameByte ch = true) : 33 ≤ ch ∧ ch ≠ 47 ∧ ch ≠ 0x7F ∧ ch ≠ 92 ∧ ch ≠ 58 := by
  unfold nameByte isLower isDigit at h
  grind

theorem isAlnum_of_lower {ch : UInt8} (h : (isLower ch || isDigit ch) = true) : isAlnum ch = true := by
  unfold isLower isDigit at h
  unfold isAlnum
  rw [Bool.or_eq_true] at h
  rw [Bool.or_eq_true, Bool.or_eq_true]
  rcases h with h | h
  · exact .inr h
  · exact .inl (.inl h)

/-- Text without a blank or a control byte. -/
def Bare (value : Bytes) : Prop := ∀ ch ∈ value, 33 ≤ ch

theorem Bare.clean {value : Bytes} (h : Bare value) (hne : value ≠ []) : Clean value := by
  have hspace : ∀ ch : UInt8, 33 ≤ ch → isSpace ch = false ∧ ch ≠ 10 := by
    intro ch hch
    unfold isSpace
    grind
  refine ⟨hne, ⟨fun a ha => (hspace a (h a (List.mem_of_head? ha))).1, fun a ha => (hspace a (h a (List.mem_of_getLast? ha))).1⟩, ?_⟩
  exact fun hmem => (hspace 10 (h 10 hmem)).2 rfl

/-! ### What the kernel asks is what the host asks -/

/-- A name of the kernel. -/
structure GoodName (value : Bytes) : Prop where
  safe : isSafeIdentifier value = true
  bytes : ∀ ch ∈ value, nameByte ch = true

theorem goodName {value : Bytes} (h : safeLowerIdentifier value 31 = true) : GoodName value := by
  unfold safeLowerIdentifier at h
  simp only [Bool.and_eq_true, decide_eq_true_eq, List.all_eq_true, Bool.or_eq_true] at h
  obtain ⟨⟨⟨⟨hlength, hfirst⟩, hlast⟩, hall⟩, hstop⟩ := h
  have hany : ∀ {o : Option UInt8}, (o.any fun a => isLower a || isDigit a) = true → o.any isAlnum = true := by
    intro o ho
    cases o with
    | none => cases ho
    | some a => exact isAlnum_of_lower ho
  have hne : value ≠ [] := by
    rintro rfl
    cases hfirst
  refine ⟨?_, fun ch hch => ?_⟩
  · unfold isSafeIdentifier
    simp only [Bool.and_eq_true, decide_eq_true_eq, List.all_eq_true, Bool.or_eq_true]
    refine ⟨⟨⟨⟨⟨hne, by omega⟩, hany hfirst⟩, hany hlast⟩, hstop⟩, fun ch hch => ?_⟩
    rcases hall ch hch with (((hlower | hdigit) | h46) | h45) | h95
    · exact .inl (.inl (.inl (isAlnum_of_lower (Bool.or_eq_true _ _ ▸ .inl hlower))))
    · exact .inl (.inl (.inl (isAlnum_of_lower (Bool.or_eq_true _ _ ▸ .inr hdigit))))
    · exact .inl (.inl (.inr h46))
    · exact .inl (.inr h45)
    · exact .inr h95
  · unfold nameByte
    simp only [Bool.or_eq_true, decide_eq_true_eq]
    exact .inl (hall ch hch)

/-- A version of the kernel. -/
structure GoodVersion (value : Bytes) : Prop where
  safe : isSafeVersion value = true
  bytes : ∀ ch ∈ value, nameByte ch = true

theorem goodVersion {value : Bytes} (h : safeVersion value = true) : GoodVersion value := by
  unfold safeVersion at h
  simp only [Bool.and_eq_true, decide_eq_true_eq, List.all_eq_true, Bool.or_eq_true] at h
  obtain ⟨⟨hne, hlength⟩, hall⟩ := h
  refine ⟨?_, fun ch hch => ?_⟩
  · unfold isSafeVersion
    simp only [Bool.and_eq_true, decide_eq_true_eq, List.all_eq_true, Bool.or_eq_true]
    refine ⟨⟨hne, by omega⟩, fun ch hch => ?_⟩
    rcases hall ch hch with (((hdigit | h46) | h45) | h43) | h95
    · exact .inl (.inl (.inl (.inl (isAlnum_of_lower (Bool.or_eq_true _ _ ▸ .inr hdigit)))))
    · exact .inl (.inl (.inl (.inr h46)))
    · exact .inl (.inl (.inr h45))
    · exact .inl (.inr h43)
    · exact .inr h95
  · unfold nameByte
    simp only [Bool.or_eq_true, decide_eq_true_eq]
    rcases hall ch hch with (((hdigit | h46) | h45) | h43) | h95
    · exact .inl (.inl (.inl (.inl (.inr hdigit))))
    · exact .inl (.inl (.inl (.inr h46)))
    · exact .inl (.inl (.inr h45))
    · exact .inr h43
    · exact .inl (.inr h95)

theorem appendText_some {capacity : Nat} {output text out : Bytes} (h : appendText capacity output text = some out) : out = output ++ text := by
  unfold appendText at h
  split at h
  · cases h
    rfl
  · cases h

theorem expectedEntrypoint_some {m : Package.Manifest} {out : Bytes} (h : expectedEntrypoint m = some out) :
    ∃ file, out = ascii "/data/apps/" ++ file ∧
      file = ascii "pkg-" ++ m.name ++ ascii "-" ++ m.version ++ if m.payloadType = payloadZex1 then ascii ".zex" else ascii ".elf" := by
  unfold expectedEntrypoint at h
  simp only [Option.bind_eq_bind, Option.bind_eq_some_iff] at h
  obtain ⟨a, ha, b, hb, c, hc, d, hd, hout⟩ := h
  refine ⟨_, ?_, rfl⟩
  rw [appendText_some hout, appendText_some hd, appendText_some hc, appendText_some hb, appendText_some ha]
  simp only [List.append_assoc, List.nil_append]
  rfl

theorem expectedEntrypoint_file {m : Package.Manifest} {out : Bytes} (h : expectedEntrypoint m = some out)
    (hname : ∀ ch ∈ m.name, nameByte ch = true) (hversion : ∀ ch ∈ m.version, nameByte ch = true) :
    ∃ file, out = ascii "/data/apps/" ++ file ∧ ascii "pkg-" <+: file ∧ ∀ ch ∈ file, nameByte ch = true := by
  obtain ⟨file, heq, hfile⟩ := expectedEntrypoint_some h
  have hpkg : (ascii "pkg-").all nameByte = true := by decide
  have hdash : (ascii "-").all nameByte = true := by decide
  have hend : (if m.payloadType = payloadZex1 then ascii ".zex" else ascii ".elf").all nameByte = true := by
    split
    · decide
    · decide
  refine ⟨file, heq, ?_, fun ch hch => ?_⟩
  · rw [hfile]
    simp only [List.append_assoc]
    exact List.prefix_append _ _
  · rw [hfile] at hch
    simp only [List.mem_append] at hch
    rcases hch with (((hch | hch) | hch) | hch) | hch
    · exact List.all_eq_true.mp hpkg ch hch
    · exact hname ch hch
    · exact List.all_eq_true.mp hdash ch hch
    · exact hversion ch hch
    · exact List.all_eq_true.mp hend ch hch

theorem safe_entrypoint {m : Package.Manifest} {out : Bytes} (h : expectedEntrypoint m = some out) (hlength : out.length ≤ 127)
    (hname : ∀ ch ∈ m.name, nameByte ch = true) (hversion : ∀ ch ∈ m.version, nameByte ch = true) :
    isSafeAbsoluteEntrypoint out = true ∧ Bare out ∧ out ≠ ascii "-" := by
  obtain ⟨file, rfl, hpkg, hbytes⟩ := expectedEntrypoint_file h hname hversion
  have hlong : 4 ≤ file.length := hpkg.length_le
  have hne : file ≠ [] := List.ne_nil_of_length_pos (by omega)
  have hslash : (47 : UInt8) ∉ file := fun hmem => (nameByte_spec (hbytes 47 hmem)).2.1 rfl
  have hlines : lines 47 (ascii "/data/apps/" ++ file).tail = [ascii "data", ascii "apps", file] := by
    show lines 47 (ascii "data" ++ 47 :: (ascii "apps" ++ 47 :: file)) = _
    rw [lines_append_sep (by decide), lines_append_sep (by decide), lines_of_notMem hslash hne]
  have hcomponent : safeComponent file = true := by
    unfold safeComponent
    simp only [Bool.and_eq_true, decide_eq_true_eq, List.all_eq_true]
    refine ⟨⟨⟨hne, ?_⟩, ?_⟩, fun ch hch => ?_⟩
    · rintro rfl
      exact absurd hlong (by decide)
    · rintro rfl
      exact absurd hlong (by decide)
    · obtain ⟨hle, -, h7f, h92, h58⟩ := nameByte_spec (hbytes ch hch)
      exact ⟨⟨⟨UInt8.le_trans (by decide) hle, h7f⟩, h92⟩, h58⟩
  have hlast : (ascii "/data/apps/" ++ file).getLast? ≠ some 47 := by
    rw [List.getLast?_append]
    intro hlast
    cases hget : file.getLast? with
    | none => exact hne (List.getLast?_eq_none_iff.mp hget)
    | some ch =>
      rw [hget] at hlast
      cases hlast
      exact hslash (List.mem_of_getLast? hget)
  have hnotdash : ascii "/data/apps/" ++ file ≠ ascii "-" := by
    intro hdash
    have hhead : some (47 : UInt8) = some 45 := congrArg List.head? hdash
    exact absurd hhead (by decide)
  refine ⟨?_, ?_, hnotdash⟩
  · unfold isSafeAbsoluteEntrypoint
    rw [if_neg (by simp [ascii]), if_neg hnotdash, if_neg, hlines]
    · simp only [List.all_cons, List.all_nil, hcomponent]
      decide
    · rw [not_or, not_or]
      exact ⟨not_not.mpr rfl, by omega, hlast⟩
  · intro ch hch
    rcases List.mem_append.mp hch with hch | hch
    · have happs : (ascii "/data/apps/").all (33 ≤ ·) = true := by decide
      exact of_decide_eq_true (List.all_eq_true.mp happs ch hch)
    · exact (nameByte_spec (hbytes ch hch)).1

section Accepted
variable {text : Bytes} {es : List Ranked} {m : Package.Manifest}

theorem checked_scalar (h : Accepted text es m) {rank : Nat} (hrank : rank ≤ 12) : Checked rank (valueOf es rank) :=
  h.kept.checked _ (valueOf_mem h hrank)

theorem fields_eq (h : Accepted text es m) :
    m.name = valueOf es 1 ∧ m.version = valueOf es 2 ∧ m.entrypoint = valueOf es 6 ∧ m.payloadType = payloadTypeOf (valueOf es 7) :=
  ⟨h.kept.name _ (valueOf_mem h (by decide)), h.kept.version _ (valueOf_mem h (by decide)),
    h.kept.entrypoint _ (valueOf_mem h (by decide)), h.kept.payloadType _ (valueOf_mem h (by decide))⟩

theorem requirement_repeated (h : Accepted text es m) {rank : Nat} {value : Bytes} (hrank : 12 < rank) (hvalue : value ∈ valuesOf es rank) :
    Requirement value ∧ Bare value := by
  have hmem := mem_valuesOf.mp hvalue
  have hplain := h.plain _ hmem
  have hchecked := h.kept.checked _ hmem
  have hle : rank ≤ 15 := hplain.rank
  have hbyte : ∀ ch : UInt8, isLower ch = true ∨ isDigit ch = true ∨ ch = 46 ∨ ch = 45 ∨ ch = 95 ∨ ch = 64 →
      requirementByte ch = true ∧ 33 ≤ ch := by
    intro ch hch
    unfold isLower isDigit at hch
    unfold requirementByte isAlnum
    grind
  by_cases h13 : rank = 13
  · subst h13
    have hchecked : (capabilityBit value).isSome = true := hchecked
    unfold capabilityBit at hchecked
    have hgood : ∀ v ∈ [ascii "abi.zex1.v1", ascii "abi.elf32.i386.static", ascii "kernel.ring3", ascii "storage.zenovfs1"],
        (v ≠ [] ∧ v.length ≤ 96 ∧ v.all requirementByte = true) ∧ ∀ ch ∈ v, (33 : UInt8) ≤ ch := by decide +kernel
    refine hgood value ?_
    split at hchecked
    · simp [*]
    · split at hchecked
      · simp [*]
      · split at hchecked
        · simp [*]
        · split at hchecked
          · simp [*]
          · cases hchecked
  · have hchecked : value.length ≤ 47 ∧ ∀ ch ∈ value, isLower ch = true ∨ isDigit ch = true ∨ ch = 46 ∨ ch = 45 ∨ ch = 95 ∨ ch = 64 := by
      rcases (show rank = 14 ∨ rank = 15 by omega) with rfl | rfl
      · exact hchecked
      · exact hchecked
    refine ⟨⟨hplain.nonempty, by omega, List.all_eq_true.mpr fun ch hch => (hbyte ch (hchecked.2 ch hch)).1⟩, ?_⟩
    exact fun ch hch => (hbyte ch (hchecked.2 ch hch)).2

theorem validList_valuesOf (h : Accepted text es m) {rank : Nat} (hrank : 12 < rank) : ValidList (valuesOf es rank) := by
  refine ⟨fun v hv => (requirement_repeated h hrank hv).1, (strict_valuesOf h rank).imp fun {a b} hab => ?_⟩
  rintro rfl
  exact List.lt_irrefl a hab

theorem valid_hostManifest (h : Accepted text es m) {n : Nat} (hn : n ≠ 0) : Valid (hostManifest es) n := by
  obtain ⟨hname, hversion, hentrypoint, -⟩ := fields_eq h
  have hentry : printableValue (valueOf es 6) 47 = true := checked_scalar h (show 6 ≤ 12 by decide)
  have hlength : m.entrypoint.length ≤ 127 := by
    unfold printableValue at hentry
    simp only [Bool.and_eq_true, decide_eq_true_eq] at hentry
    rw [hentrypoint]
    omega
  have hgoodName := goodName (checked_scalar h (show 1 ≤ 12 by decide))
  have hgoodVersion := goodVersion (checked_scalar h (show 2 ≤ 12 by decide))
  obtain ⟨hsafe, -, hdash⟩ := safe_entrypoint h.entrypoint hlength (hname ▸ hgoodName.bytes) (hversion ▸ hgoodVersion.bytes)
  rw [hentrypoint] at hsafe
  have h3 : valueOf es 3 = ascii "i686" := checked_scalar h (show 3 ≤ 12 by decide)
  have h4 : valueOf es 4 = ascii "i686-zenov-none" := checked_scalar h (show 4 ≤ 12 by decide)
  have h5 : valueOf es 5 = ascii "application" ∨ valueOf es 5 = ascii "native" := checked_scalar h (show 5 ≤ 12 by decide)
  have h7 : valueOf es 7 = ascii "zex1" ∨ valueOf es 7 = ascii "elf32" := checked_scalar h (show 7 ≤ 12 by decide)
  have h8 : valueOf es 8 = ascii "native" := checked_scalar h (show 8 ≤ 12 by decide)
  have h12 : valueOf es 12 = ascii "redistributable" := checked_scalar h (show 12 ≤ 12 by decide)
  refine ⟨⟨checked_scalar h (show 0 ≤ 12 by decide), hgoodName.safe, hgoodVersion.safe, ?_, ?_, ?_, hsafe, ?_, ?_,
    (goodVersion (checked_scalar h (show 9 ≤ 12 by decide))).safe, checked_scalar h (show 10 ≤ 12 by decide),
    checked_scalar h (show 11 ≤ 12 by decide), ?_, ?_, ?_, ?_, ?_⟩, validList_valuesOf h (by decide), validList_valuesOf h (by decide),
    validList_valuesOf h (by decide)⟩
  · show isSafeIdentifier (valueOf es 3) = true
    rw [h3]
    decide
  · show isSafeIdentifier (valueOf es 4) = true
    rw [h4]
    decide
  · show isAllowedKind (valueOf es 5) = true
    rcases h5 with h5 | h5 <;> rw [h5] <;> decide
  · show isAllowedPayloadType (valueOf es 7) = true
    rcases h7 with h7 | h7 <;> rw [h7] <;> decide
  · show isAllowedRuntime (valueOf es 8) = true
    rw [h8]
    decide
  · exact fun hpolicy => hpolicy.1 h12
  · rintro ⟨hnone, -⟩
    have hnone : valueOf es 7 = ascii "none" := hnone
    rw [hnone] at h7
    exact absurd h7 (by decide)
  · exact fun hzero => hn hzero.2
  · rintro ⟨hkind, -⟩
    have hkind : valueOf es 5 = ascii "compat-profile" ∨ valueOf es 5 = ascii "firmware-descriptor" := hkind
    rcases h5 with h5 | h5 <;> rw [h5] at hkind <;> exact absurd hkind (by decide)
  · rintro ⟨-, hentry⟩
    exact hdash (hentrypoint.trans hentry)

/-- A blank at an end. -/
def Edged (value : Bytes) : Prop := value.head? = some 32 ∨ value.getLast? = some 32

theorem clean_printable {value : Bytes} {maximum : Nat} (h : printableValue value maximum = true) (hedge : ¬Edged value) : Clean value := by
  unfold printableValue at h
  simp only [Bool.and_eq_true, decide_eq_true_eq, List.all_eq_true] at h
  obtain ⟨⟨hne, -⟩, hall⟩ := h
  have hspace : ∀ ch : UInt8, 0x20 ≤ ch → ch ≠ 32 → isSpace ch = false := by
    intro ch hch hne
    unfold isSpace
    grind
  obtain ⟨hfirst, hlast⟩ := not_or.mp hedge
  refine ⟨hne, ⟨fun a ha => ?_, fun a ha => ?_⟩, fun hmem => absurd (hall 10 hmem).1 (by decide)⟩
  · exact hspace a (hall a (List.mem_of_head? ha)).1 fun h32 => hfirst (h32 ▸ ha)
  · exact hspace a (hall a (List.mem_of_getLast? ha)).1 fun h32 => hlast (h32 ▸ ha)

theorem clean_hostManifest (h : Accepted text es m) (hlicense : ¬Edged (hostManifest es).license) (hsource : ¬Edged (hostManifest es).source) :
    ∀ e ∈ (hostManifest es).entries, Clean e.value := by
  have hnonempty := (valid_hostManifest h Nat.one_ne_zero).nonempty
  have hname := goodName (checked_scalar h (show 1 ≤ 12 by decide))
  have hversion := goodVersion (checked_scalar h (show 2 ≤ 12 by decide))
  obtain ⟨hnameEq, hversionEq, hentrypoint, -⟩ := fields_eq h
  have hentry : printableValue (valueOf es 6) 47 = true := checked_scalar h (show 6 ≤ 12 by decide)
  have hlength : m.entrypoint.length ≤ 127 := by
    unfold printableValue at hentry
    simp only [Bool.and_eq_true, decide_eq_true_eq] at hentry
    rw [hentrypoint]
    omega
  obtain ⟨-, hbare, -⟩ := safe_entrypoint h.entrypoint hlength (hnameEq ▸ hname.bytes) (hversionEq ▸ hversion.bytes)
  rw [hentrypoint] at hbare
  have hbytes : ∀ {value : Bytes}, (∀ ch ∈ value, nameByte ch = true) → Bare value :=
    fun hall ch hch => (nameByte_spec (hall ch hch)).1
  have hfixed : ∀ {value : Bytes} (texts : List Bytes), value ∈ texts → texts.all (·.all (33 ≤ ·)) = true → Bare value := by
    intro value texts hmem hall ch hch
    exact of_decide_eq_true (List.all_eq_true.mp (List.all_eq_true.mp hall value hmem) ch hch)
  have h5 : valueOf es 5 = ascii "application" ∨ valueOf es 5 = ascii "native" := checked_scalar h (show 5 ≤ 12 by decide)
  have h7 : valueOf es 7 = ascii "zex1" ∨ valueOf es 7 = ascii "elf32" := checked_scalar h (show 7 ≤ 12 by decide)
  intro e he
  have hne := hnonempty e he
  rcases mem_entries.mp he with ⟨s, rfl⟩ | ⟨v, hv, rfl⟩ | ⟨v, hv, rfl⟩ | ⟨v, hv, rfl⟩
  · cases s with
    | format =>
      refine Bare.clean (hfixed [ascii "zenpkg-manifest-1"] ?_ (by decide)) hne
      exact List.mem_singleton.mpr (checked_scalar h (show 0 ≤ 12 by decide))
    | name => exact (hbytes hname.bytes).clean hne
    | version => exact (hbytes hversion.bytes).clean hne
    | architecture =>
      refine Bare.clean (hfixed [ascii "i686"] ?_ (by decide)) hne
      exact List.mem_singleton.mpr (checked_scalar h (show 3 ≤ 12 by decide))
    | target =>
      refine Bare.clean (hfixed [ascii "i686-zenov-none"] ?_ (by decide)) hne
      exact List.mem_singleton.mpr (checked_scalar h (show 4 ≤ 12 by decide))
    | kind => exact Bare.clean (hfixed [ascii "application", ascii "native"] (List.mem_pair.mpr h5) (by decide)) hne
    | entrypoint => exact hbare.clean hne
    | payloadType => exact Bare.clean (hfixed [ascii "zex1", ascii "elf32"] (List.mem_pair.mpr h7) (by decide)) hne
    | runtime =>
      refine Bare.clean (hfixed [ascii "native"] ?_ (by decide)) hne
      exact List.mem_singleton.mpr (checked_scalar h (show 8 ≤ 12 by decide))
    | minOs => exact (hbytes (goodVersion (checked_scalar h (show 9 ≤ 12 by decide))).bytes).clean hne
    | license => exact clean_printable (checked_scalar h (show 10 ≤ 12 by decide)) hlicense
    | source => exact clean_printable (checked_scalar h (show 11 ≤ 12 by decide)) hsource
    | assetPolicy =>
      refine Bare.clean (hfixed [ascii "redistributable"] ?_ (by decide)) hne
      exact List.mem_singleton.mpr (checked_scalar h (show 12 ≤ 12 by decide))
  · exact (requirement_repeated h (show 12 < 13 by decide) hv).2.clean hne
  · exact (requirement_repeated h (show 12 < 14 by decide) hv).2.clean hne
  · exact (requirement_repeated h (show 12 < 15 by decide) hv).2.clean hne

end Accepted

/-! ### The container as the kernel reads it -/

theorem verify_sealed {b : Bytes} {package : VerifiedPackage} (h : verifyBytes b = .ok package) :
    ∃ text, Sealed b text package.payload ∧ text.length ≤ 8192 ∧ package.payload.length ≤ 0xFFFFFFFF ∧
      Package.parseManifest text = .ok package.manifest ∧ package.payload.length ≠ 0 := by
  unfold verifyBytes at h
  dsimp only at h
  split at h
  · cases h
  rename_i hlength
  split at h
  · cases h
  rename_i hmagic
  split at h
  · cases h
  rename_i hversion
  split at h
  · cases h
  rename_i hflags
  split at h
  · cases h
  rename_i hlimits
  split at h
  · cases h
  rename_i hsize
  split at h
  · cases h
  rename_i hheader
  split at h
  · cases h
  rename_i hmanifestDigest
  split at h
  · cases h
  rename_i hpayloadDigest
  obtain ⟨manifest, hmanifest, h⟩ := bind_ok h
  split at h
  · rename_i hshape
    cases h
    generalize hms : toNat (slice b 16 8) = ms at hlimits hsize hmanifestDigest hpayloadDigest hmanifest hshape
    generalize hps : toNat (slice b 24 8) = ps at hlimits hsize hpayloadDigest hshape
    obtain ⟨hmanifestLimit, hpayloadLimit⟩ := not_or.mp hlimits
    have hlength : 128 ≤ b.length := Nat.not_lt.mp hlength
    have hmanifestLimit : ms ≤ 8192 := Nat.not_lt.mp hmanifestLimit
    have hsize : 128 + ms + ps = b.length := not_not.mp hsize
    have htext : (slice b 128 ms).length = ms := length_slice (by omega)
    have hpayload : (slice b (128 + ms) ps).length = ps := length_slice (by omega)
    have hrest : b.drop (128 + ms) = slice b (128 + ms) ps := by
      unfold slice
      rw [List.take_of_length_le (by rw [List.length_drop]; omega)]
    show ∃ text, Sealed b text (slice b (128 + ms) ps) ∧ text.length ≤ 8192 ∧ (slice b (128 + ms) ps).length ≤ 0xFFFFFFFF ∧
      Package.parseManifest text = .ok manifest ∧ (slice b (128 + ms) ps).length ≠ 0
    refine ⟨slice b 128 ms, ?_, by omega, ?_, hmanifest, ?_⟩
    · refine ⟨?_, not_not.mp hmagic, not_not.mp hversion, not_not.mp hflags, ?_, ?_, ?_, ?_, ?_, ?_, ?_⟩
      · rw [htext, hpayload]
        exact hsize.symm
      · rw [hms, htext]
      · rw [hps, hpayload]
      · exact (not_not.mp hmanifestDigest).symm
      · exact (not_not.mp hpayloadDigest).symm
      · exact (not_not.mp hheader).symm
      · rw [htext]
      · rw [htext]
        exact hrest
    · rw [hpayload]
      exact Nat.not_lt.mp hpayloadLimit
    · unfold payloadShapeValid at hshape
      simp only [Bool.and_eq_true, decide_eq_true_eq] at hshape
      have hshape : 4 ≤ (slice b (128 + ms) ps).length := hshape.1
      omega
  · cases h

theorem Sealed.verify {b text payload : Bytes} {m : Package.Manifest} (h : Sealed b text payload) (htext : text.length ≤ 8192)
    (hpayload : payload.length ≤ 0xFFFFFFFF) (hm : Package.parseManifest text = .ok m) (hshape : payloadShapeValid m payload = true) :
    verifyBytes b = .ok ⟨m, payload, sha256 b⟩ := by
  have hlength := h.length
  have hlimits : ¬(maximumManifestSize < text.length ∨ 0xFFFFFFFF < payload.length) := by
    show ¬(8192 < text.length ∨ 0xFFFFFFFF < payload.length)
    omega
  have hmagic : slice b 0 8 = ascii "ZENPKG1" ++ [0] := h.magic
  have hbytes : slice b (headerSize + text.length) payload.length = payload := by
    show (b.drop (128 + text.length)).take payload.length = payload
    rw [h.payloadBytes, List.take_length]
  have hmanifest : slice b headerSize text.length = text := h.manifestText
  unfold verifyBytes
  dsimp only
  rw [if_neg (show ¬b.length < 128 by omega), if_neg (not_not.mpr hmagic), if_neg (not_not.mpr h.version), if_neg (not_not.mpr h.flags),
    h.manifestSize, h.payloadSize, if_neg hlimits, if_neg (not_not.mpr hlength.symm), if_neg (not_not.mpr h.headerDigest.symm), hmanifest,
    if_neg (not_not.mpr h.manifestDigest.symm), hbytes, if_neg (not_not.mpr h.payloadDigest.symm), hm, ok_bind, if_pos hshape]

/-! ### The two parsers -/

/-- The manifest of a package. -/
def manifestText (bytes : Bytes) : Bytes := slice bytes 128 (toNat (slice bytes 16 8))

/-- A line of a manifest gives a licence or a source that begins or ends with a blank. -/
def Padded (text : Bytes) : Prop :=
  ∃ s value, (s = Scalar.license ∨ s = Scalar.source) ∧ s.key ++ 61 :: value ∈ lines 10 text ∧
    (value.head? = some 32 ∨ value.getLast? = some 32)

/-- The name of a payload type of the kernel. -/
def payloadTypeName (payloadType : UInt8) : Bytes := if payloadType = payloadZex1 then ascii "zex1" else ascii "elf32"

/-- Both parsers have read the same. -/
structure SameContents (kernel : VerifiedPackage) (host : Package) : Prop where
  name : host.manifest.name = kernel.manifest.name
  version : host.manifest.version = kernel.manifest.version
  entrypoint : host.manifest.entrypoint = kernel.manifest.entrypoint
  payloadType : host.manifest.payloadType = payloadTypeName kernel.manifest.payloadType
  dependencies : host.manifest.dependencies = kernel.manifest.dependencies
  conflicts : host.manifest.conflicts = kernel.manifest.conflicts
  payload : host.payload = kernel.payload

theorem manifestText_eq {b text payload : Bytes} (h : Sealed b text payload) : manifestText b = text := by
  unfold manifestText
  rw [h.manifestSize, h.manifestText]

theorem key_injective {k k' : Key} (h : k.text = k'.text) : k = k' := by
  cases k with
  | scalar s =>
    cases k' with
    | scalar s' =>
      have hfind := find_key s
      rw [show s.key = s'.key from h, find_key] at hfind
      rw [Option.some.inj hfind]
    | capability => cases s <;> exact absurd h (by decide)
    | dependency => cases s <;> exact absurd h (by decide)
    | conflict => cases s <;> exact absurd h (by decide)
  | capability =>
    cases k' with
    | scalar s => cases s <;> exact absurd h (by decide)
    | capability => rfl
    | dependency => exact absurd h (by decide)
    | conflict => exact absurd h (by decide)
  | dependency =>
    cases k' with
    | scalar s => cases s <;> exact absurd h (by decide)
    | capability => exact absurd h (by decide)
    | dependency => rfl
    | conflict => exact absurd h (by decide)
  | conflict =>
    cases k' with
    | scalar s => cases s <;> exact absurd h (by decide)
    | capability => exact absurd h (by decide)
    | dependency => exact absurd h (by decide)
    | conflict => rfl

theorem line_injective {e e' : Entry} (h : e.line = e'.line) : e = e' := by
  have hkey : e.key.text = e'.key.text := by rw [← e.takeWhile_line, h, e'.takeWhile_line]
  obtain ⟨k, value⟩ := e
  obtain ⟨k', value'⟩ := e'
  obtain rfl := key_injective hkey
  have hvalue : (61 : UInt8) :: value = 61 :: value' := List.append_cancel_left h
  obtain rfl : value = value' := (List.cons.inj hvalue).2
  rfl

theorem not_padded_of_canonical {text : Bytes} {m : Manifest} (hclean : ∀ e ∈ m.entries, Clean e.value) (htext : canonicalManifest m = text) :
    ¬Padded text := by
  rintro ⟨s, value, -, hline, hedge⟩
  have hlines : lines 10 text = m.sorted.entries.map Entry.line := by
    rw [← htext, canonicalManifest_eq]
    exact lines_flatMap fun e he => newline_notMem_line (hclean e (mem_entries_sorted.mp he)).line
  rw [hlines] at hline
  obtain ⟨e, he, heq⟩ := List.mem_map.mp hline
  obtain rfl : e = ⟨.scalar s, value⟩ := line_injective heq
  have htrimmed := (hclean _ (mem_entries_sorted.mp he)).trimmed
  rcases hedge with hedge | hedge
  · exact absurd (htrimmed.first 32 hedge) (by decide)
  · exact absurd (htrimmed.last 32 hedge) (by decide)

theorem opens_accepted {b text : Bytes} {package : VerifiedPackage} {es : List Ranked} (hseal : Sealed b text package.payload)
    (htext : text.length ≤ 8192) (hpayload : package.payload.length ≤ 0xFFFFFFFF) (hne : package.payload.length ≠ 0)
    (h : Accepted text es package.manifest) (hpadded : ¬Padded text) :
    ∃ host, parsePackageBytes b = .ok host ∧ SameContents package host := by
  have hcanonical := canonical_hostManifest h
  have hlines : lines 10 text = (hostManifest es).entries.map Entry.line := by
    rw [h.text, entries_hostManifest h, List.map_map]
    refine (lines_flatMap fun e he => ?_).trans (List.map_congr_left fun e he => (line_entryOf (h.plain e he).rank).symm)
    rw [← line_entryOf (h.plain e he).rank]
    exact newline_notMem_line (h.plain e he).newline
  have hedge : ∀ s, s = .license ∨ s = .source → ¬Edged ((hostManifest es).get s) := by
    intro s hs hedge
    refine hpadded ⟨s, _, hs, ?_, hedge⟩
    rw [hlines]
    exact List.mem_map.mpr ⟨⟨.scalar s, (hostManifest es).get s⟩, mem_entries.mpr (.inl ⟨s, rfl⟩), rfl⟩
  have hclean := clean_hostManifest h (hedge .license (.inl rfl)) (hedge .source (.inr rfl))
  have hvalid := valid_hostManifest h hne
  obtain ⟨hname, hversion, hentrypoint, htype⟩ := fields_eq h
  have hlimit : text.length ≤ maxManifestSize := htext.trans (by decide)
  have hpayloadLimit : package.payload.length ≤ maxPayloadSize := hpayload.trans (by decide)
  have hopens := opens_packed hclean hvalid (hcanonical.symm ▸ hlimit) hpayloadLimit
  rw [hcanonical, ← hseal.eq_container] at hopens
  refine ⟨_, hopens.parse, ?_⟩
  have hmanifest : (packed (hostManifest es) package.payload).manifest = hostManifest es := hostManifest_sorted h
  constructor
  · rw [hmanifest, hname]
    rfl
  · rw [hmanifest, hversion]
    rfl
  · rw [hmanifest, hentrypoint]
    rfl
  · rw [hmanifest, htype]
    have h7 : valueOf es 7 = ascii "zex1" ∨ valueOf es 7 = ascii "elf32" := checked_scalar h (show 7 ≤ 12 by decide)
    show valueOf es 7 = _
    rcases h7 with h7 | h7 <;> rw [h7] <;> decide
  · rw [hmanifest]
    exact h.kept.dependencies.symm
  · rw [hmanifest]
    exact h.kept.conflicts.symm
  · rfl

/-- What the kernel accepts the host accepts too, with the same contents, unless the licence or the source begins or ends
    with a blank. -/
theorem parsers_agree_iff {bytes : Bytes} {package : VerifiedPackage} (h : verifyBytes bytes = .ok package) :
    (∃ host, parsePackageBytes bytes = .ok host ∧ SameContents package host) ↔ ¬Padded (manifestText bytes) := by
  obtain ⟨text, hseal, htext, hpayload, hmanifest, hne⟩ := verify_sealed h
  obtain ⟨es, haccepted⟩ := parseManifest_accepted hmanifest
  rw [manifestText_eq hseal]
  constructor
  · rintro ⟨host, hhost, -⟩
    have hopens := parse_opens hhost
    have hsame : host.manifestText = text := (manifestText_eq hopens.layout).symm.trans (manifestText_eq hseal)
    exact not_padded_of_canonical (valid_clean hopens.manifest hopens.valid) (hopens.canonical.trans hsame)
  · exact opens_accepted hseal htext hpayload hne haccepted

/-- A manifest for the kernel, but for its licence. -/
def kernelText (license : String) : Bytes :=
  textOf ["format=zenpkg-manifest-1", "name=hello", "version=1.0.0", "architecture=i686", "target=i686-zenov-none", "kind=native",
      "entrypoint=/data/apps/pkg-hello-1.0.0.zex", "payload_type=zex1", "runtime=native", "min_os=0.1.1"] ++
    ascii "license=" ++ ascii license ++ [10] ++
    textOf ["source=local", "asset_policy=redistributable", "capability=abi.zex1.v1", "capability=kernel.ring3",
      "capability=storage.zenovfs1"]

def kernelManifest : Package.Manifest :=
  ⟨ascii "hello", ascii "1.0.0", ascii "/data/apps/pkg-hello-1.0.0.zex", payloadZex1, [], []⟩

/-- What the host reads from it. -/
def hostSample : Manifest :=
  { sampleManifest with
    entrypoint := ascii "/data/apps/pkg-hello-1.0.0.zex"
    source := ascii "local"
    capabilities := [ascii "abi.zex1.v1", ascii "kernel.ring3", ascii "storage.zenovfs1"] }

theorem kernelText_parsed :
    (kernelText "MIT").length ≤ 8192 ∧ Package.parseManifest (kernelText "MIT") = .ok kernelManifest ∧
      (kernelText " MIT").length ≤ 8192 ∧ Package.parseManifest (kernelText " MIT") = .ok kernelManifest ∧
      parseAndValidateManifest (kernelText "MIT") 4 = .ok hostSample := by
  decide +kernel

/-- A package with that manifest. -/
def samplePackage (license : String) : Bytes := container (kernelText license) (ascii "ZEX1")

theorem parsers_agree_sample : ∃ package host, verifyBytes (samplePackage "MIT") = .ok package ∧
    parsePackageBytes (samplePackage "MIT") = .ok host ∧ SameContents package host := by
  have hseal : Sealed (samplePackage "MIT") (kernelText "MIT") (ascii "ZEX1") :=
    sealed_container (lt_of_le_of_lt kernelText_parsed.1 (by decide)) (by decide)
  have hverify := hseal.verify (m := kernelManifest) kernelText_parsed.1 (by decide) kernelText_parsed.2.1 (by decide)
  have hread : parseAndValidateManifest (kernelText "MIT") 4 = .ok hostSample := kernelText_parsed.2.2.2.2
  obtain ⟨hparse, hvalid⟩ := parseAndValidate_ok.mp hread
  have hpadded : ¬Padded (manifestText (samplePackage "MIT")) := by
    rw [manifestText_eq hseal]
    exact not_padded_of_canonical (valid_clean hparse hvalid) (by decide +kernel)
  obtain ⟨host, hhost, hsame⟩ := (parsers_agree_iff hverify).mpr hpadded
  exact ⟨_, host, hverify, hhost, hsame⟩

/-- The kernel accepts a licence that begins with a blank, the host does not. -/
theorem spaced_license_refused : (∃ package, verifyBytes (samplePackage " MIT") = .ok package) ∧
    ∀ host, parsePackageBytes (samplePackage " MIT") ≠ .ok host := by
  have hseal : Sealed (samplePackage " MIT") (kernelText " MIT") (ascii "ZEX1") :=
    sealed_container (lt_of_le_of_lt kernelText_parsed.2.2.1 (by decide)) (by decide)
  have hverify := hseal.verify (m := kernelManifest) kernelText_parsed.2.2.1 (by decide) kernelText_parsed.2.2.2.1 (by decide)
  refine ⟨⟨_, hverify⟩, fun host hhost => ?_⟩
  have hopens := parse_opens hhost
  have hsame : host.manifestText = kernelText " MIT" := (manifestText_eq hopens.layout).symm.trans (manifestText_eq hseal)
  refine not_padded_of_canonical (valid_clean hopens.manifest hopens.valid) (hopens.canonical.trans hsame)
    ⟨.license, ascii " MIT", .inl rfl, ?_, .inl rfl⟩
  decide +kernel

end ZenovOS.Zenpkg
