import ZenovOS.Tools.Zenpkg.Manifest

/-! # The minimum version of the operating system

The kernel and the host read the same numbers from the core of a version. They differ where the core is not three numbers of
32 bits, and where it is 0.1.1 in another spelling or with a build suffix. -/

namespace ZenovOS.Zenpkg
open Bytes ZenovOS.Package

/-- The number that digits write. -/
def number (digits : Bytes) : Nat := digits.foldl (fun value digit => value * 10 + (digit.toNat - 48)) 0

def Numeric (component : Bytes) : Prop := component ≠ [] ∧ ∀ ch ∈ component, isDigit ch = true

/-- The core of the version is these numbers. -/
structure Reads (value : Bytes) (parts : List Nat) : Prop where
  numeric : ∀ component ∈ (coreOf value).splitOn 46, Numeric component
  parts : ((coreOf value).splitOn 46).map number = parts

variable {value digits rest component : Bytes} {parts : List Nat} {n : Nat}

theorem Reads.unique {parts' : List Nat} (h : Reads value parts) (h' : Reads value parts') : parts = parts' :=
  h.parts.symm.trans h'.parts

/-! ### The host -/

theorem le_foldl_digits (digits : Bytes) (n : Nat) : n ≤ digits.foldl (fun value digit => value * 10 + (digit.toNat - 48)) n := by
  induction digits generalizing n with
  | nil => exact Nat.le_refl n
  | cons d digits ih =>
    rw [List.foldl_cons]
    exact Nat.le_trans (by omega) (ih (n * 10 + (d.toNat - 48)))

theorem parseComponent_iff {before : Nat} (hbefore : before < 2 ^ 64) :
    parseComponent value before component = .ok n ↔
      (∀ ch ∈ component, isDigit ch = true) ∧ n < 2 ^ 64 ∧
        component.foldl (fun value digit => value * 10 + (digit.toNat - 48)) before = n := by
  induction component generalizing before with
  | nil =>
    rw [parseComponent, Except.ok.injEq]
    exact ⟨fun h => ⟨fun ch hch => (nomatch hch), h ▸ hbefore, h⟩, fun h => h.2.2⟩
  | cons ch rest ih =>
    rw [parseComponent, List.foldl_cons]
    by_cases hdigit : isDigit ch = true
    · have hvalue : ch.toNat - 48 < 10 := by
        unfold isDigit at hdigit
        simp only [Bool.and_eq_true, decide_eq_true_eq, UInt8.le_iff_toNat_le] at hdigit
        have h9 : ch.toNat ≤ 57 := hdigit.2
        omega
      rw [refuse_bind (by rw [hdigit]; decide)]
      by_cases hlarge : (2 ^ 64 - 1 - (ch.toNat - 48)) / 10 < before
      · rw [refuse, if_pos hlarge]
        refine ⟨fun h => (nomatch h), fun ⟨_, hn, hfold⟩ => ?_⟩
        have hle := le_foldl_digits rest (before * 10 + (ch.toNat - 48))
        omega
      · rw [refuse_bind hlarge, ih (by omega)]
        simp only [List.mem_cons, forall_eq_or_imp, hdigit, true_and]
    · rw [refuse, if_pos (by simpa using hdigit)]
      refine ⟨fun h => (nomatch h), fun ⟨hall, _⟩ => absurd (hall ch (List.mem_cons_self ..)) hdigit⟩

theorem parseComponents_iff {components : List Bytes} :
    parseComponents value components = .ok parts ↔
      (∀ component ∈ components, Numeric component) ∧ components.map number = parts ∧ ∀ n ∈ parts, n < 2 ^ 64 := by
  induction components generalizing parts with
  | nil =>
    rw [parseComponents, Except.ok.injEq, List.map_nil]
    constructor
    · rintro rfl
      exact ⟨fun _ h => (nomatch h), rfl, fun _ h => (nomatch h)⟩
    · exact fun h => h.2.1
  | cons component components ih =>
    rw [parseComponents]
    constructor
    · intro h
      obtain ⟨⟨⟩, hne, h⟩ := bind_ok h
      obtain ⟨n, hn, h⟩ := bind_ok h
      obtain ⟨more, hmore, h⟩ := bind_ok h
      obtain rfl : n :: more = parts := Except.ok.inj h
      obtain ⟨hdigits, hlt, hfold⟩ := (parseComponent_iff (by decide)).mp hn
      obtain ⟨hnumeric, hparts, hbound⟩ := ih.mp hmore
      refine ⟨fun c hc => ?_, ?_, fun m hm => ?_⟩
      · rcases List.mem_cons.mp hc with rfl | hc
        · exact ⟨refuse_ok.mp hne, hdigits⟩
        · exact hnumeric c hc
      · rw [List.map_cons, hparts]
        exact congrArg (· :: more) hfold
      · rcases List.mem_cons.mp hm with rfl | hm
        · exact hlt
        · exact hbound m hm
    · rintro ⟨hnumeric, rfl, hbound⟩
      have hfirst := hnumeric component (List.mem_cons_self ..)
      have hn : parseComponent value 0 component = .ok (number component) :=
        (parseComponent_iff (by decide)).mpr ⟨hfirst.2, hbound _ (List.mem_cons_self ..), rfl⟩
      have hmore : parseComponents value components = .ok (components.map number) :=
        ih.mpr ⟨fun c hc => hnumeric c (List.mem_cons_of_mem _ hc), rfl, fun m hm => hbound m (List.mem_cons_of_mem _ hm)⟩
      rw [refuse_bind hfirst.1, hn, ok_bind, hmore, ok_bind]
      rfl

theorem parseNumericVersion_iff : parseNumericVersion value = .ok parts ↔ Reads value parts ∧ ∀ n ∈ parts, n < 2 ^ 64 := by
  unfold parseNumericVersion
  rw [parseComponents_iff]
  exact ⟨fun h => ⟨⟨h.1, h.2.1⟩, h.2.2⟩, fun h => ⟨h.1.1, h.1.2, h.2⟩⟩

/-- The numbers are less than 0.1.1, the shorter ones filled with zeros. -/
abbrev Older (parts : List Nat) : Prop := resized (max 3 parts.length) parts < resized (max 3 parts.length) [0, 1, 1]

abbrev Current (parts : List Nat) : Prop := resized (max 3 parts.length) [0, 1, 1] = resized (max 3 parts.length) parts

theorem versionAtLeast_iff : versionAtLeast (ascii "0.1.1") value = .ok true ↔
    ∃ parts, Reads value parts ∧ (∀ n ∈ parts, n < 2 ^ 64) ∧ (Older parts ∨ Current parts ∧ (45 ∈ value ∨ value ≤ ascii "0.1.1")) := by
  have hcurrent : parseNumericVersion (ascii "0.1.1") = .ok [0, 1, 1] := by decide
  have hplain : (ascii "0.1.1").contains 45 = false := by decide
  unfold versionAtLeast
  rw [hcurrent, ok_bind]
  cases hparse : parseNumericVersion value with
  | error text =>
    refine ⟨fun h => (nomatch h), fun ⟨parts, hreads, hbound, _⟩ => ?_⟩
    rw [parseNumericVersion_iff.mpr ⟨hreads, hbound⟩] at hparse
    cases hparse
  | ok parts =>
    obtain ⟨hreads, hbound⟩ := parseNumericVersion_iff.mp hparse
    have hlength : max ([0, 1, 1] : List Nat).length parts.length = max 3 parts.length := rfl
    rw [ok_bind]
    dsimp only
    rw [hlength, hplain]
    have hiff : (∃ parts', Reads value parts' ∧ (∀ n ∈ parts', n < 2 ^ 64) ∧
        (Older parts' ∨ Current parts' ∧ (45 ∈ value ∨ value ≤ ascii "0.1.1"))) ↔
        Older parts ∨ Current parts ∧ (45 ∈ value ∨ value ≤ ascii "0.1.1") := by
      constructor
      · rintro ⟨parts', hreads', -, hlate⟩
        rwa [hreads.unique hreads']
      · exact fun hlate => ⟨parts, hreads, hbound, hlate⟩
    rw [hiff]
    by_cases hsame : resized (max 3 parts.length) [0, 1, 1] = resized (max 3 parts.length) parts
    · have hnot : ¬Older parts := by
        unfold Older
        rw [hsame]
        exact List.lt_irrefl _
      rw [if_neg (not_not.mpr hsame)]
      by_cases hdash : value.contains 45 = true
      · have hmem : 45 ∈ value := List.contains_iff_mem.mp hdash
        rw [hdash, if_pos (by decide)]
        exact ⟨fun _ => .inr ⟨hsame, .inl hmem⟩, fun _ => rfl⟩
      · have hmem : 45 ∉ value := fun hmem => hdash (List.contains_iff_mem.mpr hmem)
        rw [Bool.not_eq_true] at hdash
        rw [hdash, if_neg (by decide)]
        constructor
        · intro h
          exact .inr ⟨hsame, .inr (of_decide_eq_true (Except.ok.inj h))⟩
        · rintro (hold | ⟨-, hdash' | hle⟩)
          · exact absurd hold hnot
          · exact absurd hdash' hmem
          · rw [decide_eq_true hle]
            rfl
    · rw [if_pos hsame]
      constructor
      · intro h
        exact .inl (of_decide_eq_true (Except.ok.inj h))
      · rintro (hold | ⟨hcur, -⟩)
        · rw [decide_eq_true (show resized (max 3 parts.length) parts < resized (max 3 parts.length) [0, 1, 1] from hold)]
          rfl
        · exact absurd hcur hsame

/-! ### The kernel -/

/-- What follows is no digit. -/
def Ends (rest : Bytes) : Prop := ∀ ch, rest.head? = some ch → isDigit ch = false

theorem takeWhile_digits (hdigits : ∀ ch ∈ digits, isDigit ch = true) (hrest : Ends rest) : (digits ++ rest).takeWhile isDigit = digits :=
  (Text.takeWhile_of_head hdigits hrest).1

theorem parseVersionComponent_iff : parseVersionComponent value = some (n, rest) ↔
    ∃ digits, value = digits ++ rest ∧ Numeric digits ∧ Ends rest ∧ number digits = n ∧ n < 2 ^ 32 := by
  have hnumber : ∀ digits : Bytes, digits.foldl (fun value digit => value * 10 + (digit.toNat - 48)) 0 = number digits := fun _ => rfl
  unfold parseVersionComponent
  simp only [hnumber]
  constructor
  · intro h
    split at h
    · cases h
    · rename_i hgood
      rw [not_or, not_le] at hgood
      simp only [Option.some.injEq, Prod.mk.injEq] at h
      obtain ⟨rfl, rfl⟩ := h
      have hdrop : (value.takeWhile isDigit ++ value.dropWhile isDigit).drop (value.takeWhile isDigit).length = value.dropWhile isDigit :=
        List.drop_left
      rw [List.takeWhile_append_dropWhile] at hdrop
      rw [hdrop]
      refine ⟨value.takeWhile isDigit, List.takeWhile_append_dropWhile.symm, ⟨hgood.1, fun ch hch => List.mem_takeWhile_imp hch⟩, ?_, rfl,
        hgood.2⟩
      intro ch hch
      have hnot := List.head?_dropWhile_not isDigit value
      rw [hch] at hnot
      simpa using hnot
  · rintro ⟨digits, rfl, hnumeric, hends, rfl, hlt⟩
    rw [takeWhile_digits hnumeric.2 hends, if_neg (not_or.mpr ⟨hnumeric.1, not_le.mpr hlt⟩), List.drop_left]

theorem Numeric.notMem {ch : UInt8} (h : Numeric component) (hch : isDigit ch = false) : ch ∉ component := by
  intro hmem
  rw [h.2 ch hmem] at hch
  cases hch

/-- A suffix begins with a hyphen or a plus sign. -/
def Suffix (rest : Bytes) : Prop := rest = [] ∨ rest.head? = some 45 ∨ rest.head? = some 43

theorem Suffix.ends (h : Suffix rest) : Ends rest := by
  intro ch hch
  rcases h with rfl | h | h
  · cases hch
  · rw [h] at hch
    cases hch
    rfl
  · rw [h] at hch
    cases hch
    rfl

theorem coreOf_append (hvalue : ∀ ch ∈ value, ch ≠ 45 ∧ ch ≠ 43) (hrest : Suffix rest) : coreOf (value ++ rest) = value := by
  unfold coreOf
  rw [List.takeWhile_append_of_pos (fun ch hch => by simpa using hvalue ch hch)]
  cases rest with
  | nil => rw [List.takeWhile_nil, List.append_nil]
  | cons ch rest =>
    have hch : ch = 45 ∨ ch = 43 := by
      rcases hrest with h | h | h
      · cases h
      · exact .inl (Option.some.inj h)
      · exact .inr (Option.some.inj h)
    rw [List.takeWhile_cons_of_neg (by rcases hch with rfl | rfl <;> decide), List.append_nil]

theorem suffix_of_core (value : Bytes) : ∃ rest, value = coreOf value ++ rest ∧ Suffix rest := by
  refine ⟨value.dropWhile fun ch => ch ≠ 45 && ch ≠ 43, List.takeWhile_append_dropWhile.symm, ?_⟩
  cases hrest : value.dropWhile fun ch => ch ≠ 45 && ch ≠ 43 with
  | nil => exact .inl rfl
  | cons ch rest =>
    have hnot := List.head?_dropWhile_not (fun ch : UInt8 => ch ≠ 45 && ch ≠ 43) value
    rw [hrest] at hnot
    have hch : ch = 45 ∨ ch = 43 := by
      by_cases h45 : ch = 45
      · exact .inl h45
      · refine .inr ?_
        simpa [h45] using hnot
    rcases hch with rfl | rfl
    · exact .inr (.inl rfl)
    · exact .inr (.inr rfl)

theorem splitOn_core {first second third : Bytes} (h₁ : Numeric first) (h₂ : Numeric second) (h₃ : Numeric third) (hrest : Suffix rest) :
    (coreOf (first ++ 46 :: (second ++ 46 :: (third ++ rest)))).splitOn 46 = [first, second, third] := by
  have hdot : isDigit 46 = false := by decide
  have hassoc : first ++ 46 :: (second ++ 46 :: (third ++ rest)) = first ++ 46 :: (second ++ 46 :: third) ++ rest := by
    simp only [List.append_assoc, List.cons_append]
  have hplain : ∀ ch, isDigit ch = true → ch ≠ 45 ∧ ch ≠ 43 := by
    intro ch hch
    constructor
    · rintro rfl
      cases hch
    · rintro rfl
      cases hch
  rw [hassoc, coreOf_append _ hrest, List.splitOn_append_cons_self_of_not_mem (h₁.notMem hdot),
    List.splitOn_append_cons_self_of_not_mem (h₂.notMem hdot), List.splitOn_eq_singleton (h₃.notMem hdot)]
  intro ch hch
  simp only [List.mem_append, List.mem_cons] at hch
  rcases hch with hch | rfl | hch | rfl | hch
  · exact hplain ch (h₁.2 ch hch)
  · decide
  · exact hplain ch (h₂.2 ch hch)
  · decide
  · exact hplain ch (h₃.2 ch hch)

theorem ends_dot (rest : Bytes) : Ends (46 :: rest) := by
  intro ch hch
  cases hch
  rfl

theorem parseRelease_iff {major minor patch : Nat} : parseRelease value = some (major, minor, patch) ↔
    Reads value [major, minor, patch] ∧ major < 2 ^ 32 ∧ minor < 2 ^ 32 ∧ patch < 2 ^ 32 := by
  unfold parseRelease
  constructor
  · intro h
    obtain ⟨⟨a, after⟩, ha, h⟩ := Option.bind_eq_some_iff.mp h
    dsimp only at h
    by_cases hdot : after.head? = some 46
    case neg =>
      rw [if_pos hdot] at h
      cases h
    rw [if_neg (not_not.mpr hdot)] at h
    obtain ⟨⟨b, after'⟩, hb, h⟩ := Option.bind_eq_some_iff.mp h
    dsimp only at h
    by_cases hdot' : after'.head? = some 46
    case neg =>
      rw [if_pos hdot'] at h
      cases h
    rw [if_neg (not_not.mpr hdot')] at h
    obtain ⟨⟨c, rest⟩, hc, h⟩ := Option.bind_eq_some_iff.mp h
    dsimp only at h
    by_cases hrest : rest = [] ∨ rest.head? = some 45 ∨ rest.head? = some 43
    case neg =>
      rw [if_neg hrest] at h
      cases h
    rw [if_pos hrest] at h
    simp only [Option.some.injEq, Prod.mk.injEq] at h
    obtain ⟨rfl, rfl, rfl⟩ := h
    obtain ⟨first, rfl, h₁, -, rfl, hlt₁⟩ := parseVersionComponent_iff.mp ha
    obtain ⟨second, hsecond, h₂, -, rfl, hlt₂⟩ := parseVersionComponent_iff.mp hb
    obtain ⟨third, hthird, h₃, -, rfl, hlt₃⟩ := parseVersionComponent_iff.mp hc
    have hafter : after = 46 :: (second ++ after') := by
      rw [← hsecond]
      exact (List.cons_head?_tail hdot).symm
    have hafter' : after' = 46 :: (third ++ rest) := by
      rw [← hthird]
      exact (List.cons_head?_tail hdot').symm
    have hsplit := splitOn_core h₁ h₂ h₃ hrest
    rw [hafter, hafter']
    refine ⟨⟨fun component hmem => ?_, ?_⟩, hlt₁, hlt₂, hlt₃⟩
    · rw [hsplit] at hmem
      simp only [List.mem_cons, List.not_mem_nil, or_false] at hmem
      rcases hmem with rfl | rfl | rfl
      · exact h₁
      · exact h₂
      · exact h₃
    · rw [hsplit]
      rfl
  · rintro ⟨⟨hnumeric, hparts⟩, hlt₁, hlt₂, hlt₃⟩
    obtain ⟨first, second, third, hsplit, rfl, rfl, rfl⟩ : ∃ first second third, (coreOf value).splitOn 46 = [first, second, third] ∧
        number first = major ∧ number second = minor ∧ number third = patch := by
      rcases hsplit : (coreOf value).splitOn 46 with _ | ⟨first, _ | ⟨second, _ | ⟨third, _ | ⟨fourth, more⟩⟩⟩⟩
      all_goals rw [hsplit] at hparts
      case cons.cons.cons.nil =>
        simp only [List.map_cons, List.map_nil, List.cons.injEq, and_true] at hparts
        exact ⟨first, second, third, rfl, hparts⟩
      all_goals simp at hparts
    rw [hsplit] at hnumeric
    have h₁ := hnumeric first (by simp)
    have h₂ := hnumeric second (by simp)
    have h₃ := hnumeric third (by simp)
    obtain ⟨rest, hvalue, hrest⟩ := suffix_of_core value
    have hcore : coreOf value = first ++ 46 :: (second ++ 46 :: third) := by
      have hjoin : [46].intercalate ((coreOf value).splitOn 46) = coreOf value := List.intercalate_splitOn 46
      rw [← hjoin, hsplit]
      simp [List.intercalate]
    have hshape : value = first ++ 46 :: (second ++ 46 :: (third ++ rest)) := by
      rw [hvalue, hcore]
      simp only [List.append_assoc, List.cons_append]
    have ha : parseVersionComponent value = some (number first, 46 :: (second ++ 46 :: (third ++ rest))) :=
      parseVersionComponent_iff.mpr ⟨first, hshape, h₁, ends_dot _, rfl, hlt₁⟩
    have hb : parseVersionComponent (second ++ 46 :: (third ++ rest)) = some (number second, 46 :: (third ++ rest)) :=
      parseVersionComponent_iff.mpr ⟨second, rfl, h₂, ends_dot _, rfl, hlt₂⟩
    have hc : parseVersionComponent (third ++ rest) = some (number third, rest) :=
      parseVersionComponent_iff.mpr ⟨third, rfl, h₃, hrest.ends, rfl, hlt₃⟩
    simp only [ha, Option.bind_eq_bind, Option.bind_some, List.head?_cons, ne_eq, not_true_eq_false, if_false, List.tail_cons, hb, hc]
    exact if_pos hrest

/-! ### Both -/

/-- Three numbers of 32 bits. -/
def Release (parts : List Nat) : Prop := ∃ major minor patch, parts = [major, minor, patch] ∧ major < 2 ^ 32 ∧ minor < 2 ^ 32 ∧ patch < 2 ^ 32

theorem resized_three (a b c : Nat) : resized (max 3 [a, b, c].length) [a, b, c] = [a, b, c] := rfl

theorem older_three {a b c : Nat} : Older [a, b, c] ↔ a = 0 ∧ (b = 0 ∨ b = 1 ∧ c = 0) := by
  unfold Older
  rw [resized_three]
  change [a, b, c] < [0, 1, 1] ↔ _
  simp only [List.cons_lt_cons_iff, List.not_lt_nil, and_false, or_false]
  omega

theorem current_three {a b c : Nat} : Current [a, b, c] ↔ a = 0 ∧ b = 1 ∧ c = 1 := by
  unfold Current
  rw [resized_three]
  change [0, 1, 1] = [a, b, c] ↔ _
  simp only [List.cons.injEq, and_true, eq_comm]

theorem versionSupported_iff : versionSupported value = true ↔ ∃ parts, Reads value parts ∧ Release parts ∧ (Older parts ∨ Current parts) := by
  constructor
  · intro h
    unfold versionSupported at h
    cases hparse : parseRelease value with
    | none =>
      rw [hparse] at h
      cases h
    | some release =>
      obtain ⟨major, minor, patch⟩ := release
      rw [hparse] at h
      obtain ⟨hreads, hbounds⟩ := parseRelease_iff.mp hparse
      refine ⟨[major, minor, patch], hreads, ⟨major, minor, patch, rfl, hbounds⟩, ?_⟩
      rw [older_three, current_three]
      simp only [Bool.and_eq_true, Bool.or_eq_true, decide_eq_true_eq] at h
      omega
  · rintro ⟨_, hreads, ⟨major, minor, patch, rfl, hbounds⟩, hlate⟩
    unfold versionSupported
    rw [parseRelease_iff.mpr ⟨hreads, hbounds⟩]
    rw [older_three, current_three] at hlate
    simp only [Bool.and_eq_true, Bool.or_eq_true, decide_eq_true_eq]
    omega

/-- The versions that the two take apart. -/
inductive Divergent (value : Bytes) : Prop
  /-- The host takes it, and it is no release. -/
  | form (parts : List Nat) : Reads value parts → (∀ n ∈ parts, n < 2 ^ 64) → ¬Release parts →
      Older parts ∨ Current parts ∧ (45 ∈ value ∨ value ≤ ascii "0.1.1") → Divergent value
  /-- It is 0.1.1 in a greater text. -/
  | text : Reads value [0, 1, 1] → 45 ∉ value → ¬value ≤ ascii "0.1.1" → Divergent value

theorem Release.bound {parts : List Nat} (h : Release parts) {n : Nat} (hn : n ∈ parts) : n < 2 ^ 64 := by
  obtain ⟨major, minor, patch, rfl, hbounds⟩ := h
  simp only [List.mem_cons, List.not_mem_nil, or_false] at hn
  omega

/-- The kernel and the host agree on the minimum version but for the divergent ones. -/
theorem minimum_agrees_iff (value : Bytes) :
    (versionSupported value = true ↔ versionAtLeast (ascii "0.1.1") value = .ok true) ↔ ¬Divergent value := by
  rw [versionSupported_iff, versionAtLeast_iff]
  constructor
  · rintro hagree (⟨parts, hreads, hbound, hform, hlate⟩ | ⟨hreads, hdash, htext⟩)
    · obtain ⟨parts', hreads', hrelease, -⟩ := hagree.mpr ⟨parts, hreads, hbound, hlate⟩
      exact hform (hreads.unique hreads' ▸ hrelease)
    · have hkernel : ∃ parts, Reads value parts ∧ Release parts ∧ (Older parts ∨ Current parts) :=
        ⟨[0, 1, 1], hreads, ⟨0, 1, 1, rfl, by decide, by decide, by decide⟩, .inr rfl⟩
      obtain ⟨parts, hreads', -, hold | ⟨-, hmem | hle⟩⟩ := hagree.mp hkernel
      · rw [← hreads.unique hreads', older_three] at hold
        omega
      · exact hdash hmem
      · exact htext hle
  · intro hnot
    constructor
    · rintro ⟨parts, hreads, hrelease, hlate⟩
      refine ⟨parts, hreads, fun n hn => hrelease.bound hn, hlate.imp_right fun hcurrent => ⟨hcurrent, ?_⟩⟩
      by_contra hgreater
      obtain ⟨hdash, htext⟩ := not_or.mp hgreater
      obtain ⟨major, minor, patch, rfl, -⟩ := hrelease
      obtain ⟨rfl, rfl, rfl⟩ := current_three.mp hcurrent
      exact hnot (.text hreads hdash htext)
    · rintro ⟨parts, hreads, hbound, hlate⟩
      refine ⟨parts, hreads, ?_, hlate.imp_right And.left⟩
      by_contra hform
      exact hnot (.form parts hreads hbound hform hlate)

/-- The host takes 0.1, which the kernel does not read. -/
theorem minimum_disagrees : ¬∀ value, isSafeVersion value = true → safeVersion value = true →
    (versionSupported value = true ↔ versionAtLeast (ascii "0.1.1") value = .ok true) := by
  intro h
  have hshort : versionAtLeast (ascii "0.1.1") (ascii "0.1") = .ok true := by decide
  have hkernel := (h (ascii "0.1") (by decide) (by decide)).mpr hshort
  have hrefused : versionSupported (ascii "0.1") = false := by decide
  rw [hrefused] at hkernel
  cases hkernel

end ZenovOS.Zenpkg
