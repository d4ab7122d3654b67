import ZenovOS.Lib.Comparison
import ZenovOS.Package.Repository

/-! # Whether the versions are in order

The two comparisons of versions agree. Each is one by number on release versions and one by bytes elsewhere,
so it is an order only on sets of versions in which the two do not contradict each other. -/

namespace ZenovOS.Package
open Bytes Comparison Repository

/-- A version as the package formats accept it: a text that fits a field of sixteen bytes. -/
structure VersionText (v : Bytes) : Prop where
  noZero : (0 : UInt8) ∉ v
  fits : v.length < 16

theorem versionText_of_safeVersion {v : Bytes} (h : safeVersion v = true) : VersionText v := by
  unfold safeVersion at h
  simp only [Bool.and_eq_true, decide_eq_true_eq, List.all_eq_true] at h
  obtain ⟨⟨-, hlen⟩, hall⟩ := h
  refine ⟨fun hz => ?_, by omega⟩
  have := hall 0 hz
  revert this
  decide

/-! ### By number -/

theorem compareComponents_nonpos_iff {a b : Nat × Nat × Nat} :
    compareComponents a b ≤ 0 ↔
      a.1 < b.1 ∨ a.1 = b.1 ∧ (a.2.1 < b.2.1 ∨ a.2.1 = b.2.1 ∧ a.2.2 ≤ b.2.2) := by
  obtain ⟨a₀, a₁, a₂⟩ := a
  obtain ⟨b₀, b₁, b₂⟩ := b
  unfold compareComponents
  dsimp only
  split_ifs <;> omega

theorem compareComponents_swap (a b : Nat × Nat × Nat) : compareComponents b a = -compareComponents a b := by
  obtain ⟨a₀, a₁, a₂⟩ := a
  obtain ⟨b₀, b₁, b₂⟩ := b
  unfold compareComponents
  dsimp only
  split_ifs <;> omega

theorem compareComponents_sign (a b : Nat × Nat × Nat) : (compareComponents a b).sign = compareComponents a b := by
  unfold compareComponents
  dsimp only
  split_ifs <;> rfl

theorem components_orderOn : OrderOn compareComponents Set.univ where
  swaps a b := by rw [compareComponents_swap, Int.sign_neg]
  trans a _ b _ c _ hab hbc := by
    rw [compareComponents_nonpos_iff] at *
    omega

/-! ### By bytes -/

theorem toNat_ne_zero {b : UInt8} (h : b ≠ 0) : b.toNat ≠ 0 := fun hz => h (UInt8.toNat_inj.mp hz)

theorem stringCompare_swap : ∀ x y : Bytes, stringCompare y x = -stringCompare x y
  | [], [] => rfl
  | [], b :: y => by simp [stringCompare]
  | a :: x, [] => by simp [stringCompare]
  | a :: x, b :: y => by
    by_cases hab : a = b
    · rw [hab, stringCompare, stringCompare, if_pos rfl, if_pos rfl]
      exact stringCompare_swap x y
    · rw [stringCompare, stringCompare, if_neg hab, if_neg (Ne.symm hab)]
      omega

/-- The bytes of a text as numbers. -/
def codes (text : Bytes) : List Nat := text.map UInt8.toNat

theorem codes_injective : Function.Injective codes := List.map_injective_iff.mpr fun _ _ h => UInt8.toNat_inj.mp h

theorem stringCompare_neg_iff :
    ∀ {x y : Bytes}, (0 : UInt8) ∉ x → (0 : UInt8) ∉ y → (stringCompare x y < 0 ↔ codes x < codes y)
  | [], [], _, _ => by simp [stringCompare, codes]
  | [], b :: y, _, hy => by
    have hb := toNat_ne_zero (b := b) (fun h => hy (by simp [h]))
    simp only [stringCompare, codes, List.map_nil, List.map_cons, List.nil_lt_cons, iff_true]
    omega
  | a :: x, [], hx, _ => by
    simp only [stringCompare, codes, List.map_nil, List.map_cons, List.not_lt_nil, iff_false]
    omega
  | a :: x, b :: y, hx, hy => by
    have ih := stringCompare_neg_iff (x := x) (y := y) (fun h => hx (by simp [h])) (fun h => hy (by simp [h]))
    unfold codes at ih ⊢
    rw [List.map_cons, List.map_cons, List.cons_lt_cons_iff, stringCompare]
    by_cases hab : a = b
    · rw [if_pos hab, ih]
      simp [hab]
    · have hne : a.toNat ≠ b.toNat := fun h => hab (UInt8.toNat_inj.mp h)
      rw [if_neg hab]
      omega

theorem stringCompare_nonpos_iff {x y : Bytes} (hx : (0 : UInt8) ∉ x) (hy : (0 : UInt8) ∉ y) :
    stringCompare x y ≤ 0 ↔ codes x ≤ codes y := by
  rw [← not_lt (a := codes y), ← stringCompare_neg_iff hy hx, stringCompare_swap]
  omega

theorem stringCompare_ties {x y : Bytes} (hx : (0 : UInt8) ∉ x) (hy : (0 : UInt8) ∉ y) (h : stringCompare x y = 0) :
    x = y := by
  have hxy := (stringCompare_nonpos_iff hx hy).mp (by omega)
  have hyx := (stringCompare_nonpos_iff hy hx).mp (by rw [stringCompare_swap]; omega)
  exact codes_injective (le_antisymm hxy hyx)

variable {S : Set Bytes}

theorem strings_orderOn (hS : ∀ v ∈ S, (0 : UInt8) ∉ v) : OrderOn stringCompare S where
  swaps x y := by rw [stringCompare_swap, Int.sign_neg]
  trans x hx y hy z hz hxy hyz := by
    rw [stringCompare_nonpos_iff (hS x hx) (hS y hy)] at hxy
    rw [stringCompare_nonpos_iff (hS y hy) (hS z hz)] at hyz
    rw [stringCompare_nonpos_iff (hS x hx) (hS z hz)]
    exact hxy.trans hyz

/-! ### The two comparisons -/

theorem sign_sub_toNat {a b : UInt8} : ((a.toNat : Int) - b.toNat).sign = compareBytes a b := by
  unfold compareBytes
  simp only [UInt8.lt_iff_toNat_lt]
  split_ifs
  · rw [Int.sign_eq_neg_one_iff_neg]
    omega
  · rw [Int.sign_eq_one_iff_pos]
    omega
  · rw [Int.sign_eq_zero_iff_zero]
    omega

theorem sign_stringCompare : ∀ x y : Bytes, (stringCompare x y).sign = lexicalCompare x y
  | [], [] => rfl
  | [], b :: y => by
    have := sign_sub_toNat (a := 0) (b := b)
    simpa [stringCompare, lexicalCompare] using this
  | a :: x, [] => by
    have := sign_sub_toNat (a := a) (b := 0)
    simpa [stringCompare, lexicalCompare] using this
  | a :: x, b :: y => by
    rw [stringCompare, lexicalCompare]
    split
    · exact sign_stringCompare x y
    · exact sign_sub_toNat

theorem sign_versionCompare (x y : Bytes) : (versionCompare x y).sign = compareRelease x y := by
  unfold versionCompare compareRelease
  rcases parseRelease x with _ | a
  · exact sign_stringCompare x y
  · rcases parseRelease y with _ | b
    · exact sign_stringCompare x y
    · exact compareComponents_sign a b

theorem versionCompare_eq_mixed : versionCompare = mixed parseRelease compareComponents stringCompare := by
  funext x y
  unfold versionCompare mixed
  rcases parseRelease x with _ | a
  · rfl
  · rcases parseRelease y with _ | b
    · rfl
    · rfl

/-- No version that is no release lies between two release versions that are not in that order. -/
def ConsistentVersions (S : Set Bytes) : Prop := Comparison.Consistent parseRelease compareComponents stringCompare S

theorem versions_trans_iff (hS : ∀ v ∈ S, (0 : UInt8) ∉ v) : TransOn versionCompare S ↔ ConsistentVersions S := by
  rw [versionCompare_eq_mixed]
  exact mixed_transOn_iff components_orderOn (strings_orderOn hS) fun x hx y hy => stringCompare_ties (hS x hx) (hS y hy)

theorem versionCompare_swaps : Swaps versionCompare := by
  rw [versionCompare_eq_mixed]
  refine mixed_swaps components_orderOn.swaps fun x y => ?_
  rw [stringCompare_swap, Int.sign_neg]

theorem ConsistentVersions.orderOn (h : ConsistentVersions S) (hS : ∀ v ∈ S, (0 : UInt8) ∉ v) : OrderOn versionCompare S :=
  ⟨versionCompare_swaps, (versions_trans_iff hS).mpr h⟩

theorem compareRelease_orderOn (h : OrderOn versionCompare S) : OrderOn compareRelease S where
  swaps x y := by
    rw [← sign_versionCompare, ← sign_versionCompare, Int.sign_sign, Int.sign_sign]
    exact h.swaps x y
  trans x hx y hy z hz hxy hyz := by
    have hle : ∀ a b, compareRelease a b ≤ 0 ↔ versionCompare a b ≤ 0 := by
      intro a b
      rw [← sign_versionCompare, Int.sign_nonpos_iff]
    rw [hle] at *
    exact h.trans x hx y hy z hz hxy hyz

/-! ### The latest target -/

namespace Repository

/-- The version of a target as a string. -/
def Target.release (target : Target) : Bytes := cstr target.version

theorem latestFrom_eq (name : Bytes) : ∀ (targets : List Target) (latest : Option Target),
    latestFrom name targets latest =
      (targets.filter fun target => cstr target.name = name).foldl (better compareRelease Target.release) latest
  | [], _ => rfl
  | target :: rest, latest => by
    unfold latestFrom
    by_cases hname : cstr target.name = name
    · rw [if_neg (by simpa using hname), List.filter_cons_of_pos (by simpa using hname), List.foldl_cons]
      cases latest with
      | none => exact latestFrom_eq name rest _
      | some old =>
        dsimp only
        by_cases hlater : 0 < compareRelease (cstr target.version) (cstr old.version)
        · have hbetter : better compareRelease Target.release (some old) target = some target := if_pos hlater
          rw [if_pos hlater, hbetter]
          exact latestFrom_eq name rest _
        · have hbetter : better compareRelease Target.release (some old) target = some old := if_neg hlater
          rw [if_neg hlater, hbetter]
          exact latestFrom_eq name rest _
    · rw [if_pos hname, List.filter_cons_of_neg (by simpa using hname)]
      exact latestFrom_eq name rest latest

/-- `latest` is a target of that name, and no target of that name has a later version. -/
structure Latest (targets : List Target) (name : Bytes) (latest : Target) : Prop where
  mem : latest ∈ targets
  name_eq : cstr latest.name = name
  maximal : ∀ target ∈ targets, cstr target.name = name → compareRelease target.release latest.release ≤ 0

/-- The repository finds the latest version of each package that it has, however its targets are ordered. -/
def FindsLatest (S : Set Bytes) : Prop :=
  ∀ targets : List Target, (∀ target ∈ targets, target.release ∈ S) → ∀ name ≠ [],
    (∃ target ∈ targets, cstr target.name = name) →
      ∃ latest, latestTarget true targets name = some latest ∧ Latest targets name latest

theorem findsLatest_of_orderOn (h : OrderOn compareRelease S) : FindsLatest S := by
  intro targets hrelease name hname ⟨target, htarget, hn⟩
  let named := targets.filter fun target => cstr target.name = name
  have hmem : target ∈ named := List.mem_filter.mpr ⟨htarget, by simpa using hn⟩
  have hall : ∀ i ∈ named, i.release ∈ S := fun i hi => hrelease i (List.mem_filter.mp hi).1
  obtain ⟨latest, hlatest, hin, hmax⟩ := foldl_better_none h (List.ne_nil_of_mem hmem) hall
  obtain ⟨hlin, hlname⟩ := List.mem_filter.mp hin
  refine ⟨latest, ?_, hlin, by simpa using hlname, fun t ht htn => hmax t (List.mem_filter.mpr ⟨ht, by simpa using htn⟩)⟩
  unfold latestTarget
  rw [if_neg (by simp [hname]), latestFrom_eq]
  exact hlatest

/-- A target of the package `a`, with its version in the field of sixteen bytes. -/
def versionTarget (version : Bytes) : Target :=
  ⟨[], ascii "a" ++ [0], version ++ List.replicate (16 - version.length) 0, [], [], [], 0, 0, [], 0, [], []⟩

theorem versionTarget_release {version : Bytes} (h : VersionText version) : (versionTarget version).release = version := by
  obtain ⟨left, hleft⟩ : ∃ left, 16 - version.length = left + 1 := Nat.exists_eq_succ_of_ne_zero (by have := h.fits; omega)
  unfold Target.release versionTarget
  dsimp only
  rw [hleft, List.replicate_succ]
  exact cstr_append_zero h.noZero

theorem versionTarget_name (version : Bytes) : cstr (versionTarget version).name = ascii "a" :=
  cstr_append_zero (by decide)

/-- A release version, one that is no later, and between the two a version that is no release: the last one
    kept is not the greatest. -/
theorem consistent_of_findsLatest (hS : ∀ v ∈ S, VersionText v) (h : FindsLatest S) : ConsistentVersions S := by
  intro p hp n hn q hq a b hmp hmn hmq hpn hnq
  by_contra hno
  have hrelease : ∀ v ∈ S, (versionTarget v).release = v := fun v hv => versionTarget_release (hS v hv)
  have hqp : ¬0 < compareRelease q p := by
    rw [← sign_versionCompare, Int.sign_pos_iff, versionCompare_eq_mixed, mixed_measured hmq hmp,
      components_orderOn.swaps.pos_iff a b]
    exact hno
  have hnp : 0 < compareRelease n p := by
    rw [← sign_versionCompare, Int.sign_pos_iff, versionCompare_eq_mixed, mixed_left hmn, stringCompare_swap]
    omega
  obtain ⟨latest, hlatest, -, -, hmax⟩ := h [versionTarget p, versionTarget q, versionTarget n]
    (by simp [hrelease, hp, hq, hn]) (ascii "a") (by decide) ⟨versionTarget p, by simp, versionTarget_name p⟩
  have hqp' : ¬0 < compareRelease (cstr (versionTarget q).version) (cstr (versionTarget p).version) := by
    rwa [← hrelease q hq, ← hrelease p hp] at hqp
  have hnp' : 0 < compareRelease (cstr (versionTarget n).version) (cstr (versionTarget p).version) := by
    rwa [← hrelease n hn, ← hrelease p hp] at hnp
  have hkept : latestTarget true [versionTarget p, versionTarget q, versionTarget n] (ascii "a") = some (versionTarget n) := by
    unfold latestTarget
    rw [if_neg (by decide)]
    unfold latestFrom latestFrom latestFrom latestFrom
    simp only [versionTarget_name, ne_eq, not_true_eq_false, if_false]
    rw [if_neg hqp', if_pos hnp']
  rw [hkept, Option.some.injEq] at hlatest
  subst hlatest
  have hle := hmax (versionTarget q) (by simp) (versionTarget_name q)
  rw [hrelease q hq, hrelease n hn, ← sign_versionCompare, Int.sign_nonpos_iff, versionCompare_eq_mixed, mixed_right hmn,
    stringCompare_swap] at hle
  omega

end Repository
end ZenovOS.Package
