import ZenovOS.Theorems.Package.Manager
import ZenovOS.Theorems.Package.Versions

/-! # Installations never go back, where the versions are in order

Each installation that changes the database gives one package a version that compares as later than the one it
replaces. Where the comparison is an order, a sequence of such steps never comes back to an earlier version; and it is
an order exactly on consistent sets of versions. -/

namespace ZenovOS.Package
open Bytes Comparison Security Storage Mach Repository

/-! ### Records -/

/-- The active version of the package, if it is installed. -/
def activeVersion (db : Database) (name : Bytes) : Option Bytes :=
  (findRecord db name).map fun i => cstr (db.records i).active.version.bytes

section Records
variable {db : Database} {name n : Bytes} {index : Fin maximumPackages} {record : PackageRecord}

theorem findRecord_some (h : findRecord db name = some index) :
    name ≠ [] ∧ (db.records index).used ≠ 0 ∧ cstr (db.records index).name.bytes = name := by
  unfold findRecord at h
  split at h
  · cases h
  · rename_i hname
    have hfound := List.find?_some h
    simp only [Bool.and_eq_true, decide_eq_true_eq] at hfound
    exact ⟨hname, hfound⟩

theorem findRecord_none (h : findRecord db name = none) (hname : name ≠ []) :
    ∀ i, (db.records i).used ≠ 0 → cstr (db.records i).name.bytes ≠ name := by
  intro i hused heq
  unfold findRecord at h
  rw [if_neg hname, List.find?_eq_none] at h
  exact h i (List.mem_finRange i) (by simp [hused, heq])

theorem findRecord_eq (hname : name ≠ []) (hused : (db.records index).used ≠ 0)
    (hindex : cstr (db.records index).name.bytes = name)
    (honly : ∀ i, (db.records i).used ≠ 0 → cstr (db.records i).name.bytes = name → i = index) :
    findRecord db name = some index := by
  rcases hfound : findRecord db name with _ | i
  · exact absurd hindex (findRecord_none hfound hname index hused)
  · obtain ⟨-, hi, hin⟩ := findRecord_some hfound
    rw [honly i hi hin]

/-- The record of a package takes the place of its old one, or of a free one if it has none. -/
structure Replaces (db : Database) (name : Bytes) (index : Fin maximumPackages) (record : PackageRecord) : Prop where
  notEmpty : name ≠ []
  used : record.used ≠ 0
  named : cstr record.name.bytes = name
  place : findRecord db name = some index ∨ findRecord db name = none ∧ (db.records index).used = 0

/-- The database with another record. -/
def Database.setRecord (db : Database) (index : Fin maximumPackages) (record : PackageRecord) : Database :=
  { db with records := Function.update db.records index record }

theorem Replaces.found (h : Replaces db name index record) : findRecord (db.setRecord index record) name = some index := by
  unfold Database.setRecord
  rcases h.place with hfound | ⟨hnone, -⟩
  · -- the record was the first of its name, and the ones before it are as they were
    rw [← hfound]
    obtain ⟨-, hused, hname⟩ := findRecord_some hfound
    unfold findRecord
    rw [if_neg h.notEmpty, if_neg h.notEmpty]
    congr 1
    funext i
    by_cases hi : i = index
    · subst hi
      show ((Function.update db.records i record i).used ≠ 0 && cstr (Function.update db.records i record i).name.bytes = name) = _
      rw [Function.update_self]
      simp [h.used, h.named, hused, hname]
    · show ((Function.update db.records index record i).used ≠ 0 &&
        cstr (Function.update db.records index record i).name.bytes = name) = _
      rw [Function.update_of_ne hi]
  · refine findRecord_eq h.notEmpty ?_ ?_ fun i hused hi => ?_
    · show (Function.update db.records index record index).used ≠ 0
      rw [Function.update_self]
      exact h.used
    · show cstr (Function.update db.records index record index).name.bytes = name
      rw [Function.update_self]
      exact h.named
    · by_contra hne
      have hused : (Function.update db.records index record i).used ≠ 0 := hused
      have hi : cstr (Function.update db.records index record i).name.bytes = name := hi
      rw [Function.update_of_ne hne] at hused hi
      exact findRecord_none hnone h.notEmpty i hused hi

theorem Replaces.others (h : Replaces db name index record) (hn : n ≠ name) :
    findRecord (db.setRecord index record) n = findRecord db n := by
  have hold : ¬((db.records index).used ≠ 0 ∧ cstr (db.records index).name.bytes = n) := by
    rintro ⟨hused, heq⟩
    rcases h.place with hfound | ⟨-, hunused⟩
    · exact hn (heq.symm.trans (findRecord_some hfound).2.2)
    · exact hused hunused
  unfold findRecord Database.setRecord
  split
  · rfl
  · congr 1
    funext i
    by_cases hi : i = index
    · subst hi
      show ((Function.update db.records i record i).used ≠ 0 && cstr (Function.update db.records i record i).name.bytes = n) = _
      rw [Function.update_self, h.named]
      rw [not_and] at hold
      by_cases hused : (db.records i).used ≠ 0
      · simp [hold hused, Ne.symm hn]
      · simp [hused, Ne.symm hn]
    · show ((Function.update db.records index record i).used ≠ 0 &&
        cstr (Function.update db.records index record i).name.bytes = n) = _
      rw [Function.update_of_ne hi]

theorem Replaces.activeVersion (h : Replaces db name index record) :
    activeVersion (db.setRecord index record) name = some (cstr record.active.version.bytes) := by
  unfold Package.activeVersion
  rw [h.found, Option.map_some]
  show some (cstr (Function.update db.records index record index).active.version.bytes) = _
  rw [Function.update_self]

theorem Replaces.activeVersion_of_ne (h : Replaces db name index record) (hn : n ≠ name) :
    Package.activeVersion (db.setRecord index record) n = Package.activeVersion db n := by
  unfold Package.activeVersion
  rw [h.others hn]
  rcases hfound : findRecord db n with _ | i
  · rfl
  · have hi : i ≠ index := by
      rintro rfl
      obtain ⟨-, hused, heq⟩ := findRecord_some hfound
      rcases h.place with hplace | ⟨-, hunused⟩
      · exact hn (heq.symm.trans (findRecord_some hplace).2.2)
      · exact hused hunused
    show some (cstr (Function.update db.records index record i).active.version.bytes) = _
    rw [Function.update_of_ne hi]
    rfl

end Records

/-! ### One installation -/

variable {s s' : ManagerState}

theorem chooseRecord_ok {db : Database} {package : PackageView} {index : Fin maximumPackages}
    (h : chooseRecord db package = .ok index) :
    (findRecord db package.manifest.name = some index ∧
      0 < versionCompare package.manifest.version (cstr (db.records index).active.version.bytes)) ∨
      findRecord db package.manifest.name = none ∧ (db.records index).used = 0 := by
  unfold chooseRecord at h
  rcases hfound : findRecord db package.manifest.name with _ | i
  · rw [hfound] at h
    dsimp only at h
    rcases hfree : freeRecord db with _ | i
    · rw [hfree] at h
      cases h
    · rw [hfree] at h
      cases h
      exact .inr ⟨rfl, by simpa using List.find?_some hfree⟩
  · rw [hfound] at h
    dsimp only at h
    split at h
    · cases h
    · rename_i hne
      split at h
      · cases h
      · cases h
        exact .inl ⟨rfl, by omega⟩

theorem Fields.version_stored {m : Manifest} (h : Fields m) :
    cstr (Block.of ((copyTextExact 16 m.version).getD []) : Block 16).bytes = m.version := by
  have hversion := versionText_of_safeVersion h.version
  have hfits := hversion.fits
  unfold copyTextExact
  rw [if_neg (by omega), Option.getD_some]
  exact cstr_of hversion.noZero hfits

theorem Fields.name_stored {m : Manifest} (h : Fields m) :
    m.name ≠ [] ∧ copyTextExact 32 m.name = some m.name ∧ cstr (Block.of m.name : Block 32).bytes = m.name := by
  have hname := h.name
  have hbytes := (Zenpkg.goodName hname).bytes
  unfold safeLowerIdentifier at hname
  simp only [Bool.and_eq_true, decide_eq_true_eq] at hname
  obtain ⟨⟨⟨⟨hlength, hfirst⟩, -⟩, -⟩, -⟩ := hname
  refine ⟨?_, if_neg (by omega), cstr_of (fun hmem => ?_) (by omega)⟩
  · intro hnil
    rw [hnil] at hfirst
    cases hfirst
  · exact absurd (Zenpkg.nameByte_spec (hbytes 0 hmem)).1 (by decide)

theorem replaces_of_chosen {db : Database} {package : PackageView} {payload : Bytes} {index : Fin maximumPackages}
    {record : PackageRecord} (hfields : Fields package.manifest) (hchosen : chooseRecord db package = .ok index)
    (hrecord : nextRecord (db.records index) package payload = some record) :
    Replaces db package.manifest.name index record := by
  obtain ⟨hne, hcopy, hstored⟩ := hfields.name_stored
  unfold nextRecord at hrecord
  rcases chooseRecord_ok hchosen with ⟨hfound, -⟩ | ⟨hnone, hunused⟩
  · obtain ⟨-, hused, hname⟩ := findRecord_some hfound
    rw [if_pos hused] at hrecord
    cases hrecord
    exact ⟨hne, hused, hname, .inl hfound⟩
  · rw [if_neg (fun h => h hunused), hcopy, Option.map_some] at hrecord
    cases hrecord
    have hused : (1 : UInt8) ≠ 0 := by decide
    exact ⟨hne, hused, hstored, .inr ⟨hnone, hunused⟩⟩

/-- A package keeps its version, or gets one of the repository that compares as later. -/
inductive Upgraded (targets : List Target) (before after : Option Bytes) : Prop
  | kept (same : after = before)
  | raised {version : Bytes} (installed : after = some version) (offered : ∃ target ∈ targets, target.release = version)
      (later : ∀ old, before = some old → 0 < versionCompare version old)

theorem InstallEnd.upgraded {path : Bytes} {ok : Bool} (h : InstallEnd s s' path ok) (name : Bytes) :
    Upgraded s.activeTargets (activeVersion s.database name) (activeVersion s'.database name) := by
  cases h with
  | unchanged database => exact .kept (by rw [database])
  | @committed package trusted index record file st done verified authorized entrypoint chosen recorded database =>
    have hfields := verifyBytes_fields verified
    have hreplaces : Replaces s.database package.manifest.name index record := replaces_of_chosen hfields chosen recorded
    have hsealed : ∀ n, activeVersion s'.database n = activeVersion (s.database.setRecord index record) n := by
      intro n
      rw [database]
      rfl
    by_cases hname : name = package.manifest.name
    · subst hname
      have hversion : cstr record.active.version.bytes = package.manifest.version := by
        rw [nextRecord_active recorded]
        exact hfields.version_stored
      refine .raised (by rw [hsealed, hreplaces.activeVersion, hversion]) ⟨trusted, List.mem_of_find?_eq_some authorized.found, ?_⟩ ?_
      · have hfound := List.find?_some authorized.found
        simp only [Bool.and_eq_true, decide_eq_true_eq] at hfound
        exact hfound.1.1.2
      · intro old hold
        rcases chooseRecord_ok chosen with ⟨hfound, hlater⟩ | ⟨hnone, -⟩
        · unfold Package.activeVersion at hold
          rw [show findRecord s.database package.manifest.name = some index from hfound, Option.map_some, Option.some.injEq] at hold
          rw [← hold]
          exact hlater
        · unfold Package.activeVersion at hold
          rw [show findRecord s.database package.manifest.name = none from hnone] at hold
          cases hold
    · exact .kept (by rw [hsealed, hreplaces.activeVersion_of_ne hname])

/-! ### Runs -/

variable {S : Set Bytes}

/-- The package manager between two commands, with all the versions that it knows in `S`. -/
structure Managed (S : Set Bytes) (s : ManagerState) : Prop where
  order : Storage.Kept (fun _ => False) s.guard.volume s.guard.volume
  sane : s.database.Sane
  targets : ∀ target ∈ s.activeTargets, target.release ∈ S
  versions : ∀ name v, activeVersion s.database name = some v → v ∈ S

/-- Installations one after the other. -/
inductive InstallRun (S : Set Bytes) (s : ManagerState) : ManagerState → Prop
  | start : InstallRun S s s
  | install {s₁ s₂ : ManagerState} {path : Bytes} {ok : Bool} (run : InstallRun S s s₁)
      (step : install path s₁ = (some ok, s₂)) : InstallRun S s s₂
  /-- What else is done in between leaves the database. -/
  | other {s₁ s₂ : ManagerState} (run : InstallRun S s s₁) (database : s₂.database = s₁.database)
      (order : Storage.Kept (fun _ => False) s₂.guard.volume s₂.guard.volume)
      (targets : ∀ target ∈ s₂.activeTargets, target.release ∈ S) : InstallRun S s s₂

/-- From one version to another by steps that each compare as later. -/
def Climbs (S : Set Bytes) (before after : Option Bytes) : Prop :=
  after = before ∨ ∃ w, after = some w ∧ ∀ v, before = some v → Relation.TransGen (Rises versionCompare S) v w

theorem Upgraded.climbs {targets : List Target} {before after last : Option Bytes}
    (h : Upgraded targets after last) (htargets : ∀ target ∈ targets, target.release ∈ S) (hclimbs : Climbs S before after) :
    Climbs S before last := by
  cases h with
  | kept same => rwa [same]
  | @raised version installed offered later =>
    obtain ⟨target, htarget, hrelease⟩ := offered
    have hmem : version ∈ S := hrelease ▸ htargets target htarget
    refine .inr ⟨version, installed, fun v hv => ?_⟩
    rcases hclimbs with hsame | ⟨w, hw, hup⟩
    · exact .single ⟨hmem, later v (hsame.trans hv)⟩
    · exact .tail (hup v hv) ⟨hmem, later w hw⟩

theorem Managed.install {path : Bytes} {ok : Bool} (h : Managed S s) (hstep : install path s = (some ok, s')) :
    Managed S s' ∧ ∀ name, Upgraded s.activeTargets (activeVersion s.database name) (activeVersion s'.database name) := by
  obtain ⟨hheld, htargets, -, hend⟩ := wp_ended (install_spec h.order h.sane) hstep
  have hversions : ∀ name v, activeVersion s'.database name = some v → v ∈ S := by
    intro name v hv
    cases hend.upgraded name with
    | kept same => exact h.versions name v (same.symm.trans hv)
    | @raised version installed offered later =>
      obtain ⟨target, htarget, hrelease⟩ := offered
      rw [installed, Option.some.injEq] at hv
      rw [← hv, ← hrelease]
      exact h.targets target htarget
  refine ⟨⟨?_, hend.sane h.sane, ?_, hversions⟩, hend.upgraded⟩
  · exact ⟨fun hm => ⟨(hheld.kept.mounted hm).1, fun _ hq => hq.elim⟩,
      fun w hw => ⟨(hheld.kept.durable w hw).1, fun _ hq => hq.elim⟩⟩
  · rw [htargets]
    exact h.targets

theorem InstallRun.climbs (h : InstallRun S s s') (hs : Managed S s) :
    Managed S s' ∧ ∀ name, Climbs S (activeVersion s.database name) (activeVersion s'.database name) := by
  induction h with
  | start => exact ⟨hs, fun _ => .inl rfl⟩
  | install _ step ih =>
    obtain ⟨hmanaged, hclimbs⟩ := ih
    obtain ⟨hnext, hupgraded⟩ := hmanaged.install step
    exact ⟨hnext, fun name => (hupgraded name).climbs hmanaged.targets (hclimbs name)⟩
  | other _ database order targets ih =>
    obtain ⟨hmanaged, hclimbs⟩ := ih
    rw [← database] at hclimbs
    refine ⟨⟨order, ?_, targets, ?_⟩, hclimbs⟩
    · rw [database]
      exact hmanaged.sane
    · rw [database]
      exact hmanaged.versions

/-! ### The law -/

/-- After any run of installations an installed package has its version, or one that compares as later. -/
def NeverReturns (S : Set Bytes) : Prop :=
  ∀ s s', Managed S s → InstallRun S s s' → ∀ name v, activeVersion s.database name = some v →
    ∃ w, activeVersion s'.database name = some w ∧ (w = v ∨ 0 < versionCompare w v)

theorem neverReturns_of_orderOn (h : OrderOn versionCompare S) : NeverReturns S := by
  intro s s' hs hrun name v hv
  obtain ⟨-, hclimbs⟩ := hrun.climbs hs
  rcases hclimbs name with hsame | ⟨w, hw, hup⟩
  · exact ⟨v, hsame.trans hv, .inl rfl⟩
  · exact ⟨w, hw, .inr (h.rising (hs.versions name v hv) (hup v hv)).2⟩

theorem ConsistentVersions.managerOrder (hS : ∀ v ∈ S, VersionText v) (h : ConsistentVersions S) : OrderOn versionCompare S :=
  h.orderOn fun v hv => (hS v hv).noZero

theorem findsLatest_iff (hS : ∀ v ∈ S, VersionText v) : FindsLatest S ↔ ConsistentVersions S :=
  ⟨consistent_of_findsLatest hS, fun h => findsLatest_of_orderOn (compareRelease_orderOn (h.managerOrder hS))⟩

/-- The two comparisons agree and are an order, so that the repository finds the latest version and installations
    never go back. -/
structure VersionLaw (S : Set Bytes) : Prop where
  agree : ∀ x ∈ S, ∀ y ∈ S, (versionCompare x y).sign = (compareRelease x y).sign
  order : OrderOn versionCompare S
  latest : FindsLatest S
  installs : NeverReturns S

/-- The versions obey the law exactly if they are consistent. -/
theorem versionLaw_iff (hS : ∀ v ∈ S, VersionText v) : VersionLaw S ↔ ConsistentVersions S := by
  constructor
  · intro h
    exact (findsLatest_iff hS).mp h.latest
  · intro h
    have horder := h.managerOrder hS
    refine ⟨fun x _ y _ => ?_, horder, (findsLatest_iff hS).mpr h, neverReturns_of_orderOn horder⟩
    rw [← sign_versionCompare, Int.sign_sign]

theorem versionLaw_releases : VersionLaw {ascii "1.0.0", ascii "1.10.0"} ↔ ConsistentVersions {ascii "1.0.0", ascii "1.10.0"} :=
  versionLaw_iff fun v hv => by
    rcases hv with rfl | rfl
    · exact versionText_of_safeVersion (by decide)
    · exact versionText_of_safeVersion (by decide)

/-- `10.0.0` comes before `9` and `9` before `9.0.0` by their bytes, and `9.0.0` before `10.0.0` by number. -/
theorem not_versionLaw : ¬VersionLaw {v | safeVersion v = true} := by
  intro h
  have hle := h.order.trans (ascii "10.0.0") (by decide) (ascii "9") (by decide) (ascii "9.0.0") (by decide) (by decide) (by decide)
  exact absurd hle (by decide)

end ZenovOS.Package
