import ZenovOS.Theorems.Tools.Zenuniverse.Resolver
import ZenovOS.Tools.Zenuniverse.Canonical

/-! # Plans do not depend on the order of the catalogue

Versions, providers and the records of the catalogue are ranked, and only records of one identity are tied. So two catalogues with the
same records give the same provider for each capability, and the resolution goes the same way on both: what differs is only where a
record has its place. -/

namespace ZenovOS.Zenuniverse
open Bytes

/-! ### Versions -/

theorem resize_resize {parts : List Nat} {size more : Nat} (hparts : parts.length ≤ size) (hmore : size ≤ more) :
    resize parts more = resize parts size ++ List.replicate (more - size) 0 := by
  unfold resize
  rw [List.append_assoc, List.replicate_append_replicate]
  congr 2
  omega

theorem length_resize {parts : List Nat} {size : Nat} (h : parts.length ≤ size) : (resize parts size).length = size := by
  unfold resize
  rw [List.length_append, List.length_replicate]
  omega

/-- By the numbers of the versions in `size` places, and then by the texts. -/
def VersionBefore (size : Nat) : Descriptor → Descriptor → Prop :=
  Ranking.Lex (fun x y => resize (versionParts x.version) size < resize (versionParts y.version) size) fun x y => x.version < y.version

theorem versionLess_iff {left right : Descriptor} {size : Nat} (hl : (versionParts left.version).length ≤ size)
    (hr : (versionParts right.version).length ≤ size) : versionLess left right = true ↔ VersionBefore size left right := by
  unfold versionLess VersionBefore Ranking.Lex
  dsimp only
  generalize versionParts left.version = a at hl
  generalize versionParts right.version = b at hr
  have ha : a.length ≤ max a.length b.length := Nat.le_max_left _ _
  have hb : b.length ≤ max a.length b.length := Nat.le_max_right _ _
  have hmax : max a.length b.length ≤ size := Nat.max_le.mpr ⟨hl, hr⟩
  have hlength : (resize a (max a.length b.length)).length = (resize b (max a.length b.length)).length := by
    rw [length_resize ha, length_resize hb]
  rw [resize_resize ha hmax, resize_resize hb hmax, append_lt_append_iff hlength, append_lt_append_iff hlength.symm]
  split
  · next hsame =>
    rw [hsame]
    simp
  · next hne =>
    rw [decide_eq_true_iff]
    refine ⟨.inl, ?_⟩
    rintro (hlt | ⟨hlt, hgt, -⟩)
    · exact hlt
    · exact absurd (list_tied hlt hgt) hne

theorem ranking_versionBefore (size : Nat) : Ranking (VersionBefore size) :=
  (ranking_list.key fun x : Descriptor => resize (versionParts x.version) size).lex (ranking_list.key Descriptor.version)

theorem ranking_versionLess : Ranking fun x y => versionLess x y = true := by
  constructor
  · intro x y hxy hyx
    have hx := Nat.le_max_left (versionParts x.version).length (versionParts y.version).length
    have hy := Nat.le_max_right (versionParts x.version).length (versionParts y.version).length
    exact (ranking_versionBefore _).asymm x y ((versionLess_iff hx hy).mp hxy) ((versionLess_iff hy hx).mp hyx)
  · intro x y z hxz
    obtain ⟨size, hx, hy, hz⟩ : ∃ size, (versionParts x.version).length ≤ size ∧ (versionParts y.version).length ≤ size ∧
        (versionParts z.version).length ≤ size :=
      ⟨(versionParts x.version).length + (versionParts y.version).length + (versionParts z.version).length, by omega, by omega, by omega⟩
    exact ((ranking_versionBefore size).cut x y z ((versionLess_iff hx hz).mp hxz)).imp (versionLess_iff hx hy).mpr
      (versionLess_iff hy hz).mpr

theorem version_tied {x y : Descriptor} (hxy : versionLess x y = false) (hyx : versionLess y x = false) : x.version = y.version := by
  have hx := Nat.le_max_left (versionParts x.version).length (versionParts y.version).length
  have hy := Nat.le_max_right (versionParts x.version).length (versionParts y.version).length
  rw [← Bool.not_eq_true, versionLess_iff hx hy] at hxy
  rw [← Bool.not_eq_true, versionLess_iff hy hx] at hyx
  obtain ⟨-, hless, hgreater⟩ := Ranking.lex_tied hxy hyx
  exact list_tied hless hgreater

/-! ### Providers and records -/

theorem improves_iff {hostArchitecture : Bytes} {descriptor best : Descriptor} :
    improves hostArchitecture descriptor best = true ↔
      Ranking.Lex (fun x y => providerScore x hostArchitecture < providerScore y hostArchitecture)
        (Ranking.Lex (fun x y => versionLess x y = true) fun x y => y.id < x.id) best descriptor := by
  unfold improves Ranking.Lex
  dsimp only
  generalize providerScore descriptor hostArchitecture = current
  generalize providerScore best hostArchitecture = old
  have htied : current = old ↔ ¬old < current ∧ ¬current < old := by
    constructor
    · rintro rfl
      exact ⟨List.lt_irrefl _, List.lt_irrefl _⟩
    · exact fun ⟨h, h'⟩ => list_tied h' h
  simp only [Bool.or_eq_true, Bool.and_eq_true, decide_eq_true_eq, Bool.not_eq_true', htied, Bool.not_eq_true]
  tauto

theorem ranking_improves (hostArchitecture : Bytes) : Ranking fun x y => improves hostArchitecture y x = true := by
  have hranking := (ranking_list.key fun x : Descriptor => providerScore x hostArchitecture).lex
    (ranking_versionLess.lex (ranking_list.key Descriptor.id).flip)
  exact ⟨fun x y hxy hyx => hranking.asymm x y (improves_iff.mp hxy) (improves_iff.mp hyx),
    fun x y z hxz => (hranking.cut x y z (improves_iff.mp hxz)).imp improves_iff.mpr improves_iff.mpr⟩

theorem catalogLess_iff {left right : Descriptor} :
    catalogLess left right = true ↔ Ranking.Lex (fun x y => x.id < y.id) (fun x y => versionLess x y = true) left right := by
  unfold catalogLess Ranking.Lex
  dsimp only
  split
  · next hsame =>
    rw [hsame]
    simp [List.lt_irrefl]
  · next hne =>
    rw [decide_eq_true_iff]
    refine ⟨.inl, ?_⟩
    rintro (hlt | ⟨hlt, hgt, -⟩)
    · exact hlt
    · exact absurd (list_tied hlt hgt) hne

theorem ranking_catalogLess : Ranking fun x y => catalogLess x y = true := by
  have hranking := (ranking_list.key Descriptor.id).lex ranking_versionLess
  exact ⟨fun x y hxy hyx => hranking.asymm x y (catalogLess_iff.mp hxy) (catalogLess_iff.mp hyx),
    fun x y z hxz => (hranking.cut x y z (catalogLess_iff.mp hxz)).imp catalogLess_iff.mpr catalogLess_iff.mpr⟩

/-- No two records have an identity in common. -/
def Identified (records : List Descriptor) : Prop := (records.map fun d => (d.id, d.version)).Nodup

theorem Identified.eq {records : List Descriptor} (h : Identified records) {x y : Descriptor} (hx : x ∈ records) (hy : y ∈ records)
    (hid : x.id = y.id) (hversion : x.version = y.version) : x = y :=
  List.inj_on_of_nodup_map h hx hy (Prod.ext hid hversion)

theorem Identified.perm {records records' : List Descriptor} (h : Identified records) (hp : records.Perm records') : Identified records' :=
  (hp.map _).nodup_iff.mp h

theorem Identified.nodup {records : List Descriptor} (h : Identified records) : records.Nodup := List.Nodup.of_map _ h

theorem Identified.distinguishes_improves {records l : List Descriptor} (h : Identified records) (hl : ∀ d ∈ l, d ∈ records)
    (hostArchitecture : Bytes) : Distinguishes (fun x y => improves hostArchitecture y x) l := by
  intro x hx y hy hxy hyx
  have hxy := improves_iff.not.mp (Bool.not_eq_true _ ▸ hxy)
  have hyx := improves_iff.not.mp (Bool.not_eq_true _ ▸ hyx)
  obtain ⟨-, hxy, hyx⟩ := Ranking.lex_tied hxy hyx
  obtain ⟨⟨hless, hgreater⟩, hid, hid'⟩ := Ranking.lex_tied hxy hyx
  exact h.eq (hl x hx) (hl y hy) (list_tied hid' hid) (version_tied (Bool.not_eq_true _ ▸ hless) (Bool.not_eq_true _ ▸ hgreater))

theorem Identified.distinguishes_catalogLess {records : List Descriptor} (h : Identified records) : Distinguishes catalogLess records := by
  intro x hx y hy hxy hyx
  have hxy := catalogLess_iff.not.mp (Bool.not_eq_true _ ▸ hxy)
  have hyx := catalogLess_iff.not.mp (Bool.not_eq_true _ ▸ hyx)
  obtain ⟨⟨hid, hid'⟩, hless, hgreater⟩ := Ranking.lex_tied hxy hyx
  exact h.eq hx hy (list_tied hid hid') (version_tied (Bool.not_eq_true _ ▸ hless) (Bool.not_eq_true _ ▸ hgreater))

theorem compileCatalog_perm {records records' : List Descriptor} (h : Identified records) (hp : records.Perm records') :
    compileCatalog records = compileCatalog records' := by
  unfold compileCatalog
  rw [insertionSort_eq_of_perm ranking_catalogLess h.distinguishes_catalogLess hp]

/-! ### The provider of a capability -/

theorem bestProvider_eq (capability : Bytes) (records : List Descriptor) (hostArchitecture : Bytes) :
    bestProvider capability records hostArchitecture =
      (records.zipIdx.filter fun c => capability ∈ c.1.provides).foldl
        (Comparison.better (Comparison.ofLess fun x y => improves hostArchitecture y x) Prod.fst) none := by
  unfold bestProvider
  rw [List.foldl_filter]
  congr 1
  funext best candidate
  unfold betterProvider Comparison.better
  by_cases hprovides : capability ∈ candidate.1.provides
  · simp only [hprovides, decide_true, not_true_eq_false, if_true, if_false]
    cases best with
    | none => rfl
    | some current => simp only [Comparison.ofLess_pos_iff (ranking_improves hostArchitecture)]
  · simp [hprovides]

theorem bestProvider_greatest (capability : Bytes) (records : List Descriptor) (hostArchitecture : Bytes) :
    (bestProvider capability records hostArchitecture = none ∧ ∀ d ∈ records, capability ∉ d.provides) ∨
      ∃ best, bestProvider capability records hostArchitecture = some best ∧
        Comparison.Greatest (Comparison.ofLess fun x y => improves hostArchitecture y x) Prod.fst
          (records.zipIdx.filter fun c => capability ∈ c.1.provides) best := by
  rw [bestProvider_eq]
  by_cases hnone : (records.zipIdx.filter fun c => decide (capability ∈ c.1.provides)) = []
  · refine .inl ⟨by rw [hnone]; rfl, fun d hd hprovides => ?_⟩
    obtain ⟨i, hi⟩ := List.getElem?_of_mem hd
    have hmem : (d, i) ∈ records.zipIdx.filter fun c => decide (capability ∈ c.1.provides) :=
      List.mem_filter.mpr ⟨List.mem_zipIdx_iff_getElem?.mpr hi, decide_eq_true hprovides⟩
    rw [hnone] at hmem
    exact absurd hmem List.not_mem_nil
  · exact .inr (Comparison.foldl_better_none (Comparison.orderOn_ofLess (ranking_improves hostArchitecture) Set.univ) hnone
      fun _ _ => trivial)

theorem mem_candidates {capability : Bytes} {records : List Descriptor} {d : Descriptor} :
    d ∈ (records.zipIdx.filter fun c => capability ∈ c.1.provides).map Prod.fst ↔ d ∈ records ∧ capability ∈ d.provides := by
  constructor
  · intro h
    obtain ⟨c, hc, rfl⟩ := List.mem_map.mp h
    obtain ⟨hmem, hprovides⟩ := List.mem_filter.mp hc
    exact ⟨List.fst_mem_of_mem_zipIdx hmem, of_decide_eq_true hprovides⟩
  · rintro ⟨hd, hprovides⟩
    obtain ⟨i, hi⟩ := List.getElem?_of_mem hd
    exact List.mem_map.mpr ⟨(d, i), List.mem_filter.mpr ⟨List.mem_zipIdx_iff_getElem?.mpr hi, decide_eq_true hprovides⟩, rfl⟩

theorem bestProvider_perm {records records' : List Descriptor} (h : Identified records) (hp : records.Perm records')
    (capability hostArchitecture : Bytes) :
    (bestProvider capability records hostArchitecture = none ∧ bestProvider capability records' hostArchitecture = none) ∨
      ∃ provider i j, bestProvider capability records hostArchitecture = some (provider, i) ∧
        bestProvider capability records' hostArchitecture = some (provider, j) := by
  have hsome : ∀ {l : List Descriptor} {best : Descriptor × Nat}, bestProvider capability l hostArchitecture = some best →
      best.1 ∈ l ∧ capability ∈ best.1.provides := by
    rintro l ⟨d, i⟩ hbest
    obtain ⟨hplace, hprovides⟩ := bestProvider_some hbest
    exact ⟨List.mem_of_getElem? hplace, hprovides⟩
  rcases bestProvider_greatest capability records hostArchitecture with
    ⟨hnone, hall⟩ | ⟨best, hbest, hgreatest⟩ <;>
  rcases bestProvider_greatest capability records' hostArchitecture with
    ⟨hnone', hall'⟩ | ⟨best', hbest', hgreatest'⟩
  · exact .inl ⟨hnone, hnone'⟩
  · obtain ⟨hmem, hprovides⟩ := hsome hbest'
    exact absurd hprovides (hall _ (hp.mem_iff.mpr hmem))
  · obtain ⟨hmem, hprovides⟩ := hsome hbest
    exact absurd hprovides (hall' _ (hp.mem_iff.mp hmem))
  · refine .inr ⟨best.1, best.2, best'.2, hbest, ?_⟩
    have hties := h.distinguishes_improves (l := (records.zipIdx.filter fun c => capability ∈ c.1.provides).map Prod.fst)
      (fun d hd => (mem_candidates.mp hd).1) hostArchitecture
    have hsame : best.1 = best'.1 := by
      refine Comparison.greatest_ofLess_unique (ranking_improves hostArchitecture) hties (fun c hc => ?_) (fun c hc => ?_)
        hgreatest hgreatest'
      · have hmem := mem_candidates.mp (List.mem_map_of_mem hc)
        exact mem_candidates.mpr ⟨hp.mem_iff.mpr hmem.1, hmem.2⟩
      · have hmem := mem_candidates.mp (List.mem_map_of_mem hc)
        exact mem_candidates.mpr ⟨hp.mem_iff.mp hmem.1, hmem.2⟩
    rw [hbest', hsame]

/-! ### The resolution ends

Whatever the records require, a capability that is resolved was not active before, and has a provider. -/

section Ends
variable {records : List Descriptor} {hostArchitecture : Bytes} {host : Finset Bytes} {s : Resolution}

theorem avoids_orThrow {α : Type} (m : Except Bytes α) : Avoids Stop.depth (orThrow m) := by
  cases m with
  | ok a => exact avoids_ok a
  | error text => exact fun h => nomatch Except.error.inj h

theorem resolveAlternative_ends {resolve : Bytes → Resolution → Except Stop Resolution}
    (hresolve : ∀ capability, Avoids Stop.depth (resolve capability s)) (expression : Bytes) :
    Avoids Stop.depth (resolveAlternative host resolve expression s) := by
  unfold resolveAlternative
  refine (avoids_orThrow _).bind fun options _ => (avoids_orThrow _).bind fun canonical _ => ?_
  split
  · exact avoids_ok _
  refine Avoids.bind (avoids_mapM fun option _ => ?_) fun attempts _ => ?_
  · unfold tryOption
    exact (hresolve option).bind fun result _ => avoids_ok _
  split
  · exact avoids_ok _
  · exact avoids_ite (fun _ => avoids_ok _) fun _ => avoids_ok _

theorem requirements_end (application : Descriptor) {resolve : Bytes → Resolution → Except Stop Resolution}
    {active : Finset Bytes} (hspec : Resolves records application hostArchitecture host resolve)
    (hcall : ∀ capability t, t.active = active → Avoids Stop.depth (resolve capability t)) (d : Descriptor) (hs : s.active = active) :
    Avoids Stop.depth (d.requirements.foldlM (fun s requirement => resolve requirement s) s) ∧
      ∀ t, d.requirements.foldlM (fun s requirement => resolve requirement s) s = .ok t →
        Avoids Stop.depth (d.requirementAny.foldlM (fun s expression => resolveAlternative host resolve expression s) t) := by
  have hround : ∀ t : Resolution, t.active = active → ∀ capability ∈ d.requirements,
      Avoids Stop.depth (resolve capability t) ∧ ∀ t', resolve capability t = .ok t' → t'.active = active :=
    fun t ht capability _ => ⟨hcall capability t ht, fun t' ht' => (hspec capability t t' ht').1.active.trans ht⟩
  refine ⟨avoids_foldlM_keeps hs hround, fun t ht => ?_⟩
  have hactive : t.active = active :=
    foldlM_keeps (P := fun t : Resolution => t.active = active) (fun a x b hx ha hb => (hround a ha x hx).2 b hb) ht hs
  exact avoids_foldlM_keeps (P := fun t => t.active = active) hactive fun t ht expression _ =>
    ⟨resolveAlternative_ends (fun capability => hcall capability t ht) expression,
      fun t' ht' => (resolveAlternative_spec hspec ht').1.active.trans ht⟩

theorem resolveCapability_ends (application : Descriptor) (depth : Nat) (capability : Bytes) (s : Resolution)
    (h : (provided records \ s.active).card < depth) :
    Avoids Stop.depth (resolveCapability records hostArchitecture host depth capability s) := by
  induction depth generalizing capability s with
  | zero => exact absurd h (Nat.not_lt_zero _)
  | succ depth ih =>
    rw [resolveCapability]
    refine avoids_ite (fun _ => avoids_ok _) fun _ => avoids_ite (fun _ => avoids_ok _) fun hactive => ?_
    dsimp only
    split
    · exact avoids_ok _
    rename_i provider place hbest
    obtain ⟨hplace, hprovides⟩ := bestProvider_some hbest
    have hspec : Resolves records application hostArchitecture host (resolveCapability records hostArchitecture host depth) :=
      resolveCapability_spec depth
    have hprovided : capability ∈ provided records :=
      List.mem_toFinset.mpr (List.mem_flatMap.mpr ⟨provider, List.mem_of_getElem? hplace, hprovides⟩)
    have hcard := card_enter_lt hprovided hactive
    have hcall : ∀ c t, t.active = (s.enter capability).active →
        Avoids Stop.depth (resolveCapability records hostArchitecture host depth c t) := by
      intro c t ht
      refine ih c t ?_
      rw [ht]
      omega
    have hextends : Extends records application hostArchitecture host (s.enter capability)
        ((s.enter capability).consider provider hostArchitecture) := (consider_spec (s.enter capability) provider).1
    have hconsider := hextends.active
    have hnative : Avoids Stop.depth (resolveNative (resolveCapability records hostArchitecture host depth) capability provider
        ((s.enter capability).consider provider hostArchitecture)) := by
      unfold resolveNative
      exact avoids_ite (fun _ => hcall _ _ hconsider) fun _ => avoids_ok _
    refine hnative.bind fun t ht => ?_
    have hactive' : t.active = (s.enter capability).active := by
      unfold resolveNative at ht
      split at ht
      · exact (hspec _ _ t ht).1.active.trans hconsider
      · obtain rfl := Except.ok.inj ht
        exact hconsider
    obtain ⟨hrequirements, hgroups⟩ := requirements_end application hspec hcall provider hactive'
    exact hrequirements.bind fun u hu => (hgroups u hu).bind fun v _ => avoids_ok _

theorem makePlan_ends (records : List Descriptor) (hostArchitecture : Bytes) (host : Finset Bytes) (application : Descriptor) :
    Avoids Stop.depth (makePlan records hostArchitecture host application) := by
  have hspec : Resolves records application hostArchitecture host
      (resolveCapability records hostArchitecture host (resolveDepth records)) := resolveCapability_spec _
  have hstart := extends_start records application hostArchitecture host
  have hcall : ∀ capability (t : Resolution), t.active = ∅ →
      Avoids Stop.depth (resolveCapability records hostArchitecture host (resolveDepth records) capability t) := by
    intro capability t ht
    refine resolveCapability_ends application _ capability t ?_
    rw [ht, Finset.sdiff_empty]
    exact Nat.lt_succ_of_le (List.toFinset_card_le _)
  unfold makePlan
  refine (hcall _ _ hstart.active).bind fun t ht => ?_
  have hactive : t.active = ∅ := (hspec _ _ t ht).1.active.trans hstart.active
  obtain ⟨hrequirements, hgroups⟩ := requirements_end application hspec hcall application hactive
  exact hrequirements.bind fun u hu => (hgroups u hu).bind fun v _ => avoids_ok _

end Ends

/-! ### Two catalogues with the same records -/

section Order
variable {records records' : List Descriptor} {hostArchitecture : Bytes} {host : Finset Bytes} {s s' : Resolution}

/-- Places of one record, or the application. -/
inductive SameRef (records records' : List Descriptor) : DescriptorRef → DescriptorRef → Prop
  | record {i j : Nat} {d : Descriptor} (h : records[i]? = some d) (h' : records'[j]? = some d) : SameRef records records' (.record i) (.record j)
  | application : SameRef records records' .application .application

/-- The plans are the same, except for the places of the records. -/
structure SamePlan (records records' : List Descriptor) (plan plan' : Plan) : Prop where
  order : List.Forall₂ (SameRef records records') plan.order plan'.order
  blocked : plan.blocked = plan'.blocked
  diagnostics : plan.diagnostics = plan'.diagnostics
  alternatives : plan.alternatives = plan'.alternatives
  requiredAssets : plan.requiredAssets = plan'.requiredAssets
  userAsset : plan.userAsset = plan'.userAsset

structure Same (records records' : List Descriptor) (s s' : Resolution) : Prop where
  active : s.active = s'.active
  emitted : s.emitted = s'.emitted
  plan : SamePlan records records' s.plan s'.plan

structure SameAttempt (records records' : List Descriptor) (attempt attempt' : Attempt) : Prop where
  option : attempt.option = attempt'.option
  result : Same records records' attempt.result attempt'.result
  addedBlockers : attempt.addedBlockers = attempt'.addedBlockers
  addedPackages : attempt.addedPackages = attempt'.addedPackages

theorem biUnique_sameRef (h : records.Nodup) (h' : records'.Nodup) : Relator.BiUnique (SameRef records records') := by
  have hplace : ∀ {l : List Descriptor}, l.Nodup → ∀ {i j : Nat} {d : Descriptor}, l[i]? = some d → l[j]? = some d → i = j :=
    fun hl _ _ _ hi hj => (List.getElem?_inj (List.getElem?_eq_some_iff.mp hi).1 hl).mp (hi.trans hj.symm)
  constructor
  · intro r r' t hr hr'
    cases hr with
    | application =>
      cases hr'
      rfl
    | record hi hj =>
      cases hr' with
      | record hi' hj' =>
        obtain rfl := Option.some.inj (hj.symm.trans hj')
        rw [hplace h hi hi']
  · intro r r' t hr hr'
    cases hr with
    | application =>
      cases hr'
      rfl
    | record hi hj =>
      cases hr' with
      | record hi' hj' =>
        obtain rfl := Option.some.inj (hi.symm.trans hi')
        rw [hplace h' hj hj']

theorem SamePlan.appendBlocker {plan plan' : Plan} (h : SamePlan records records' plan plan') (reason : Bytes) :
    SamePlan records records' (appendBlocker plan reason) (appendBlocker plan' reason) := by
  unfold Zenuniverse.appendBlocker
  rw [← h.blocked]
  split
  · exact h
  · exact { h with blocked := rfl }

theorem SamePlan.appendDiagnostic {plan plan' : Plan} (h : SamePlan records records' plan plan') (message : Bytes) :
    SamePlan records records' (appendDiagnostic plan message) (appendDiagnostic plan' message) := by
  unfold Zenuniverse.appendDiagnostic
  rw [← h.diagnostics]
  split
  · exact h
  · exact { h with diagnostics := rfl }

theorem SamePlan.appendAssets {plan plan' : Plan} (h : SamePlan records records' plan plan') (descriptor : Descriptor) :
    SamePlan records records' (appendAssets descriptor plan) (appendAssets descriptor plan') :=
  { h with requiredAssets := congrArg (· ∪ descriptor.assets.toFinset) h.requiredAssets }

namespace Same

theorem block (h : Same records records' s s') (reason : Bytes) : Same records records' (s.block reason) (s'.block reason) :=
  { h with plan := h.plan.appendBlocker reason }

theorem decided (h : Same records records' s s') (decision : AlternativeDecision) :
    Same records records' (s.decided decision) (s'.decided decision) :=
  { h with plan := { h.plan with alternatives := congrArg (· ++ [decision]) h.plan.alternatives } }

theorem enter (h : Same records records' s s') (capability : Bytes) : Same records records' (s.enter capability) (s'.enter capability) :=
  { h with active := congrArg (insert capability) h.active }

theorem leave (h : Same records records' s s') (capability : Bytes) : Same records records' (s.leave capability) (s'.leave capability) :=
  { h with active := congrArg (Finset.erase · capability) h.active }

theorem blockIf {c : Prop} [Decidable c] (h : Same records records' s s') (reason : Bytes) :
    Same records records' (if c then s.block reason else s) (if c then s'.block reason else s') := by
  split
  · exact h.block reason
  · exact h

theorem consider (h : Same records records' s s') (provider : Descriptor) :
    Same records records' (s.consider provider hostArchitecture) (s'.consider provider hostArchitecture) := by
  unfold Resolution.consider
  have hchecked := (h.blockIf (c := provider.architecture ≠ ascii "any" ∧ provider.architecture ≠ hostArchitecture)
    (ascii "provider architecture mismatch: provider=" ++ provider.id ++ ascii " package=" ++ provider.architecture ++
      ascii " host=" ++ hostArchitecture)).blockIf (c := provider.availability ≠ ascii "available")
    (ascii "provider not available yet: " ++ provider.id ++ ascii " (" ++ provider.availability ++ ascii ")")
  exact { hchecked with plan := hchecked.plan.appendAssets provider }

theorem emit (hu : Relator.BiUnique (SameRef records records')) (h : Same records records' s s') (capability : Bytes)
    {provider : Descriptor} {i j : Nat} (hi : records[i]? = some provider) (hj : records'[j]? = some provider) :
    Same records records' (s.emit capability provider i) (s'.emit capability provider j) := by
  have href : SameRef records records' (.record i) (.record j) := .record hi hj
  have hmem : DescriptorRef.record i ∈ s.plan.order ↔ DescriptorRef.record j ∈ s'.plan.order := List.rel_mem hu href h.plan.order
  unfold Resolution.emit
  rw [← h.emitted]
  split
  · exact h
  refine ⟨h.active, rfl, { h.plan with order := ?_ }⟩
  dsimp only
  by_cases hin : DescriptorRef.record i ∈ s.plan.order
  · rw [if_pos hin, if_pos (hmem.mp hin)]
    exact h.plan.order
  · rw [if_neg hin, if_neg (hmem.not.mp hin)]
    exact List.rel_append h.plan.order (.cons href .nil)

theorem diagnose {attempts attempts' : List Attempt} (hattempts : List.Forall₂ (SameAttempt records records') attempts attempts')
    {plan plan' : Plan} (h : SamePlan records records' plan plan') :
    SamePlan records records' (attempts.foldl Attempt.diagnose plan) (attempts'.foldl Attempt.diagnose plan') := by
  induction hattempts generalizing plan plan' with
  | nil => exact h
  | cons hattempt _ ih =>
    rw [List.foldl_cons, List.foldl_cons]
    refine ih ?_
    unfold Attempt.diagnose
    rw [← hattempt.option, ← hattempt.result.plan.blocked]
    exact h.appendDiagnostic _

theorem reject (h : Same records records' s s') (canonical : Bytes) {attempts attempts' : List Attempt}
    (hattempts : List.Forall₂ (SameAttempt records records') attempts attempts') :
    Same records records' (s.reject canonical attempts) (s'.reject canonical attempts') := by
  have hblocked := h.block (ascii "no satisfiable capability alternative: " ++ canonical)
  unfold Resolution.reject
  dsimp only
  refine decided ?_ _
  exact ⟨hblocked.active, hblocked.emitted, diagnose hattempts hblocked.plan⟩

end Same

theorem SameAttempt.less_eq {a a' b b' : Attempt} (ha : SameAttempt records records' a a') (hb : SameAttempt records records' b b') :
    a.less b = a'.less b' := by
  unfold Attempt.less
  rw [ha.option, ha.addedBlockers, ha.addedPackages, hb.option, hb.addedBlockers, hb.addedPackages]

theorem best_same {attempts attempts' : List Attempt} (h : List.Forall₂ (SameAttempt records records') attempts attempts') :
    (Attempt.best attempts = none ∧ Attempt.best attempts' = none) ∨
      ∃ best best', Attempt.best attempts = some best ∧ Attempt.best attempts' = some best' ∧ SameAttempt records records' best best' := by
  cases h with
  | nil => exact .inl ⟨rfl, rfl⟩
  | cons hfirst hrest =>
    refine .inr ⟨_, _, rfl, rfl, ?_⟩
    refine List.rel_foldl (P := SameAttempt records records') (R := SameAttempt records records') ?_ hfirst hrest
    intro least least' hleast attempt attempt' hattempt
    dsimp only
    rw [hattempt.less_eq hleast]
    split
    · exact hattempt
    · exact hleast

theorem tryOption_same {resolve resolve' : Bytes → Resolution → Except Stop Resolution} (h : Same records records' s s') (option : Bytes)
    (hresolve : ∀ c s s', Same records records' s s' → Agree (Same records records') (resolve c s) (resolve' c s')) :
    Agree (SameAttempt records records') (tryOption resolve s option) (tryOption resolve' s' option) := by
  unfold tryOption
  refine (hresolve option s s' h).bind fun t t' ht => .ok ⟨rfl, ht, ?_, ?_⟩
  · rw [ht.plan.blocked, h.plan.blocked]
  · rw [ht.plan.order.length_eq, h.plan.order.length_eq]

theorem resolveAlternative_same {resolve resolve' : Bytes → Resolution → Except Stop Resolution} (h : Same records records' s s')
    (expression : Bytes)
    (hresolve : ∀ c s s', Same records records' s s' → Agree (Same records records') (resolve c s) (resolve' c s')) :
    Agree (Same records records') (resolveAlternative host resolve expression s) (resolveAlternative host resolve' expression s') := by
  unfold resolveAlternative
  refine (Agree.refl (fun _ => rfl) (orThrow (parseCapabilityAlternatives expression))).bind fun options _ hoptions => ?_
  refine (Agree.refl (fun _ => rfl) (orThrow (canonicalAlternatives expression))).bind fun canonical _ hcanonical => ?_
  subst hoptions hcanonical
  rw [← h.emitted]
  split
  · exact .ok (h.decided _)
  refine (Agree.mapM (R := Eq) (S := SameAttempt records records') (List.forall₂_refl options) fun option _ hoption => ?_).bind fun attempts attempts' hattempts => ?_
  · subst hoption
    exact tryOption_same h option hresolve
  rcases best_same hattempts with ⟨hnone, hnone'⟩ | ⟨best, best', hbest, hbest', hsame⟩
  · rw [hnone, hnone']
    exact .ok (h.reject canonical hattempts)
  · rw [hbest, hbest']
    dsimp only
    rw [← hsame.addedBlockers, ← hsame.option]
    split
    · exact .ok (hsame.result.decided _)
    · exact .ok (h.reject canonical hattempts)

theorem requirements_same {resolve resolve' : Bytes → Resolution → Except Stop Resolution} (h : Same records records' s s') (d : Descriptor)
    (hresolve : ∀ c s s', Same records records' s s' → Agree (Same records records') (resolve c s) (resolve' c s')) :
    Agree (Same records records')
      (d.requirements.foldlM (fun s requirement => resolve requirement s) s >>= fun s =>
        d.requirementAny.foldlM (fun s expression => resolveAlternative host resolve expression s) s)
      (d.requirements.foldlM (fun s requirement => resolve' requirement s) s' >>= fun s =>
        d.requirementAny.foldlM (fun s expression => resolveAlternative host resolve' expression s) s) := by
  refine Agree.bind (Agree.foldlM (T := Eq) (List.forall₂_refl d.requirements) h fun t t' c c' ht hc => ?_) fun t t' ht => ?_
  · subst hc
    exact hresolve c t t' ht
  · refine Agree.foldlM (T := Eq) (List.forall₂_refl d.requirementAny) ht fun t t' e e' ht he => ?_
    subst he
    exact resolveAlternative_same ht e hresolve

theorem resolveCapability_same (h : Identified records) (hp : records.Perm records') (depth : Nat) (capability : Bytes)
    (s s' : Resolution) (hs : Same records records' s s') :
    Agree (Same records records') (resolveCapability records hostArchitecture host depth capability s)
      (resolveCapability records' hostArchitecture host depth capability s') := by
  induction depth generalizing capability s s' with
  | zero => exact .error _
  | succ depth ih =>
    rw [resolveCapability, resolveCapability, ← hs.emitted, ← hs.active]
    split
    · exact .ok hs
    split
    · exact .ok (hs.block _)
    have hentered := hs.enter capability
    rcases bestProvider_perm h hp capability hostArchitecture with ⟨hnone, hnone'⟩ | ⟨provider, i, j, hbest, hbest'⟩
    · rw [hnone, hnone']
      exact .ok ((hentered.block _).leave capability)
    rw [hbest, hbest']
    dsimp only
    obtain ⟨hi, -⟩ := bestProvider_some hbest
    obtain ⟨hj, -⟩ := bestProvider_some hbest'
    have hu := biUnique_sameRef h.nodup (h.perm hp).nodup
    refine Agree.bind (R := Same records records') ?_ fun t t' ht => ?_
    · unfold resolveNative
      split
      · exact ih _ _ _ (hentered.consider provider)
      · exact .ok (hentered.consider provider)
    rw [← bind_assoc, ← bind_assoc]
    exact (requirements_same ht provider ih).bind fun t t' ht => .ok ((ht.emit hu capability hi hj).leave capability)

end Order

/-! ### Plans and catalogues -/

/-- A plan with the descriptors themselves in its order. -/
structure ShownPlan where
  order : List (Option Descriptor)
  blocked : List Bytes
  diagnostics : List Bytes
  alternatives : List AlternativeDecision
  requiredAssets : Finset Bytes
  userAsset : Bool

def Plan.shown (records : List Descriptor) (application : Descriptor) (plan : Plan) : ShownPlan :=
  ⟨plan.order.map (·.get records application), plan.blocked, plan.diagnostics, plan.alternatives, plan.requiredAssets, plan.userAsset⟩

theorem SamePlan.shown_eq {records records' : List Descriptor} {plan plan' : Plan} (h : SamePlan records records' plan plan')
    (application : Descriptor) : plan.shown records application = plan'.shown records' application := by
  have horder : plan.order.map (·.get records application) = plan'.order.map (·.get records' application) := by
    refine List.forall₂_eq_eq_eq ▸ List.rel_map (R := SameRef records records') (P := Eq) ?_ h.order
    rintro _ _ (⟨hi, hj⟩ | _)
    · exact hi.trans hj.symm
    · rfl
  unfold Plan.shown
  rw [horder, h.blocked, h.diagnostics, h.alternatives, h.requiredAssets, h.userAsset]

theorem makePlan_perm {records records' : List Descriptor} (h : Identified records) (hp : records.Perm records')
    (hostArchitecture : Bytes) (host : Finset Bytes) (application : Descriptor) :
    Agree (SamePlan records records') (makePlan records hostArchitecture host application)
      (makePlan records' hostArchitecture host application) := by
  have hdepth : resolveDepth records' = resolveDepth records := by
    unfold resolveDepth
    rw [(hp.flatMap_right _).length_eq]
  have hresolve : ∀ c (s s' : Resolution), Same records records' s s' →
      Agree (Same records records') (resolveCapability records hostArchitecture host (resolveDepth records) c s)
        (resolveCapability records' hostArchitecture host (resolveDepth records) c s') := resolveCapability_same h hp _
  have hstart : Same records records' (startResolution hostArchitecture host application)
      (startResolution hostArchitecture host application) := by
    have hempty : Same records records' ⟨∅, host, .empty⟩ ⟨∅, host, .empty⟩ := ⟨rfl, rfl, .nil, rfl, rfl, rfl, rfl, rfl⟩
    have hchecked := hempty.blockIf (c := application.architecture ≠ ascii "any" ∧ application.architecture ≠ hostArchitecture)
      (ascii "architecture mismatch: package=" ++ application.architecture ++ ascii " host=" ++ hostArchitecture)
    exact { hchecked with plan := hchecked.plan.appendAssets application }
  unfold makePlan
  rw [hdepth]
  refine (hresolve _ _ _ hstart).bind fun t t' ht => ?_
  rw [← bind_assoc, ← bind_assoc]
  refine (requirements_same ht application hresolve).bind fun t t' ht => .ok ?_
  exact { ht.plan with order := List.rel_append ht.plan.order (.cons .application .nil), userAsset := rfl }

/-- Every plan is made with as many calls in each other as there are capabilities, whatever the records require, and where no two
    records have one identity neither the plan nor the text of the catalogue depends on the order of the records. -/
theorem makePlan_any_order (records : List Descriptor) (hostArchitecture : Bytes) (host : Finset Bytes) (application : Descriptor) :
    makePlan records hostArchitecture host application ≠ .error .depth ∧
      (Identified records → ∀ records' : List Descriptor, records.Perm records' →
        (makePlan records hostArchitecture host application).map (·.shown records application) =
            (makePlan records' hostArchitecture host application).map (·.shown records' application) ∧
          compileCatalog records = compileCatalog records') := by
  refine ⟨makePlan_ends records hostArchitecture host application, fun h records' hp => ⟨?_, compileCatalog_perm h hp⟩⟩
  exact (makePlan_perm h hp hostArchitecture host application).map_eq fun plan plan' hsame => hsame.shown_eq application

theorem makePlan_any_order_sample :
    Identified [nativeRuntime, sampleGame] ∧
      (makePlan [nativeRuntime, sampleGame] (ascii "x86") sampleHost sampleGame).map (·.shown [nativeRuntime, sampleGame] sampleGame) =
        (makePlan [sampleGame, nativeRuntime] (ascii "x86") sampleHost sampleGame).map (·.shown [sampleGame, nativeRuntime] sampleGame) ∧
      compileCatalog [nativeRuntime, sampleGame] = compileCatalog [sampleGame, nativeRuntime] := by
  have hidentified : Identified [nativeRuntime, sampleGame] := by
    unfold Identified
    decide
  exact ⟨hidentified, (makePlan_any_order [nativeRuntime, sampleGame] (ascii "x86") sampleHost sampleGame).2 hidentified
    [sampleGame, nativeRuntime] (List.Perm.swap sampleGame nativeRuntime [])⟩

end ZenovOS.Zenuniverse
