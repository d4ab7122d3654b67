import Mathlib.Data.Finset.Card
import ZenovOS.Lib.Ranking
import ZenovOS.Tools.Zenuniverse.Resolver

/-! # Plans of the resolver

A plan without blockers is an order in which every descriptor finds what it requires. `Extends` is what a call of
the resolution does to the sets and the plan, whatever it resolves; `Sound` is the invariant of a plan that is
not blocked. -/

namespace ZenovOS.Zenuniverse
open Bytes Precedence

/-! ### What a plan has to satisfy -/

/-- The descriptor that is pointed to. -/
def DescriptorRef.get (records : List Descriptor) (application : Descriptor) : DescriptorRef → Option Descriptor
  | .record index => records[index]?
  | .application => some application

/-- The provider runs on the host, and is to be had. -/
structure AvailableOn (hostArchitecture : Bytes) (provider : Descriptor) : Prop where
  architecture : provider.architecture = ascii "any" ∨ provider.architecture = hostArchitecture
  availability : provider.availability = ascii "available"

/-- One option of the group is there. -/
def GroupMet (present : Bytes → Prop) (expression : Bytes) : Prop :=
  ∃ options, parseCapabilityAlternatives expression = .ok options ∧ ∃ option ∈ options, present option

/-- What the descriptor requires is there. -/
structure RequirementsMet (present : Bytes → Prop) (descriptor : Descriptor) : Prop where
  requirements : ∀ requirement ∈ descriptor.requirements, present requirement
  groups : ∀ expression ∈ descriptor.requirementAny, GroupMet present expression

section Plans
variable (records : List Descriptor) (application : Descriptor) (hostArchitecture : Bytes) (host : Finset Bytes)

/-- The descriptor at a place of the order provides a capability. -/
def Provides (r : DescriptorRef) (capability : Bytes) : Prop :=
  ∃ d, r.get records application = some d ∧ capability ∈ d.provides

/-- The descriptor at a place of the order needs what it requires, and the application its runtime. -/
def Needs (r : DescriptorRef) (present : Bytes → Prop) : Prop :=
  ∀ d, r.get records application = some d →
    RequirementsMet present d ∧ (r = .application → present (runtimeCapability d))

/-- A capability is of the host or provided by a descriptor of the order. -/
abbrev InPlan (order : List DescriptorRef) (capability : Bytes) : Prop :=
  Present (Provides records application) (· ∈ host) order capability

/-- Providers that are available, none of them twice, each with what it requires before it. -/
structure ProvidersSound (order : List DescriptorRef) : Prop where
  available : ∀ r ∈ order, ∃ place d, r = .record place ∧ records[place]? = some d ∧ AvailableOn hostArchitecture d
  nodup : order.Nodup
  ordered : Ordered (Provides records application) (Needs records application) (· ∈ host) order

/-- Sound providers and behind them the application, with what it requires before it. -/
structure PlanSound (order : List DescriptorRef) : Prop where
  providers : ∃ before, order = before ++ [.application] ∧ ProvidersSound records application hostArchitecture host before
  ordered : Ordered (Provides records application) (Needs records application) (· ∈ host) order

/-- The invariant of a resolution that is not blocked. -/
structure Sound (s : Resolution) : Prop extends ProvidersSound records application hostArchitecture host s.plan.order where
  emitted : ∀ capability, capability ∈ s.emitted ↔ InPlan records application host s.plan.order capability

/-- What a call of the resolution leaves. -/
structure Extends (s s' : Resolution) : Prop where
  active : s'.active = s.active
  emitted : s.emitted ⊆ s'.emitted
  unblocked : s'.plan.blocked = [] → s.plan.blocked = []
  sound : s'.plan.blocked = [] → Sound records application hostArchitecture host s →
    Sound records application hostArchitecture host s'

end Plans

section Steps
variable {records : List Descriptor} {application : Descriptor} {hostArchitecture : Bytes} {host : Finset Bytes}
variable {s s' : Resolution}

theorem Extends.refl (s : Resolution) : Extends records application hostArchitecture host s s :=
  ⟨rfl, Finset.Subset.refl _, id, fun _ h => h⟩

theorem Extends.trans {t : Resolution} (h : Extends records application hostArchitecture host s s')
    (h' : Extends records application hostArchitecture host s' t) : Extends records application hostArchitecture host s t where
  active := h'.active.trans h.active
  emitted := h.emitted.trans h'.emitted
  unblocked hb := h.unblocked (h'.unblocked hb)
  sound hb hs := h'.sound hb (h.sound (h'.unblocked hb) hs)

theorem appendBlocker_ne_nil (plan : Plan) (reason : Bytes) : (appendBlocker plan reason).blocked ≠ [] := by
  unfold appendBlocker
  split
  · rename_i hmem
    exact List.ne_nil_of_mem hmem
  · simp

theorem extends_of_blocked (ha : s'.active = s.active) (he : s'.emitted = s.emitted) (hb : s'.plan.blocked ≠ []) :
    Extends records application hostArchitecture host s s' :=
  ⟨ha, he ▸ Finset.Subset.refl _, fun h => absurd h hb, fun h => absurd h hb⟩

theorem extends_of_same (ha : s'.active = s.active) (he : s'.emitted = s.emitted) (ho : s'.plan.order = s.plan.order)
    (hb : s'.plan.blocked = s.plan.blocked) : Extends records application hostArchitecture host s s' where
  active := ha
  emitted := he ▸ Finset.Subset.refl _
  unblocked h := hb ▸ h
  sound _ hs := by
    obtain ⟨⟨havailable, hnodup, hordered⟩, hemitted⟩ := hs
    rw [← ho] at havailable hnodup hordered
    refine ⟨⟨havailable, hnodup, hordered⟩, fun capability => ?_⟩
    rw [he, ho]
    exact hemitted capability

/-! ### The best provider -/

theorem bestProvider_some {capability : Bytes} {provider : Descriptor} {place : Nat}
    (h : bestProvider capability records hostArchitecture = some (provider, place)) :
    records[place]? = some provider ∧ capability ∈ provider.provides := by
  have hfold : ∀ (l : List (Descriptor × Nat)) (best : Option (Descriptor × Nat)),
      (∀ b, best = some b → b ∈ records.zipIdx ∧ capability ∈ b.1.provides) → (∀ c ∈ l, c ∈ records.zipIdx) →
      ∀ b, l.foldl (betterProvider capability hostArchitecture) best = some b →
        b ∈ records.zipIdx ∧ capability ∈ b.1.provides := by
    intro l
    induction l with
    | nil => exact fun best hbest _ b hb => hbest b hb
    | cons c l ih =>
      intro best hbest hl b hb
      refine ih _ (fun x hx => ?_) (fun x hx => hl x (List.mem_cons_of_mem c hx)) b hb
      unfold betterProvider at hx
      split at hx
      · exact hbest x hx
      · rename_i hprovides
        have hc : c ∈ records.zipIdx ∧ capability ∈ c.1.provides := ⟨hl c List.mem_cons_self, not_not.mp hprovides⟩
        cases best with
        | none =>
          obtain rfl := Option.some.inj hx
          exact hc
        | some current =>
          dsimp only at hx
          split at hx
          · obtain rfl := Option.some.inj hx
            exact hc
          · exact hbest x hx
  obtain ⟨hmem, hprovides⟩ := hfold _ none (fun _ h => nomatch h) (fun _ hc => hc) _ h
  exact ⟨List.mem_zipIdx_iff_getElem?.mp hmem, hprovides⟩

/-! ### A provider goes into the order -/

theorem block_ne_nil (s : Resolution) (reason : Bytes) : (s.block reason).plan.blocked ≠ [] :=
  appendBlocker_ne_nil s.plan reason

theorem extends_block (s : Resolution) (reason : Bytes) :
    Extends records application hostArchitecture host s (s.block reason) :=
  extends_of_blocked rfl rfl (block_ne_nil s reason)

theorem consider_spec (s : Resolution) (provider : Descriptor) :
    Extends records application hostArchitecture host s (s.consider provider hostArchitecture) ∧
      ((s.consider provider hostArchitecture).plan.blocked = [] → AvailableOn hostArchitecture provider) := by
  have hassets : ∀ t : Resolution, Extends records application hostArchitecture host t
      { t with plan := appendAssets provider t.plan } := fun t => extends_of_same rfl rfl rfl rfl
  unfold Resolution.consider
  dsimp only
  by_cases harchitecture : provider.architecture ≠ ascii "any" ∧ provider.architecture ≠ hostArchitecture
  · rw [if_pos harchitecture]
    split
    · exact ⟨((extends_block _ _).trans (extends_block _ _)).trans (hassets _), fun h => absurd h (block_ne_nil _ _)⟩
    · exact ⟨(extends_block _ _).trans (hassets _), fun h => absurd h (block_ne_nil _ _)⟩
  · rw [if_neg harchitecture]
    split
    · exact ⟨(extends_block _ _).trans (hassets _), fun h => absurd h (block_ne_nil _ _)⟩
    · rename_i havailability
      refine ⟨hassets s, fun _ => ⟨?_, not_not.mp havailability⟩⟩
      by_cases h : provider.architecture = ascii "any"
      · exact .inl h
      · exact .inr (not_not.mp fun hne => harchitecture ⟨h, hne⟩)

theorem Sound.inPlan {capability : Bytes} (h : Sound records application hostArchitecture host s)
    (hc : capability ∈ host ∨ capability ∈ s.emitted) : InPlan records application host s.plan.order capability := by
  rcases hc with hc | hc
  · exact .inl hc
  · exact (h.emitted capability).mp hc

theorem Sound.requirementsMet {d : Descriptor} (h : Sound records application hostArchitecture host s)
    (hmet : RequirementsMet (fun c => c ∈ host ∨ c ∈ s.emitted) d) :
    RequirementsMet (InPlan records application host s.plan.order) d := by
  obtain ⟨hrequirements, hgroups⟩ := hmet
  refine ⟨fun requirement hr => h.inPlan (hrequirements requirement hr), fun expression he => ?_⟩
  obtain ⟨options, hoptions, option, hmem, hpresent⟩ := hgroups expression he
  exact ⟨options, hoptions, option, hmem, h.inPlan hpresent⟩

theorem emit_spec {capability : Bytes} {provider : Descriptor} {place : Nat} (hplace : records[place]? = some provider)
    (hprovides : capability ∈ provider.provides) (havailable : s.plan.blocked = [] → AvailableOn hostArchitecture provider)
    (hmet : s.plan.blocked = [] → RequirementsMet (fun c => c ∈ host ∨ c ∈ s.emitted) provider) :
    Extends records application hostArchitecture host s (s.emit capability provider place) ∧
      capability ∈ (s.emit capability provider place).emitted := by
  unfold Resolution.emit
  split
  · rename_i hc
    exact ⟨Extends.refl s, hc⟩
  rename_i hc
  have hself : capability ∈ s.emitted ∪ provider.provides.toFinset := by simp [hprovides]
  refine ⟨⟨rfl, Finset.subset_union_left, id, fun hb hs => ?_⟩, hself⟩
  -- a provider in the order would have emitted the capability
  have hnew : DescriptorRef.record place ∉ s.plan.order := by
    intro hmem
    exact hc ((hs.emitted capability).mpr (.inr ⟨_, hmem, provider, hplace, hprovides⟩))
  have hgives : ∀ c, Provides records application (.record place) c ↔ c ∈ provider.provides := by
    intro c
    constructor
    · rintro ⟨d, hd, hcd⟩
      obtain rfl := Option.some.inj (hplace.symm.trans hd)
      exact hcd
    · exact fun h => ⟨provider, hplace, h⟩
  have hneeds : Needs records application (.record place) (InPlan records application host s.plan.order) := by
    intro d hd
    obtain rfl := Option.some.inj (hplace.symm.trans hd)
    exact ⟨hs.requirementsMet (hmet hb), fun h => nomatch h⟩
  dsimp only
  rw [if_neg hnew]
  refine ⟨⟨fun r hr => ?_, ?_, hs.ordered.snoc hneeds⟩, fun c => ?_⟩
  · rcases List.mem_append.mp hr with hr | hr
    · exact hs.available r hr
    · obtain rfl := List.mem_singleton.mp hr
      exact ⟨place, provider, rfl, hplace, havailable hb⟩
  · rw [List.nodup_append]
    refine ⟨hs.nodup, List.nodup_singleton _, ?_⟩
    rintro r hr _ hp rfl
    exact hnew (List.mem_singleton.mp hp ▸ hr)
  · show c ∈ s.emitted ∪ provider.provides.toFinset ↔ Present _ _ (s.plan.order ++ [.record place]) c
    rw [present_snoc, hgives c, Finset.mem_union, List.mem_toFinset, hs.emitted c]

/-! ### Alternatives -/

/-- A capability is there. -/
abbrev Supplied (host : Finset Bytes) (s : Resolution) (capability : Bytes) : Prop :=
  capability ∈ host ∨ capability ∈ s.emitted

theorem Extends.supplied {capability : Bytes} (h : Extends records application hostArchitecture host s s')
    (hc : Supplied host s capability) : Supplied host s' capability :=
  hc.imp_right fun he => h.emitted he

/-- What a call that resolves `capability` does. -/
def Resolves (records : List Descriptor) (application : Descriptor) (hostArchitecture : Bytes) (host : Finset Bytes)
    (resolve : Bytes → Resolution → Except Stop Resolution) : Prop :=
  ∀ capability s s', resolve capability s = .ok s' → Extends records application hostArchitecture host s s' ∧
    (s'.plan.blocked = [] → Supplied host s' capability)

theorem foldlM_extends {β : Type} {step : Resolution → β → Except Stop Resolution} {M : Resolution → β → Prop} {l : List β}
    (hstep : ∀ s b s', step s b = .ok s' → Extends records application hostArchitecture host s s' ∧
      (s'.plan.blocked = [] → M s' b))
    (hkeep : ∀ s s' b, Extends records application hostArchitecture host s s' → M s b → M s' b)
    (h : l.foldlM step s = .ok s') :
    Extends records application hostArchitecture host s s' ∧ (s'.plan.blocked = [] → ∀ b ∈ l, M s' b) := by
  induction l generalizing s with
  | nil =>
    cases h
    exact ⟨Extends.refl _, fun _ _ hb => absurd hb List.not_mem_nil⟩
  | cons b l ih =>
    rw [List.foldlM_cons] at h
    obtain ⟨t, ht, h⟩ := bind_ok h
    obtain ⟨hfirst, hmet⟩ := hstep _ b t ht
    obtain ⟨hrest, hall⟩ := ih h
    refine ⟨hfirst.trans hrest, fun hb c hc => ?_⟩
    rcases List.mem_cons.mp hc with rfl | hc
    · exact hkeep t s' c hrest (hmet (hrest.unblocked hb))
    · exact hall hb c hc

theorem orThrow_ok {α : Type} {m : Except Bytes α} {a : α} (h : orThrow m = .ok a) : m = .ok a := by
  cases m with
  | error text => cases h
  | ok b =>
    obtain rfl : b = a := by injection h
    rfl

theorem mapM_mem {α β ε : Type} {f : α → Except ε β} {l : List α} {l' : List β} (h : l.mapM f = .ok l') :
    ∀ b ∈ l', ∃ a ∈ l, f a = .ok b := by
  induction l generalizing l' with
  | nil =>
    rw [List.mapM_nil] at h
    cases h
    exact fun b hb => absurd hb List.not_mem_nil
  | cons a l ih =>
    rw [List.mapM_cons] at h
    obtain ⟨c, hc, h⟩ := bind_ok h
    obtain ⟨rest, hrest, h⟩ := bind_ok h
    cases h
    intro b hb
    rcases List.mem_cons.mp hb with rfl | hb
    · exact ⟨a, List.mem_cons_self, hc⟩
    · obtain ⟨x, hx, hfx⟩ := ih hrest b hb
      exact ⟨x, List.mem_cons_of_mem a hx, hfx⟩

theorem best_mem {attempts : List Attempt} {best : Attempt} (h : Attempt.best attempts = some best) : best ∈ attempts := by
  cases attempts with
  | nil => cases h
  | cons first rest =>
    have hfold : ∀ (l : List Attempt) (least : Attempt),
        l.foldl (fun least attempt => if attempt.less least then attempt else least) least ∈ least :: l := by
      intro l
      induction l with
      | nil => exact fun least => List.mem_cons_self
      | cons a l ih =>
        intro least
        rw [List.foldl_cons]
        rcases List.mem_cons.mp (ih (if a.less least then a else least)) with h | h
        · rw [h]
          split
          · exact List.mem_cons_of_mem _ List.mem_cons_self
          · exact List.mem_cons_self
        · exact List.mem_cons_of_mem _ (List.mem_cons_of_mem _ h)
    obtain rfl := Option.some.inj h
    exact hfold rest first

theorem reject_ne_nil (s : Resolution) (canonical : Bytes) (attempts : List Attempt) :
    (s.reject canonical attempts).plan.blocked ≠ [] := by
  have hdiagnose : ∀ (l : List Attempt) (plan : Plan), (l.foldl Attempt.diagnose plan).blocked = plan.blocked := by
    intro l
    induction l with
    | nil => exact fun _ => rfl
    | cons attempt l ih =>
      intro plan
      rw [List.foldl_cons, ih]
      unfold Attempt.diagnose appendDiagnostic
      split <;> rfl
  unfold Resolution.reject Resolution.decided
  dsimp only
  rw [hdiagnose]
  exact block_ne_nil s _

theorem extends_reject (s : Resolution) (canonical : Bytes) (attempts : List Attempt) :
    Extends records application hostArchitecture host s (s.reject canonical attempts) :=
  extends_of_blocked rfl rfl (reject_ne_nil s canonical attempts)

theorem extends_decided (s : Resolution) (decision : AlternativeDecision) :
    Extends records application hostArchitecture host s (s.decided decision) :=
  extends_of_same rfl rfl rfl rfl

theorem resolveAlternative_spec {resolve : Bytes → Resolution → Except Stop Resolution} {expression : Bytes}
    (hresolve : Resolves records application hostArchitecture host resolve)
    (h : resolveAlternative host resolve expression s = .ok s') :
    Extends records application hostArchitecture host s s' ∧
      (s'.plan.blocked = [] → GroupMet (Supplied host s') expression) := by
  unfold resolveAlternative at h
  obtain ⟨options, hoptions, h⟩ := bind_ok h
  obtain ⟨canonical, -, h⟩ := bind_ok h
  have hparsed := orThrow_ok hoptions
  split at h
  · rename_i option hfound
    cases h
    have hpresent := List.find?_some hfound
    rw [decide_eq_true_eq] at hpresent
    exact ⟨extends_decided s _, fun _ => ⟨options, hparsed, option, List.mem_of_find?_eq_some hfound, hpresent⟩⟩
  obtain ⟨attempts, hattempts, h⟩ := bind_ok h
  split at h
  · cases h
    exact ⟨extends_reject s _ _, fun hb => absurd hb (reject_ne_nil s _ _)⟩
  · rename_i best hbest
    split at h
    · cases h
      obtain ⟨option, hmem, htry⟩ := mapM_mem hattempts best (best_mem hbest)
      unfold tryOption at htry
      obtain ⟨result, hresult, htry⟩ := bind_ok htry
      cases htry
      obtain ⟨hextends, hsupplied⟩ := hresolve option s result hresult
      exact ⟨hextends.trans (extends_decided result _), fun hb => ⟨options, hparsed, option, hmem, hsupplied hb⟩⟩
    · cases h
      exact ⟨extends_reject s _ _, fun hb => absurd hb (reject_ne_nil s _ _)⟩

theorem Extends.groupMet {expression : Bytes} (h : Extends records application hostArchitecture host s s')
    (hg : GroupMet (Supplied host s) expression) : GroupMet (Supplied host s') expression := by
  obtain ⟨options, hoptions, option, hmem, hc⟩ := hg
  exact ⟨options, hoptions, option, hmem, h.supplied hc⟩

/-! ### Capabilities -/

theorem Extends.leave {capability : Bytes} (h : Extends records application hostArchitecture host (s.enter capability) s')
    (hactive : capability ∉ s.active) : Extends records application hostArchitecture host s (s'.leave capability) where
  active := by
    show s'.active.erase capability = s.active
    rw [h.active]
    exact Finset.erase_insert hactive
  emitted := h.emitted
  unblocked := h.unblocked
  sound hb hs := by
    have hentered : Sound records application hostArchitecture host (s.enter capability) := ⟨hs.toProvidersSound, hs.emitted⟩
    have hleft := h.sound hb hentered
    exact ⟨hleft.toProvidersSound, hleft.emitted⟩

theorem requirements_spec {resolve : Bytes → Resolution → Except Stop Resolution} {d : Descriptor} {t : Resolution}
    (hresolve : Resolves records application hostArchitecture host resolve)
    (hrequirements : d.requirements.foldlM (fun s requirement => resolve requirement s) s = .ok t)
    (hgroups : d.requirementAny.foldlM (fun s expression => resolveAlternative host resolve expression s) t = .ok s') :
    Extends records application hostArchitecture host s s' ∧
      (s'.plan.blocked = [] → RequirementsMet (Supplied host s') d) := by
  obtain ⟨hfirst, hmet⟩ := foldlM_extends (M := Supplied host) (fun s requirement s' h => hresolve requirement s s' h)
    (fun _ _ _ h hc => h.supplied hc) hrequirements
  obtain ⟨hrest, hgroup⟩ := foldlM_extends (M := fun s => GroupMet (Supplied host s))
    (fun _ _ _ h => resolveAlternative_spec hresolve h) (fun _ _ _ h hg => h.groupMet hg) hgroups
  exact ⟨hfirst.trans hrest, fun hb => ⟨fun requirement hr => hrest.supplied (hmet (hrest.unblocked hb) requirement hr),
    hgroup hb⟩⟩

theorem resolveCapability_spec (depth : Nat) :
    Resolves records application hostArchitecture host (resolveCapability records hostArchitecture host depth) := by
  induction depth with
  | zero =>
    intro capability s s' h
    cases h
  | succ depth ih =>
    intro capability s s' h
    rw [resolveCapability] at h
    split at h
    · rename_i hpresent
      cases h
      exact ⟨Extends.refl s, fun _ => hpresent⟩
    split at h
    · cases h
      exact ⟨extends_block s _, fun hb => absurd hb (block_ne_nil s _)⟩
    rename_i hactive
    split at h
    · cases h
      exact ⟨(extends_block _ _).leave hactive, fun hb => absurd hb (block_ne_nil _ _)⟩
    rename_i provider place hbest
    obtain ⟨hplace, hprovides⟩ := bestProvider_some hbest
    obtain ⟨s₁, hnative, h⟩ := bind_ok h
    obtain ⟨s₂, hrequirements, h⟩ := bind_ok h
    obtain ⟨s₃, hgroups, h⟩ := bind_ok h
    cases h
    obtain ⟨hconsider, havailable⟩ := consider_spec (s.enter capability) provider
    have h₁ : Extends records application hostArchitecture host ((s.enter capability).consider provider hostArchitecture) s₁ := by
      unfold resolveNative at hnative
      split at hnative
      · exact (ih _ _ _ hnative).1
      · cases hnative
        exact Extends.refl _
    obtain ⟨h₃, hmet⟩ := requirements_spec ih hrequirements hgroups
    have hlater := h₁.trans h₃
    obtain ⟨hemit, hemitted⟩ := emit_spec (s := s₃) hplace hprovides (fun hb => havailable (hlater.unblocked hb)) hmet
    exact ⟨((hconsider.trans hlater).trans hemit).leave hactive, fun _ => .inr hemitted⟩

end Steps

/-! ### The resolution returns -/

section Returns
variable {records : List Descriptor} {hostArchitecture : Bytes} {host : Finset Bytes} {s : Resolution}

/-- The groups of the descriptor can be read. -/
def Parses (d : Descriptor) : Prop :=
  ∀ expression ∈ d.requirementAny, ∃ options, parseCapabilityAlternatives expression = .ok options

theorem validateGroups_parses {source : Bytes} {groups anyGroups : List Bytes}
    (h : validateGroups source anyGroups groups = .ok ()) :
    ∀ expression ∈ groups, ∃ options, parseCapabilityAlternatives expression = .ok options := by
  induction groups generalizing anyGroups with
  | nil => exact fun _ h => absurd h List.not_mem_nil
  | cons group rest ih =>
    rw [validateGroups] at h
    obtain ⟨canonical, hcanonical, h⟩ := bind_ok h
    obtain ⟨-, h⟩ := refused h
    intro expression he
    rcases List.mem_cons.mp he with rfl | he
    · obtain ⟨options, hoptions, -⟩ := bind_ok hcanonical
      exact ⟨options, hoptions⟩
    · exact ih h expression he

theorem validateDescriptor_parses {d : Descriptor} (h : validateDescriptor d = .ok ()) : Parses d := by
  unfold validateDescriptor at h
  obtain ⟨-, h⟩ := refused h
  obtain ⟨-, h⟩ := refused h
  obtain ⟨-, h⟩ := refused h
  obtain ⟨-, h⟩ := refused h
  obtain ⟨-, h⟩ := refused h
  obtain ⟨-, h⟩ := check_ok_iff.mp h
  obtain ⟨-, h⟩ := check_ok_iff.mp h
  exact validateGroups_parses (check_ok_iff.mp h).1

theorem foldlM_returns {α β ε : Type} {P : α → Prop} {step : α → β → Except ε α} {l : List β} {a : α} (ha : P a)
    (hstep : ∀ a, P a → ∀ b ∈ l, ∃ a', step a b = .ok a' ∧ P a') : ∃ a', l.foldlM step a = .ok a' ∧ P a' := by
  induction l generalizing a with
  | nil => exact ⟨a, rfl, ha⟩
  | cons b l ih =>
    obtain ⟨c, hc, hPc⟩ := hstep a ha b List.mem_cons_self
    obtain ⟨a', hrest, hP⟩ := ih hPc fun x hx y hy => hstep x hx y (List.mem_cons_of_mem b hy)
    exact ⟨a', by rw [List.foldlM_cons, hc]; exact hrest, hP⟩

theorem mapM_returns {α β ε : Type} {f : α → Except ε β} {l : List α} (h : ∀ a ∈ l, ∃ b, f a = .ok b) :
    ∃ l', l.mapM f = .ok l' := by
  induction l with
  | nil => exact ⟨[], rfl⟩
  | cons a l ih =>
    obtain ⟨b, hb⟩ := h a List.mem_cons_self
    obtain ⟨rest, hrest⟩ := ih fun x hx => h x (List.mem_cons_of_mem a hx)
    exact ⟨b :: rest, by rw [List.mapM_cons, hb, ok_bind, hrest]; rfl⟩

theorem resolveAlternative_returns {resolve : Bytes → Resolution → Except Stop Resolution} {expression : Bytes}
    (hparse : ∃ options, parseCapabilityAlternatives expression = .ok options)
    (hresolve : ∀ capability, ∃ s', resolve capability s = .ok s') :
    ∃ s', resolveAlternative host resolve expression s = .ok s' := by
  obtain ⟨options, hoptions⟩ := hparse
  have hcanonical : canonicalAlternatives expression = .ok ([124].intercalate options) := by
    unfold canonicalAlternatives
    rw [hoptions]
    rfl
  obtain ⟨attempts, hattempts⟩ : ∃ attempts, options.mapM (tryOption resolve s) = .ok attempts := by
    refine mapM_returns fun option _ => ?_
    obtain ⟨result, hresult⟩ := hresolve option
    unfold tryOption
    rw [hresult]
    exact ⟨_, rfl⟩
  unfold resolveAlternative
  rw [hoptions, hcanonical]
  simp only [orThrow, ok_bind]
  split
  · exact ⟨_, rfl⟩
  · rw [hattempts, ok_bind]
    split
    · exact ⟨_, rfl⟩
    · split <;> exact ⟨_, rfl⟩

/-- What some record provides. -/
def provided (records : List Descriptor) : Finset Bytes := (records.flatMap (·.provides)).toFinset

theorem card_enter_lt {capability : Bytes} (hprovided : capability ∈ provided records) (hactive : capability ∉ s.active) :
    (provided records \ (s.enter capability).active).card < (provided records \ s.active).card := by
  refine Finset.card_lt_card (Finset.ssubset_iff_of_subset ?_ |>.mpr ⟨capability, ?_, ?_⟩)
  · exact Finset.sdiff_subset_sdiff (Finset.Subset.refl _) (Finset.subset_insert _ _)
  · exact Finset.mem_sdiff.mpr ⟨hprovided, hactive⟩
  · exact fun h => (Finset.mem_sdiff.mp h).2 (Finset.mem_insert_self _ _)

theorem requirements_return (application : Descriptor) {resolve : Bytes → Resolution → Except Stop Resolution}
    {active : Finset Bytes} {d : Descriptor} (hspec : Resolves records application hostArchitecture host resolve)
    (hcall : ∀ capability t, t.active = active → ∃ t', resolve capability t = .ok t') (hparse : Parses d)
    (hs : s.active = active) :
    ∃ t u, d.requirements.foldlM (fun s requirement => resolve requirement s) s = .ok t ∧
      d.requirementAny.foldlM (fun s expression => resolveAlternative host resolve expression s) t = .ok u := by
  obtain ⟨t, ht, hactive⟩ : ∃ t, d.requirements.foldlM (fun s requirement => resolve requirement s) s = .ok t ∧
      t.active = active := by
    refine foldlM_returns (P := fun t : Resolution => t.active = active) hs fun t ht capability _ => ?_
    obtain ⟨t', ht'⟩ := hcall capability t ht
    exact ⟨t', ht', ((hspec capability t t' ht').1.active).trans ht⟩
  obtain ⟨u, hu, -⟩ : ∃ u, d.requirementAny.foldlM (fun s expression => resolveAlternative host resolve expression s) t =
      .ok u ∧ u.active = active := by
    refine foldlM_returns (P := fun t : Resolution => t.active = active) hactive fun t ht expression he => ?_
    obtain ⟨t', ht'⟩ := resolveAlternative_returns (hparse expression he) fun capability => hcall capability t ht
    exact ⟨t', ht', ((resolveAlternative_spec hspec ht').1.active).trans ht⟩
  exact ⟨t, u, ht, hu⟩

theorem resolveCapability_returns (application : Descriptor) (hparse : ∀ d ∈ records, Parses d) (depth : Nat) :
    ∀ capability (s : Resolution), (provided records \ s.active).card < depth →
      ∃ s', resolveCapability records hostArchitecture host depth capability s = .ok s' := by
  induction depth with
  | zero => exact fun _ _ h => absurd h (Nat.not_lt_zero _)
  | succ depth ih =>
    intro capability s hcard
    rw [resolveCapability]
    split
    · exact ⟨_, rfl⟩
    split
    · exact ⟨_, rfl⟩
    rename_i hactive
    split
    · exact ⟨_, rfl⟩
    rename_i provider place hbest
    obtain ⟨hplace, hprovides⟩ := bestProvider_some hbest
    have hmem : provider ∈ records := List.mem_of_getElem? hplace
    have hprovided : capability ∈ provided records :=
      List.mem_toFinset.mpr (List.mem_flatMap.mpr ⟨provider, hmem, hprovides⟩)
    have hless : (provided records \ (s.enter capability).active).card < depth :=
      Nat.lt_of_lt_of_le (card_enter_lt hprovided hactive) (Nat.le_of_lt_succ hcard)
    have hcall : ∀ c (t : Resolution), t.active = (s.enter capability).active →
        ∃ t', resolveCapability records hostArchitecture host depth c t = .ok t' :=
      fun c t ht => ih c t (by rw [ht]; exact hless)
    have hspec : Resolves records application hostArchitecture host (resolveCapability records hostArchitecture host depth) :=
      resolveCapability_spec depth
    have hextends : Extends records application hostArchitecture host (s.enter capability)
        ((s.enter capability).consider provider hostArchitecture) := (consider_spec _ provider).1
    have hconsider := hextends.active
    obtain ⟨t, ht, htactive⟩ : ∃ t, resolveNative (resolveCapability records hostArchitecture host depth) capability provider
        ((s.enter capability).consider provider hostArchitecture) = .ok t ∧ t.active = (s.enter capability).active := by
      unfold resolveNative
      split
      · obtain ⟨t, ht⟩ := hcall (ascii "runtime.native") _ hconsider
        exact ⟨t, ht, ((hspec _ _ t ht).1.active).trans hconsider⟩
      · exact ⟨_, rfl, hconsider⟩
    obtain ⟨u, w, hu, hw⟩ := requirements_return application hspec hcall (hparse provider hmem) htactive
    dsimp only
    rw [ht, ok_bind, hu, ok_bind, hw]
    exact ⟨_, rfl⟩

end Returns

/-! ### Plans -/

theorem sound_empty (records : List Descriptor) (application : Descriptor) (hostArchitecture : Bytes) (host : Finset Bytes) :
    Sound records application hostArchitecture host ⟨∅, host, .empty⟩ :=
  ⟨⟨fun _ hr => absurd hr List.not_mem_nil, List.nodup_nil, ordered_nil⟩, fun _ => present_nil.symm⟩

theorem extends_start (records : List Descriptor) (application : Descriptor) (hostArchitecture : Bytes)
    (host : Finset Bytes) : Extends records application hostArchitecture host ⟨∅, host, .empty⟩
      (startResolution hostArchitecture host application) := by
  have hassets : ∀ t : Resolution, Extends records application hostArchitecture host t
      { t with plan := appendAssets application t.plan } := fun t => extends_of_same rfl rfl rfl rfl
  unfold startResolution
  dsimp only
  split
  · exact (extends_block _ _).trans (hassets _)
  · exact hassets _

/-- A plan is made of every catalogue of validated descriptors, and one without blockers is an order in which
    every descriptor finds what it requires: the providers are available and none of them is there twice. -/
theorem makePlan_sound (records : List Descriptor) (application : Descriptor) (hostArchitecture : Bytes) (host : Finset Bytes)
    (hrecords : ∀ d ∈ records, validateDescriptor d = .ok ()) (happlication : validateDescriptor application = .ok ()) :
    ∃ plan, makePlan records hostArchitecture host application = .ok plan ∧
      (plan.blocked = [] → PlanSound records application hostArchitecture host plan.order) := by
  have hparse : ∀ d ∈ records, Parses d := fun d hd => validateDescriptor_parses (hrecords d hd)
  have hspec : Resolves records application hostArchitecture host
      (resolveCapability records hostArchitecture host (resolveDepth records)) := resolveCapability_spec _
  have hstart := extends_start records application hostArchitecture host
  have hcall : ∀ capability (t : Resolution), t.active = ∅ →
      ∃ t', resolveCapability records hostArchitecture host (resolveDepth records) capability t = .ok t' := by
    intro capability t ht
    refine resolveCapability_returns application hparse _ capability t ?_
    rw [ht, Finset.sdiff_empty]
    exact Nat.lt_succ_of_le (List.toFinset_card_le _)
  obtain ⟨s₁, hruntime⟩ := hcall (runtimeCapability application) _ hstart.active
  obtain ⟨h₁, hsupplied⟩ := hspec _ _ s₁ hruntime
  obtain ⟨s₂, s₃, hrequirements, hgroups⟩ := requirements_return application hspec hcall
    (validateDescriptor_parses happlication) (h₁.active.trans hstart.active)
  obtain ⟨h₃, hmet⟩ := requirements_spec hspec hrequirements hgroups
  refine ⟨{ s₃.plan with
    order := s₃.plan.order ++ [.application]
    userAsset := application.delivery = ascii "user-supplied" }, ?_, fun hblocked => ?_⟩
  · unfold makePlan
    dsimp only
    rw [hruntime, ok_bind, hrequirements, ok_bind, hgroups]
    rfl
  have hunblocked : s₃.plan.blocked = [] := hblocked
  have hsound := ((hstart.trans h₁).trans h₃).sound hunblocked (sound_empty records application hostArchitecture host)
  have hneeds : Needs records application .application (InPlan records application host s₃.plan.order) := by
    intro d hd
    obtain rfl := Option.some.inj hd
    exact ⟨hsound.requirementsMet (hmet hunblocked),
      fun _ => hsound.inPlan (h₃.supplied (hsupplied (h₃.unblocked hunblocked)))⟩
  exact ⟨⟨s₃.plan.order, rfl, hsound.toProvidersSound⟩, hsound.ordered.snoc hneeds⟩

/-- The runtime that is part of the kernel. -/
def nativeRuntime : Descriptor where
  schema := ascii "zen-source-1"
  id := ascii "org.zenov.runtime.native"
  version := ascii "0.1.1"
  kind := ascii "runtime"
  platform := ascii "zenov"
  architecture := ascii "x86"
  artifact := ascii "runtime-bundle"
  delivery := ascii "builtin"
  runtime := ascii "native"
  availability := ascii "available"
  entrypoint := ascii "@kernel-loader"
  channel := ascii "stable"
  category := ascii "runtime"
  license := ascii "BSD-2-Clause"
  description := ascii "Native runtime"
  homepage := ascii "https://zenov.org/"
  sha := ascii "-"
  providerAbi := ascii "zen-runtime-provider-1"
  launchMode := ascii "builtin"
  bytes := 0
  mirrors := []
  requirements := [ascii "loader.elf32-static"]
  requirementAny := []
  provides := [ascii "runtime.native"]
  assets := []
  accepts := [ascii "zex1"]
  launchArgs := []
  source := ascii "native.zsource"

/-- A game that needs the native runtime, and one of two ways to draw. -/
def sampleGame : Descriptor where
  schema := ascii "zen-source-1"
  id := ascii "org.zenov.snake"
  version := ascii "1.0"
  kind := ascii "game"
  platform := ascii "zenov"
  architecture := ascii "any"
  artifact := ascii "zpk"
  delivery := ascii "user-supplied"
  runtime := ascii "native"
  availability := ascii "available"
  entrypoint := ascii "/data/apps/snake.zex"
  channel := ascii "stable"
  category := ascii "games"
  license := ascii "MIT"
  description := ascii "Snake"
  homepage := ascii "https://zenov.org/"
  sha := ascii "-"
  providerAbi := []
  launchMode := []
  bytes := 0
  mirrors := []
  requirements := [ascii "input.keyboard"]
  requirementAny := [ascii "graphics.vulkan|graphics.framebuffer"]
  provides := []
  assets := []
  accepts := []
  launchArgs := []
  source := ascii "snake.zsource"

def sampleHost : Finset Bytes :=
  {ascii "input.keyboard", ascii "graphics.framebuffer", ascii "loader.elf32-static"}

theorem makePlan_sound_sample :
    validateDescriptor nativeRuntime = .ok () ∧ validateDescriptor sampleGame = .ok () ∧
      ∃ plan, makePlan [nativeRuntime] (ascii "x86") sampleHost sampleGame = .ok plan ∧
        (plan.blocked = [] → PlanSound [nativeRuntime] sampleGame (ascii "x86") sampleHost plan.order) := by
  have hnative : validateDescriptor nativeRuntime = .ok () := by decide +kernel
  have hgame : validateDescriptor sampleGame = .ok () := by decide +kernel
  have hrecords : ∀ d ∈ [nativeRuntime], validateDescriptor d = .ok () := by
    intro d hd
    obtain rfl := List.mem_singleton.mp hd
    exact hnative
  exact ⟨hnative, hgame, makePlan_sound [nativeRuntime] sampleGame (ascii "x86") sampleHost hrecords hgame⟩

/-- The plan of the sample is not blocked: the runtime comes first. -/
example : (makePlan [nativeRuntime] (ascii "x86") sampleHost sampleGame).toOption.map (fun plan => (plan.blocked, plan.order)) =
    some ([], [.record 0, .application]) := by decide +kernel

end ZenovOS.Zenuniverse
