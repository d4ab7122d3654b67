import Mathlib.Data.Finset.Basic
import ZenovOS.Tools.Zenuniverse.Descriptor

/-! # The resolver of the package universe

`best_provider`, `resolve_alternative`, `resolve_capability` and `make_plan` of `resolver.hpp`. A pointer to a
descriptor is its place in the catalogue, or the application. The recursion of `resolve_capability` is bounded by
a number of calls in each other. -/

namespace ZenovOS.Zenuniverse
open Bytes

structure AlternativeDecision where
  expression : Bytes
  selected : Bytes
  satisfied : Bool
  deriving DecidableEq

/-- `const Descriptor*`. -/
inductive DescriptorRef
  | record (index : Nat)
  | application
  deriving DecidableEq

structure Plan where
  order : List DescriptorRef
  blocked : List Bytes
  diagnostics : List Bytes
  alternatives : List AlternativeDecision
  requiredAssets : Finset Bytes
  userAsset : Bool
  deriving DecidableEq

def Plan.empty : Plan := ⟨[], [], [], [], ∅, false⟩

def appendAssets (descriptor : Descriptor) (plan : Plan) : Plan :=
  { plan with requiredAssets := plan.requiredAssets ∪ descriptor.assets.toFinset }

def appendBlocker (plan : Plan) (reason : Bytes) : Plan :=
  if reason ∈ plan.blocked then plan else { plan with blocked := plan.blocked ++ [reason] }

def appendDiagnostic (plan : Plan) (message : Bytes) : Plan :=
  if message ∈ plan.diagnostics then plan else { plan with diagnostics := plan.diagnostics ++ [message] }

/-! ### The best provider -/

def architectureRank (descriptor : Descriptor) (hostArchitecture : Bytes) : Nat :=
  if descriptor.architecture = hostArchitecture then 2 else if descriptor.architecture = ascii "any" then 1 else 0

def availabilityRank (descriptor : Descriptor) : Nat :=
  if descriptor.availability = ascii "available" then 2 else if descriptor.availability = ascii "external" then 1 else 0

def deliveryRank (descriptor : Descriptor) : Nat :=
  if descriptor.delivery = ascii "builtin" ∨ descriptor.delivery = ascii "embedded" ∨ descriptor.delivery = ascii "https" then 2
  else if descriptor.delivery = ascii "user-supplied" then 1
  else 0

/-- The array that `best_provider` compares, entry by entry. -/
def providerScore (descriptor : Descriptor) (hostArchitecture : Bytes) : List Nat :=
  [architectureRank descriptor hostArchitecture, availabilityRank descriptor, deliveryRank descriptor]

/-- `descriptor` takes the place of `best`. -/
def improves (hostArchitecture : Bytes) (descriptor best : Descriptor) : Bool :=
  let currentScore := providerScore descriptor hostArchitecture
  let bestScore := providerScore best hostArchitecture
  bestScore < currentScore || (currentScore = bestScore && versionLess best descriptor) ||
    (currentScore = bestScore && !versionLess descriptor best && !versionLess best descriptor && descriptor.id < best.id)

/-- A round of the loop of `best_provider`; a candidate is a descriptor with its place. -/
def betterProvider (capability hostArchitecture : Bytes) (best : Option (Descriptor × Nat)) (candidate : Descriptor × Nat) :
    Option (Descriptor × Nat) :=
  if capability ∉ candidate.1.provides then best
  else
    match best with
    | none => some candidate
    | some current => if improves hostArchitecture candidate.1 current.1 then some candidate else some current

def bestProvider (capability : Bytes) (records : List Descriptor) (hostArchitecture : Bytes) : Option (Descriptor × Nat) :=
  records.zipIdx.foldl (betterProvider capability hostArchitecture) none

/-! ### Resolution -/

/-- The sets and the plan that the resolution changes. -/
structure Resolution where
  active : Finset Bytes
  emitted : Finset Bytes
  plan : Plan

/-- Why a resolution does not return: an error is thrown, or the calls in each other are too many. -/
inductive Stop
  | thrown (text : Bytes)
  | depth
  deriving DecidableEq

def orThrow {α : Type} : Except Bytes α → Except Stop α
  | .ok a => .ok a
  | .error text => .error (.thrown text)

namespace Resolution

def block (s : Resolution) (reason : Bytes) : Resolution := { s with plan := appendBlocker s.plan reason }

def decided (s : Resolution) (decision : AlternativeDecision) : Resolution :=
  { s with plan := { s.plan with alternatives := s.plan.alternatives ++ [decision] } }

def enter (s : Resolution) (capability : Bytes) : Resolution := { s with active := insert capability s.active }

def leave (s : Resolution) (capability : Bytes) : Resolution := { s with active := s.active.erase capability }

/-- The checks of a provider that block the plan, and its assets. -/
def consider (s : Resolution) (provider : Descriptor) (hostArchitecture : Bytes) : Resolution :=
  let s :=
    if provider.architecture ≠ ascii "any" ∧ provider.architecture ≠ hostArchitecture then
      s.block (ascii "provider architecture mismatch: provider=" ++ provider.id ++ ascii " package=" ++
        provider.architecture ++ ascii " host=" ++ hostArchitecture)
    else s
  let s :=
    if provider.availability ≠ ascii "available" then
      s.block (ascii "provider not available yet: " ++ provider.id ++ ascii " (" ++ provider.availability ++ ascii ")")
    else s
  { s with plan := appendAssets provider s.plan }

/-- The provider goes into the order, unless its capability is there by now. -/
def emit (s : Resolution) (capability : Bytes) (provider : Descriptor) (place : Nat) : Resolution :=
  if capability ∈ s.emitted then s
  else
    let order := s.plan.order
    { s with
      emitted := s.emitted ∪ provider.provides.toFinset
      plan := { s.plan with order := if .record place ∈ order then order else order ++ [.record place] } }

end Resolution

/-- An option that was tried on a copy of the sets and the plan. -/
structure Attempt where
  option : Bytes
  result : Resolution
  addedBlockers : Nat
  addedPackages : Nat

/-- The order of `std::min_element`. -/
def Attempt.less (left right : Attempt) : Bool :=
  if left.addedBlockers ≠ right.addedBlockers then left.addedBlockers < right.addedBlockers
  else if left.addedPackages ≠ right.addedPackages then left.addedPackages < right.addedPackages
  else left.option < right.option

/-- `std::min_element`: the first of the least. -/
def Attempt.best : List Attempt → Option Attempt
  | [] => none
  | first :: rest => some (rest.foldl (fun least attempt => if attempt.less least then attempt else least) first)

/-- The diagnostic of a rejected option. -/
def Attempt.diagnose (plan : Plan) (attempt : Attempt) : Plan :=
  appendDiagnostic plan (ascii "alternative " ++ attempt.option ++ ascii " rejected: " ++
    attempt.result.plan.blocked.getLast?.getD (ascii "unresolved"))

/-- No option could be resolved. -/
def Resolution.reject (s : Resolution) (canonical : Bytes) (attempts : List Attempt) : Resolution :=
  let s := s.block (ascii "no satisfiable capability alternative: " ++ canonical)
  let s := { s with plan := attempts.foldl Attempt.diagnose s.plan }
  s.decided ⟨canonical, ascii "-", false⟩

section Resolve
variable (records : List Descriptor) (hostArchitecture : Bytes) (host : Finset Bytes)

/-- Try an option. -/
def tryOption (resolve : Bytes → Resolution → Except Stop Resolution) (s : Resolution) (option : Bytes) :
    Except Stop Attempt := do
  let result ← resolve option s
  pure ⟨option, result, result.plan.blocked.length - s.plan.blocked.length, result.plan.order.length - s.plan.order.length⟩

/-- `resolve_alternative`, where `resolve` is the call of `resolve_capability`. -/
def resolveAlternative (resolve : Bytes → Resolution → Except Stop Resolution) (expression : Bytes) (s : Resolution) :
    Except Stop Resolution := do
  let options ← orThrow (parseCapabilityAlternatives expression)
  let canonical ← orThrow (canonicalAlternatives expression)
  match options.find? fun option => option ∈ host ∨ option ∈ s.emitted with
  | some option => pure (s.decided ⟨canonical, option, true⟩)
  | none => do
    let attempts ← options.mapM (tryOption resolve s)
    match Attempt.best attempts with
    | none => pure (s.reject canonical attempts)
    | some best =>
      if best.addedBlockers = 0 then pure (best.result.decided ⟨canonical, best.option, true⟩)
      else pure (s.reject canonical attempts)

/-- A provider that is a runtime and runs natively needs the native runtime. -/
def needsNative (capability : Bytes) (provider : Descriptor) : Bool :=
  capability ≠ ascii "runtime.native" && provider.kind = ascii "runtime" && provider.runtime = ascii "native"

def resolveNative (resolve : Bytes → Resolution → Except Stop Resolution) (capability : Bytes) (provider : Descriptor)
    (s : Resolution) : Except Stop Resolution :=
  if needsNative capability provider then resolve (ascii "runtime.native") s else .ok s

/-- `resolve_capability`, with the number of calls in each other that are left. -/
def resolveCapability : Nat → Bytes → Resolution → Except Stop Resolution
  | 0, _, _ => .error .depth
  | depth + 1, capability, s =>
    if capability ∈ host ∨ capability ∈ s.emitted then .ok s
    else if capability ∈ s.active then .ok (s.block (ascii "dependency cycle at " ++ capability))
    else
      let s := s.enter capability
      match bestProvider capability records hostArchitecture with
      | none => .ok ((s.block (ascii "missing capability provider: " ++ capability)).leave capability)
      | some (provider, place) => do
        let s := s.consider provider hostArchitecture
        let s ← resolveNative (resolveCapability depth) capability provider s
        let s ← provider.requirements.foldlM (fun s requirement => resolveCapability depth requirement s) s
        let s ← provider.requirementAny.foldlM
          (fun s expression => resolveAlternative host (resolveCapability depth) expression s) s
        pure ((s.emit capability provider place).leave capability)

/-- As many calls as there are capabilities to be active, and one more. -/
def resolveDepth : Nat := (records.flatMap (·.provides)).length + 1

/-- `make_plan` before it resolves anything. -/
def startResolution (application : Descriptor) : Resolution :=
  let s : Resolution := ⟨∅, host, .empty⟩
  let s :=
    if application.architecture ≠ ascii "any" ∧ application.architecture ≠ hostArchitecture then
      s.block (ascii "architecture mismatch: package=" ++ application.architecture ++ ascii " host=" ++ hostArchitecture)
    else s
  { s with plan := appendAssets application s.plan }

def makePlan (application : Descriptor) : Except Stop Plan := do
  let resolve := resolveCapability records hostArchitecture host (resolveDepth records)
  let s ← resolve (runtimeCapability application) (startResolution hostArchitecture host application)
  let s ← application.requirements.foldlM (fun s requirement => resolve requirement s) s
  let s ← application.requirementAny.foldlM (fun s expression => resolveAlternative host resolve expression s) s
  pure { s.plan with
    order := s.plan.order ++ [.application]
    userAsset := application.delivery = ascii "user-supplied" }

end Resolve
end ZenovOS.Zenuniverse
