import ZenovOS.Security.RansomwarePolicy
import ZenovOS.Theorems.Security.Guard

/-! # The budget of a writer

An account says what a program was allowed to change since its window began and whether it was denied
something. The mutation window of the guard is that account, over every run whose calls are charged once and
whose denials are recorded. -/

namespace ZenovOS.Security
open Bytes Storage Mach
open Ransomware (Operation RuntimePolicy MutationWindow)

/-! ### Accounts -/

structure Account where
  actor : Bytes
  digest : Bytes
  started : Nat
  writes : Nat
  renames : Nat
  removes : Nat
  bytes : Nat
  denied : Bool

namespace Account

/-- The account on which a program's call at a tick goes: the one there is, unless it is another program's or has
    expired. -/
def opened (policy : RuntimePolicy) (account : Option Account) (tick : Nat) (actor digest : Bytes) : Account :=
  let fresh : Account := ⟨actor, digest, tick, 0, 0, 0, 0, false⟩
  match account with
  | none => fresh
  | some a => if a.actor = actor ∧ a.digest = digest ∧ (tick + 2 ^ 32 - a.started) % 2 ^ 32 < policy.windowTicks then a else fresh

/-- The account after a call that was allowed or denied. -/
def after (a : Account) (operation : Operation) (bytes : Nat) (allowed : Bool) : Account :=
  if allowed then
    { a with
      writes := a.writes + if operation = .write then 1 else 0
      renames := a.renames + if operation = .rename then 1 else 0
      removes := a.removes + if operation = .remove then 1 else 0
      bytes := a.bytes + bytes }
  else { a with denied := true }

/-- The window that stands for the account. -/
def window (a : Account) : MutationWindow := ⟨true, a.denied, a.actor, a.digest, a.started, a.writes, a.renames, a.removes, a.bytes⟩

/-- What was allowed is within the budgets, and in 32 bits. -/
structure Within (a : Account) (policy : RuntimePolicy) : Prop where
  writes : a.writes ≤ policy.maxWrites ∧ a.writes ≤ u32Max
  renames : a.renames ≤ policy.maxRenames ∧ a.renames ≤ u32Max
  removes : a.removes ≤ policy.maxRemoves ∧ a.removes ≤ u32Max
  bytes : a.bytes ≤ policy.maxBytes ∧ a.bytes ≤ u32Max

end Account

/-- The guard's window is the account's. -/
def Agrees (s : GuardState) : Option Account → Prop
  | none => s.zrwp.mutationWindow.valid = false
  | some a => s.zrwp.mutationWindow = a.window ∧ a.Within s.zrwp.active

section Window
variable {policy : RuntimePolicy} {a : Account} {tick bytes : Nat} {actor digest : Bytes} {operation : Operation}

theorem ensureWindow_account :
    Ransomware.ensureWindow policy a.window tick actor digest = (Account.opened policy (some a) tick actor digest).window := by
  have hlive : (!(a.window.valid && a.window.actor = actor && a.window.digest = digest) ||
      a.window.valid && policy.windowTicks ≤ (tick + 2 ^ 32 - a.window.started) % 2 ^ 32) = true ↔
      ¬(a.actor = actor ∧ a.digest = digest ∧ (tick + 2 ^ 32 - a.started) % 2 ^ 32 < policy.windowTicks) := by
    have hvalid : a.window.valid = true := rfl
    simp only [hvalid, Bool.true_and, Bool.or_eq_true, Bool.not_eq_true', Bool.and_eq_false_iff, decide_eq_false_iff_not,
      decide_eq_true_eq, not_and_or, Nat.not_lt, or_assoc]
    exact Iff.rfl
  unfold Ransomware.ensureWindow Account.opened
  dsimp only
  split
  · rename_i hover
    rw [if_neg (hlive.mp hover)]
    rfl
  · rename_i hopen
    rw [if_pos (not_not.mp fun h => hopen (hlive.mpr h))]

theorem ensureWindow_invalid {window : MutationWindow} (h : window.valid = false) :
    Ransomware.ensureWindow policy window tick actor digest = (Account.opened policy none tick actor digest).window := by
  unfold Ransomware.ensureWindow
  rw [h]
  rfl

theorem opened_within {account : Option Account} (h : ∀ a, account = some a → a.Within policy) :
    (Account.opened policy account tick actor digest).Within policy := by
  have hfresh : ∀ started, (⟨actor, digest, started, 0, 0, 0, 0, false⟩ : Account).Within policy := fun _ =>
    ⟨⟨Nat.zero_le _, Nat.zero_le _⟩, ⟨Nat.zero_le _, Nat.zero_le _⟩, ⟨Nat.zero_le _, Nat.zero_le _⟩, ⟨Nat.zero_le _, Nat.zero_le _⟩⟩
  cases account with
  | none => exact hfresh tick
  | some a =>
    unfold Account.opened
    dsimp only
    split
    · exact h a rfl
    · exact hfresh tick

theorem count_room {value n : Nat} (hn : (Ransomware.count value n).2 = false) (hv : value ≤ u32Max) :
    (Ransomware.count value n).1 = value + n ∧ value + n ≤ u32Max := by
  unfold Ransomware.count at hn ⊢
  split at hn
  · cases hn
  · rename_i hroom
    rw [if_neg hroom]
    exact ⟨rfl, by omega⟩

theorem reason_none {window : MutationWindow} (h : Ransomware.reason policy window actor digest operation bytes = none) :
    window.locked = false ∧ Ransomware.overflows window operation bytes = false ∧
      (Ransomware.charge window operation bytes).writes ≤ policy.maxWrites ∧
      (Ransomware.charge window operation bytes).renames ≤ policy.maxRenames ∧
      (Ransomware.charge window operation bytes).removes ≤ policy.maxRemoves ∧
      (Ransomware.charge window operation bytes).bytes ≤ policy.maxBytes := by
  unfold Ransomware.reason at h
  dsimp only at h
  split at h
  · cases h
  split at h
  · cases h
  rename_i hlocked
  split at h
  · cases h
  rename_i hover
  split at h
  · cases h
  rename_i hwrites
  split at h
  · cases h
  rename_i hrenames
  split at h
  · cases h
  rename_i hremoves
  split at h
  · cases h
  rename_i hbytes
  exact ⟨Bool.eq_false_iff.mpr hlocked, Bool.eq_false_iff.mpr hover, Nat.not_lt.mp hwrites, Nat.not_lt.mp hrenames,
    Nat.not_lt.mp hremoves, Nat.not_lt.mp hbytes⟩

theorem charge_account (h : a.Within policy) (hreason : Ransomware.reason policy a.window actor digest operation bytes = none) :
    Ransomware.charge a.window operation bytes = (a.after operation bytes true).window ∧ (a.after operation bytes true).Within policy := by
  obtain ⟨-, hover, hwrites, hrenames, hremoves, hbytes⟩ := reason_none hreason
  unfold Ransomware.overflows at hover
  simp only [Bool.or_eq_false_iff] at hover
  obtain ⟨⟨⟨hover₁, hover₂⟩, hover₃⟩, hover₄⟩ := hover
  obtain ⟨hw, hw'⟩ := count_room hover₁ h.writes.2
  obtain ⟨hn, hn'⟩ := count_room hover₂ h.renames.2
  obtain ⟨hm, hm'⟩ := count_room hover₃ h.removes.2
  obtain ⟨hb, hb'⟩ := count_room hover₄ h.bytes.2
  have hcharge : Ransomware.charge a.window operation bytes = (a.after operation bytes true).window := by
    unfold Ransomware.charge
    rw [hw, hn, hm, hb]
    rfl
  rw [hcharge] at hwrites hrenames hremoves hbytes
  exact ⟨hcharge, ⟨hwrites, hw'⟩, ⟨hrenames, hn'⟩, ⟨hremoves, hm'⟩, ⟨hbytes, hb'⟩⟩

theorem reason_denied (h : a.denied = true) : Ransomware.reason policy a.window actor digest operation bytes ≠ none := fun hnone => by
  have hlocked : a.window.locked = false := (reason_none hnone).1
  rw [show a.window.locked = true from h] at hlocked
  cases hlocked

theorem agrees_after {s s' : GuardState} {account : Option Account} (h : Agrees s account)
    (hactive : s'.zrwp.active = s.zrwp.active) {r : Bool}
    (hout : (Ransomware.reason s.zrwp.active (Ransomware.ensureWindow s.zrwp.active s.zrwp.mutationWindow s.timerTicks actor digest) actor
          digest operation bytes = none ∧ r = true ∧ s'.zrwp.mutationWindow = Ransomware.charge
            (Ransomware.ensureWindow s.zrwp.active s.zrwp.mutationWindow s.timerTicks actor digest) operation bytes) ∨
      (r = false ∧ s'.zrwp.mutationWindow =
        { Ransomware.ensureWindow s.zrwp.active s.zrwp.mutationWindow s.timerTicks actor digest with locked := true })) :
    Agrees s' (some ((Account.opened s.zrwp.active account s.timerTicks actor digest).after operation bytes r)) := by
  have hopened : Ransomware.ensureWindow s.zrwp.active s.zrwp.mutationWindow s.timerTicks actor digest =
        (Account.opened s.zrwp.active account s.timerTicks actor digest).window ∧
      (Account.opened s.zrwp.active account s.timerTicks actor digest).Within s.zrwp.active := by
    cases account with
    | none => exact ⟨ensureWindow_invalid h, opened_within fun a ha => nomatch ha⟩
    | some a =>
      refine ⟨?_, opened_within fun b hb => Option.some.inj hb ▸ h.2⟩
      rw [h.1]
      exact ensureWindow_account
  obtain ⟨hwindow, hwithin⟩ := hopened
  rw [hwindow] at hout
  unfold Agrees
  dsimp only
  rw [hactive]
  rcases hout with ⟨hreason, rfl, hcharged⟩ | ⟨rfl, hlocked⟩
  · obtain ⟨hcharge, hafter⟩ := charge_account hwithin hreason
    exact ⟨hcharged.trans hcharge, hafter⟩
  · exact ⟨hlocked, hwithin.writes, hwithin.renames, hwithin.removes, hwithin.bytes⟩

end Window

/-! ### Calls -/

inductive Call
  | write (path : Bytes) (bytes : Nat)
  | copy (destination : Bytes) (bytes : Nat)
  | rename (source destination : Bytes)
  | remove (path : Bytes)

namespace Call

def run : Call → Mach GuardState Bool
  | write path bytes => authorizeWrite path bytes
  | copy destination bytes => authorizeCopy destination bytes
  | rename source destination => authorizeRename source destination
  | remove path => authorizeRemove path

def operation : Call → Operation
  | write _ _ => .write
  | copy _ _ => .write
  | rename _ _ => .rename
  | remove _ => .remove

def bytes : Call → Nat
  | write _ bytes => bytes
  | copy _ bytes => bytes
  | rename _ _ => 0
  | remove _ => 0

end Call

/-- The path names one that the policy protects against the operation. -/
def touchesPath (s : GuardState) (path : Bytes) (operation : Operation) : Bool :=
  (normalizePath s.volume.currentDirectory path).any fun n => Ransomware.protectedOperation s.zrwp.active n operation

namespace Call

/-- The call touches a protected path; without two paths there is no rename. -/
def touches (s : GuardState) : Call → Bool
  | write path _ => touchesPath s path .write
  | copy destination _ => touchesPath s destination .write
  | rename source destination =>
    (normalizePath s.volume.currentDirectory source).isSome && (normalizePath s.volume.currentDirectory destination).isSome &&
      (touchesPath s source .rename || touchesPath s destination .rename)
  | remove path => touchesPath s path .remove

/-- The account after the call. Calls of the kernel's shell, where no program runs, are on no account. -/
def account (s : GuardState) (c : Call) (before : Option Account) (allowed : Bool) : Option Account :=
  match s.actor with
  | none => before
  | some (actor, digest) =>
    if s.zrwp.ready && c.touches s then
      some ((Account.opened s.zrwp.active before s.timerTicks actor digest).after c.operation c.bytes allowed)
    else before

end Call

/-- The policy has nothing against one more such operation of the program. -/
def Clear (s : GuardState) (actor digest : Bytes) (operation : Operation) (bytes : Nat) : Prop :=
  Ransomware.reason s.zrwp.active (Ransomware.ensureWindow s.zrwp.active s.zrwp.mutationWindow s.timerTicks actor digest) actor digest
    operation bytes = none

/-- The audit journal takes the record of a denial. -/
def Recorded (s : GuardState) (n digest : Bytes) : Prop :=
  ∀ t : GuardState, t.volume = s.volume → t.audit = s.audit → t.timerTicks = s.timerTicks →
    (recordEvent .ransomware ⟨.untrusted, n, digest⟩ t).1 ≠ some false

/-- A denial of the operation on a protected path would be recorded. -/
def Answered (s : GuardState) (actor digest path : Bytes) (operation : Operation) (bytes : Nat) : Prop :=
  ∀ n, normalizePath s.volume.currentDirectory path = some n → Ransomware.protectedOperation s.zrwp.active n operation = true →
    ¬Clear s actor digest operation bytes → Recorded s n digest

/-- The rename of a normalised path is put to the policy as the rename of a path that is protected too. -/
def Answered.Renamed (s : GuardState) (actor digest normalized : Bytes) : Prop :=
  Ransomware.protectedOperation s.zrwp.active normalized .rename = true →
    touchesPath s normalized .rename = true ∧ Answered s actor digest normalized .rename 0

/-- The call is charged once, and its denial is recorded: of a rename only one path is protected, or the first one is
    refused; and a path that is normalised once more is still protected. -/
def Call.Regular (s : GuardState) (actor digest : Bytes) : Call → Prop
  | .write path bytes => Answered s actor digest path .write bytes
  | .copy destination bytes => Answered s actor digest destination .write bytes
  | .remove path => Answered s actor digest path .remove 0
  | .rename source destination => ∀ a b, normalizePath s.volume.currentDirectory source = some a →
      normalizePath s.volume.currentDirectory destination = some b →
      Answered.Renamed s actor digest a ∧
      if Ransomware.protectedOperation s.zrwp.active a .rename then
        Ransomware.protectedOperation s.zrwp.active b .rename = true → ¬Clear s actor digest .rename 0
      else Answered.Renamed s actor digest b

/-- What a call of a program on a protected path does to the policy's state. -/
def Outcome (s : GuardState) (actor digest : Bytes) (operation : Operation) (bytes : Nat) (r : Bool) (z : Ransomware.State) : Prop :=
  let window := Ransomware.ensureWindow s.zrwp.active s.zrwp.mutationWindow s.timerTicks actor digest
  (Clear s actor digest operation bytes ∧ r = true ∧
    z = { s.zrwp with mutationWindow := Ransomware.charge window operation bytes }) ∨
  (¬Clear s actor digest operation bytes ∧ r = false ∧ z = { s.zrwp with mutationWindow := { window with locked := true } })

section Calls
variable {s : GuardState} {actor digest path : Bytes} {operation : Operation} {bytes : Nat} {c : Call}

theorem recordEvent_zrwp {action : AuditAction} {result : ScanResult} :
    wp (recordEvent action result) (fun _ s' => s'.zrwp = s.zrwp) (fun _ => True) s := by
  unfold recordEvent
  rw [wp_bind, wp_get]
  refine Audit.record_rule (fun _ _ _ h => h) (fun data _ => ?_) rfl
  unfold writeVolumeFile onJournal
  rw [wp_bind, wp_zoom]
  exact wp_always (fun _ _ => rfl) fun _ => trivial

theorem authorize_outcome (hblock : s.zrwp.active.block = true) (hready : s.zrwp.ready = true) (hactor : s.actor = some (actor, digest))
    (htouch : touchesPath s path operation = true) (hanswer : Answered s actor digest path operation bytes) :
    wp (authorize path operation bytes) (fun r s' => Outcome s actor digest operation bytes r s'.zrwp) (fun _ => True) s := by
  obtain ⟨n, hn, hprot⟩ := (Option.any_eq_true ..).mp htouch
  unfold authorize
  rw [wp_bind, wp_get, hready, hn]
  dsimp only
  unfold note
  rw [hprot, hactor]
  simp only [Bool.not_true, Bool.false_eq_true, if_false]
  rw [wp_bind, wp_modify]
  unfold setWindow
  rw [wp_bind, wp_modify]
  unfold chargeActor
  rw [wp_bind, wp_get]
  dsimp only
  cases hreason : Ransomware.reason s.zrwp.active
      (Ransomware.ensureWindow s.zrwp.active s.zrwp.mutationWindow s.timerTicks actor digest) actor digest operation bytes with
  | none => exact .inl ⟨hreason, rfl, rfl⟩
  | some text =>
    have hnot : ¬Clear s actor digest operation bytes := fun h => by
      rw [Clear, hreason] at h
      cases h
    dsimp only
    rw [hblock]
    rw [wp_bind]
    refine wp_mono (wp_and recordEvent_zrwp (wp_self _ _)) (fun ok s' h => ?_) fun _ _ => trivial
    obtain ⟨hz, hrun⟩ := h
    have hok : ok = true := by
      by_contra hno
      rw [Bool.eq_false_iff.mpr hno] at hrun
      exact absurd (congrArg Prod.fst hrun) (hanswer n hn hprot hnot _ rfl rfl rfl)
    rw [hok]
    refine .inr ⟨hnot, rfl, ?_⟩
    show (⟨s'.zrwp.ready, s'.zrwp.active, _⟩ : Ransomware.State) = _
    rw [hz]

theorem authorize_aside (h : s.zrwp.ready = false ∨ s.actor = none ∨ touchesPath s path operation = false) :
    wp (authorize path operation bytes) (fun r s' => s'.zrwp = s.zrwp ∧ s'.actor = s.actor ∧ (s.zrwp.ready = false → r = false))
      (fun _ => True) s := by
  unfold authorize
  rw [wp_bind, wp_get]
  refine wp_ite (fun _ => ⟨rfl, rfl, fun _ => rfl⟩) fun hready => ?_
  have hready : s.zrwp.ready = true := by simpa using hready
  have hoff : ∀ r, s.zrwp.ready = false → r = false := fun r hr => absurd (hready.symm.trans hr) (by decide)
  cases hn : normalizePath s.volume.currentDirectory path with
  | none => exact ⟨rfl, rfl, hoff _⟩
  | some n =>
    dsimp only
    unfold note
    rw [wp_bind, wp_modify]
    refine wp_ite (fun _ => ⟨rfl, rfl, hoff _⟩) fun hprot => ?_
    have hnone : s.actor = none := by
      rcases h with hno | hnone | hclean
      · exact absurd (hready.symm.trans hno) (by decide)
      · exact hnone
      · rw [touchesPath, hn] at hclean
        exact absurd (by rw [show Ransomware.protectedOperation s.zrwp.active n operation = false from hclean]; rfl) hprot
    rw [hnone]
    exact ⟨rfl, rfl, hoff _⟩

theorem touches_rename {source destination : Bytes} :
    (Call.rename source destination).touches s =
      match normalizePath s.volume.currentDirectory source, normalizePath s.volume.currentDirectory destination with
      | some a, some b =>
        Ransomware.protectedOperation s.zrwp.active a .rename || Ransomware.protectedOperation s.zrwp.active b .rename
      | _, _ => false := by
  rw [Call.touches, touchesPath, touchesPath]
  cases normalizePath s.volume.currentDirectory source with
  | none => rfl
  | some a => cases normalizePath s.volume.currentDirectory destination <;> rfl

theorem authorizeRenamed_outcome (hblock : s.zrwp.active.block = true) (hready : s.zrwp.ready = true)
    (hactor : s.actor = some (actor, digest)) {n : Bytes} (hprot : Ransomware.protectedOperation s.zrwp.active n .rename = true)
    (hanswer : Answered.Renamed s actor digest n) :
    wp (authorizeRenamed n) (fun r s' => Outcome s actor digest .rename 0 r s'.zrwp) (fun _ => True) s := by
  obtain ⟨htouch, hanswer⟩ := hanswer hprot
  unfold authorizeRenamed
  rw [wp_bind, wp_get, if_pos hprot]
  exact authorize_outcome hblock hready hactor htouch hanswer

theorem authorizeRenamed_open {n : Bytes} {Q : Bool → GuardState → Prop} {C : GuardState → Prop}
    (hopen : ¬Ransomware.protectedOperation s.zrwp.active n .rename = true) (hQ : Q true s) : wp (authorizeRenamed n) Q C s := by
  unfold authorizeRenamed
  rw [wp_bind, wp_get, if_neg hopen]
  exact hQ

theorem authorizeRename_outcome {source destination : Bytes} (hblock : s.zrwp.active.block = true) (hready : s.zrwp.ready = true)
    (hactor : s.actor = some (actor, digest)) (htouch : (Call.rename source destination).touches s = true)
    (hregular : (Call.rename source destination).Regular s actor digest) :
    wp (authorizeRename source destination) (fun r s' => Outcome s actor digest .rename 0 r s'.zrwp) (fun _ => True) s := by
  rw [touches_rename] at htouch
  cases ha : normalizePath s.volume.currentDirectory source with
  | none =>
    rw [ha] at htouch
    cases htouch
  | some a =>
    cases hb : normalizePath s.volume.currentDirectory destination with
    | none =>
      rw [ha, hb] at htouch
      cases htouch
    | some b =>
      obtain ⟨hfirst, hsecond⟩ := hregular a b ha hb
      rw [ha, hb] at htouch
      unfold authorizeRename
      rw [wp_bind, wp_get, ha, hb]
      dsimp only
      rw [wp_bind]
      by_cases hprot : Ransomware.protectedOperation s.zrwp.active a .rename = true
      · rw [if_pos hprot] at hsecond
        refine wp_mono (authorizeRenamed_outcome hblock hready hactor hprot hfirst) (fun r s' h => ?_) fun _ _ => trivial
        rcases h with ⟨hclear, rfl, hz⟩ | ⟨hnot, rfl, hz⟩
        · -- the source is charged, so the destination is not protected
          have hopen : ¬Ransomware.protectedOperation s'.zrwp.active b .rename = true := by
            rw [hz]
            exact fun hb => hsecond hb hclear
          exact authorizeRenamed_open hopen (.inl ⟨hclear, rfl, hz⟩)
        · exact .inr ⟨hnot, rfl, hz⟩
      · rw [if_neg hprot] at hsecond
        refine authorizeRenamed_open hprot ?_
        have hprot' : Ransomware.protectedOperation s.zrwp.active b .rename = true := by
          simpa [Bool.eq_false_iff.mpr hprot] using htouch
        exact authorizeRenamed_outcome hblock hready hactor hprot' hsecond

theorem Call.run_outcome (hblock : s.zrwp.active.block = true) (hready : s.zrwp.ready = true) (hactor : s.actor = some (actor, digest))
    (htouch : c.touches s = true) (hregular : c.Regular s actor digest) :
    wp c.run (fun r s' => Outcome s actor digest c.operation c.bytes r s'.zrwp) (fun _ => True) s := by
  cases c with
  | write path bytes => exact authorize_outcome hblock hready hactor htouch hregular
  | copy destination bytes => exact authorize_outcome hblock hready hactor htouch hregular
  | rename source destination => exact authorizeRename_outcome hblock hready hactor htouch hregular
  | remove path => exact authorize_outcome hblock hready hactor htouch hregular

theorem authorizeRenamed_aside {n : Bytes} (h : s.zrwp.ready = false ∨ s.actor = none) :
    wp (authorizeRenamed n) (fun r s' => s'.zrwp = s.zrwp ∧ s'.actor = s.actor ∧
        (s.zrwp.ready = false → Ransomware.protectedOperation s.zrwp.active n .rename = true → r = false)) (fun _ => True) s := by
  unfold authorizeRenamed
  rw [wp_bind, wp_get]
  refine wp_ite (fun _ => ?_) fun hopen => ⟨rfl, rfl, fun _ hprot => absurd hprot hopen⟩
  refine wp_mono (authorize_aside (h.imp_right .inl)) (fun r s' h => ⟨h.1, h.2.1, fun hr _ => h.2.2 hr⟩) fun _ h => h

theorem Call.run_aside (h : s.zrwp.ready = false ∨ s.actor = none ∨ c.touches s = false) :
    wp c.run (fun r s' => s'.zrwp = s.zrwp ∧ (s.zrwp.ready = false → c.touches s = true → r = false)) (fun _ => True) s := by
  have hsingle : ∀ path operation bytes, (s.zrwp.ready = false ∨ s.actor = none ∨ touchesPath s path operation = false) →
      wp (authorize path operation bytes) (fun r s' => s'.zrwp = s.zrwp ∧
        (s.zrwp.ready = false → touchesPath s path operation = true → r = false)) (fun _ => True) s := fun path operation bytes h =>
    wp_mono (authorize_aside h) (fun r s' h => ⟨h.1, fun hr _ => h.2.2 hr⟩) fun _ h => h
  cases c with
  | write path bytes => exact hsingle path .write bytes h
  | copy destination bytes => exact hsingle destination .write bytes h
  | remove path => exact hsingle path .remove 0 h
  | rename source destination =>
    show wp (authorizeRename source destination) _ _ s
    rw [touches_rename] at h ⊢
    unfold authorizeRename
    rw [wp_bind, wp_get]
    cases ha : normalizePath s.volume.currentDirectory source with
    | none => exact ⟨rfl, fun _ _ => rfl⟩
    | some a =>
      cases hb : normalizePath s.volume.currentDirectory destination with
      | none => exact ⟨rfl, fun _ _ => rfl⟩
      | some b =>
        dsimp only
        rw [wp_bind]
        by_cases hoff : s.zrwp.ready = false ∨ s.actor = none
        · refine wp_mono (authorizeRenamed_aside hoff) (fun r s' h => ?_) fun _ _ => trivial
          obtain ⟨hz, hactor, hdeny⟩ := h
          refine wp_ite (fun hr => ⟨hz, fun _ _ => rfl⟩) fun hr => ?_
          have hr : r = true := by simpa using hr
          have hoff' : s'.zrwp.ready = false ∨ s'.actor = none := by rwa [hz, hactor]
          refine wp_mono (authorizeRenamed_aside hoff') (fun r' s'' h => ⟨h.1.trans hz, fun hready htouch => ?_⟩) fun _ h => h
          have hopen : ¬Ransomware.protectedOperation s.zrwp.active a .rename = true := fun hprot => by
            rw [hdeny hready hprot] at hr
            cases hr
          refine h.2.2 (hz ▸ hready) ?_
          rw [hz]
          simpa [Bool.eq_false_iff.mpr hopen] using htouch
        · have hclean := (h.resolve_left fun h => hoff (.inl h)).resolve_left fun h => hoff (.inr h)
          rw [ha, hb] at hclean
          obtain ⟨hcleanA, hcleanB⟩ := (Bool.or_eq_false_iff ..).mp hclean
          refine authorizeRenamed_open (by rw [hcleanA]; decide) ?_
          exact authorizeRenamed_open (by rw [hcleanB]; decide) ⟨rfl, fun hready => absurd (.inl hready) hoff⟩

end Calls

/-! ### Every run -/

/-- A guard and the account of its window in a run in block mode. Between the calls everything may change but the
    state of the policy; that changes only when a policy is activated, or is found to be out of force. -/
inductive BudgetRun : GuardState → Option Account → Prop
  | start {s : GuardState} : s.zrwp.active.block = true → s.zrwp.mutationWindow.valid = false → BudgetRun s none
  | other {s s' : GuardState} {account : Option Account} : BudgetRun s account → s'.zrwp = s.zrwp → BudgetRun s' account
  | disable {s : GuardState} {account : Option Account} : BudgetRun s account →
      BudgetRun { s with zrwp := { s.zrwp with ready := false } } account
  | activate {s : GuardState} {account : Option Account} {policy : RuntimePolicy} {ready : Bool} : BudgetRun s account →
      policy.block = true → BudgetRun { s with zrwp := ⟨ready, policy, Ransomware.emptyWindow⟩ } none
  | call {s s' : GuardState} {account : Option Account} {c : Call} {r : Bool} : BudgetRun s account →
      (∀ actor digest, s.actor = some (actor, digest) → c.Regular s actor digest) → c.run s = (some r, s') →
      BudgetRun s' (c.account s account r)

section Runs
variable {s s' : GuardState} {account : Option Account} {c : Call} {r : Bool}

theorem agrees_call (hblock : s.zrwp.active.block = true) (h : Agrees s account)
    (hregular : ∀ actor digest, s.actor = some (actor, digest) → c.Regular s actor digest) (hrun : c.run s = (some r, s')) :
    s'.zrwp.active.block = true ∧ Agrees s' (c.account s account r) := by
  have haside : (s.zrwp.ready = false ∨ s.actor = none ∨ c.touches s = false) → s'.zrwp = s.zrwp := fun hoff =>
    (wp_ended (Call.run_aside hoff) hrun).1
  have hkeep : s'.zrwp = s.zrwp → s'.zrwp.active.block = true ∧ Agrees s' account := fun hz => by
    unfold Agrees at *
    rw [hz]
    exact ⟨hblock, h⟩
  unfold Call.account
  cases hactor : s.actor with
  | none => exact hkeep (haside (.inr (.inl hactor)))
  | some identity =>
    obtain ⟨actor, digest⟩ := identity
    dsimp only
    split
    · rename_i hon
      obtain ⟨hready, htouch⟩ := (Bool.and_eq_true ..).mp hon
      have hout := wp_ended (Call.run_outcome hblock hready hactor htouch (hregular actor digest hactor)) hrun
      rcases hout with ⟨hclear, hr, hz⟩ | ⟨-, hr, hz⟩
      · have hactive : s'.zrwp.active = s.zrwp.active := by rw [hz]
        exact ⟨by rw [hactive]; exact hblock, agrees_after h hactive (.inl ⟨hclear, hr, by rw [hz]⟩)⟩
      · have hactive : s'.zrwp.active = s.zrwp.active := by rw [hz]
        exact ⟨by rw [hactive]; exact hblock, agrees_after h hactive (.inr ⟨hr, by rw [hz]⟩)⟩
    · rename_i hoff
      refine hkeep (haside ?_)
      by_cases hready : s.zrwp.ready = true
      · exact .inr (.inr (by simpa [hready] using hoff))
      · exact .inl (by simpa using hready)

theorem agrees_run (h : BudgetRun s account) : s.zrwp.active.block = true ∧ Agrees s account := by
  induction h with
  | start hblock hvalid => exact ⟨hblock, hvalid⟩
  | other _ hz ih =>
    unfold Agrees at *
    rw [hz]
    exact ih
  | disable _ ih => exact ih
  | activate _ hblock _ => exact ⟨hblock, rfl⟩
  | call _ hregular hrun ih => exact agrees_call ih.1 ih.2 hregular hrun

/-- In every run the window counts what its account was allowed, within the budgets; and a program that was denied
    something is denied every further protected call on that account. -/
theorem budgetRun_accounted (s : GuardState) (account : Option Account) (h : BudgetRun s account) :
    (∀ a, account = some a →
      let w := s.zrwp.mutationWindow
      w.writes = a.writes ∧ w.renames = a.renames ∧ w.removes = a.removes ∧ w.bytes = a.bytes ∧ a.Within s.zrwp.active) ∧
    ∀ (c : Call) (r : Bool) (s' : GuardState) (actor digest : Bytes), s.actor = some (actor, digest) → c.Regular s actor digest →
      c.run s = (some r, s') → c.touches s = true →
      s.zrwp.ready = false ∨ (Account.opened s.zrwp.active account s.timerTicks actor digest).denied = true → r = false := by
  obtain ⟨hblock, hagrees⟩ := agrees_run h
  refine ⟨fun a ha => ?_, fun c r s' actor digest hactor hregular hrun htouch hdenied => ?_⟩
  · subst ha
    obtain ⟨hwindow, hwithin⟩ := hagrees
    dsimp only
    rw [hwindow]
    exact ⟨rfl, rfl, rfl, rfl, hwithin⟩
  · cases hready : s.zrwp.ready with
    | false => exact (wp_ended (Call.run_aside (.inl hready)) hrun).2 hready htouch
    | true =>
      have hdenied := hdenied.resolve_left (by rw [hready]; decide)
      have hwindow : Ransomware.ensureWindow s.zrwp.active s.zrwp.mutationWindow s.timerTicks actor digest =
          (Account.opened s.zrwp.active account s.timerTicks actor digest).window := by
        cases account with
        | none => exact ensureWindow_invalid hagrees
        | some a =>
          rw [hagrees.1]
          exact ensureWindow_account
      rcases wp_ended (Call.run_outcome hblock hready hactor htouch hregular) hrun with ⟨hclear, -, -⟩ | ⟨-, hr, -⟩
      · rw [Clear, hwindow] at hclear
        exact absurd hclear (reason_denied hdenied)
      · exact hr

end Runs

/-! ### Two calls -/

/-- A guard that protects `/docs`, and a program that may write and rename there. -/
def docsGuard : GuardState :=
  { freshGuard with
    zrwp := ⟨true, ⟨true, 100, 2, 2, 1, 128, [⟨.recordProtected, 7, ascii "/docs", []⟩, ⟨.recordWriter, 3, ascii "/apps/w.elf", [1]⟩]⟩,
      Ransomware.emptyWindow⟩
    actor := some (ascii "/apps/w.elf", [1]) }

theorem budgetRun_accounted_sample :
    let s' := ((Call.write (ascii "/docs/a") 5).run docsGuard).2
    let account := (Call.write (ascii "/docs/a") 5).account docsGuard none true
    (∀ a, account = some a →
      let w := s'.zrwp.mutationWindow
      w.writes = a.writes ∧ w.renames = a.renames ∧ w.removes = a.removes ∧ w.bytes = a.bytes ∧ a.Within s'.zrwp.active) ∧
    ∀ (c : Call) (r : Bool) (s'' : GuardState) (actor digest : Bytes), s'.actor = some (actor, digest) → c.Regular s' actor digest →
      c.run s' = (some r, s'') → c.touches s' = true →
      s'.zrwp.ready = false ∨ (Account.opened s'.zrwp.active account s'.timerTicks actor digest).denied = true → r = false := by
  have hregular : ∀ actor digest, docsGuard.actor = some (actor, digest) → (Call.write (ascii "/docs/a") 5).Regular docsGuard actor digest := by
    intro actor digest hactor n _ _ hnot
    obtain ⟨rfl, rfl⟩ := Prod.mk.inj (Option.some.inj hactor)
    have hclear : Clear docsGuard (ascii "/apps/w.elf") [1] .write 5 := by
      unfold Clear
      decide
    exact absurd hclear hnot
  have hrun : ((Call.write (ascii "/docs/a") 5).run docsGuard).1 = some true := by decide +kernel
  exact budgetRun_accounted _ _ (.call (.start rfl rfl) hregular (run_of_fst hrun))

/-- One rename within a protected directory is charged as two. -/
theorem rename_charged_twice :
    ∃ s' a, BudgetRun docsGuard none ∧
      (Call.rename (ascii "/docs/a") (ascii "/docs/b")).run docsGuard = (some true, s') ∧
      (Call.rename (ascii "/docs/a") (ascii "/docs/b")).account docsGuard none true = some a ∧
      a.renames = 1 ∧ s'.zrwp.mutationWindow.renames = 2 := by
  have hrun : ((Call.rename (ascii "/docs/a") (ascii "/docs/b")).run docsGuard).1 = some true := by decide +kernel
  exact ⟨_, _, .start rfl rfl, run_of_fst hrun, rfl, rfl, by decide +kernel⟩

end ZenovOS.Security
