import ZenovOS.Theorems.Tools.Zenuniverse.Catalog

/-! # Which alternative is selected

The resolver tries each option on a copy of the plan and counts the blockers that the plan has gained. A text that the plan has
already is not added again, so an option can meet obstacles and add none. `obstacles` are all texts that a run hands to
`append_blocker`, recorded or not. -/

namespace ZenovOS.Zenuniverse
open Bytes

/-! ### Texts without repeats -/

/-- What `append_blocker` does to the texts of a plan. -/
def record (blocked : List Bytes) (reason : Bytes) : List Bytes := if reason ∈ blocked then blocked else blocked ++ [reason]

theorem length_record_le (blocked : List Bytes) (reason : Bytes) : blocked.length ≤ (record blocked reason).length := by
  unfold record
  split
  · exact Nat.le_refl _
  · simp

theorem length_foldl_record_le (met blocked : List Bytes) : blocked.length ≤ (met.foldl record blocked).length := by
  induction met generalizing blocked with
  | nil => exact Nat.le_refl _
  | cons reason met ih => exact (length_record_le blocked reason).trans (ih (record blocked reason))

theorem foldl_record_length_iff (met blocked : List Bytes) :
    (met.foldl record blocked).length = blocked.length ↔ ∀ reason ∈ met, reason ∈ blocked := by
  induction met generalizing blocked with
  | nil => simp
  | cons reason met ih =>
    rw [List.foldl_cons, List.forall_mem_cons]
    by_cases hmem : reason ∈ blocked
    · have hsame : record blocked reason = blocked := if_pos hmem
      rw [hsame, ih blocked]
      exact ⟨fun h => ⟨hmem, h⟩, And.right⟩
    · have hadded : record blocked reason = blocked ++ [reason] := if_neg hmem
      have hle := length_foldl_record_le met (record blocked reason)
      rw [hadded, List.length_append, List.length_singleton] at hle
      rw [hadded]
      exact ⟨fun h => by omega, fun h => absurd h.1 hmem⟩

/-! ### Obstacles -/

/-- What the rounds of a loop log, each in the state that it starts from. -/
def along {β : Type} (step : Resolution → β → Except Stop Resolution) (log : Resolution → β → Except Stop (List Bytes)) :
    List β → Resolution → Except Stop (List Bytes)
  | [], _ => .ok []
  | b :: l, s => do
    let first ← log s b
    let s ← step s b
    let rest ← along step log l s
    pure (first ++ rest)

def considerObstacles (provider : Descriptor) (hostArchitecture : Bytes) : List Bytes :=
  (if provider.architecture ≠ ascii "any" ∧ provider.architecture ≠ hostArchitecture then
    [ascii "provider architecture mismatch: provider=" ++ provider.id ++ ascii " package=" ++ provider.architecture ++
      ascii " host=" ++ hostArchitecture]
  else []) ++
  if provider.availability ≠ ascii "available" then
    [ascii "provider not available yet: " ++ provider.id ++ ascii " (" ++ provider.availability ++ ascii ")"]
  else []

section Obstacles
variable (records : List Descriptor) (hostArchitecture : Bytes) (host : Finset Bytes)

/-- The obstacles of an alternative are those of the option it takes; those of the other options are left with their copies. -/
def alternativeObstacles (resolve : Bytes → Resolution → Except Stop Resolution) (log : Bytes → Resolution → Except Stop (List Bytes))
    (expression : Bytes) (s : Resolution) : Except Stop (List Bytes) := do
  let options ← orThrow (parseCapabilityAlternatives expression)
  let canonical ← orThrow (canonicalAlternatives expression)
  match options.find? fun option => option ∈ host ∨ option ∈ s.emitted with
  | some _ => pure []
  | none => do
    let attempts ← options.mapM (tryOption resolve s)
    match Attempt.best attempts with
    | none => pure [ascii "no satisfiable capability alternative: " ++ canonical]
    | some best =>
      if best.addedBlockers = 0 then log best.option s else pure [ascii "no satisfiable capability alternative: " ++ canonical]

def nativeObstacles (log : Bytes → Resolution → Except Stop (List Bytes)) (capability : Bytes) (provider : Descriptor) (s : Resolution) :
    Except Stop (List Bytes) :=
  if needsNative capability provider then log (ascii "runtime.native") s else .ok []

/-- The texts that `resolve_capability` hands to `append_blocker`. -/
def obstacles : Nat → Bytes → Resolution → Except Stop (List Bytes)
  | 0, _, _ => .error .depth
  | depth + 1, capability, s =>
    if capability ∈ host ∨ capability ∈ s.emitted then .ok []
    else if capability ∈ s.active then .ok [ascii "dependency cycle at " ++ capability]
    else
      match bestProvider capability records hostArchitecture with
      | none => .ok [ascii "missing capability provider: " ++ capability]
      | some (provider, _) => do
        let resolve := resolveCapability records hostArchitecture host depth
        let s := (s.enter capability).consider provider hostArchitecture
        let runtimes ← nativeObstacles (obstacles depth) capability provider s
        let s ← resolveNative resolve capability provider s
        let required ← along (fun s requirement => resolve requirement s) (fun s requirement => obstacles depth requirement s)
          provider.requirements s
        let s ← provider.requirements.foldlM (fun s requirement => resolve requirement s) s
        let groups ← along (fun s expression => resolveAlternative host resolve expression s)
          (fun s expression => alternativeObstacles host resolve (obstacles depth) expression s) provider.requirementAny s
        pure (considerObstacles provider hostArchitecture ++ runtimes ++ required ++ groups)

/-- The option can be resolved from the state, and meets nothing. -/
def Clean (option : Bytes) (s : Resolution) : Prop := obstacles records hostArchitecture host (resolveDepth records) option s = .ok []

/-- The option meets obstacles, and the plan has all their texts already. -/
def Hidden (option : Bytes) (s : Resolution) : Prop :=
  ∃ met, obstacles records hostArchitecture host (resolveDepth records) option s = .ok met ∧ met ≠ [] ∧ ∀ reason ∈ met, reason ∈ s.plan.blocked

/-- How many descriptors the resolution of the option puts into the order. -/
def addedPackages (option : Bytes) (s : Resolution) : Nat :=
  match resolveCapability records hostArchitecture host (resolveDepth records) option s with
  | .ok t => t.plan.order.length - s.plan.order.length
  | .error _ => 0

/-- By the descriptors that are added, and then by the name. -/
def Before (s : Resolution) : Bytes → Bytes → Prop :=
  Ranking.Lex (fun x y => addedPackages records hostArchitecture host x s < addedPackages records hostArchitecture host y s)
    fun x y => x < y

end Obstacles

/-! ### What is recorded of the obstacles -/

section Recorded
variable {records : List Descriptor} {hostArchitecture : Bytes} {host : Finset Bytes} {s t u : Resolution} {met met' : List Bytes}

def Recorded (s : Resolution) (met : List Bytes) (t : Resolution) : Prop := t.plan.blocked = met.foldl record s.plan.blocked

theorem recorded_same (h : t.plan.blocked = s.plan.blocked) : Recorded s [] t := h

theorem recorded_block (s : Resolution) (reason : Bytes) : Recorded s [reason] (s.block reason) := by
  unfold Recorded Resolution.block appendBlocker
  dsimp only [List.foldl_cons, List.foldl_nil]
  unfold record
  split <;> rfl

theorem Recorded.trans (h : Recorded s met t) (h' : Recorded t met' u) : Recorded s (met ++ met') u := by
  unfold Recorded at *
  rw [List.foldl_append, ← h, h']

theorem Recorded.after (h : Recorded s met t) (hu : u.plan.blocked = t.plan.blocked) : Recorded s met u := hu.trans h

theorem Recorded.added_iff (h : Recorded s met t) :
    t.plan.blocked.length - s.plan.blocked.length = 0 ↔ ∀ reason ∈ met, reason ∈ s.plan.blocked := by
  have hle := length_foldl_record_le met s.plan.blocked
  rw [← foldl_record_length_iff met s.plan.blocked, h]
  omega

theorem recorded_consider (s : Resolution) (provider : Descriptor) :
    Recorded s (considerObstacles provider hostArchitecture) (s.consider provider hostArchitecture) := by
  have hblockIf : ∀ (c : Prop) [Decidable c] (s : Resolution) (reason : Bytes),
      Recorded s (if c then [reason] else []) (if c then s.block reason else s) := by
    intro c _ s reason
    split
    · exact recorded_block s reason
    · exact recorded_same rfl
  unfold considerObstacles Resolution.consider
  exact ((hblockIf _ s _).trans (hblockIf _ _ _)).after rfl

theorem recorded_reject (s : Resolution) (canonical : Bytes) (attempts : List Attempt) :
    Recorded s [ascii "no satisfiable capability alternative: " ++ canonical] (s.reject canonical attempts) := by
  refine (recorded_block s _).after ?_
  have hdiagnose : ∀ (l : List Attempt) (plan : Plan), (l.foldl Attempt.diagnose plan).blocked = plan.blocked := by
    intro l
    induction l with
    | nil => exact fun _ => rfl
    | cons attempt l ih =>
      intro plan
      rw [List.foldl_cons, ih]
      unfold Attempt.diagnose appendDiagnostic
      split <;> rfl
  exact hdiagnose attempts _

/-- A run that returns has its obstacles recorded. -/
def Logs (resolve : Bytes → Resolution → Except Stop Resolution) (log : Bytes → Resolution → Except Stop (List Bytes)) : Prop :=
  ∀ capability s t, resolve capability s = .ok t → ∃ met, log capability s = .ok met ∧ Recorded s met t

theorem along_recorded {β : Type} {step : Resolution → β → Except Stop Resolution} (log : Resolution → β → Except Stop (List Bytes))
    (hstep : ∀ b s t, step s b = .ok t → ∃ met, log s b = .ok met ∧ Recorded s met t) {l : List β} (h : l.foldlM step s = .ok t) :
    ∃ met, along step log l s = .ok met ∧ Recorded s met t := by
  induction l generalizing s with
  | nil =>
    cases h
    exact ⟨[], rfl, recorded_same rfl⟩
  | cons b l ih =>
    rw [List.foldlM_cons] at h
    obtain ⟨u, hu, h⟩ := bind_ok h
    obtain ⟨first, hfirst, hrecorded⟩ := hstep b s u hu
    obtain ⟨rest, hrest, hrecorded'⟩ := ih h
    refine ⟨first ++ rest, ?_, hrecorded.trans hrecorded'⟩
    rw [along, hfirst, ok_bind, hu, ok_bind, hrest]
    rfl

theorem tryOption_ok {resolve : Bytes → Resolution → Except Stop Resolution} {option : Bytes} {attempt : Attempt}
    (h : tryOption resolve s option = .ok attempt) :
    resolve option s = .ok attempt.result ∧ attempt.option = option ∧
      attempt.addedBlockers = attempt.result.plan.blocked.length - s.plan.blocked.length ∧
      attempt.addedPackages = attempt.result.plan.order.length - s.plan.order.length := by
  unfold tryOption at h
  obtain ⟨result, hresult, h⟩ := bind_ok h
  cases h
  exact ⟨hresult, rfl, rfl, rfl⟩

theorem alternativeObstacles_recorded {resolve : Bytes → Resolution → Except Stop Resolution}
    {log : Bytes → Resolution → Except Stop (List Bytes)} (hlog : Logs resolve log) {expression : Bytes}
    (h : resolveAlternative host resolve expression s = .ok t) :
    ∃ met, alternativeObstacles host resolve log expression s = .ok met ∧ Recorded s met t := by
  unfold resolveAlternative at h
  unfold alternativeObstacles
  obtain ⟨options, hoptions, h⟩ := bind_ok h
  obtain ⟨canonical, hcanonical, h⟩ := bind_ok h
  rw [hoptions, ok_bind, hcanonical, ok_bind]
  cases hfound : options.find? fun option => option ∈ host ∨ option ∈ s.emitted with
  | some option =>
    rw [hfound] at h
    cases h
    exact ⟨[], rfl, recorded_same rfl⟩
  | none =>
    rw [hfound] at h
    obtain ⟨attempts, hattempts, h⟩ := bind_ok h
    dsimp only
    rw [hattempts, ok_bind]
    cases hbest : Attempt.best attempts with
    | none =>
      rw [hbest] at h
      cases h
      exact ⟨_, rfl, recorded_reject s canonical attempts⟩
    | some best =>
      rw [hbest] at h
      dsimp only at h ⊢
      split at h
      · next hzero =>
        cases h
        rw [if_pos hzero]
        obtain ⟨option, -, htry⟩ := mapM_mem hattempts best (best_mem hbest)
        obtain ⟨hresult, rfl, -, -⟩ := tryOption_ok htry
        obtain ⟨met, hmet, hrecorded⟩ := hlog _ s _ hresult
        exact ⟨met, hmet, hrecorded.after rfl⟩
      · next hne =>
        cases h
        rw [if_neg hne]
        exact ⟨_, rfl, recorded_reject s canonical attempts⟩

theorem nativeObstacles_recorded {resolve : Bytes → Resolution → Except Stop Resolution}
    {log : Bytes → Resolution → Except Stop (List Bytes)} (hlog : Logs resolve log) {capability : Bytes} {provider : Descriptor}
    (h : resolveNative resolve capability provider s = .ok t) :
    ∃ met, nativeObstacles log capability provider s = .ok met ∧ Recorded s met t := by
  unfold resolveNative at h
  unfold nativeObstacles
  split at h
  · next hneeds =>
    rw [if_pos hneeds]
    exact hlog _ s t h
  · next hneeds =>
    cases h
    rw [if_neg hneeds]
    exact ⟨[], rfl, recorded_same rfl⟩

theorem obstacles_recorded (depth : Nat) :
    Logs (resolveCapability records hostArchitecture host depth) (obstacles records hostArchitecture host depth) := by
  induction depth with
  | zero =>
    intro capability s t h
    cases h
  | succ depth ih =>
    intro capability s t h
    rw [resolveCapability] at h
    rw [obstacles]
    split at h
    · next hpresent =>
      cases h
      exact ⟨[], if_pos hpresent, recorded_same rfl⟩
    next hpresent =>
    rw [if_neg hpresent]
    split at h
    · next hactive =>
      cases h
      exact ⟨_, if_pos hactive, recorded_block s _⟩
    next hactive =>
    rw [if_neg hactive]
    cases hbest : bestProvider capability records hostArchitecture with
    | none =>
      rw [hbest] at h
      cases h
      exact ⟨_, rfl, (recorded_block s _).after rfl⟩
    | some found =>
      obtain ⟨provider, place⟩ := found
      rw [hbest] at h
      dsimp only at h ⊢
      obtain ⟨s₁, hnative, h⟩ := bind_ok h
      obtain ⟨s₂, hrequirements, h⟩ := bind_ok h
      obtain ⟨s₃, hgroups, h⟩ := bind_ok h
      cases h
      have hconsider : Recorded s (considerObstacles provider hostArchitecture)
        ((s.enter capability).consider provider hostArchitecture) := recorded_consider (s.enter capability) provider
      obtain ⟨native, hlog₁, h₁⟩ := nativeObstacles_recorded ih hnative
      obtain ⟨required, hlog₂, h₂⟩ := along_recorded (fun s requirement => obstacles records hostArchitecture host depth requirement s)
        (fun requirement s t h => ih requirement s t h) hrequirements
      obtain ⟨groups, hlog₃, h₃⟩ := along_recorded (fun s expression => alternativeObstacles host
        (resolveCapability records hostArchitecture host depth) (obstacles records hostArchitecture host depth) expression s)
        (fun expression s t h => alternativeObstacles_recorded ih h) hgroups
      refine ⟨_, ?_, ((((hconsider.trans h₁).trans h₂).trans h₃).after ?_)⟩
      · rw [hlog₁, ok_bind, hnative, ok_bind, hlog₂, ok_bind, hrequirements, ok_bind, hlog₃, ok_bind]
        rfl
      · unfold Resolution.emit
        split <;> rfl

end Recorded

/-! ### Attempts -/

theorem attemptLess_iff {left right : Attempt} : left.less right = true ↔
    Ranking.Lex (fun x y : Attempt => x.addedBlockers < y.addedBlockers)
      (Ranking.Lex (fun x y => x.addedPackages < y.addedPackages) fun x y => x.option < y.option) left right := by
  unfold Attempt.less Ranking.Lex
  split
  · rw [decide_eq_true_iff]
    omega
  split
  · rw [decide_eq_true_iff]
    omega
  · next hblockers hpackages =>
    simp only [not_not] at hblockers hpackages
    simp [hblockers, hpackages]

theorem ranking_attemptLess : Ranking fun x y : Attempt => x.less y = true := by
  have hranking := (ranking_lt.key Attempt.addedBlockers).lex ((ranking_lt.key Attempt.addedPackages).lex (ranking_list.key Attempt.option))
  exact ⟨fun x y hxy hyx => hranking.asymm x y (attemptLess_iff.mp hxy) (attemptLess_iff.mp hyx),
    fun x y z hxz => (hranking.cut x y z (attemptLess_iff.mp hxz)).imp attemptLess_iff.mpr attemptLess_iff.mpr⟩

theorem best_least {attempts : List Attempt} {best : Attempt} (h : Attempt.best attempts = some best) :
    ∀ attempt ∈ attempts, ¬attempt.less best = true := by
  cases attempts with
  | nil => cases h
  | cons first rest =>
    obtain rfl := Option.some.inj h
    exact fun attempt hmem => Bool.eq_false_iff.mp (foldl_least ranking_attemptLess rest first attempt hmem)

theorem mem_mapM {α β ε : Type} {f : α → Except ε β} {l : List α} {l' : List β} (h : l.mapM f = .ok l') :
    ∀ a ∈ l, ∃ b ∈ l', f a = .ok b := by
  induction l generalizing l' with
  | nil => exact fun a ha => absurd ha List.not_mem_nil
  | cons x l ih =>
    rw [List.mapM_cons] at h
    obtain ⟨c, hc, h⟩ := bind_ok h
    obtain ⟨rest, hrest, h⟩ := bind_ok h
    cases h
    intro a ha
    rcases List.mem_cons.mp ha with rfl | ha
    · exact ⟨c, List.mem_cons_self, hc⟩
    · obtain ⟨b, hb, hfb⟩ := ih hrest a ha
      exact ⟨b, List.mem_cons_of_mem c hb, hfb⟩

section Selection
variable {records : List Descriptor} {hostArchitecture : Bytes} {host : Finset Bytes} {s t : Resolution}

/-- The attempt is the run of its option. -/
structure AttemptFrom (records : List Descriptor) (hostArchitecture : Bytes) (host : Finset Bytes) (s : Resolution)
    (attempt : Attempt) : Prop where
  result : resolveCapability records hostArchitecture host (resolveDepth records) attempt.option s = .ok attempt.result
  addedBlockers : attempt.addedBlockers = attempt.result.plan.blocked.length - s.plan.blocked.length
  addedPackages : attempt.addedPackages = addedPackages records hostArchitecture host attempt.option s

theorem attemptFrom {option : Bytes} {attempt : Attempt}
    (h : tryOption (resolveCapability records hostArchitecture host (resolveDepth records)) s option = .ok attempt) :
    attempt.option = option ∧ AttemptFrom records hostArchitecture host s attempt := by
  obtain ⟨hresult, rfl, hblockers, hpackages⟩ := tryOption_ok h
  refine ⟨rfl, hresult, hblockers, ?_⟩
  unfold Zenuniverse.addedPackages
  rw [hresult, hpackages]

theorem AttemptFrom.zero_iff {attempt : Attempt} (h : AttemptFrom records hostArchitecture host s attempt) :
    attempt.addedBlockers = 0 ↔
      Clean records hostArchitecture host attempt.option s ∨ Hidden records hostArchitecture host attempt.option s := by
  obtain ⟨met, hmet, hrecorded⟩ := obstacles_recorded (resolveDepth records) attempt.option s attempt.result h.result
  rw [h.addedBlockers, hrecorded.added_iff]
  constructor
  · intro hall
    by_cases hnil : met = []
    · rw [hnil] at hmet
      exact .inl hmet
    · exact .inr ⟨met, hmet, hnil, hall⟩
  · rintro (hclean | ⟨met', hmet', -, hall⟩)
    · obtain rfl := Except.ok.inj (hmet.symm.trans hclean)
      exact fun reason hreason => absurd hreason List.not_mem_nil
    · obtain rfl := Except.ok.inj (hmet.symm.trans hmet')
      exact hall

theorem AttemptFrom.less_iff {left right : Attempt} (hl : AttemptFrom records hostArchitecture host s left)
    (hr : AttemptFrom records hostArchitecture host s right) (h : left.addedBlockers = right.addedBlockers) :
    left.less right = true ↔ Before records hostArchitecture host s left.option right.option := by
  rw [attemptLess_iff]
  unfold Before
  simp only [Ranking.Lex, h, lt_irrefl, not_false_eq_true, true_and, false_or, hl.addedPackages, hr.addedPackages]

theorem resolveCapability_supplies {depth : Nat} {capability : Bytes}
    (h : resolveCapability records hostArchitecture host depth capability s = .ok t)
    (hclean : obstacles records hostArchitecture host depth capability s = .ok []) : Supplied host t capability := by
  cases depth with
  | zero => cases h
  | succ depth =>
    rw [resolveCapability] at h
    rw [obstacles] at hclean
    split at h
    · next hpresent =>
      cases h
      exact hpresent
    next hpresent =>
    rw [if_neg hpresent] at hclean
    split at h
    · next hactive =>
      rw [if_pos hactive] at hclean
      cases Except.ok.inj hclean
    next hactive =>
    rw [if_neg hactive] at hclean
    split at h
    · next hnone =>
      rw [hnone] at hclean
      cases Except.ok.inj hclean
    next provider place hbest =>
    obtain ⟨s₁, -, h⟩ := bind_ok h
    obtain ⟨s₂, -, h⟩ := bind_ok h
    obtain ⟨s₃, -, h⟩ := bind_ok h
    cases h
    obtain ⟨-, hprovides⟩ := bestProvider_some hbest
    refine .inr ?_
    unfold Resolution.emit Resolution.leave
    split
    · next hemitted => exact hemitted
    · exact Finset.mem_union_right _ (List.mem_toFinset.mpr hprovides)

/-- What the selection of an alternative promises: the option of a satisfied decision is there and was resolved without an obstacle, and
    where some option can be resolved so, the decision is satisfied. -/
structure Selects (records : List Descriptor) (hostArchitecture : Bytes) (host : Finset Bytes) (options : List Bytes)
    (decision : AlternativeDecision) (s t : Resolution) : Prop where
  sound : decision.satisfied = true → decision.selected ∈ options ∧ Supplied host t decision.selected ∧
    Clean records hostArchitecture host decision.selected s
  complete : (∃ option ∈ options, Clean records hostArchitecture host option s) →
    decision.satisfied = true ∧ decision.selected ∈ options ∧ Clean records hostArchitecture host decision.selected s

/-- An option is there, or no option whose obstacles are all recorded comes before those that meet none. -/
def CleanFirst (records : List Descriptor) (hostArchitecture : Bytes) (host : Finset Bytes) (options : List Bytes) (s : Resolution) : Prop :=
  (∃ option ∈ options, Supplied host s option) ∨
    ∀ option ∈ options, Hidden records hostArchitecture host option s →
      ∃ other ∈ options, Clean records hostArchitecture host other s ∧ Before records hostArchitecture host s other option

theorem clean_of_supplied {option : Bytes} (h : Supplied host s option) : Clean records hostArchitecture host option s := by
  unfold Clean resolveDepth
  rw [obstacles]
  exact if_pos h

theorem getLast?_decided (s : Resolution) (decision : AlternativeDecision) :
    (s.decided decision).plan.alternatives.getLast? = some decision := by
  unfold Resolution.decided
  simp

theorem getLast?_reject (s : Resolution) (canonical : Bytes) (attempts : List Attempt) :
    (s.reject canonical attempts).plan.alternatives.getLast? = some ⟨canonical, ascii "-", false⟩ := getLast?_decided _ _

theorem selects_refused {options : List Bytes} {canonical : Bytes}
    (hnone : ∀ option ∈ options, ¬(Clean records hostArchitecture host option s ∨ Hidden records hostArchitecture host option s)) :
    Selects records hostArchitecture host options ⟨canonical, ascii "-", false⟩ s t ↔ CleanFirst records hostArchitecture host options s := by
  refine iff_of_true ⟨fun h => Bool.noConfusion h, ?_⟩ (.inr fun option hmem hhidden => absurd (.inr hhidden) (hnone option hmem))
  rintro ⟨option, hmem, hclean⟩
  exact absurd (.inl hclean) (hnone option hmem)

theorem selects_best {options : List Bytes} {canonical : Bytes} {best : Attempt} (hmem : best.option ∈ options)
    (habsent : ¬∃ option ∈ options, Supplied host s option) (hbest : AttemptFrom records hostArchitecture host s best)
    (hzero : best.addedBlockers = 0)
    (hleast : ∀ option ∈ options, Clean records hostArchitecture host option s ∨ Hidden records hostArchitecture host option s →
      ¬Before records hostArchitecture host s option best.option) :
    Selects records hostArchitecture host options ⟨canonical, best.option, true⟩ s (best.result.decided ⟨canonical, best.option, true⟩) ↔
      CleanFirst records hostArchitecture host options s := by
  rcases hbest.zero_iff.mp hzero with hclean | hhidden
  · have hsupplied : Supplied host best.result best.option := resolveCapability_supplies hbest.result hclean
    refine iff_of_true ⟨fun _ => ⟨hmem, hsupplied, hclean⟩, fun _ => ⟨rfl, hmem, hclean⟩⟩
      (.inr fun option hoption hhidden => ⟨best.option, hmem, hclean, ?_⟩)
    -- an option that meets something is not the best, and does not come before it
    have hne : best.option ≠ option := by
      rintro heq
      obtain ⟨met, hmet, hnil, -⟩ := hhidden
      rw [← heq] at hmet
      exact hnil (Except.ok.inj (hmet.symm.trans hclean))
    have hnot := hleast option hoption (.inr hhidden)
    by_contra hlater
    obtain ⟨-, hless, hgreater⟩ := Ranking.lex_tied hlater hnot
    exact hne (list_tied hless hgreater)
  · obtain ⟨met, hmet, hnil, hrecorded⟩ := hhidden
    refine iff_of_false (fun h => ?_) ?_
    · obtain ⟨-, -, hclean⟩ := h.sound rfl
      exact hnil (Except.ok.inj (hmet.symm.trans hclean))
    · rintro (hsupplied | hall)
      · exact habsent hsupplied
      · obtain ⟨other, hother, hclean, hbefore⟩ := hall best.option hmem ⟨met, hmet, hnil, hrecorded⟩
        exact hleast other hother (.inl hclean) hbefore

/-- An alternative is decided as it should be if and only if an option is there, or no option that meets only what is recorded already
    comes before those that meet nothing. -/
theorem selects_iff (records : List Descriptor) (hostArchitecture : Bytes) (host : Finset Bytes) (expression : Bytes) (s : Resolution) :
    resolveAlternative host (resolveCapability records hostArchitecture host (resolveDepth records)) expression s ≠ .error .depth ∧
      ∀ t, resolveAlternative host (resolveCapability records hostArchitecture host (resolveDepth records)) expression s = .ok t →
        ∃ options decision, parseCapabilityAlternatives expression = .ok options ∧
          canonicalAlternatives expression = .ok decision.expression ∧ t.plan.alternatives.getLast? = some decision ∧
          (Selects records hostArchitecture host options decision s t ↔ CleanFirst records hostArchitecture host options s) := by
  constructor
  · refine resolveAlternative_ends (fun capability => resolveCapability_ends nativeRuntime _ capability s ?_) expression
    exact Nat.lt_succ_of_le ((Finset.card_le_card Finset.sdiff_subset).trans (List.toFinset_card_le _))
  intro t h
  unfold resolveAlternative at h
  obtain ⟨options, hoptions, h⟩ := bind_ok h
  obtain ⟨canonical, hcanonical, h⟩ := bind_ok h
  have hparsed := orThrow_ok hoptions
  have hexpression := orThrow_ok hcanonical
  split at h
  · next option hfound =>
    cases h
    have hmem := List.mem_of_find?_eq_some hfound
    have hpresent : Supplied host s option := by simpa using List.find?_some hfound
    have hclean : Clean records hostArchitecture host option s := clean_of_supplied hpresent
    exact ⟨options, _, hparsed, hexpression, getLast?_decided s _,
      iff_of_true ⟨fun _ => ⟨hmem, hpresent, hclean⟩, fun _ => ⟨rfl, hmem, hclean⟩⟩ (.inl ⟨option, hmem, hpresent⟩)⟩
  next habsent =>
  have habsent : ¬∃ option ∈ options, Supplied host s option := by
    rintro ⟨option, hmem, hpresent⟩
    exact List.find?_eq_none.mp habsent option hmem (decide_eq_true hpresent)
  obtain ⟨attempts, hattempts, h⟩ := bind_ok h
  have hof : ∀ option ∈ options, ∃ attempt ∈ attempts, attempt.option = option ∧ AttemptFrom records hostArchitecture host s attempt := by
    intro option hmem
    obtain ⟨attempt, hattempt, htry⟩ := mem_mapM hattempts option hmem
    exact ⟨attempt, hattempt, attemptFrom htry⟩
  split at h
  · next hnone =>
    cases h
    refine ⟨options, _, hparsed, hexpression, getLast?_reject s canonical attempts, selects_refused fun option hmem => ?_⟩
    obtain ⟨attempt, hattempt, -⟩ := hof option hmem
    cases attempts with
    | nil => exact absurd hattempt List.not_mem_nil
    | cons first rest => cases hnone
  next best hbest =>
  obtain ⟨option, hmem, htry⟩ := mapM_mem hattempts best (best_mem hbest)
  obtain ⟨rfl, hfrom⟩ := attemptFrom htry
  have hleast := best_least hbest
  split at h
  · next hzero =>
    cases h
    refine ⟨options, _, hparsed, hexpression, getLast?_decided best.result _,
      selects_best hmem habsent hfrom hzero fun option hoption hadds hbefore => ?_⟩
    obtain ⟨attempt, hattempt, rfl, hfrom'⟩ := hof option hoption
    exact hleast attempt hattempt ((hfrom'.less_iff hfrom ((hfrom'.zero_iff.mpr hadds).trans hzero.symm)).mpr hbefore)
  · next hne =>
    cases h
    refine ⟨options, _, hparsed, hexpression, getLast?_reject s canonical attempts, selects_refused fun option hoption hadds => ?_⟩
    obtain ⟨attempt, hattempt, rfl, hfrom'⟩ := hof option hoption
    have hzero := hfrom'.zero_iff.mpr hadds
    exact hleast attempt hattempt (attemptLess_iff.mpr (.inl (by omega)))

end Selection

/-- A plan that has recorded that the graphics of a program are missing. -/
def sampleBlocked : Resolution :=
  ⟨∅, sampleHost, { Plan.empty with blocked := [ascii "missing capability provider: graphics.vulkan1.0"] }⟩

def sampleGraphics : Bytes := ascii "graphics.opengl3.1|graphics.vulkan1.0"

def sampleOptions : List Bytes := [ascii "graphics.opengl3.1", ascii "graphics.vulkan1.0"]

/-- Neither option has a provider, and the one that is missing already is selected. -/
def sampleSelected : AlternativeDecision := ⟨sampleGraphics, ascii "graphics.vulkan1.0", true⟩

deriving instance DecidableEq for Resolution

theorem resolveAlternative_sample : resolveAlternative sampleHost (resolveCapability [nativeRuntime] (ascii "x86") sampleHost
    (resolveDepth [nativeRuntime])) sampleGraphics sampleBlocked = .ok (sampleBlocked.decided sampleSelected) := by decide +kernel

/-- An alternative is satisfied by an option that is not there. -/
theorem selects_missing : ¬∀ (records : List Descriptor) (hostArchitecture : Bytes) (host : Finset Bytes) (expression : Bytes) (s t : Resolution),
    resolveAlternative host (resolveCapability records hostArchitecture host (resolveDepth records)) expression s = .ok t →
      ∀ options decision, parseCapabilityAlternatives expression = .ok options → t.plan.alternatives.getLast? = some decision →
        Selects records hostArchitecture host options decision s t := by
  intro h
  have hoptions : parseCapabilityAlternatives sampleGraphics = .ok sampleOptions := by decide +kernel
  have hselects := h _ _ _ _ _ _ resolveAlternative_sample _ _ hoptions (getLast?_decided sampleBlocked sampleSelected)
  obtain ⟨-, hsupplied, -⟩ := hselects.sound rfl
  exact absurd hsupplied (by decide +kernel)

theorem selects_iff_sample : ∃ options decision, parseCapabilityAlternatives sampleGraphics = .ok options ∧
    canonicalAlternatives sampleGraphics = .ok decision.expression ∧
      (sampleBlocked.decided sampleSelected).plan.alternatives.getLast? = some decision ∧
      (Selects [nativeRuntime] (ascii "x86") sampleHost options decision sampleBlocked (sampleBlocked.decided sampleSelected) ↔
        CleanFirst [nativeRuntime] (ascii "x86") sampleHost options sampleBlocked) :=
  (selects_iff [nativeRuntime] (ascii "x86") sampleHost sampleGraphics sampleBlocked).2 _ resolveAlternative_sample

end ZenovOS.Zenuniverse
