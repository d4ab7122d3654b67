import ZenovOS.Theorems.Storage.Path

/-! # What a path means

The components of a path, resolved over a stack: an empty component and `.` stand for nothing, `..` takes the
last component away. `normalize_path` computes exactly this within its limits. A path that it returns is its
own normal form unless its first component starts with `data`. -/

namespace ZenovOS.Storage
open Bytes

/-! ### Lexical resolution -/

/-- What a component does to the stack of those before it, the last one first. -/
def pushComponent (stack : List Bytes) (c : Bytes) : List Bytes :=
  if c = [] ∨ c = ascii "." then stack else if c = ascii ".." then stack.tail else c :: stack

def resolve (cs : List Bytes) : List Bytes := (cs.foldl pushComponent []).reverse

/-- The text that is resolved: the input without the alias of the root, or behind the current directory. -/
def lexicalText (currentDirectory input : Bytes) : Bytes :=
  if ascii "/data" <+: input then input.drop 5
  else if input.head? = some slash then input
  else (if currentDirectory = root then root else currentDirectory ++ root) ++ input

/-- The components of the resolved text, the empty ones included. -/
def lexicalComponents (currentDirectory input : Bytes) : List Bytes := (lexicalText currentDirectory input).splitOn slash

/-- The components that an input names. -/
def lexicalPath (currentDirectory input : Bytes) : List Bytes := resolve (lexicalComponents currentDirectory input)

/-- A stack of components within the limits of a path. -/
def StackFits (stack : List Bytes) : Prop := stack.length ≤ 16 ∧ (render stack.reverse).length < pathBytes

/-- Every resolved path on the way is within the limits. -/
structure Resolves (currentDirectory input : Bytes) : Prop where
  aliased : ascii "/data" <+: input → input.drop 5 = [] ∨ (input.drop 5).head? = some slash
  text : (lexicalText currentDirectory input).length < 96
  component : ∀ c ∈ lexicalComponents currentDirectory input, c.length < pathBytes
  path : ∀ k, StackFits (((lexicalComponents currentDirectory input).take k).foldl pushComponent [])

theorem pushComponent_clean {stack : List Bytes} {c : Bytes} (hs : ∀ d ∈ stack, Clean d) (hslash : slash ∉ c)
    (hzero : (0 : UInt8) ∉ c) : ∀ d ∈ pushComponent stack c, Clean d := by
  unfold pushComponent
  split
  · exact hs
  · rename_i hnot
    rw [not_or] at hnot
    split
    · exact fun d hd => hs d (List.mem_of_mem_tail hd)
    · rename_i hdots
      intro d hd
      rcases List.mem_cons.mp hd with rfl | hd
      · exact ⟨hnot.1, hslash, hzero, hnot.2, hdots⟩
      · exact hs d hd

theorem foldl_pushComponent_clean {cs stack : List Bytes} (hs : ∀ d ∈ stack, Clean d)
    (hcs : ∀ c ∈ cs, slash ∉ c ∧ (0 : UInt8) ∉ c) : ∀ d ∈ cs.foldl pushComponent stack, Clean d := by
  induction cs generalizing stack with
  | nil => exact hs
  | cons c cs ih =>
    obtain ⟨hslash, hzero⟩ := hcs c (List.mem_cons_self ..)
    exact ih (pushComponent_clean hs hslash hzero) fun d hd => hcs d (List.mem_cons_of_mem _ hd)

/-! ### The components of a text -/

theorem componentsFrom_eq (component path : Bytes) :
    componentsFrom component path = ((path.splitOn slash).modifyHead (component ++ ·)).filter (· ≠ []) := by
  induction path generalizing component with
  | nil =>
    rw [componentsFrom, List.splitOn_nil]
    by_cases hc : component = [] <;> simp [hc]
  | cons b path ih =>
    rw [componentsFrom, List.splitOn_cons_eq_if_modifyHead]
    by_cases hb : b = slash
    · have hnil := ih []
      rw [if_pos hb]
      simp only [hb, beq_self_eq_true, if_true, List.modifyHead_cons, List.append_nil]
      have hid : ((path.splitOn slash).modifyHead (([] : Bytes) ++ ·)) = path.splitOn slash := by
        cases path.splitOn slash <;> simp
      rw [hid] at hnil
      by_cases hc : component = []
      · simp [hc, hnil]
      · simp [hc, hnil]
    · rw [if_neg hb, if_neg (by simpa using hb), ih]
      cases path.splitOn slash <;> simp

theorem components_eq (path : Bytes) : components path = (path.splitOn slash).filter (· ≠ []) := by
  rw [components, componentsFrom_eq]
  cases path.splitOn slash <;> simp

theorem mem_splitOn {path c : Bytes} (hc : c ∈ path.splitOn slash) : slash ∉ c ∧ ∀ b ∈ c, b ∈ path := by
  by_cases hnil : c = []
  · subst hnil
    simp
  · have hmem : c ∈ components path := by
      rw [components_eq]
      simp [hc, hnil]
    obtain ⟨_, hslash, hsub⟩ := componentsFrom_mem (by simp) hmem
    exact ⟨hslash, fun b hb => by simpa using hsub b hb⟩

/-! ### The main loop -/

theorem forall_take_cons {P : List Bytes → Prop} {stack cs : List Bytes} {c : Bytes} :
    (∀ k, P (((c :: cs).take k).foldl pushComponent stack)) ↔
      P stack ∧ ∀ k, P ((cs.take k).foldl pushComponent (pushComponent stack c)) := by
  constructor
  · intro h
    exact ⟨h 0, fun k => h (k + 1)⟩
  · rintro ⟨h0, h⟩ k
    cases k with
    | zero => exact h0
    | succ k => exact h k

theorem append_component_iff {cs : List Bytes} (h : ∀ d ∈ cs, Clean d) {c : Bytes} (hc : c ≠ []) (output : Bytes) :
    (do let output ← appendSeparator (render cs) pathBytes
        pathAppend output c pathBytes) = some output ↔ output = render (cs ++ [c]) ∧ output.length < pathBytes := by
  constructor
  · exact fun ho => append_component h ho hc
  · rintro ⟨rfl, hlen⟩
    simp only [appendSeparator, render_eq_root h]
    rw [length_render_snoc] at hlen
    rw [render_snoc]
    by_cases hnil : cs = []
    · subst hnil
      simp only [if_true] at hlen
      simp only [if_true, render_nil, Option.bind_eq_bind, Option.bind_some]
      exact if_pos (Or.inr (by simpa using hlen))
    · simp only [if_neg hnil] at hlen ⊢
      have hsep : pathAppend (render cs) root pathBytes = some (render cs ++ root) :=
        if_pos (Or.inr (by simp; omega))
      rw [hsep]
      exact if_pos (Or.inr (by simp; omega))

theorem normalizeComponents_iff {cs stack : List Bytes} {p : Bytes} (hcs : ∀ c ∈ cs, slash ∉ c ∧ (0 : UInt8) ∉ c)
    (hs : ∀ d ∈ stack, Clean d) (hfits : StackFits stack) :
    normalizeComponents (cs.filter (· ≠ [])) (startsOf stack) (render stack.reverse) = some p ↔
      (∀ c ∈ cs, c.length < pathBytes) ∧ (∀ k, StackFits ((cs.take k).foldl pushComponent stack)) ∧
        p = render (cs.foldl pushComponent stack).reverse := by
  induction cs generalizing stack with
  | nil => simp [normalizeComponents, hfits, eq_comm]
  | cons c cs ih =>
    obtain ⟨hslash, hzero⟩ := hcs c (List.mem_cons_self ..)
    have hcs' : ∀ d ∈ cs, slash ∉ d ∧ (0 : UInt8) ∉ d := fun d hd => hcs d (List.mem_cons_of_mem _ hd)
    rw [forall_take_cons, List.forall_mem_cons, List.foldl_cons]
    by_cases hnil : c = []
    · -- an empty component is not scanned and leaves the stack
      subst hnil
      have hpush : pushComponent stack [] = stack := if_pos (Or.inl rfl)
      rw [hpush, List.filter_cons_of_neg (by simp), ih hcs' hs hfits]
      simp [hfits]
    rw [List.filter_cons_of_pos (by simpa using hnil), normalizeComponents.eq_def]
    dsimp only
    by_cases hlong : pathBytes ≤ c.length
    · rw [if_pos hlong]
      simp [Nat.not_lt.mpr hlong]
    have hshort := Nat.not_le.mp hlong
    rw [if_neg hlong]
    by_cases hdot : c = ascii "."
    · have hpush : pushComponent stack c = stack := if_pos (Or.inr hdot)
      rw [if_pos hdot, hpush, ih hcs' hs hfits]
      simp [hshort, hfits]
    rw [if_neg hdot]
    by_cases hdots : c = ascii ".."
    · have hpush : pushComponent stack c = stack.tail := by
        unfold pushComponent
        rw [if_neg (not_or.mpr ⟨hnil, hdot⟩), if_pos hdots]
      rw [if_pos hdots, hpush]
      cases stack with
      | nil =>
        have ih' := ih hcs' hs hfits
        rw [startsOf] at ih'
        dsimp only [startsOf, List.tail_nil]
        rw [ih']
        simp [hshort, hfits]
      | cons d stack =>
        -- cutting the output at the last offset takes the last component away
        have hbelow : ∀ e ∈ stack, Clean e := fun e he => hs e (List.mem_cons_of_mem _ he)
        have hcut : (render (d :: stack).reverse).take (if startOf (render stack.reverse) = 1 then 1 else startOf (render stack.reverse) - 1) =
            render stack.reverse := by
          rw [List.reverse_cons]
          exact take_startOf (fun e he => hbelow e (List.mem_reverse.mp he)) d
        have hfits' : StackFits stack := by
          have hnormal : NormalForm (stack.reverse ++ [d]) :=
            ⟨fun e he => hs e (by simpa [or_comm] using he), by simpa using hfits.1, by simpa using hfits.2⟩
          exact ⟨by simpa using hnormal.of_append.count, hnormal.of_append.fits⟩
        dsimp only [startsOf, List.tail_cons]
        rw [hcut, ih hcs' hbelow hfits']
        simp [hshort, hfits]
    · have hclean : Clean c := ⟨hnil, hslash, hzero, hdot, hdots⟩
      have hpush : pushComponent stack c = c :: stack := by
        unfold pushComponent
        rw [if_neg (not_or.mpr ⟨hnil, hdot⟩), if_neg hdots]
      have hs' : ∀ e ∈ c :: stack, Clean e := by
        rw [← hpush]
        exact pushComponent_clean hs hslash hzero
      have hrev : ∀ e ∈ stack.reverse, Clean e := fun e he => hs e (List.mem_reverse.mp he)
      rw [if_neg hdots, hpush, length_startsOf]
      by_cases hcount : 16 ≤ stack.length
      · rw [if_pos hcount]
        have hnot : ¬StackFits (c :: stack) := fun h => by
          have := h.1
          simp at this
          omega
        simp only [reduceCtorEq, false_iff]
        exact fun h => hnot (h.2.1.2 0)
      rw [if_neg hcount]
      have happend := append_component_iff hrev hnil (render (stack.reverse ++ [c]))
      simp only [true_and] at happend
      have hstart : (if (render stack.reverse).length = 1 then 1 else (render stack.reverse).length + 1) = startOf (render stack.reverse) := rfl
      rw [hstart]
      by_cases hfit : (render (stack.reverse ++ [c])).length < pathBytes
      · have hfits' : StackFits (c :: stack) := ⟨by simp; omega, by simpa using hfit⟩
        obtain ⟨mid, hmid, hout⟩ := Option.bind_eq_some_iff.mp (happend.mpr hfit)
        have ih' := ih hcs' hs' hfits'
        rw [startsOf, List.reverse_cons] at ih'
        rw [hmid, Option.bind_eq_bind, Option.bind_some, hout, Option.bind_some, ih']
        simp [hshort, hfits]
      · have hnot : ¬StackFits (c :: stack) := fun h => hfit (by simpa using h.2)
        constructor
        · intro h
          rw [Option.bind_eq_bind, Option.bind_eq_some_iff] at h
          obtain ⟨mid, hmid, h⟩ := h
          obtain ⟨output, hout, -⟩ := Option.bind_eq_some_iff.mp h
          obtain ⟨rfl, hlen⟩ := (append_component_iff hrev hnil _).mp (Option.bind_eq_some_iff.mpr ⟨mid, hmid, hout⟩)
          exact absurd hlen hfit
        · exact fun h => absurd (h.2.1.2 0) hnot

/-! ### The text that is normalised -/

theorem pathCopy_iff {input output : Bytes} {capacity : Nat} :
    pathCopy input capacity = some output ↔ input.length < capacity ∧ output = input := by
  unfold pathCopy
  by_cases h : input.length < capacity
  · simp [h, eq_comm]
  · simp [h]

theorem join_iff {currentDirectory source combined : Bytes} (hne : source ≠ []) :
    (do let combined ← pathCopy currentDirectory 96
        let combined ← appendSeparator combined 96
        pathAppend combined source 96) = some combined ↔
      combined = (if currentDirectory = root then root else currentDirectory ++ root) ++ source ∧ combined.length < 96 := by
  have hpos := List.length_pos_iff.mpr hne
  simp only [Option.bind_eq_bind, Option.bind_eq_some_iff, pathCopy_iff, appendSeparator, pathAppend]
  by_cases hroot : currentDirectory = root
  · subst hroot
    simp [hne, eq_comm]
    constructor
    · rintro ⟨hlen, rfl⟩
      exact ⟨rfl, by simp; omega⟩
    · rintro ⟨rfl, hlen⟩
      exact ⟨by simp at hlen; omega, rfl⟩
  · simp only [if_neg hroot]
    constructor
    · rintro ⟨directory, ⟨-, rfl⟩, separated, hsep, h⟩
      rw [if_neg hroot] at hsep
      split at hsep
      · cases hsep
        split at h
        · cases h
          rename_i hfits
          exact ⟨rfl, by rw [List.length_append]; exact hfits.resolve_left hne⟩
        · cases h
      · cases hsep
    · rintro ⟨rfl, hlen⟩
      simp only [List.length_append, List.length_singleton] at hlen
      refine ⟨currentDirectory, ⟨by omega, rfl⟩, currentDirectory ++ root, ?_, ?_⟩
      · rw [if_neg hroot, if_pos (Or.inr (by simp; omega))]
      · rw [if_pos (Or.inr (by simp; omega))]

theorem combine_iff {currentDirectory source combined : Bytes} (hne : source ≠ []) :
    combine currentDirectory source = some combined ↔
      (ascii "/data" <+: source → source.drop 5 = [] ∨ (source.drop 5).head? = some slash) ∧
        (lexicalText currentDirectory source).length < 96 ∧
        combined = if source = ascii "/data" then root else lexicalText currentDirectory source := by
  unfold combine lexicalText
  simp only [List.isPrefixOf_iff_prefix]
  by_cases halias : ascii "/data" <+: source
  · obtain ⟨rest, rfl⟩ := halias
    have hdrop : (ascii "/data" ++ rest).drop 5 = rest := List.drop_left' rfl
    have hself : ascii "/data" ++ rest = ascii "/data" ↔ rest = [] := by simp
    simp only [List.prefix_append, if_true, hdrop, forall_const, hself]
    by_cases hrest : rest = []
    · subst hrest
      simp [pathCopy, eq_comm]
    · by_cases hslash : rest.head? = some slash
      · simp [hrest, hslash, pathCopy_iff]
      · simp [hrest, hslash]
  · have hself : source ≠ ascii "/data" := fun h => halias (h ▸ List.prefix_rfl)
    simp only [if_neg halias, if_neg hself]
    by_cases hslash : source.head? = some slash
    · simp [hslash, halias, pathCopy_iff]
    · rw [if_neg hslash, join_iff hne]
      simp only [if_neg hslash, halias, false_imp_iff, true_and]
      constructor
      · rintro ⟨rfl, hlen⟩
        exact ⟨hlen, rfl⟩
      · rintro ⟨hlen, rfl⟩
        exact ⟨rfl, hlen⟩

theorem zero_notMem_lexicalText {currentDirectory source : Bytes} (hd : (0 : UInt8) ∉ currentDirectory)
    (hs : (0 : UInt8) ∉ source) : (0 : UInt8) ∉ lexicalText currentDirectory source := by
  have hroot : (0 : UInt8) ∉ root := by decide
  unfold lexicalText
  split
  · exact fun hz => hs (List.mem_of_mem_drop hz)
  split
  · exact hs
  · have hslash : (0 : UInt8) ≠ slash := by decide
    split <;> simp [hd, hs, hslash]

/-! ### `normalize_path` -/

theorem normalizePath_iff {currentDirectory input p : Bytes} :
    normalizePath currentDirectory input = some p ↔
      cstr input ≠ [] ∧ Resolves (cstr currentDirectory) (cstr input) ∧
        p = render (lexicalPath (cstr currentDirectory) (cstr input)) := by
  unfold normalizePath
  by_cases hnil : cstr input = []
  · simp [hnil]
  rw [if_neg hnil, Option.bind_eq_bind, Option.bind_eq_some_iff]
  have hzero := zero_notMem_lexicalText (zero_notMem_cstr currentDirectory) (zero_notMem_cstr input)
  have hmem : ∀ c ∈ lexicalComponents (cstr currentDirectory) (cstr input), slash ∉ c ∧ (0 : UInt8) ∉ c := fun c hc =>
    ⟨(mem_splitOn hc).1, fun hz => hzero ((mem_splitOn hc).2 0 hz)⟩
  have hloop := @normalizeComponents_iff _ [] p hmem (by simp) ⟨by simp, by decide⟩
  have hcomponents : ∀ combined, combined = (if cstr input = ascii "/data" then root else
      lexicalText (cstr currentDirectory) (cstr input)) →
      components combined = (lexicalComponents (cstr currentDirectory) (cstr input)).filter (· ≠ []) := by
    rintro combined rfl
    unfold lexicalComponents
    rw [← components_eq]
    split
    · rename_i hdata
      rw [hdata]
      rfl
    · rfl
  rw [startsOf, List.reverse_nil, render_nil] at hloop
  constructor
  · rintro ⟨combined, hcombine, h⟩
    obtain ⟨haliased, htext, hc⟩ := (combine_iff hnil).mp hcombine
    rw [hcomponents combined hc, hloop] at h
    exact ⟨hnil, ⟨haliased, htext, h.1, h.2.1⟩, h.2.2⟩
  · rintro ⟨-, hr, hp⟩
    refine ⟨_, (combine_iff hnil).mpr ⟨hr.aliased, hr.text, rfl⟩, ?_⟩
    rw [hcomponents _ rfl, hloop]
    exact ⟨hr.component, hr.path, hp⟩

theorem lexicalPath_clean {currentDirectory input : Bytes} :
    ∀ c ∈ lexicalPath (cstr currentDirectory) (cstr input), Clean c := by
  have hzero := zero_notMem_lexicalText (zero_notMem_cstr currentDirectory) (zero_notMem_cstr input)
  intro c hc
  exact foldl_pushComponent_clean (by simp)
    (fun d hd => ⟨(mem_splitOn hd).1, fun hz => hzero ((mem_splitOn hd).2 0 hz)⟩) c (List.mem_reverse.mp hc)

theorem Resolves.normalForm {currentDirectory input : Bytes} (h : Resolves (cstr currentDirectory) (cstr input)) :
    NormalForm (lexicalPath (cstr currentDirectory) (cstr input)) := by
  have hlast := h.path (lexicalComponents (cstr currentDirectory) (cstr input)).length
  rw [List.take_length] at hlast
  exact ⟨lexicalPath_clean, by simpa [lexicalPath, resolve] using hlast.1, hlast.2⟩

/-- `normalize_path` succeeds on a nonempty input exactly within the limits, and returns what the input names. -/
theorem normalizePath_lexical (currentDirectory input : Bytes) :
    ((normalizePath currentDirectory input).isSome ↔
      cstr input ≠ [] ∧ Resolves (cstr currentDirectory) (cstr input)) ∧
    (∀ q, normalizePath currentDirectory input = some q →
      q = render (lexicalPath (cstr currentDirectory) (cstr input))) ∧
    ∀ c ∈ lexicalPath (cstr currentDirectory) (cstr input), c ≠ [] ∧ slash ∉ c ∧ c ≠ ascii "." ∧ c ≠ ascii ".." := by
  refine ⟨?_, fun q hq => (normalizePath_iff.mp hq).2.2, fun c hc => ?_⟩
  · rw [Option.isSome_iff_exists]
    constructor
    · rintro ⟨q, hq⟩
      obtain ⟨hne, hr, -⟩ := normalizePath_iff.mp hq
      exact ⟨hne, hr⟩
    · rintro ⟨hne, hr⟩
      exact ⟨_, normalizePath_iff.mpr ⟨hne, hr, rfl⟩⟩
  · have hclean := lexicalPath_clean c hc
    exact ⟨hclean.nonempty, hclean.noSlash, hclean.notDot, hclean.notDots⟩

/-- The empty input is refused, though the current directory itself is within the limits. -/
theorem normalizePath_empty :
    Resolves (cstr root) (cstr []) ∧ (normalizePath root []).isSome = false := by
  have hcomponents : lexicalComponents (cstr root) (cstr []) = [[], []] := by decide
  refine ⟨⟨fun h => absurd h (by decide), by decide, by rw [hcomponents]; decide, fun k => ?_⟩, by decide⟩
  rw [hcomponents]
  have hstay : ∀ cs : List Bytes, (∀ c ∈ cs, c = []) → cs.foldl pushComponent [] = [] := by
    intro cs
    induction cs with
    | nil => exact fun _ => rfl
    | cons c cs ih =>
      intro h
      rw [List.foldl_cons, h c (List.mem_cons_self ..)]
      exact ih fun d hd => h d (List.mem_cons_of_mem _ hd)
  rw [hstay _ fun c hc => by simpa using List.mem_of_mem_take hc]
  exact ⟨by simp, by decide⟩

/-- Normalising a result again gives it back, in every directory, exactly when the first component that the
    input names does not start with `data`. -/
theorem normalizePath_again_iff {currentDirectory input q : Bytes} (h : normalizePath currentDirectory input = some q) :
    (∀ directory, normalizePath directory q = some q) ↔
      ∀ c, (lexicalPath (cstr currentDirectory) (cstr input)).head? = some c → ¬ascii "data" <+: c := by
  obtain ⟨-, hr, rfl⟩ := normalizePath_iff.mp h
  have hnormal := hr.normalForm
  generalize lexicalPath (cstr currentDirectory) (cstr input) = cs at hnormal
  have hagain := normalizePath_render hnormal
  cases cs with
  | nil => exact ⟨fun _ c hc => by simp at hc, fun _ => hagain⟩
  | cons c rest =>
    simp only [hagain, List.head?_cons, Option.some.injEq, forall_eq']
    by_cases hdata : c = ascii "data"
    · -- the alias is resolved a second time
      subst hdata
      have hshorter : render rest ≠ render (ascii "data" :: rest) := by
        intro heq
        have hlen := congrArg List.length heq
        cases rest with
        | nil => simp [render_cons, ascii] at hlen
        | cons d rest =>
          rw [render_cons, render_cons] at hlen
          simp [ascii] at hlen
      simp [hshorter]
    · simp [hdata, List.isPrefixOf_iff_prefix]

theorem normalizePath_again_sample :
    normalizePath root (ascii "a") = some (ascii "/a") ∧ normalizePath (ascii "/apps") (ascii "/a") = some (ascii "/a") := by
  have hn : normalizePath root (ascii "a") = some (ascii "/a") := by decide
  refine ⟨hn, (normalizePath_again_iff hn).mpr (fun c hc => ?_) (ascii "/apps")⟩
  have hpath : (lexicalPath (cstr root) (cstr (ascii "a"))).head? = some (ascii "a") := by decide
  rw [hpath] at hc
  cases hc
  decide

/-- The result for `/data/data/x` is the path of another entry when it is normalised again. -/
theorem normalizePath_data_data :
    normalizePath root (ascii "/data/data/x") = some (ascii "/data/x") ∧
      normalizePath root (ascii "/data/x") = some (ascii "/x") := by
  decide

end ZenovOS.Storage
