import ZenovOS.Security.PolicyFormat
import ZenovOS.Theorems.Storage.Lexical

/-! # The paths of policy records

A policy record holds a path that `canonical_absolute_path` admits. Such a path is its own normal form unless
it has more than 16 components, or starts with the alias of the root. -/

namespace ZenovOS.Security
open Bytes Storage

/-! ### Canonical paths -/

theorem componentsValid_splitOn {rest component : Bytes} (h : componentsValid rest component = true) :
    (∀ c ∈ (rest.splitOn slash).modifyHead (component ++ ·), componentValid c = true) ∧ ∀ b ∈ rest, b ≠ 0 := by
  induction rest generalizing component with
  | nil =>
    rw [componentsValid] at h
    simpa using h
  | cons b rest ih =>
    rw [componentsValid] at h
    split at h
    · cases h
    · rename_i hbyte
      have hb : b ≠ 0 := fun hb => hbyte (Or.inl (by rw [hb]; decide))
      rw [List.splitOn_cons_eq_if_modifyHead]
      by_cases hslash : b = slash
      · rw [if_pos (by exact hslash), Bool.and_eq_true] at h
        obtain ⟨hvalid, hzero⟩ := ih h.2
        have hid : (rest.splitOn slash).modifyHead (([] : Bytes) ++ ·) = rest.splitOn slash := by
          cases rest.splitOn slash <;> simp
        rw [hid] at hvalid
        simp only [hslash, beq_self_eq_true, if_true, List.modifyHead_cons, List.append_nil, List.forall_mem_cons]
        exact ⟨⟨h.1, hvalid⟩, by decide, hzero⟩
      · rw [if_neg (by exact hslash)] at h
        obtain ⟨hvalid, hzero⟩ := ih h
        rw [if_neg (by simpa using hslash), List.forall_mem_cons]
        refine ⟨?_, hb, hzero⟩
        cases hsplit : rest.splitOn slash with
        | nil => exact absurd hsplit (List.splitOn_ne_nil _ _)
        | cons c cs =>
          rw [hsplit] at hvalid
          simpa using hvalid

theorem flatMap_splitOn (s : Bytes) : (s.splitOn slash).flatMap (slash :: ·) = slash :: s := by
  induction s with
  | nil => rfl
  | cons b s ih =>
    rw [List.splitOn_cons_eq_if_modifyHead]
    by_cases hb : b = slash
    · simp [hb, ih]
    · rw [if_neg (by simpa using hb)]
      cases hsplit : s.splitOn slash with
      | nil => exact absurd hsplit (List.splitOn_ne_nil _ _)
      | cons c cs =>
        rw [hsplit, List.flatMap_cons, List.cons_append, List.cons_inj_right] at ih
        rw [List.modifyHead_cons, List.flatMap_cons, List.cons_append, List.cons_append, ih]

theorem count_flatMap {cs : List Bytes} (h : ∀ c ∈ cs, slash ∉ c) : (cs.flatMap (slash :: ·)).count slash = cs.length := by
  induction cs with
  | nil => rfl
  | cons c cs ih =>
    have hc := List.count_eq_zero.mpr (h c (List.mem_cons_self ..))
    rw [List.flatMap_cons, List.count_append, List.count_cons_self, hc, ih fun d hd => h d (List.mem_cons_of_mem _ hd)]
    simp [Nat.add_comm]

theorem canonicalAbsolutePath_render {value : Bytes} (h : canonicalAbsolutePath value = true) :
    ∃ cs, cs ≠ [] ∧ (∀ c ∈ cs, Clean c) ∧ cstr value = render cs ∧ (cstr value).count slash = cs.length := by
  unfold canonicalAbsolutePath canonicalAbsolutePathWithLength at h
  simp only [Bool.and_eq_true, decide_eq_true_eq] at h
  obtain ⟨-, h⟩ := h
  have htake : value.take (cstr value).length = cstr value := by
    unfold cstr
    exact List.prefix_iff_eq_take.mp (List.takeWhile_prefix _) |>.symm
  rw [htake] at h
  split at h
  · cases h
  split at h
  · cases h
  rename_i hshape
  simp only [not_or, not_not] at hshape
  obtain ⟨hlen, hhead, -⟩ := hshape
  obtain ⟨rest, hrest⟩ : ∃ rest, cstr value = slash :: rest := by
    cases hv : cstr value with
    | nil => rw [hv] at hhead; cases hhead
    | cons b rest =>
      rw [hv] at hhead
      cases hhead
      exact ⟨rest, rfl⟩
  rw [hrest, List.tail_cons] at h
  obtain ⟨hvalid, hzero⟩ := componentsValid_splitOn h
  have hid : (rest.splitOn slash).modifyHead (([] : Bytes) ++ ·) = rest.splitOn slash := by
    cases rest.splitOn slash <;> simp
  rw [hid] at hvalid
  have hclean : ∀ c ∈ rest.splitOn slash, Clean c := by
    intro c hc
    have hc' := hvalid c hc
    simp only [componentValid, Bool.and_eq_true, decide_eq_true_eq] at hc'
    exact ⟨hc'.1.1, (mem_splitOn hc).1, fun hz => hzero 0 ((mem_splitOn hc).2 0 hz) rfl, hc'.1.2, hc'.2⟩
  have hne := List.splitOn_ne_nil slash rest
  refine ⟨rest.splitOn slash, hne, hclean, ?_, ?_⟩
  · rw [hrest, render_of_ne_nil hne, flatMap_splitOn]
  · rw [hrest, ← flatMap_splitOn, count_flatMap fun c hc => (hclean c hc).noSlash]

/-! ### Normal forms -/

theorem normalizePath_cstr (directory input : Bytes) : normalizePath directory (cstr input) = normalizePath directory input := by
  unfold normalizePath
  rw [cstr_of_notMem (zero_notMem_cstr input)]

theorem normalizePath_alias {cs : List Bytes} (h : NormalForm cs) (hne : cs ≠ []) (directory : Bytes) :
    normalizePath directory (ascii "/data" ++ render cs) = some (render cs) := by
  have hzero : (0 : UInt8) ∉ ascii "/data" ++ render cs := by
    rw [List.mem_append, not_or]
    exact ⟨by decide, zero_notMem_render h.clean⟩
  have hhead : (render cs).head? = some slash := by
    obtain ⟨c, cs, rfl⟩ := List.exists_cons_of_ne_nil hne
    rw [render_cons]
    rfl
  have hdrop : (ascii "/data" ++ render cs).drop 5 = render cs := List.drop_left' rfl
  have hlen : (render cs).length < 96 := Nat.lt_trans h.fits (by decide)
  have hnil : render cs ≠ [] := fun hnil => by rw [hnil] at hhead; cases hhead
  have hcombine : combine (cstr directory) (ascii "/data" ++ render cs) = some (render cs) := by
    unfold combine
    rw [if_pos (by simp), hdrop, if_neg hnil, if_neg (by simpa using hhead)]
    exact if_pos hlen
  unfold normalizePath
  rw [cstr_of_notMem hzero, if_neg (by simp [ascii]), hcombine, Option.bind_eq_bind, Option.bind_some,
    components_render h.clean]
  exact normalizeComponents_of_normalForm [] h

/-- A canonical path is its own normal form exactly if it has at most 16 components and does not start with
    the alias of the root, and the normal form of some request exactly if it has at most 16 components. -/
theorem canonicalAbsolutePath_normal_iff {value : Bytes} (hcapacity : value.length ≤ pathBytes)
    (h : canonicalAbsolutePath value = true) :
    ((∀ directory, normalizePath directory value = some (cstr value)) ↔
      (cstr value).count slash ≤ 16 ∧ ¬ascii "/data" <+: cstr value) ∧
    ((∃ directory input, normalizePath directory input = some (cstr value)) ↔ (cstr value).count slash ≤ 16) := by
  have hlen : (cstr value).length < pathBytes := by
    have hne : (cstr value).length ≠ value.length := by
      unfold canonicalAbsolutePath at h
      simp only [Bool.and_eq_true, decide_eq_true_eq] at h
      exact h.1
    have hle : (cstr value).length ≤ value.length := (List.takeWhile_prefix _).length_le
    omega
  obtain ⟨cs, hne, hclean, hrender, hcount⟩ := canonicalAbsolutePath_render h
  have hself : ∀ directory, normalizePath directory value = normalizePath directory (render cs) := fun directory => by
    rw [← normalizePath_cstr directory value, hrender]
  simp only [hself]
  rw [hcount]
  rw [hrender] at hlen ⊢
  -- a result of `normalize_path` has at most 16 components
  have hdeep : ∀ {directory input}, normalizePath directory input = some (render cs) → cs.length ≤ 16 := by
    intro directory input hresult
    obtain ⟨ds, hnormal, heq⟩ := normalizePath_normalForm hresult
    have := congrArg components heq
    rw [components_render hclean, components_render hnormal.clean] at this
    exact this ▸ hnormal.count
  obtain ⟨c, rest, rfl⟩ := List.exists_cons_of_ne_nil hne
  have hbelow : ascii "/data" <+: render (c :: rest) ↔ ascii "data" <+: c := by
    rw [← List.isPrefixOf_iff_prefix, ← List.isPrefixOf_iff_prefix, isPrefixOf_render]
  constructor
  · constructor
    · intro hresult
      have hdeep := hdeep (hresult root)
      refine ⟨hdeep, fun hdata => ?_⟩
      have hagain := normalizePath_render ⟨hclean, hdeep, hlen⟩ root
      rw [hresult root] at hagain
      dsimp only at hagain
      rw [if_pos (List.isPrefixOf_iff_prefix.mpr (hbelow.mp hdata))] at hagain
      split at hagain
      · -- a path without its first component is shorter
        have hcomponents := congrArg components (Option.some.inj hagain)
        rw [components_render hclean, components_render fun d hd => hclean d (List.mem_cons_of_mem _ hd)] at hcomponents
        simpa using congrArg List.length hcomponents
      · cases hagain
    · rintro ⟨hdeep, hdata⟩ directory
      rw [hbelow, ← List.isPrefixOf_iff_prefix] at hdata
      rw [normalizePath_render ⟨hclean, hdeep, hlen⟩]
      dsimp only
      rw [if_neg hdata, if_neg]
      rintro rfl
      exact hdata (by decide)
  · constructor
    · rintro ⟨directory, input, hresult⟩
      exact hdeep hresult
    · exact fun hdeep => ⟨root, _, normalizePath_alias ⟨hclean, hdeep, hlen⟩ hne root⟩

theorem canonicalAbsolutePath_normal_sample :
    ((∀ directory, normalizePath directory (ascii "/a" ++ [0]) = some (cstr (ascii "/a" ++ [0]))) ↔
      (cstr (ascii "/a" ++ [0])).count slash ≤ 16 ∧ ¬ascii "/data" <+: cstr (ascii "/a" ++ [0])) ∧
    ((∃ directory input, normalizePath directory input = some (cstr (ascii "/a" ++ [0]))) ↔
      (cstr (ascii "/a" ++ [0])).count slash ≤ 16) :=
  canonicalAbsolutePath_normal_iff (by decide) (by decide)

/-- A record for `/data/x` is admitted, and its path is not the normal form of itself. -/
theorem canonicalAbsolutePath_data :
    canonicalAbsolutePath (ascii "/data/x" ++ [0]) = true ∧
      normalizePath root (ascii "/data/x" ++ [0]) = some (ascii "/x") := by
  decide

end ZenovOS.Security
