import ZenovOS.Storage.Path

/-! # Normalised paths

`normalize_path` returns the root or a `/`-separated list of at most 16 clean components that fits in 47
bytes (`NormalForm`). Normalising such a path again gives it back, unless its first component starts
with `data`: the alias of the root is resolved a second time. -/

namespace ZenovOS.Storage
open Bytes

/-! ### Paths as lists of components -/

/-- A component that `normalize_path` keeps. -/
structure Clean (c : Bytes) : Prop where
  nonempty : c ≠ []
  noSlash : slash ∉ c
  noZero : (0 : UInt8) ∉ c
  notDot : c ≠ ascii "."
  notDots : c ≠ ascii ".."

/-- The path with the given components. -/
def render (cs : List Bytes) : Bytes := if cs = [] then root else cs.flatMap (slash :: ·)

/-- The components of a path that `normalize_path` can return. -/
structure NormalForm (cs : List Bytes) : Prop where
  clean : ∀ c ∈ cs, Clean c
  count : cs.length ≤ 16
  fits : (render cs).length < pathBytes

@[simp] theorem render_nil : render [] = root := rfl

theorem render_of_ne_nil {cs : List Bytes} (h : cs ≠ []) : render cs = cs.flatMap (slash :: ·) := if_neg h

theorem render_cons (c : Bytes) (cs : List Bytes) : render (c :: cs) = slash :: c ++ cs.flatMap (slash :: ·) := by
  rw [render_of_ne_nil (List.cons_ne_nil _ _), List.flatMap_cons]

theorem render_snoc (cs : List Bytes) (c : Bytes) :
    render (cs ++ [c]) = (if cs = [] then root else render cs ++ root) ++ c := by
  rw [render_of_ne_nil (by simp), List.flatMap_append, List.flatMap_singleton]
  by_cases h : cs = []
  · simp [h]
  · simp [h, render_of_ne_nil h]

theorem length_render_snoc (cs : List Bytes) (c : Bytes) :
    (render (cs ++ [c])).length = (if cs = [] then 1 else (render cs).length + 1) + c.length := by
  rw [render_snoc]
  by_cases h : cs = [] <;> simp [h] <;> omega

theorem length_render_eq_one {cs : List Bytes} (h : ∀ c ∈ cs, Clean c) : (render cs).length = 1 ↔ cs = [] := by
  constructor
  · intro hl
    match cs, h with
    | [], _ => rfl
    | c :: cs, h =>
      have hc := List.length_pos_of_ne_nil (h c (List.mem_cons_self ..)).nonempty
      rw [render_cons] at hl
      simp only [List.cons_append, List.length_cons, List.length_append] at hl
      omega
  · rintro rfl
    rfl

theorem render_eq_root {cs : List Bytes} (h : ∀ c ∈ cs, Clean c) : render cs = root ↔ cs = [] := by
  constructor
  · intro hr
    exact (length_render_eq_one h).mp (by rw [hr]; rfl)
  · rintro rfl
    rfl

theorem NormalForm.of_append {cs ds : List Bytes} (h : NormalForm (cs ++ ds)) : NormalForm cs where
  clean c hc := h.clean c (List.mem_append_left _ hc)
  count := by
    have := h.count
    simp at this
    omega
  fits := by
    have := h.fits
    by_cases hc : cs = []
    · subst hc
      decide
    · rw [render_of_ne_nil (by simp [hc]), List.flatMap_append] at this
      rw [render_of_ne_nil hc]
      simp only [List.length_append] at this
      omega

theorem NormalForm.nil : NormalForm [] := ⟨by simp, by simp, by decide⟩

theorem NormalForm.tail {c : Bytes} {cs : List Bytes} (h : NormalForm (c :: cs)) : NormalForm cs where
  clean d hd := h.clean d (List.mem_cons_of_mem _ hd)
  count := by
    have := h.count
    simp at this
    omega
  fits := by
    have := h.fits
    by_cases hc : cs = []
    · subst hc
      decide
    · rw [render_cons] at this
      rw [render_of_ne_nil hc]
      simp only [List.length_append] at this
      omega

theorem zero_notMem_render {cs : List Bytes} (h : ∀ c ∈ cs, Clean c) : (0 : UInt8) ∉ render cs := by
  by_cases hc : cs = []
  · subst hc
    decide
  · rw [render_of_ne_nil hc]
    intro hz
    obtain ⟨c, hc, hz⟩ := List.mem_flatMap.mp hz
    rcases List.mem_cons.mp hz with hz | hz
    · exact absurd hz (by decide)
    · exact (h c hc).noZero hz

/-! ### Scanning components -/

theorem componentsFrom_append {x : Bytes} (hx : slash ∉ x) (component y : Bytes) :
    componentsFrom component (x ++ y) = componentsFrom (component ++ x) y := by
  induction x generalizing component with
  | nil => simp
  | cons b x ih =>
    simp only [List.mem_cons, not_or] at hx
    have hb : b ≠ slash := Ne.symm hx.1
    rw [List.cons_append, componentsFrom, if_neg hb, ih hx.2]
    simp

theorem componentsFrom_flatMap {cs : List Bytes} (h : ∀ c ∈ cs, Clean c) {component : Bytes} (hc : component ≠ []) :
    componentsFrom component (cs.flatMap (slash :: ·)) = component :: cs := by
  induction cs generalizing component with
  | nil => simp [componentsFrom, hc]
  | cons c cs ih =>
    have hclean := h c (List.mem_cons_self ..)
    have := ih (fun d hd => h d (List.mem_cons_of_mem _ hd)) hclean.nonempty
    rw [List.flatMap_cons, List.cons_append, componentsFrom, if_pos rfl, if_neg hc,
      componentsFrom_append hclean.noSlash, List.nil_append, this]

theorem components_flatMap {cs : List Bytes} (h : ∀ c ∈ cs, Clean c) : components (cs.flatMap (slash :: ·)) = cs := by
  match cs, h with
  | [], _ => rfl
  | c :: cs, h =>
    have hclean := h c (List.mem_cons_self ..)
    have := componentsFrom_flatMap (fun d hd => h d (List.mem_cons_of_mem _ hd)) hclean.nonempty
    rw [List.flatMap_cons, List.cons_append, components, componentsFrom, if_pos rfl, if_pos rfl,
      componentsFrom_append hclean.noSlash, List.nil_append, this]

theorem components_render {cs : List Bytes} (h : ∀ c ∈ cs, Clean c) : components (render cs) = cs := by
  by_cases hc : cs = []
  · subst hc
    rfl
  · rw [render_of_ne_nil hc, components_flatMap h]

/-- A scanned component is not empty and its bytes are those of the path, without `/`. -/
theorem componentsFrom_mem {path component : Bytes} {c : Bytes} (hs : slash ∉ component)
    (hc : c ∈ componentsFrom component path) : c ≠ [] ∧ slash ∉ c ∧ ∀ b ∈ c, b ∈ component ++ path := by
  induction path generalizing component with
  | nil =>
    by_cases hnil : component = []
    · simp [componentsFrom, hnil] at hc
    · simp only [componentsFrom, if_neg hnil, List.mem_singleton] at hc
      subst hc
      exact ⟨hnil, hs, by simp⟩
  | cons b path ih =>
    rw [componentsFrom] at hc
    split at hc
    · split at hc
      · obtain ⟨h1, h2, h3⟩ := @ih [] (by simp) hc
        exact ⟨h1, h2, fun x hx => by simpa using Or.inr (Or.inr (by simpa using h3 x hx))⟩
      · rcases List.mem_cons.mp hc with rfl | hc
        · exact ⟨‹_›, hs, fun x hx => List.mem_append_left _ hx⟩
        · obtain ⟨h1, h2, h3⟩ := @ih [] (by simp) hc
          exact ⟨h1, h2, fun x hx => by simpa using Or.inr (Or.inr (by simpa using h3 x hx))⟩
    · rename_i hb
      have hs' : slash ∉ component ++ [b] := by
        simp only [List.mem_append, List.mem_singleton, not_or]
        exact ⟨hs, Ne.symm hb⟩
      obtain ⟨h1, h2, h3⟩ := ih hs' hc
      exact ⟨h1, h2, fun x hx => by simpa [or_assoc] using h3 x hx⟩

/-! ### The stack of component offsets -/

/-- The offset at which a component is appended to `output`. -/
def startOf (output : Bytes) : Nat := if output.length = 1 then 1 else output.length + 1

/-- The offsets of the components of a path, given last component first. -/
def startsOf : List Bytes → List Nat
  | [] => []
  | _ :: below => startOf (render below.reverse) :: startsOf below

@[simp] theorem length_startsOf (rs : List Bytes) : (startsOf rs).length = rs.length := by
  induction rs with
  | nil => rfl
  | cons c rs ih => simp [startsOf, ih]

theorem take_startOf {cs : List Bytes} (h : ∀ c ∈ cs, Clean c) (c : Bytes) :
    (render (cs ++ [c])).take (if startOf (render cs) = 1 then 1 else startOf (render cs) - 1) = render cs := by
  rw [render_snoc]
  by_cases hc : cs = []
  · subst hc
    rfl
  · have hlen : (render cs).length ≠ 1 := fun hl => hc ((length_render_eq_one h).mp hl)
    have hpos : 0 < (render cs).length := by
      rw [render_of_ne_nil hc]
      obtain ⟨d, ds, rfl⟩ := List.exists_cons_of_ne_nil hc
      simp
    have hstart : startOf (render cs) = (render cs).length + 1 := if_neg hlen
    rw [hstart, if_neg (by omega), if_neg hc, Nat.add_sub_cancel, List.append_assoc, List.take_left]

theorem append_component {cs : List Bytes} (h : ∀ c ∈ cs, Clean c) {c output : Bytes}
    (ho : (do let output ← appendSeparator (render cs) pathBytes
              pathAppend output c pathBytes) = some output) (hc : c ≠ []) :
    output = render (cs ++ [c]) ∧ output.length < pathBytes := by
  simp only [appendSeparator, render_eq_root h] at ho
  rw [render_snoc]
  by_cases hnil : cs = []
  · subst hnil
    simp only [if_true, render_nil, Option.bind_eq_bind, Option.bind_some] at ho ⊢
    unfold pathAppend at ho
    split at ho
    · cases ho
      rename_i h'
      rcases h' with h' | h'
      · exact absurd h' hc
      · exact ⟨rfl, by rw [List.length_append]; exact h'⟩
    · cases ho
  · simp only [if_neg hnil] at ho ⊢
    rw [Option.bind_eq_bind, Option.bind_eq_some_iff] at ho
    obtain ⟨mid, hmid, ho⟩ := ho
    unfold pathAppend at hmid ho
    split at hmid
    · cases hmid
      split at ho
      · cases ho
        rename_i h'
        rcases h' with h' | h'
        · exact absurd h' hc
        · exact ⟨rfl, by rw [List.length_append]; exact h'⟩
      · cases ho
    · cases hmid

theorem append_component_some {cs : List Bytes} {c : Bytes} (h : NormalForm (cs ++ [c])) :
    (do let output ← appendSeparator (render cs) pathBytes
        pathAppend output c pathBytes) = some (render (cs ++ [c])) := by
  have hcs : ∀ d ∈ cs, Clean d := h.of_append.clean
  have hfits := h.fits
  simp only [appendSeparator, render_eq_root hcs]
  rw [length_render_snoc] at hfits
  rw [render_snoc]
  by_cases hnil : cs = []
  · subst hnil
    simp only [if_true] at hfits
    simp only [if_true, render_nil, Option.bind_eq_bind, Option.bind_some]
    exact if_pos (Or.inr (by simpa using hfits))
  · simp only [if_neg hnil] at hfits ⊢
    have h1 : pathAppend (render cs) root pathBytes = some (render cs ++ root) :=
      if_pos (Or.inr (by simp; omega))
    rw [h1]
    exact if_pos (Or.inr (by simp; omega))

/-! ### The main loop -/

/-- The loop keeps the output in normal form, with `starts` the offsets of its components. -/
theorem normalizeComponents_normal {rest : List Bytes} (rs : List Bytes) {p : Bytes}
    (hrest : ∀ c ∈ rest, c ≠ [] ∧ slash ∉ c ∧ (0 : UInt8) ∉ c) (hn : NormalForm rs.reverse)
    (h : normalizeComponents rest (startsOf rs) (render rs.reverse) = some p) :
    ∃ cs, NormalForm cs ∧ p = render cs := by
  induction rest generalizing rs with
  | nil =>
    simp only [normalizeComponents, Option.some.injEq] at h
    exact ⟨rs.reverse, hn, h.symm⟩
  | cons c rest ih =>
    have ih := @ih
    obtain ⟨hne, hslash, hzero⟩ := hrest c (List.mem_cons_self ..)
    have hrest' : ∀ d ∈ rest, d ≠ [] ∧ slash ∉ d ∧ (0 : UInt8) ∉ d := fun d hd => hrest d (List.mem_cons_of_mem _ hd)
    rw [normalizeComponents.eq_def] at h
    simp only at h
    split at h
    · cases h
    split at h
    · exact ih _ hrest' hn h
    split at h
    · -- `..` drops the last component, if there is one.
      match rs, hn, h with
      | [], hn, h => exact ih _ hrest' hn h
      | d :: rs, hn, h =>
        simp only [startsOf] at h
        rw [List.reverse_cons] at h hn
        rw [take_startOf (fun c hc => hn.clean c (List.mem_append_left _ hc))] at h
        exact ih _ hrest' hn.of_append h
    split at h
    · cases h
    · rename_i hlong hdot hdots hcount
      rw [length_startsOf] at hcount
      have hclean : Clean c := ⟨hne, hslash, hzero, hdot, hdots⟩
      rw [Option.bind_eq_bind, Option.bind_eq_some_iff] at h
      obtain ⟨mid, hmid, h⟩ := h
      rw [Option.bind_eq_some_iff] at h
      obtain ⟨output, hout, h⟩ := h
      obtain ⟨rfl, hlen⟩ := append_component hn.clean
        (by rw [Option.bind_eq_bind, Option.bind_eq_some_iff]; exact ⟨mid, hmid, hout⟩) hne
      have hn' : NormalForm (c :: rs).reverse := by
        rw [List.reverse_cons]
        refine ⟨fun d hd => ?_, by simp; omega, hlen⟩
        rcases List.mem_append.mp hd with hd | hd
        · exact hn.clean d hd
        · rw [List.mem_singleton.mp hd]
          exact hclean
      refine ih (c :: rs) hrest' hn' ?_
      rw [List.reverse_cons]
      exact h

theorem normalizeComponents_of_normalForm {rest : List Bytes} (done : List Bytes) (h : NormalForm (done ++ rest)) :
    normalizeComponents rest (startsOf done.reverse) (render done) = some (render (done ++ rest)) := by
  induction rest generalizing done with
  | nil => simp [normalizeComponents]
  | cons c rest ih =>
    have hsplit : done ++ c :: rest = (done ++ [c]) ++ rest := by simp
    rw [hsplit] at h ⊢
    have hpre := h.of_append
    have hc := hpre.clean c (by simp)
    have hlen : c.length < pathBytes := by
      have := hpre.fits
      rw [length_render_snoc] at this
      omega
    have hcount : ¬16 ≤ (startsOf done.reverse).length := by
      have := hpre.count
      simp at this ⊢
      omega
    have happ := append_component_some hpre
    rw [Option.bind_eq_bind, Option.bind_eq_some_iff] at happ
    obtain ⟨mid, hmid, happ⟩ := happ
    have := ih _ h
    rw [List.reverse_append] at this
    rw [normalizeComponents.eq_def]
    simp only [if_neg (Nat.not_le.mpr hlen), if_neg hc.notDot, if_neg hc.notDots, if_neg hcount]
    rw [hmid, Option.bind_eq_bind, Option.bind_some, happ, Option.bind_some]
    have hstarts : startsOf ([c].reverse ++ done.reverse) = startOf (render done) :: startsOf done.reverse := by
      simp [startsOf]
    rw [hstarts] at this
    exact this

/-! ### `normalize_path` -/

theorem combine_zero {currentDirectory source combined : Bytes} (hd : (0 : UInt8) ∉ currentDirectory)
    (hs : (0 : UInt8) ∉ source) (h : combine currentDirectory source = some combined) : (0 : UInt8) ∉ combined := by
  have hroot : (0 : UInt8) ∉ root := by decide
  unfold combine at h
  split at h
  · simp only at h
    split at h
    · unfold pathCopy at h
      split at h <;> cases h
      exact hroot
    split at h
    · cases h
    · unfold pathCopy at h
      split at h <;> cases h
      exact fun hz => hs (List.mem_of_mem_drop hz)
  split at h
  · unfold pathCopy at h
    split at h <;> cases h
    exact hs
  · simp only [Option.bind_eq_bind, Option.bind_eq_some_iff] at h
    obtain ⟨c, hc, d, hd', h⟩ := h
    unfold pathCopy at hc
    split at hc <;> cases hc
    have hd'' : (0 : UInt8) ∉ d := by
      unfold appendSeparator at hd'
      split at hd'
      · cases hd'
        exact hd
      · unfold pathAppend at hd'
        split at hd' <;> cases hd'
        simp only [List.mem_append, not_or]
        exact ⟨hd, hroot⟩
    unfold pathAppend at h
    split at h <;> cases h
    simp only [List.mem_append, not_or]
    exact ⟨hd'', hs⟩

theorem normalizePath_absolute (currentDirectory : Bytes) {input : Bytes} (h : (cstr input).head? = some slash) :
    normalizePath currentDirectory input = normalizePath root input := by
  have hcombine : combine (cstr currentDirectory) (cstr input) = combine (cstr root) (cstr input) := by
    unfold combine
    rw [if_pos h, if_pos h]
  unfold normalizePath
  rw [hcombine]

theorem normalizePath_normalForm {currentDirectory input p : Bytes} (h : normalizePath currentDirectory input = some p) :
    ∃ cs, NormalForm cs ∧ p = render cs := by
  unfold normalizePath at h
  split at h
  · cases h
  · rw [Option.bind_eq_bind, Option.bind_eq_some_iff] at h
    obtain ⟨combined, hcomb, h⟩ := h
    have hzero := combine_zero (zero_notMem_cstr _) (zero_notMem_cstr _) hcomb
    refine normalizeComponents_normal [] (fun c hc => ?_) NormalForm.nil h
    obtain ⟨h1, h2, h3⟩ := componentsFrom_mem (by simp) hc
    exact ⟨h1, h2, fun hz => hzero (by simpa using h3 0 hz)⟩

theorem isPrefixOf_render {c : Bytes} {cs : List Bytes} :
    (ascii "/data").isPrefixOf (render (c :: cs)) = (ascii "data").isPrefixOf c := by
  have happ : ∀ (x y tl : Bytes), slash ∉ x → (x.isPrefixOf (y ++ slash :: tl)) = x.isPrefixOf y := by
    intro x
    induction x with
    | nil => intro y tl _; rfl
    | cons b x ih =>
      intro y tl hx
      simp only [List.mem_cons, not_or] at hx
      match y with
      | [] =>
        have : (b == slash) = false := by simpa using Ne.symm hx.1
        simp [List.isPrefixOf, this]
      | d :: y => simp [List.isPrefixOf, ih y tl hx.2]
  have hdata : slash ∉ ascii "data" := by decide
  have hcons : ascii "/data" = slash :: ascii "data" := by decide
  rw [render_cons, hcons, List.cons_append, List.isPrefixOf, beq_self_eq_true, Bool.true_and]
  match cs with
  | [] => simp
  | d :: ds =>
    rw [List.flatMap_cons, List.cons_append]
    exact happ _ _ _ hdata

theorem normalizePath_render {cs : List Bytes} (h : NormalForm cs) (currentDirectory : Bytes) :
    normalizePath currentDirectory (render cs) =
      match cs with
      | [] => some root
      | c :: rest => if c = ascii "data" then some (render rest)
                     else if (ascii "data").isPrefixOf c then none else some (render cs) := by
  have hzero := zero_notMem_render h.clean
  unfold normalizePath
  rw [cstr_of_notMem hzero]
  match cs, h, hzero with
  | [], _, _ => rfl
  | c :: rest, h, hzero =>
    have hc := h.clean c (List.mem_cons_self ..)
    have hlen : (render (c :: rest)).length < 96 := Nat.lt_trans h.fits (by decide)
    have hne : render (c :: rest) ≠ [] := by rw [render_cons]; simp
    rw [if_neg hne]
    by_cases hdata : (ascii "data").isPrefixOf c = true
    · obtain ⟨tl, htl⟩ := List.isPrefixOf_iff_prefix.mp hdata
      have hdrop : (render (c :: rest)).drop 5 = tl ++ rest.flatMap (slash :: ·) := by
        have h4 : (slash :: ascii "data" : Bytes).length = 5 := by decide
        rw [render_cons, ← htl, ← List.cons_append, List.append_assoc, ← h4, List.drop_left]
      have hcomb : ∀ d, combine d (render (c :: rest)) =
          if c = ascii "data" then pathCopy (render rest) 96 else none := by
        intro d
        unfold combine
        rw [isPrefixOf_render, if_pos hdata, hdrop]
        match tl, htl with
        | [], htl =>
          have hcd : c = ascii "data" := by rw [← htl]; simp
          rw [if_pos hcd]
          match rest with
          | [] => rfl
          | e :: es => simp [render_of_ne_nil, List.flatMap_cons]
        | t :: tl, htl =>
          have ht : t ≠ slash := fun ht => hc.noSlash (by rw [← htl, ht]; simp)
          have hcd : c ≠ ascii "data" := by
            intro hcd
            rw [hcd] at htl
            simpa using congrArg List.length htl
          simp [hcd, ht]
      simp only [hcomb]
      by_cases hcd : c = ascii "data"
      · have hlen' : (render rest).length < 96 := Nat.lt_trans h.tail.fits (by decide)
        have hcopy : pathCopy (render rest) 96 = some (render rest) := if_pos hlen'
        simp only [if_pos hcd, hcopy, Option.bind_eq_bind, Option.bind_some]
        rw [components_render h.tail.clean]
        exact normalizeComponents_of_normalForm [] h.tail
      · simp only [if_neg hcd, if_pos hdata]
        rfl
    · have hcd : c ≠ ascii "data" := by
        rintro rfl
        exact hdata (by decide)
      have hcomb : ∀ d, combine d (render (c :: rest)) = some (render (c :: rest)) := by
        intro d
        unfold combine
        rw [isPrefixOf_render, if_neg hdata, if_pos (by rw [render_cons]; rfl)]
        exact if_pos hlen
      simp only [if_neg hcd, if_neg hdata, hcomb, Option.bind_eq_bind, Option.bind_some]
      rw [components_render h.clean]
      exact normalizeComponents_of_normalForm [] h

end ZenovOS.Storage

/-! ## Rules for requests to the file system -/

namespace ZenovOS
open Storage Mach

/-- A path that `normalize_path` leaves as it is, whatever the current directory is. -/
def Absolute (path : Bytes) : Prop := ∀ currentDirectory, normalizePath currentDirectory path = some path

namespace Mounted
variable {m : Mounted} {path : Bytes}

/-- The file system after the next request, with the files it leaves. -/
def after (m : Mounted) (files : Bytes → Option Bytes) : Mounted := { m with store := m.store.after files }

theorem wp_readFile {input : Bytes} {capacity : Nat} {Q : Option Bytes → Mounted → Prop} {C : Mounted → Prop}
    (hp : normalizePath m.currentDirectory input = some path) :
    wp (readFile input capacity) Q C m ↔
      match FileStore.upcoming m.answers with
      | .passes => Q ((m.files path).filter fun b => b.length ≤ capacity) (m.after m.files)
      | .fails _ => Q none (m.after m.files)
      | .cut _ => C (m.after m.files) := by
  unfold readFile request
  simp only [wp_bind, wp_get, hp, wp_zoom, FileStore.wp_read_answer]
  rfl

theorem wp_writeFile {data : Bytes} {Q : Bool → Mounted → Prop} {C : Mounted → Prop} (hp : Absolute path) :
    wp (writeFile path data) Q C m ↔
      match FileStore.upcoming m.answers with
      | .passes => Q true (m.after (FileStore.landing m.files path data true))
      | .fails landed => Q false (m.after (FileStore.landing m.files path data landed))
      | .cut landed => C (m.after (FileStore.landing m.files path data landed)) := by
  unfold writeFile request
  simp only [wp_bind, wp_get, hp m.currentDirectory, wp_zoom, FileStore.wp_write_answer]
  rfl

theorem wp_syncMetadata {Q : Bool → Mounted → Prop} {C : Mounted → Prop} :
    wp syncMetadata Q C m ↔
      match FileStore.upcoming m.answers with
      | .passes => Q true (m.after m.files)
      | .fails _ => Q false (m.after m.files)
      | .cut _ => C (m.after m.files) := by
  unfold syncMetadata request
  simp only [wp_zoom, FileStore.wp_sync_answer]
  rfl

end Mounted
end ZenovOS
