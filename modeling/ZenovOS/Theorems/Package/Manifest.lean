import Mathlib.Data.List.GetD
import ZenovOS.Lib.Refuse
import ZenovOS.Lib.Text
import ZenovOS.Package.Format

/-! # Manifests that the kernel accepts

The kernel reads a manifest as a row of ranked values. The row that it has read is kept in the order of the ranks, a
scalar key stands in it once, and the values of a repeated key ascend; when the manifest is accepted, every scalar key
is there. -/

namespace ZenovOS.Package
open Bytes

/-! ### The order of values -/

theorem sliceCompare_neg {a b : Bytes} : sliceCompare a b < 0 ↔ a < b := by
  induction a generalizing b with
  | nil =>
    cases b with
    | nil => exact ⟨fun h => absurd h (by decide), fun h => absurd h (List.lt_irrefl _)⟩
    | cons y b => exact ⟨fun _ => List.nil_lt_cons y b, fun _ => show (-1 : Int) < 0 by decide⟩
  | cons x a ih =>
    cases b with
    | nil => exact ⟨fun h => absurd (show (1 : Int) < 0 from h) (by decide), fun h => absurd h (List.not_lt_nil _)⟩
    | cons y b =>
      rw [sliceCompare, List.cons_lt_cons_iff]
      by_cases hxy : x = y
      · subst hxy
        rw [if_neg (not_not.mpr rfl), ih]
        simp only [true_and]
        exact ⟨.inr, fun h => h.resolve_left (UInt8.lt_irrefl x)⟩
      · rw [if_pos hxy, UInt8.lt_iff_toNat_lt]
        constructor
        · intro h
          exact .inl (by omega)
        · rintro (h | ⟨h, -⟩)
          · omega
          · exact absurd h hxy

/-! ### Rows -/

/-- A rank with a value. -/
abbrev Ranked := Nat × Bytes

/-- The line of a ranked value, without its end. -/
def Ranked.line (e : Ranked) : Bytes := keys.getD e.1 [] ++ 61 :: e.2

def ManifestParser.entry (p : ManifestParser) (e : Ranked) : Except Error ManifestParser := do
  let p ← p.advance e.1 e.2
  p.setValue e.1 e.2

/-- A value that stands in a line of its own. -/
structure Plain (e : Ranked) : Prop where
  rank : e.1 ≤ 15
  nonempty : e.2 ≠ []
  newline : (10 : UInt8) ∉ e.2

theorem keyRank_some {key : Bytes} {rank : Nat} (h : keyRank key = some rank) : rank ≤ 15 ∧ keys.getD rank [] = key := by
  unfold keyRank at h
  obtain ⟨hlt, hkey, -⟩ := List.idxOf?_eq_some_iff.mp h
  have hlength : keys.length = 16 := rfl
  exact ⟨by omega, by rw [List.getD_eq_getElem _ _ hlt]; exact hkey⟩

theorem line_ranked {p p' : ManifestParser} {line : Bytes} (hline : (10 : UInt8) ∉ line) (h : p.line line = .ok p') :
    ∃ e : Ranked, Plain e ∧ line = e.line ∧ p.entry e = .ok p' := by
  unfold ManifestParser.line at h
  dsimp only at h
  split at h
  · cases h
  · rename_i hne
    obtain ⟨-, hvalue⟩ := not_or.mp hne
    cases hrank : keyRank (line.takeWhile (· ≠ 61)) with
    | none =>
      rw [hrank] at h
      cases h
    | some rank =>
      rw [hrank] at h
      obtain ⟨hle, hkey⟩ := keyRank_some hrank
      generalize hk : line.takeWhile (· ≠ 61) = key at *
      have hsplit : line = key ++ 61 :: line.drop (key.length + 1) := by
        have hlt := List.length_pos_of_ne_nil hvalue
        rw [List.length_drop] at hlt
        rw [← hk] at hlt ⊢
        exact Text.split_at_sep (by omega)
      refine ⟨(rank, line.drop (key.length + 1)), ⟨hle, hvalue, fun hmem => hline (List.mem_of_mem_drop hmem)⟩, ?_, h⟩
      rw [Ranked.line, hkey]
      exact hsplit

theorem parseLines_row {n : Nat} {text : Bytes} {p p' : ManifestParser} (hn : text.length ≤ n) (h : parseLines n text p = .ok p') :
    ∃ es : List Ranked, text = es.flatMap (fun e => e.line ++ [10]) ∧ (∀ e ∈ es, Plain e) ∧ es.foldlM ManifestParser.entry p = .ok p' := by
  induction n generalizing text p with
  | zero =>
    cases h
    exact ⟨[], List.eq_nil_of_length_eq_zero (Nat.le_zero.mp hn), fun _ he => (nomatch he), rfl⟩
  | succ n ih =>
    rw [parseLines] at h
    split at h
    · rename_i hnil
      cases h
      exact ⟨[], hnil, fun _ he => (nomatch he), rfl⟩
    · dsimp only at h
      split at h
      · cases h
      · rename_i hline
        simp only [Bool.or_eq_true, decide_eq_true_eq, not_or] at hline
        obtain ⟨p₁, hp₁, h⟩ := bind_ok h
        generalize hk : text.takeWhile (· ≠ 10) = line at *
        have hnot : (10 : UInt8) ∉ line := by
          intro hmem
          rw [← hk] at hmem
          exact absurd (List.mem_takeWhile_imp hmem) (by decide)
        have hsplit : text = line ++ 10 :: text.drop (line.length + 1) := by
          have hlength := hline.1.2
          rw [← hk] at hlength ⊢
          exact Text.split_at_sep hlength
        obtain ⟨e, hplain, rfl, hentry⟩ := line_ranked hnot hp₁
        obtain ⟨es, hes, hall, hrun⟩ := ih (by rw [List.length_drop]; omega) h
        refine ⟨e :: es, ?_, List.forall_mem_cons.mpr ⟨hplain, hall⟩, ?_⟩
        · rw [List.flatMap_cons, ← hes, List.append_assoc]
          exact hsplit
        · rw [List.foldlM_cons, hentry]
          exact hrun

/-! ### What a value must be -/

/-- What the kernel asks of the value of a rank. -/
def Checked (rank : Nat) (value : Bytes) : Prop :=
  match rank with
  | 0 => value = ascii "zenpkg-manifest-1"
  | 1 => safeLowerIdentifier value 31 = true
  | 2 => safeVersion value = true
  | 3 => value = ascii "i686"
  | 4 => value = ascii "i686-zenov-none"
  | 5 => value = ascii "application" ∨ value = ascii "native"
  | 6 => printableValue value 47 = true
  | 7 => value = ascii "zex1" ∨ value = ascii "elf32"
  | 8 => value = ascii "native"
  | 9 => safeVersion value = true
  | 10 => printableValue value 96 = true
  | 11 => printableValue value 256 = true
  | 12 => value = ascii "redistributable"
  | 13 => (capabilityBit value).isSome = true
  | _ => value.length ≤ 47 ∧ ∀ ch ∈ value, isLower ch = true ∨ isDigit ch = true ∨ ch = 46 ∨ ch = 45 ∨ ch = 95 ∨ ch = 64

/-- The number of a payload type. -/
def payloadTypeOf (value : Bytes) : UInt8 := if value = ascii "zex1" then payloadZex1 else payloadElf32

/-- What a scalar changes. -/
structure ScalarSet (m : Manifest) (rank : Nat) (value : Bytes) (m' : Manifest) : Prop where
  checked : Checked rank value
  name : m'.name = if rank = 1 then value else m.name
  version : m'.version = if rank = 2 then value else m.version
  entrypoint : m'.entrypoint = if rank = 6 then value else m.entrypoint
  payloadType : m'.payloadType = if rank = 7 then payloadTypeOf value else m.payloadType
  dependencies : m'.dependencies = m.dependencies
  conflicts : m'.conflicts = m.conflicts

theorem oneOf_ok {texts : List Bytes} {value : Bytes} {error : Error} {m m' : Manifest} (h : oneOf texts value error m = .ok m') :
    value ∈ texts ∧ m' = m := by
  unfold oneOf at h
  split at h
  · cases h
    exact ⟨List.contains_iff_mem.mp ‹_›, rfl⟩
  · cases h

theorem copied {check : Bool} {capacity : Nat} {value out : Bytes} (h : (if check then copySlice capacity value else none) = some out) :
    check = true ∧ out = value := by
  unfold copySlice at h
  split at h
  · split at h
    · cases h
    · cases h
      exact ⟨‹_›, rfl⟩
  · cases h

theorem setScalar_spec {m m' : Manifest} {rank : Nat} {value : Bytes} (hrank : rank ≤ 12) (h : setScalar m rank value = .ok m') :
    ScalarSet m rank value m' := by
  have hone : ∀ {texts : List Bytes} {error : Error}, oneOf texts value error m = .ok m' → (value ∈ texts → Checked rank value) →
      rank ≠ 1 → rank ≠ 2 → rank ≠ 6 → rank ≠ 7 → ScalarSet m rank value m' := by
    intro texts error ho hc h1 h2 h6 h7
    obtain ⟨hmem, rfl⟩ := oneOf_ok ho
    exact ⟨hc hmem, (if_neg h1).symm, (if_neg h2).symm, (if_neg h6).symm, (if_neg h7).symm, rfl, rfl⟩
  unfold setScalar at h
  split at h
  · exact hone h (fun hv => List.mem_singleton.mp hv) (by decide) (by decide) (by decide) (by decide)
  · split at h
    · cases h
    · rename_i hcopy
      cases h
      obtain ⟨hcheck, rfl⟩ := copied hcopy
      exact ⟨hcheck, rfl, rfl, rfl, rfl, rfl, rfl⟩
  · split at h
    · cases h
    · rename_i hcopy
      cases h
      obtain ⟨hcheck, rfl⟩ := copied hcopy
      exact ⟨hcheck, rfl, rfl, rfl, rfl, rfl, rfl⟩
  · exact hone h (fun hv => List.mem_singleton.mp hv) (by decide) (by decide) (by decide) (by decide)
  · exact hone h (fun hv => List.mem_singleton.mp hv) (by decide) (by decide) (by decide) (by decide)
  · exact hone h (fun hv => show _ ∨ _ by simpa using hv) (by decide) (by decide) (by decide) (by decide)
  · split at h
    · cases h
    · rename_i hcopy
      cases h
      obtain ⟨hcheck, rfl⟩ := copied hcopy
      exact ⟨hcheck, rfl, rfl, rfl, rfl, rfl, rfl⟩
  · split at h
    · rename_i hzex
      cases h
      exact ⟨.inl hzex, rfl, rfl, rfl, (if_pos hzex).symm, rfl, rfl⟩
    · rename_i hzex
      split at h
      · rename_i helf
        cases h
        exact ⟨.inr helf, rfl, rfl, rfl, (if_neg hzex).symm, rfl, rfl⟩
      · cases h
  · exact hone h (fun hv => List.mem_singleton.mp hv) (by decide) (by decide) (by decide) (by decide)
  · split at h
    · cases h
    · rename_i hcopy
      obtain ⟨hcheck, rfl⟩ := copied hcopy
      split at h
      · cases h
        exact ⟨hcheck, rfl, rfl, rfl, rfl, rfl, rfl⟩
      · cases h
  · split at h
    · cases h
      exact ⟨‹_›, rfl, rfl, rfl, rfl, rfl, rfl⟩
    · cases h
  · split at h
    · cases h
      exact ⟨‹_›, rfl, rfl, rfl, rfl, rfl, rfl⟩
    · cases h
  · rename_i h0 h1 h2 h3 h4 h5 h6 h7 h8 h9 h10 h11
    have hnot : rank ≠ 0 ∧ rank ≠ 3 ∧ rank ≠ 4 ∧ rank ≠ 5 ∧ rank ≠ 8 ∧ rank ≠ 9 ∧ rank ≠ 10 ∧ rank ≠ 11 :=
      ⟨h0, h3, h4, h5, h8, h9, h10, h11⟩
    have hscalar : rank ≠ 1 ∧ rank ≠ 2 ∧ rank ≠ 6 ∧ rank ≠ 7 := ⟨h1, h2, h6, h7⟩
    obtain rfl : rank = 12 := by omega
    exact hone h (fun hv => List.mem_singleton.mp hv) h1 h2 h6 h7

theorem copyRequirement_some {capacity : Nat} {value out : Bytes} (hcapacity : capacity ≤ 48) (h : copyRequirement capacity value = some out) :
    out = value ∧ value.length ≤ 47 ∧
      ∀ ch ∈ value, isLower ch = true ∨ isDigit ch = true ∨ ch = 46 ∨ ch = 45 ∨ ch = 95 ∨ ch = 64 := by
  unfold copyRequirement at h
  split at h
  · cases h
  · rename_i hc
    simp only [not_or, Nat.not_lt, Bool.not_eq_true', Bool.not_eq_false, List.all_eq_true, Bool.or_eq_true, decide_eq_true_eq, or_assoc] at hc
    unfold copySlice at h
    split at h
    · cases h
    · cases h
      exact ⟨rfl, by omega, hc.2.2⟩

/-- What a value of a repeated key changes. -/
structure RepeatedSet (p : ManifestParser) (rank : Nat) (value : Bytes) (p' : ManifestParser) : Prop where
  checked : Checked rank value
  manifest : p'.manifest = { p.manifest with
    dependencies := p.manifest.dependencies ++ if rank = 14 then [value] else []
    conflicts := p.manifest.conflicts ++ if rank = 15 then [value] else [] }
  requiredMask : p'.requiredMask = p.requiredMask
  lastRank : p'.lastRank = p.lastRank
  last : p'.last = p.last
  lastRepeatedRank : p'.lastRepeatedRank = p.lastRepeatedRank

theorem setRepeated_spec {p p' : ManifestParser} {rank : Nat} {value : Bytes} (hrank : 12 < rank) (hle : rank ≤ 15)
    (h : setRepeated p rank value = .ok p') : RepeatedSet p rank value p' := by
  unfold setRepeated at h
  dsimp only at h
  split at h
  · rename_i h13
    subst h13
    split at h
    · cases h
    · rename_i bit hbit
      cases h
      refine ⟨Option.isSome_iff_exists.mpr ⟨bit, hbit⟩, ?_, rfl, rfl, rfl, rfl⟩
      simp
  · split at h
    · rename_i h14
      subst h14
      split at h
      · cases h
      · rename_i dependency hcopy
        cases h
        split at hcopy
        · obtain ⟨rfl, hchecked⟩ := copyRequirement_some (Nat.le_refl 48) hcopy
          refine ⟨hchecked, ?_, rfl, rfl, rfl, rfl⟩
          simp
        · cases hcopy
    · rename_i h13 h14
      obtain rfl : rank = 15 := by omega
      split at h
      · cases h
      · rename_i conflict hcopy
        cases h
        split at hcopy
        · obtain ⟨rfl, hchecked⟩ := copyRequirement_some (by decide) hcopy
          refine ⟨hchecked, ?_, rfl, rfl, rfl, rfl⟩
          simp
        · cases hcopy

/-! ### The row that has been read -/

/-- One value may stand before another. -/
def Before (a b : Ranked) : Prop := a.1 < b.1 ∨ a.1 = b.1 ∧ 12 < a.1 ∧ a.2 < b.2

/-- The values of a rank, in the order of the row. -/
def valuesOf (es : List Ranked) (rank : Nat) : List Bytes := (es.filter fun e => e.1 = rank).map (·.2)

/-- The order that `parse_manifest` keeps: `last` is the greatest value of the last repeated rank. -/
structure Ordered (es : List Ranked) (p : ManifestParser) : Prop where
  order : es.Pairwise Before
  rank : ∀ e ∈ es, (e.1 : Int) ≤ p.lastRank
  mask : ∀ r, p.requiredMask.testBit r = true ↔ r ≤ 12 ∧ ∃ v, (r, v) ∈ es
  repeated : 12 < p.lastRank → p.lastRepeatedRank = p.lastRank
  greatest : ∀ e ∈ es, 12 < e.1 → (e.1 : Int) = p.lastRepeatedRank → e.2 ≤ p.last

/-- The values that `parse_manifest` keeps. -/
structure Collected (es : List Ranked) (m : Manifest) : Prop where
  checked : ∀ e ∈ es, Checked e.1 e.2
  name : ∀ v, (1, v) ∈ es → m.name = v
  version : ∀ v, (2, v) ∈ es → m.version = v
  entrypoint : ∀ v, (6, v) ∈ es → m.entrypoint = v
  payloadType : ∀ v, (7, v) ∈ es → m.payloadType = payloadTypeOf v
  dependencies : m.dependencies = valuesOf es 14
  conflicts : m.conflicts = valuesOf es 15

theorem advance_spec {p p' : ManifestParser} {rank : Nat} {value : Bytes} (h : p.advance rank value = .ok p') :
    p.lastRank ≤ rank ∧ p'.manifest = p.manifest ∧
      (rank ≤ 12 ∧ p.requiredMask.testBit rank = false ∧
          p' = { p with requiredMask := p.requiredMask ||| 2 ^ rank, lastRank := rank } ∨
        12 < rank ∧ ((rank : Int) = p.lastRepeatedRank → p.last < value) ∧
          p' = { p with last := value, lastRepeatedRank := rank, lastRank := rank }) := by
  unfold ManifestParser.advance at h
  split at h
  · cases h
  · rename_i hrank
    refine ⟨Int.not_lt.mp hrank, ?_⟩
    split at h
    · rename_i hscalar
      split at h
      · cases h
      · rename_i hbit
        cases h
        exact ⟨rfl, .inl ⟨hscalar, Bool.not_eq_true _ ▸ hbit, rfl⟩⟩
    · rename_i hscalar
      split at h
      · cases h
      · rename_i hlast
        unfold copySlice at h
        split at h
        · cases h
        · rename_i last hcopy
          cases h
          split at hcopy
          · cases hcopy
          · cases hcopy
            refine ⟨rfl, .inr ⟨Nat.not_le.mp hscalar, fun heq => ?_, rfl⟩⟩
            exact sliceCompare_neg.mp (Int.not_le.mp fun hle => hlast ⟨heq, hle⟩)

theorem testBit_or_two_pow (x r k : Nat) : (x ||| 2 ^ r).testBit k = (x.testBit k || decide (r = k)) := by
  rw [Nat.testBit_or, Nat.testBit_two_pow]

theorem Ordered.advance {es : List Ranked} {p p' : ManifestParser} {e : Ranked} (h : Ordered es p)
    (hstep : p.advance e.1 e.2 = .ok p') : Ordered (es ++ [e]) p' := by
  obtain ⟨hrank, -, hcase⟩ := advance_spec hstep
  have hmem : ∀ {x : Ranked}, x ∈ es ++ [e] ↔ x ∈ es ∨ x = e := by simp
  rcases hcase with ⟨hscalar, hbit, rfl⟩ | ⟨hrepeated, hless, rfl⟩
  · have hnew : ∀ v, (e.1, v) ∉ es := by
      intro v hv
      have := (h.mask e.1).mpr ⟨hscalar, v, hv⟩
      rw [hbit] at this
      cases this
    refine ⟨?_, ?_, ?_, ?_, ?_⟩
    · rw [List.pairwise_append]
      refine ⟨h.order, List.pairwise_singleton _ _, fun x hx y hy => ?_⟩
      obtain rfl := List.mem_singleton.mp hy
      have hle := h.rank x hx
      have hne : x.1 ≠ y.1 := fun heq => hnew x.2 (heq ▸ hx)
      exact .inl (by omega)
    · intro x hx
      show (x.1 : Int) ≤ e.1
      rcases hmem.mp hx with hx | rfl
      · exact Int.le_trans (h.rank x hx) hrank
      · exact Int.le_refl _
    · intro r
      show (p.requiredMask ||| 2 ^ e.1).testBit r = true ↔ _
      rw [testBit_or_two_pow, Bool.or_eq_true, h.mask, decide_eq_true_eq]
      constructor
      · rintro (⟨hr, v, hv⟩ | rfl)
        · exact ⟨hr, v, hmem.mpr (.inl hv)⟩
        · exact ⟨hscalar, e.2, hmem.mpr (.inr rfl)⟩
      · rintro ⟨hr, v, hv⟩
        rcases hmem.mp hv with hv | hv
        · exact .inl ⟨hr, v, hv⟩
        · exact .inr (congrArg Prod.fst hv).symm
    · intro hlt
      have hlt : 12 < (e.1 : Int) := hlt
      omega
    · intro x hx hlt heq
      rcases hmem.mp hx with hx | rfl
      · exact h.greatest x hx hlt heq
      · omega
  · have hbelow : ∀ x ∈ es, x.1 = e.1 → x.2 < e.2 := by
      intro x hx heq
      have hle := h.rank x hx
      have hlast : p.lastRepeatedRank = e.1 := (h.repeated (by omega)).trans (by omega)
      exact List.lt_of_le_of_lt (h.greatest x hx (by omega) (by omega)) (hless hlast.symm)
    refine ⟨?_, ?_, ?_, ?_, ?_⟩
    · rw [List.pairwise_append]
      refine ⟨h.order, List.pairwise_singleton _ _, fun x hx y hy => ?_⟩
      obtain rfl := List.mem_singleton.mp hy
      have hle := h.rank x hx
      rcases Nat.lt_or_ge x.1 y.1 with hlt | hge
      · exact .inl hlt
      · have heq : x.1 = y.1 := by omega
        exact .inr ⟨heq, by omega, hbelow x hx heq⟩
    · intro x hx
      show (x.1 : Int) ≤ e.1
      rcases hmem.mp hx with hx | rfl
      · exact Int.le_trans (h.rank x hx) hrank
      · exact Int.le_refl _
    · intro r
      show p.requiredMask.testBit r = true ↔ _
      rw [h.mask]
      refine and_congr_right fun hr => ⟨fun ⟨v, hv⟩ => ⟨v, hmem.mpr (.inl hv)⟩, fun ⟨v, hv⟩ => ?_⟩
      rcases hmem.mp hv with hv | hv
      · exact ⟨v, hv⟩
      · have : r = e.1 := congrArg Prod.fst hv
        omega
    · exact fun _ => rfl
    · intro x hx hlt heq
      show x.2 ≤ e.2
      have heq : (x.1 : Int) = e.1 := heq
      rcases hmem.mp hx with hx | rfl
      · exact List.le_of_lt (hbelow x hx (by omega))
      · exact List.le_refl _

theorem valuesOf_append (es : List Ranked) (e : Ranked) (rank : Nat) :
    valuesOf (es ++ [e]) rank = valuesOf es rank ++ if e.1 = rank then [e.2] else [] := by
  unfold valuesOf
  rw [List.filter_append, List.map_append]
  congr 1
  by_cases h : e.1 = rank <;> simp [h]

theorem kept_field {α : Type} {es : List Ranked} {e : Ranked} {f : Bytes → α} {rank : Nat} {x y : α}
    (hold : ∀ v, (rank, v) ∈ es → x = f v) (hnew : e.1 = rank → ∀ v, (rank, v) ∉ es)
    (hy : y = if e.1 = rank then f e.2 else x) : ∀ v, (rank, v) ∈ es ++ [e] → y = f v := by
  intro v hv
  rw [List.mem_append, List.mem_singleton] at hv
  rcases hv with hv | hv
  · rw [hy, if_neg fun heq => hnew heq v hv]
    exact hold v hv
  · rw [hy, ← hv]
    exact if_pos rfl

theorem Collected.entry {es : List Ranked} {p p' : ManifestParser} {e : Ranked} (hrank : e.1 ≤ 15) (hordered : Ordered es p)
    (h : Collected es p.manifest) (hstep : p.entry e = .ok p') : Ordered (es ++ [e]) p' ∧ Collected (es ++ [e]) p'.manifest := by
  unfold ManifestParser.entry at hstep
  obtain ⟨q, hadvance, hset⟩ := bind_ok hstep
  obtain ⟨-, hsame, hcase⟩ := advance_spec hadvance
  have hnew := hordered.advance hadvance
  have hchecked : Checked e.1 e.2 → ∀ x ∈ es ++ [e], Checked x.1 x.2 := by
    intro he x hx
    rw [List.mem_append, List.mem_singleton] at hx
    rcases hx with hx | rfl
    · exact h.checked x hx
    · exact he
  unfold ManifestParser.setValue at hset
  split at hset
  · rename_i hscalar
    cases hresult : setScalar q.manifest e.1 e.2 with
    | error error =>
      rw [hresult] at hset
      cases hset
    | ok m =>
      rw [hresult] at hset
      cases hset
      have hspec := setScalar_spec hscalar hresult
      rw [hsame] at hspec
      have hfresh : ∀ r, e.1 = r → ∀ v, (r, v) ∉ es := by
        rintro r rfl v hv
        rcases hcase with ⟨-, hbit, -⟩ | ⟨hlt, -⟩
        · rw [(hordered.mask e.1).mpr ⟨hscalar, v, hv⟩] at hbit
          cases hbit
        · omega
      refine ⟨⟨hnew.order, hnew.rank, hnew.mask, hnew.repeated, hnew.greatest⟩, hchecked hspec.checked,
        kept_field h.name (hfresh 1) hspec.name, kept_field h.version (hfresh 2) hspec.version,
        kept_field h.entrypoint (hfresh 6) hspec.entrypoint, kept_field h.payloadType (hfresh 7) hspec.payloadType, ?_, ?_⟩
      · rw [valuesOf_append, if_neg (by omega), List.append_nil]
        exact hspec.dependencies.trans h.dependencies
      · rw [valuesOf_append, if_neg (by omega), List.append_nil]
        exact hspec.conflicts.trans h.conflicts
  · rename_i hscalar
    have hspec := setRepeated_spec (Nat.not_le.mp hscalar) hrank hset
    have hmanifest := hspec.manifest
    rw [hsame] at hmanifest
    have hother : ∀ r v, r ≤ 12 → (r, v) ∈ es ++ [e] → (r, v) ∈ es := by
      intro r v hr hv
      rw [List.mem_append, List.mem_singleton] at hv
      refine hv.resolve_right fun heq => ?_
      have : r = e.1 := congrArg Prod.fst heq
      omega
    refine ⟨⟨hnew.order, ?_, ?_, ?_, ?_⟩, ?_⟩
    · rw [hspec.lastRank]
      exact hnew.rank
    · rw [hspec.requiredMask]
      exact hnew.mask
    · rw [hspec.lastRank, hspec.lastRepeatedRank]
      exact hnew.repeated
    · rw [hspec.lastRepeatedRank, hspec.last]
      exact hnew.greatest
    · rw [hmanifest]
      refine ⟨hchecked hspec.checked, fun v hv => h.name v (hother 1 v (by decide) hv), fun v hv => h.version v (hother 2 v (by decide) hv),
        fun v hv => h.entrypoint v (hother 6 v (by decide) hv), fun v hv => h.payloadType v (hother 7 v (by decide) hv), ?_, ?_⟩
      · rw [valuesOf_append, ← h.dependencies]
      · rw [valuesOf_append, ← h.conflicts]

theorem collected_run {es done : List Ranked} {p p' : ManifestParser} (hrank : ∀ e ∈ es, Plain e) (hordered : Ordered done p)
    (h : Collected done p.manifest) (hrun : es.foldlM ManifestParser.entry p = .ok p') :
    Ordered (done ++ es) p' ∧ Collected (done ++ es) p'.manifest := by
  induction es generalizing done p with
  | nil =>
    cases hrun
    rw [List.append_nil]
    exact ⟨hordered, h⟩
  | cons e es ih =>
    rw [List.foldlM_cons] at hrun
    obtain ⟨q, hq, hrun⟩ := bind_ok hrun
    obtain ⟨hordered, h⟩ := h.entry (hrank e List.mem_cons_self).rank hordered hq
    have := ih (fun x hx => hrank x (List.mem_cons_of_mem e hx)) hordered h hrun
    rwa [List.append_assoc, List.singleton_append] at this

theorem ordered_start : Ordered [] .start := by
  refine ⟨List.Pairwise.nil, fun _ h => (nomatch h), fun r => ?_, fun h => absurd h (by decide), fun _ h => (nomatch h)⟩
  show Nat.testBit 0 r = true ↔ _
  rw [Nat.zero_testBit]
  exact ⟨fun h => (nomatch h), fun ⟨_, _, h⟩ => (nomatch h)⟩

theorem collected_start : Collected [] Manifest.empty :=
  ⟨fun _ h => (nomatch h), fun _ h => (nomatch h), fun _ h => (nomatch h), fun _ h => (nomatch h), fun _ h => (nomatch h), rfl, rfl⟩

/-- What a manifest is that the kernel accepts. -/
structure Accepted (text : Bytes) (es : List Ranked) (m : Manifest) : Prop where
  length : text.length ≤ maximumManifestSize
  text : text = es.flatMap fun e => e.line ++ [10]
  plain : ∀ e ∈ es, Plain e
  order : es.Pairwise Before
  complete : ∀ r, r ≤ 12 → ∃ v, (r, v) ∈ es
  kept : Collected es m
  entrypoint : expectedEntrypoint m = some m.entrypoint

theorem parseManifest_accepted {text : Bytes} {m : Manifest} (h : parseManifest text = .ok m) : ∃ es, Accepted text es m := by
  unfold parseManifest at h
  split at h
  · cases h
  · rename_i hsyntax
    simp only [not_or, Nat.not_lt] at hsyntax
    obtain ⟨p, hp, h⟩ := bind_ok h
    obtain ⟨es, htext, hplain, hrun⟩ := parseLines_row (Nat.le_refl _) hp
    obtain ⟨hordered, hkept⟩ := collected_run hplain ordered_start collected_start hrun
    rw [List.nil_append] at hordered hkept
    dsimp only at h
    generalize (if p.manifest.payloadType = payloadZex1 then 1 else 2) ||| 4 ||| 8 = required at h
    split at h
    · cases h
    · rename_i hmask
      split at h
      · cases h
      · split at h
        · cases h
        · rename_i hentrypoint
          cases h
          refine ⟨es, hsyntax.2.1, htext, hplain, hordered.order, fun r hr => ?_, hkept, not_not.mp hentrypoint⟩
          have hbit : p.requiredMask.testBit r = true := by
            rw [not_not.mp hmask, Nat.testBit_two_pow_sub_one]
            exact decide_eq_true (by omega)
          exact ((hordered.mask r).mp hbit).2

end ZenovOS.Package
