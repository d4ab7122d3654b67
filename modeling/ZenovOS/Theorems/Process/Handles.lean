import ZenovOS.Theorems.Process.Lifecycle

/-! # A handle table stands for a map

The handles that a table has given out and not taken back, each with the object and the rights that it was given out with.
`decode` does not look at the bits above the generation, so a value with other bits there stands for the same handle. -/

namespace ZenovOS.Process.Handles

/-- What a handle was given out with. -/
structure Grant where
  object : ObjectKey
  rights : UInt8
  deriving DecidableEq

/-- The handles that are open. -/
abbrev Grants : Type := Nat → Option Grant

inductive Call
  | allocate (object : ObjectKey) (rights : UInt8)
  | close (handle : Nat)

/-- A call on the table, beside what it means: the handle that is returned opens, the one that is passed closes. -/
def step (s : Table × Grants) : Call → Table × Grants
  | .allocate object rights =>
    match allocate s.1 object rights with
    | none => s
    | some (table, handle) => (table, Function.update s.2 handle (some ⟨object, rights⟩))
  | .close handle =>
    (match close s.1 handle with
      | none => s.1
      | some (table, _) => table, Function.update s.2 handle none)

/-- The value has no bits above the generation, or the handle that they would be left out of is not open. -/
def Plain (open_ : Grants) (handle : Nat) : Prop := handle < 2 ^ 24 ∨ open_ (handle % 2 ^ 24) = none

def Call.Plain (open_ : Grants) : Call → Prop
  | .allocate _ _ => True
  | .close handle => Handles.Plain open_ handle

/-- Any calls on one table, none of which closes a handle by another value than its own. -/
inductive Run : Table × Grants → Prop
  | initial : Run ({}, fun _ => none)
  | call {s : Table × Grants} (call : Call) (hr : Run s) (hplain : call.Plain s.2) : Run (step s call)

/-- `resolve` and `close` do for the value what the open handles say. -/
structure Law (table : Table) (open_ : Grants) (handle : Nat) (rights : UInt8) : Prop where
  resolve : resolve table handle rights =
    (open_ handle).bind fun grant => if grant.rights &&& rights = rights then some grant.object else none
  close : (close table handle).map (·.2) = (open_ handle).map (·.object)

/-! ### Handles and their parts -/

variable {table : Table} {open_ : Grants} {handle : Nat}

theorem encode_lt (index : Fin handleCapacity) (generation : UInt16) : encode index generation < 2 ^ 24 := by
  have hindex : index.val < 8 := index.isLt
  have hgeneration := generation.toNat_lt
  unfold encode
  split <;> omega

theorem decode_encode {index : Fin handleCapacity} {generation : UInt16} (h : generation ≠ 0) :
    decode (encode index generation) = some (index, generation) := by
  have hindex : index.val < 8 := index.isLt
  have hlow : (generation.toNat * 256 + (index.val + 1)) % 256 = index.val + 1 := by omega
  have hhigh : (generation.toNat * 256 + (index.val + 1)) / 256 = generation.toNat := by omega
  unfold encode decode
  simp only [if_neg h, hlow, hhigh, UInt16.ofNat_toNat, Nat.add_sub_cancel]
  rw [dif_pos index.isLt, if_neg (by simp [h])]

theorem decode_some {index : Fin handleCapacity} {generation : UInt16} (hlt : handle < 2 ^ 24)
    (h : decode handle = some (index, generation)) : handle = encode index generation := by
  unfold decode at h
  dsimp only at h
  split at h
  · split at h
    · cases h
    · rename_i hnone
      obtain ⟨rfl, rfl⟩ := Prod.mk.inj (Option.some.inj h)
      obtain ⟨hindex, hgeneration⟩ := not_or.mp hnone
      unfold encode
      have hvalue : (UInt16.ofNat (handle / 256)).toNat = handle / 256 := UInt16.toNat_ofNat_of_lt' (show handle / 256 < 65536 by omega)
      rw [if_neg hgeneration, hvalue]
      show handle = handle / 256 * 256 + (handle % 256 - 1 + 1)
      omega
  · cases h

theorem decode_mod (handle : Nat) : decode (handle % 2 ^ 24) = decode handle := by
  have hlow : handle % 2 ^ 24 % 256 = handle % 256 := Nat.mod_mod_of_dvd handle (by decide)
  have hhigh : UInt16.ofNat (handle % 2 ^ 24 / 256) = UInt16.ofNat (handle / 256) := by
    rw [← UInt16.toNat_inj, UInt16.toNat_ofNat', UInt16.toNat_ofNat']
    omega
  unfold decode
  simp only [hlow, hhigh]

/-! ### What a table stands for -/

/-- The grant of the entry that a value decodes to. -/
def Table.grant (table : Table) (handle : Nat) : Option Grant :=
  match decode handle with
  | none => none
  | some (index, generation) =>
    let entry := table.entries index
    if entry.used = true ∧ entry.generation = generation then some ⟨entry.object, entry.rights⟩ else none

/-- The table stands for the open handles. -/
structure Represents (table : Table) (open_ : Grants) : Prop where
  grant : ∀ handle < 2 ^ 24, open_ handle = table.grant handle
  outside : ∀ handle, 2 ^ 24 ≤ handle → open_ handle = none
  valid : ∀ index, (table.entries index).used = true → (table.entries index).object.generation ≠ 0

theorem grant_mod (table : Table) (handle : Nat) : table.grant (handle % 2 ^ 24) = table.grant handle := by
  unfold Table.grant
  rw [decode_mod]

theorem resolve_eq (h : Represents table open_) (handle : Nat) (rights : UInt8) :
    resolve table handle rights =
      (table.grant handle).bind fun grant => if grant.rights &&& rights = rights then some grant.object else none := by
  unfold resolve Table.grant
  cases hdecode : decode handle with
  | none => rfl
  | some parts =>
    obtain ⟨index, generation⟩ := parts
    dsimp only
    by_cases hused : (table.entries index).used = true ∧ (table.entries index).generation = generation
    · have hvalid := h.valid index hused.1
      rw [if_pos hused, Option.bind_some]
      by_cases hrights : (table.entries index).rights &&& rights = rights
      · rw [if_pos hrights, if_neg (by simp [hused, hrights, hvalid])]
      · rw [if_neg hrights, if_pos (by simp [hrights])]
    · rw [if_neg hused, if_pos, Option.bind_none]
      by_cases hfree : (table.entries index).used = true
      · exact Or.inr (Or.inl fun hsame => hused ⟨hfree, hsame⟩)
      · exact Or.inl (by simpa using hfree)

theorem close_eq (h : Represents table open_) (handle : Nat) :
    close table handle = match decode handle with
      | none => none
      | some (index, _) => (table.grant handle).map fun grant => (setEntry table index {}, grant.object) := by
  unfold close Table.grant
  cases hdecode : decode handle with
  | none => rfl
  | some parts =>
    obtain ⟨index, generation⟩ := parts
    dsimp only
    by_cases hused : (table.entries index).used = true ∧ (table.entries index).generation = generation
    · have hvalid := h.valid index hused.1
      rw [if_pos hused, if_neg (by simp [hused, hvalid])]
      rfl
    · rw [if_neg hused, if_pos]
      · rfl
      by_cases hfree : (table.entries index).used = true
      · exact Or.inr (Or.inl fun hsame => hused ⟨hfree, hsame⟩)
      · exact Or.inl (by simpa using hfree)

theorem close_object (h : Represents table open_) (handle : Nat) :
    (close table handle).map (·.2) = (table.grant handle).map (·.object) := by
  rw [close_eq h]
  cases hdecode : decode handle with
  | none =>
    unfold Table.grant
    rw [hdecode]
    rfl
  | some parts =>
    dsimp only
    rw [Option.map_map]
    rfl

/-! ### Calls -/

theorem grant_setEntry (table : Table) (index : Fin handleCapacity) (entry : Entry) (generations : Fin handleCapacity → UInt16)
    (handle : Nat) :
    (setEntry { table with generations } index entry).grant handle =
      match decode handle with
      | none => none
      | some (i, generation) =>
        if i = index then if entry.used = true ∧ entry.generation = generation then some ⟨entry.object, entry.rights⟩ else none
        else table.grant handle := by
  unfold Table.grant
  cases hdecode : decode handle with
  | none => rfl
  | some parts =>
    obtain ⟨i, generation⟩ := parts
    dsimp only
    by_cases hi : i = index
    · subst hi
      simp [setEntry]
    · simp [setEntry, hi]

theorem Represents.allocate {object : ObjectKey} {rights : UInt8} {table' : Table} (h : Represents table open_)
    (ha : allocate table object rights = some (table', handle)) :
    Represents table' (Function.update open_ handle (some ⟨object, rights⟩)) := by
  unfold Handles.allocate at ha
  split at ha
  · cases ha
  rename_i hvalid
  split at ha
  · cases ha
  rename_i index hfind
  have hfree : (table.entries index).used = false := by simpa using List.find?_some hfind
  obtain ⟨rfl, rfl⟩ := Prod.mk.inj (Option.some.inj ha)
  have hne := nextGeneration_ne_zero (table.generations index)
  refine ⟨fun handle hlt => ?_, fun handle hle => ?_, fun i hused => ?_⟩
  · rw [grant_setEntry table index _ _ handle]
    by_cases hself : handle = encode index (nextGeneration (table.generations index))
    · rw [hself, Function.update_self, decode_encode hne]
      simp
    · rw [Function.update_of_ne hself, h.grant handle hlt]
      cases hdecode : decode handle with
      | none =>
        unfold Table.grant
        rw [hdecode]
      | some parts =>
        obtain ⟨i, generation⟩ := parts
        dsimp only
        have hhandle := decode_some hlt hdecode
        by_cases hi : i = index
        · subst hi
          have hother : nextGeneration (table.generations i) ≠ generation := fun hsame => hself (by rw [hhandle, hsame])
          rw [if_pos rfl, if_neg fun hboth => hother hboth.2]
          unfold Table.grant
          rw [hdecode]
          simp [hfree]
        · rw [if_neg hi]
  · have hother : handle ≠ encode index (nextGeneration (table.generations index)) := fun hself =>
      absurd (encode_lt index (nextGeneration (table.generations index))) (by omega)
    rw [Function.update_of_ne hother]
    exact h.outside handle hle
  · by_cases hi : i = index
    · subst hi
      simp only [setEntry, Function.update_self]
      exact fun hzero => hvalid (Or.inl hzero)
    · simp only [setEntry, Function.update_of_ne hi] at hused ⊢
      exact h.valid i hused

theorem Represents.close (h : Represents table open_) (hplain : Plain open_ handle) :
    Represents (match Handles.close table handle with
      | none => table
      | some (table, _) => table) (Function.update open_ handle none) := by
  have hclosed : open_ handle = none → Function.update open_ handle none = open_ := fun hnone => by
    rw [← hnone, Function.update_eq_self]
  have hgrant : table.grant handle = open_ handle := by
    rcases hplain with hlt | hnone
    · exact (h.grant handle hlt).symm
    · by_cases hlt : handle < 2 ^ 24
      · exact (h.grant handle hlt).symm
      · rw [h.outside handle (Nat.le_of_not_lt hlt), ← grant_mod, ← h.grant _ (Nat.mod_lt _ (by decide)), hnone]
  rw [close_eq h, hgrant]
  cases hdecode : decode handle with
  | none =>
    have hnone : open_ handle = none := by
      rw [← hgrant]
      unfold Table.grant
      rw [hdecode]
    dsimp only
    rwa [hclosed hnone]
  | some parts =>
    obtain ⟨index, generation⟩ := parts
    dsimp only
    cases hopen : open_ handle with
    | none =>
      rw [Option.map_none]
      dsimp only
      rwa [hclosed hopen]
    | some grant =>
      rw [Option.map_some]
      dsimp only
      have hlt : handle < 2 ^ 24 := by
        by_contra hge
        rw [h.outside handle (Nat.le_of_not_lt hge)] at hopen
        cases hopen
      have hhandle := decode_some hlt hdecode
      refine ⟨fun other hother => ?_, fun other hge => ?_, fun i hused => ?_⟩
      · have hset := grant_setEntry table index {} table.generations other
        rw [show ({ table with generations := table.generations } : Table) = table from rfl] at hset
        rw [hset]
        by_cases hself : other = handle
        · rw [hself, Function.update_self, hdecode]
          simp
        · rw [Function.update_of_ne hself, h.grant other hother]
          cases hdecode' : decode other with
          | none =>
            unfold Table.grant
            rw [hdecode']
          | some parts =>
            obtain ⟨i, generation'⟩ := parts
            dsimp only
            by_cases hi : i = index
            · subst hi
              rw [if_pos rfl, if_neg fun hboth => nomatch hboth.1]
              -- The entry is the one of `handle`, so another generation is none of its.
              have hused : (table.entries i).generation = generation := by
                rw [hopen] at hgrant
                unfold Table.grant at hgrant
                rw [hdecode] at hgrant
                dsimp only at hgrant
                split at hgrant
                · rename_i hboth
                  exact hboth.2
                · cases hgrant
              have hother' := decode_some hother hdecode'
              unfold Table.grant
              rw [hdecode']
              refine if_neg fun hboth => hself ?_
              rw [hother', hhandle, ← hused, hboth.2]
            · rw [if_neg hi]
      · by_cases hself : other = handle
        · rw [hself, Function.update_self]
        · rw [Function.update_of_ne hself]
          exact h.outside other hge
      · by_cases hi : i = index
        · subst hi
          simp [setEntry] at hused
        · simp only [setEntry, Function.update_of_ne hi] at hused ⊢
          exact h.valid i hused

theorem Run.represents {s : Table × Grants} (hr : Run s) : Represents s.1 s.2 := by
  induction hr with
  | initial =>
    refine ⟨fun handle _ => ?_, fun _ _ => rfl, fun index hused => nomatch hused⟩
    unfold Table.grant
    cases decode handle with
    | none => rfl
    | some parts => exact (if_neg fun hboth => nomatch hboth.1).symm
  | @call s call hr hplain ih =>
    cases call with
    | allocate object rights =>
      unfold step
      dsimp only
      cases ha : allocate s.1 object rights with
      | none => exact ih
      | some result => exact ih.allocate ha
    | close handle => exact ih.close hplain

/-- In a run that closes handles by their own values, any value is resolved and closed as the open handles say, unless it
    stands for an open handle with other bits above the generation. -/
theorem law_iff (s : Table × Grants) (hr : Run s) (handle : Nat) (rights : UInt8) :
    Law s.1 s.2 handle rights ↔ Plain s.2 handle := by
  have h := hr.represents
  constructor
  · intro hlaw
    by_cases hlt : handle < 2 ^ 24
    · exact Or.inl hlt
    · have hclose := hlaw.close
      rw [close_object h, h.outside handle (Nat.le_of_not_lt hlt), Option.map_none, Option.map_eq_none_iff] at hclose
      refine Or.inr ?_
      rw [h.grant _ (Nat.mod_lt _ (by decide)), grant_mod, hclose]
  · intro hplain
    have hgrant : s.1.grant handle = s.2 handle := by
      by_cases hlt : handle < 2 ^ 24
      · exact (h.grant handle hlt).symm
      · rw [h.outside handle (Nat.le_of_not_lt hlt), ← grant_mod, ← h.grant _ (Nat.mod_lt _ (by decide))]
        exact hplain.resolve_left hlt
    exact ⟨by rw [resolve_eq h, hgrant], by rw [close_object h, hgrant]⟩

/-- One handle has been given out. -/
def oneHandle : Table × Grants := step ({}, fun _ => none) (.allocate ⟨3, 1⟩ rightsAll)

theorem law_iff_sample : Law oneHandle.1 oneHandle.2 257 rightWait ↔ Plain oneHandle.2 257 :=
  law_iff oneHandle (.call _ .initial trivial) 257 rightWait

/-- A value that was never returned is resolved, and `close` takes the handle that it stands for. -/
theorem stray_resolves :
    Run oneHandle ∧ oneHandle.2 0x01000101 = none ∧ resolve oneHandle.1 0x01000101 rightWait = some ⟨3, 1⟩ ∧
      ¬Law oneHandle.1 oneHandle.2 0x01000101 rightWait := by
  have hresolve : resolve oneHandle.1 0x01000101 rightWait = some ⟨3, 1⟩ := by decide
  have hnone : oneHandle.2 0x01000101 = none := by decide
  refine ⟨.call _ .initial trivial, hnone, hresolve, fun hlaw => ?_⟩
  have hlaw := hlaw.resolve
  rw [hresolve, hnone] at hlaw
  cases hlaw

end ZenovOS.Process.Handles
