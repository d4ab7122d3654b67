import ZenovOS.Lib.Bytes

/-! # Version numbers of the policies

`security_policy_format.inc`: a version file holds a nonzero decimal number and a newline. -/

namespace ZenovOS.Security

abbrev u32Max : Nat := 0xFFFFFFFF

/-- The digit loop of `parse_nonzero_decimal_u32`. -/
def parseDigits : Bytes → Nat → Option Nat
  | [], value => some value
  | b :: rest, value =>
    if b < 48 ∨ 57 < b then none
    else
      let digit := (b - 48).toNat
      if (u32Max - digit) / 10 < value then none else parseDigits rest (value * 10 + digit)

def parseNonzeroDecimal (data : Bytes) : Option Nat :=
  if data.length < 2 ∨ 11 < data.length ∨ data.getLast? ≠ some 10 then none
  else
    let digits := data.dropLast
    if 1 < digits.length ∧ digits.head? = some 48 then none
    else
      match parseDigits digits 0 with
      | none => none
      | some value => if value = 0 then none else some value

/-- The digits of a number, the highest first, in at most `room` bytes. -/
def formatDigits : Nat → Nat → Option Bytes
  | room, value =>
    if value = 0 then some []
    else
      match room with
      | 0 => none
      | room + 1 => (formatDigits room (value / 10)).map (· ++ [UInt8.ofNat (48 + value % 10)])

def formatNonzeroDecimal (value capacity : Nat) : Option Bytes :=
  if value = 0 ∨ capacity < 2 then none
  else do
    let digits ← formatDigits 10 value
    if capacity < digits.length + 1 then none else some (digits ++ [10])

def nextVersion (current : Nat) : Option Nat := if current = u32Max then none else some (current + 1)

/-- A path component that `canonical_absolute_path_with_length` admits. -/
def componentValid (component : Bytes) : Bool :=
  component ≠ [] && component ≠ [46] && component ≠ [46, 46]

/-- The component loop, behind the leading slash; `component` is the one being read. -/
def componentsValid : Bytes → Bytes → Bool
  | [], component => componentValid component
  | b :: rest, component =>
    if b < 0x20 ∨ 0x7E < b ∨ b = 92 then false
    else if b = 47 then componentValid component && componentsValid rest []
    else componentsValid rest (component ++ [b])

/-- `canonical_absolute_path_with_length` of a character array `value` that is not to be empty. -/
def canonicalAbsolutePathWithLength (value : Bytes) (declaredLength : Nat) : Bool :=
  let text := value.take declaredLength
  if value.length ≤ declaredLength ∨ 0 ∈ text ∨ (value.drop declaredLength).any (· ≠ 0) then false
  else if declaredLength < 2 ∨ text.head? ≠ some 47 ∨ text.getLast? = some 47 then false
  else componentsValid text.tail []

def canonicalAbsolutePath (value : Bytes) : Bool :=
  let length := (Bytes.cstr value).length
  length ≠ value.length && canonicalAbsolutePathWithLength value length

theorem parseDigits_le {digits : Bytes} {value n : Nat} (hv : value ≤ u32Max) (h : parseDigits digits value = some n) :
    n ≤ u32Max := by
  induction digits generalizing value with
  | nil =>
    cases h
    exact hv
  | cons b rest ih =>
    simp only [parseDigits] at h
    split at h
    · cases h
    · split at h
      · cases h
      · rename_i hroom
        refine ih ?_ h
        have := (b - 48).toNat_lt
        simp only [u32Max] at hroom ⊢
        omega

theorem parseNonzeroDecimal_some {data : Bytes} {value : Nat} (h : parseNonzeroDecimal data = some value) :
    2 ≤ data.length ∧ data.length ≤ 11 ∧ value ≠ 0 ∧ value ≤ u32Max := by
  unfold parseNonzeroDecimal at h
  split at h
  · cases h
  · rename_i hlen
    push Not at hlen
    dsimp only at h
    split at h
    · cases h
    · cases hp : parseDigits data.dropLast 0 with
      | none =>
        rw [hp] at h
        cases h
      | some n =>
        rw [hp] at h
        dsimp only at h
        split at h
        · cases h
        · cases h
          exact ⟨hlen.1, hlen.2.1, ‹_›, parseDigits_le (Nat.zero_le _) hp⟩

theorem not_malformed_lined {digits : Bytes} (hne : digits ≠ []) (hlen : digits.length ≤ 10) :
    ¬((digits ++ [10]).length < 2 ∨ 11 < (digits ++ [10]).length ∨ (digits ++ [10]).getLast? ≠ some 10) := by
  have hpos := List.length_pos_iff.mpr hne
  rw [List.length_append, List.length_singleton]
  rintro (h | h | h)
  · omega
  · omega
  · exact h List.getLast?_concat

example : formatNonzeroDecimal 120 12 = some (ascii "120\n") := by decide
example : parseNonzeroDecimal (ascii "120\n") = some 120 := by decide
example : parseNonzeroDecimal (ascii "012\n") = none := by decide

end ZenovOS.Security
