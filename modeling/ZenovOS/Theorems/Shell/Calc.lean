import ZenovOS.Shell.Input
import ZenovOS.Theorems.Productivity.Text

/-! # What `calc` answers

The command against the integers as they are written, which have no bound: where it reads past the string, where the processor traps, and
where the number it prints is another one. -/

namespace ZenovOS.Shell

open Bytes Decimal

/-! ### The integers as written -/

/-- A text behind its sign. -/
def unsigned (text : Bytes) : Bytes := if text.head? = some 45 ∨ text.head? = some 43 then text.drop 1 else text

/-- The integer at the head of a text, and what stands behind it. -/
def written (text : Bytes) : Option (Int × Bytes) :=
  let text := text.dropWhile isSpace
  let digits := (unsigned text).takeWhile isDigit
  if digits = [] then none
  else
    let magnitude : Int := number 0 digits
    some (if text.head? = some 45 then -magnitude else magnitude, (unsigned text).dropWhile isDigit)

/-- The operands and the operation between them. -/
def asked (args : Bytes) : Option (Int × UInt8 × Int) := do
  let (left, rest) ← written args
  match rest.dropWhile isSpace with
  | [] => none
  | operation :: rest => do
    let (right, _) ← written rest
    some (left, operation, right)

/-- The quotient is rounded towards zero, and the remainder has the sign of the left operand. -/
def exactResult (operation : UInt8) (left right : Int) : Option Int :=
  if operation = 43 then some (left + right)
  else if operation = 45 then some (left - right)
  else if operation = 42 then some (left * right)
  else if operation = 47 then (if right = 0 then none else some (left.tdiv right))
  else if operation = 37 then (if right = 0 then none else some (left.tmod right))
  else none

/-- The text of an integer. -/
def integerText (n : Int) : Bytes := if n < 0 then 45 :: decimal n.natAbs else decimal n.natAbs

/-- The command ends, and a line it prints is the result of what the string asks for. -/
def Answers (args : Bytes) : Prop :=
  match commandCalc (args ++ [0]) with
  | .error _ => False
  | .ok (.warning _) => True
  | .ok (.line text) => ∃ left operation right result, asked args = some (left, operation, right) ∧
      exactResult operation left right = some result ∧ text = ascii "Result: " ++ integerText result ++ [10]

/-! ### Reading -/

theorem skipSpaces_eq (text : Bytes) : skipSpaces (text ++ [0]) = .ok (text.dropWhile isSpace ++ [0]) := by
  induction text with
  | nil => rfl
  | cons c text ih =>
    rw [List.cons_append, skipSpaces, List.dropWhile_cons]
    split
    · exact ih
    · rfl

theorem readDigits_eq (n : Nat) (text : Bytes) :
    readDigits (n % 2 ^ 32) (text ++ [0]) = .ok (number n (text.takeWhile isDigit) % 2 ^ 32, text.dropWhile isDigit ++ [0]) := by
  induction text generalizing n with
  | nil => rfl
  | cons c text ih =>
    rw [List.cons_append, readDigits, List.takeWhile_cons, List.dropWhile_cons]
    split
    · have hnext : (n % 2 ^ 32 * 10 + (c.toNat - 48)) % 2 ^ 32 = (n * 10 + (c.toNat - 48)) % 2 ^ 32 := by omega
      rw [hnext, ih]
      rfl
    · rfl

theorem i32_natCast_mod (n : Nat) : i32 ((n % 2 ^ 32 : Nat) : Int) = i32 n := by
  rw [i32, i32, Int.natCast_emod]
  exact Int.emod_bmod ..

theorem i32_neg_i32 (n : Int) : i32 (-i32 n) = i32 (-n) := Int.bmod_neg_bmod

theorem deref_eq (text : Bytes) : deref (text ++ [0]) = .ok (text.headD 0) := by
  cases text <;> rfl

theorem unsigned_eq (text : Bytes) :
    (if text.headD 0 = 45 ∨ text.headD 0 = 43 then (text ++ [0]).drop 1 else text ++ [0]) = unsigned text ++ [0] := by
  cases text with
  | nil => rfl
  | cons c text =>
    simp only [unsigned, List.headD_cons, List.head?_cons, Option.some.injEq, List.cons_append, List.drop_succ_cons, List.drop_zero]
    split <;> rfl

theorem isDigit_headD (text : Bytes) : isDigit (text.headD 0) = false ↔ text.takeWhile isDigit = [] := by
  cases text with
  | nil => exact iff_of_true rfl rfl
  | cons c text =>
    rw [List.headD_cons, List.takeWhile_cons]
    split
    · rename_i hc
      simp [hc]
    · rename_i hc
      simpa using hc

theorem negative_headD (text : Bytes) : text.headD 0 = 45 ↔ text.head? = some 45 := by
  cases text with
  | nil => exact iff_of_false (by decide) (by simp)
  | cons c text => simp

theorem parseI32_none {text : Bytes} (h : written text = none) : ∃ rest, parseI32 (text ++ [0]) = .ok (none, rest) := by
  have hdigits : (unsigned (text.dropWhile isSpace)).takeWhile isDigit = [] := by
    by_contra hne
    simp [written, hne] at h
  refine ⟨unsigned (text.dropWhile isSpace) ++ [0], ?_⟩
  simp only [parseI32, skipSpaces_eq, deref_eq, bind, Except.bind]
  rw [unsigned_eq]
  simp only [deref_eq]
  rw [(isDigit_headD _).mpr hdigits]
  rfl

theorem parseI32_written {text rest : Bytes} {v : Int} (h : written text = some (v, rest)) :
    parseI32 (text ++ [0]) = .ok (some (i32 v), rest ++ [0]) := by
  have hdigits : (unsigned (text.dropWhile isSpace)).takeWhile isDigit ≠ [] := by
    rintro hnil
    simp [written, hnil] at h
  have hfirst : isDigit ((unsigned (text.dropWhile isSpace)).headD 0) = true := by
    rw [← Bool.not_eq_false]
    exact mt (isDigit_headD _).mp hdigits
  simp only [written, if_neg hdigits, Option.some.injEq, Prod.mk.injEq] at h
  obtain ⟨rfl, rfl⟩ := h
  simp only [parseI32, skipSpaces_eq, deref_eq, bind, Except.bind]
  rw [unsigned_eq]
  simp only [deref_eq, hfirst]
  rw [← Nat.zero_mod (2 ^ 32), readDigits_eq]
  simp only [negative_headD, i32_natCast_mod, i32_neg_i32, pure, Except.pure]
  by_cases hneg : (text.dropWhile isSpace).head? = some 45
  · simp only [hneg, if_true]
    rfl
  · simp only [hneg, if_false]
    rfl

/-! ### The command -/

/-- A result fits into 32 bits. -/
def InRange (n : Int) : Prop := -2 ^ 31 ≤ n ∧ n < 2 ^ 31

/-- The quotient, or the remainder, of what the operands are in 32 bits is that of the operands; a divisor that is zero there is reported. -/
def Divides (operation : Int → Int → Int) (left right : Int) : Prop :=
  i32 right = 0 ∨ ¬(i32 left = -2 ^ 31 ∧ i32 right = -1) ∧ operation (i32 left) (i32 right) = operation left right

/-- Where the command's 32 bits are enough. -/
def Fits (operation : UInt8) (left right : Int) : Prop :=
  if operation = 43 then InRange (left + right)
  else if operation = 45 then InRange (left - right)
  else if operation = 42 then InRange (left * right)
  else if operation = 47 then Divides Int.tdiv left right
  else if operation = 37 then Divides Int.tmod left right
  else True

/-- There is something behind a left operand, and the operation fits. -/
def Answerable (args : Bytes) : Prop :=
  ∀ left rest, written args = some (left, rest) →
    rest.dropWhile isSpace ≠ [] ∧ ∀ operation right, asked args = some (left, operation, right) → Fits operation left right

theorem i32_inRange (n : Int) : InRange (i32 n) := by
  have hlow := Int.le_bmod (x := n) (m := 2 ^ 32) (by decide)
  have hhigh := Int.bmod_lt (x := n) (m := 2 ^ 32) (by decide)
  simp only [InRange, i32]
  omega

theorem i32_eq_self_iff {n : Int} : i32 n = n ↔ InRange n := by
  constructor
  · intro h
    rw [← h]
    exact i32_inRange n
  · rintro ⟨hlow, hhigh⟩
    exact Int.bmod_eq_of_le (by omega) (by omega)

theorem signedDec_eq {n : Int} (h : InRange n) : signedDec n = integerText n := by
  obtain ⟨hlow, hhigh⟩ := h
  have hdec {m : Nat} (hm : m ≤ 2 ^ 31) : unsignedDec m = decimal m :=
    show (Productivity.reverseDigits (10 + 1) m).reverse = decimal m from Productivity.reverse_reverseDigits (hm.trans_lt (by decide))
  by_cases hneg : n < 0
  · have hmagnitude : (-(n + 1)).toNat + 1 = n.natAbs := by omega
    rw [signedDec, integerText, if_pos hneg, if_pos hneg, hmagnitude, hdec (by omega)]
  · have hmagnitude : n.toNat = n.natAbs := by omega
    rw [signedDec, integerText, if_neg hneg, if_neg hneg, hmagnitude, hdec (by omega)]

theorem integerText_inj {m n : Int} (h : integerText m = integerText n) : m = n := by
  have hdecimal {a b : Nat} (h : decimal a = decimal b) : a = b := by
    rw [← number_decimal a, h, number_decimal]
  have hminus {a : Nat} {l : Bytes} : decimal a ≠ 45 :: l := by
    intro h
    have hdigit := (isDigit_decimal a 45 (h ▸ List.mem_cons_self)).1
    exact absurd hdigit (by decide)
  unfold integerText at h
  split at h <;> split at h
  · have := hdecimal (List.cons.inj h).2
    omega
  · exact absurd h.symm hminus
  · exact absurd h hminus
  · have := hdecimal h
    omega

section
variable {args : Bytes} {operation : UInt8} {left right : Int}

theorem answers_warning {text : String} (h : commandCalc (args ++ [0]) = .ok (.warning text)) : Answers args := by
  rw [Answers, h]
  trivial

theorem answers_fault {fault : Fault} (h : commandCalc (args ++ [0]) = .error fault) : ¬Answers args := by
  rw [Answers, h]
  exact id

theorem answers_printed {n result : Int} (h : commandCalc (args ++ [0]) = .ok (printResult n)) (hn : InRange n)
    (hasked : asked args = some (left, operation, right)) (hresult : exactResult operation left right = some result) :
    Answers args ↔ n = result := by
  rw [Answers, h]
  constructor
  · rintro ⟨left', operation', right', result', hasked', hresult', htext⟩
    rw [hasked, Option.some.injEq, Prod.mk.injEq, Prod.mk.injEq] at hasked'
    obtain ⟨rfl, rfl, rfl⟩ := hasked'
    obtain rfl : result = result' := Option.some.inj (hresult.symm.trans hresult')
    rw [signedDec_eq hn] at htext
    exact integerText_inj (List.append_cancel_left (List.append_cancel_right htext))
  · rintro rfl
    exact ⟨left, operation, right, n, hasked, hresult, by rw [signedDec_eq hn]⟩

theorem answers_wrapped {result : Int} (h : commandCalc (args ++ [0]) = .ok (printResult (i32 result)))
    (hasked : asked args = some (left, operation, right)) (hresult : exactResult operation left right = some result) :
    Answers args ↔ InRange result :=
  (answers_printed h (i32_inRange result) hasked hresult).trans i32_eq_self_iff

theorem answers_divided {op : Int → Int → Int} {byZero : String}
    (hrange : ∀ a b, InRange a → InRange b → b ≠ 0 → ¬(a = -2 ^ 31 ∧ b = -1) → InRange (op a b))
    (h : commandCalc (args ++ [0]) = divide op (i32 left) (i32 right) byZero) (hasked : asked args = some (left, operation, right))
    (hresult : exactResult operation left right = if right = 0 then none else some (op left right)) :
    Answers args ↔ Divides op left right := by
  unfold divide at h
  unfold Divides
  by_cases hzero : i32 right = 0
  · rw [if_pos hzero] at h
    exact iff_of_true (answers_warning h) (Or.inl hzero)
  · have hright : right ≠ 0 := by
      rintro rfl
      exact hzero rfl
    rw [if_neg hzero] at h
    rw [if_neg hright] at hresult
    by_cases htrap : i32 left = -2 ^ 31 ∧ i32 right = -1
    · rw [if_pos htrap] at h
      refine iff_of_false (answers_fault h) ?_
      rintro (hz | ⟨hno, -⟩)
      · exact hzero hz
      · exact hno htrap
    · rw [if_neg htrap] at h
      rw [answers_printed h (hrange _ _ (i32_inRange left) (i32_inRange right) hzero htrap) hasked hresult]
      exact ⟨fun heq => Or.inr ⟨htrap, heq⟩, fun hd => (hd.resolve_left hzero).2⟩

theorem tdiv_inRange {a b : Int} (ha : InRange a) (hb : b ≠ 0) (htrap : ¬(a = -2 ^ 31 ∧ b = -1)) : InRange (a.tdiv b) := by
  have habs : (a.tdiv b).natAbs = a.natAbs / b.natAbs := Int.natAbs_tdiv a b
  have hle : a.natAbs / b.natAbs ≤ a.natAbs := Nat.div_le_self ..
  obtain ⟨hlow, hhigh⟩ := ha
  by_cases hone : b.natAbs = 1
  · rcases Int.natAbs_eq_iff.mp hone with rfl | rfl
    · rw [show a.tdiv ((1 : Nat) : Int) = a from Int.tdiv_one a]
      exact ⟨hlow, hhigh⟩
    · have hneg : a.tdiv (-((1 : Nat) : Int)) = -a := by
        rw [Int.tdiv_neg, show a.tdiv ((1 : Nat) : Int) = a from Int.tdiv_one a]
      have hne : a ≠ -2 ^ 31 := fun h => htrap ⟨h, rfl⟩
      rw [hneg]
      exact ⟨by omega, by omega⟩
  · -- A divisor of two or more halves the magnitude.
    have hhalf : a.natAbs / b.natAbs ≤ a.natAbs / 2 := Nat.div_le_div_left (by omega) (by decide)
    exact ⟨by omega, by omega⟩

theorem tmod_inRange {a b : Int} (hb : InRange b) (hne : b ≠ 0) : InRange (a.tmod b) := by
  have habs : (a.tmod b).natAbs = a.natAbs % b.natAbs := Int.natAbs_tmod a b
  have hlt : a.natAbs % b.natAbs < b.natAbs := Nat.mod_lt _ (by omega)
  obtain ⟨hlow, hhigh⟩ := hb
  exact ⟨by omega, by omega⟩

theorem answers_calculated (h : commandCalc (args ++ [0]) = calculate operation (i32 left) (i32 right))
    (hasked : asked args = some (left, operation, right)) : Answers args ↔ Fits operation left right := by
  have hadd : i32 (i32 left + i32 right) = i32 (left + right) := (Int.add_bmod ..).symm
  have hsub : i32 (i32 left - i32 right) = i32 (left - right) := (Int.sub_bmod ..).symm
  have hmul : i32 (i32 left * i32 right) = i32 (left * right) := (Int.mul_bmod ..).symm
  unfold calculate at h
  unfold Fits
  by_cases h43 : operation = 43
  · rw [if_pos h43, hadd] at h
    rw [if_pos h43]
    exact answers_wrapped h hasked (if_pos h43)
  rw [if_neg h43] at h ⊢
  by_cases h45 : operation = 45
  · rw [if_pos h45, hsub] at h
    rw [if_pos h45]
    exact answers_wrapped h hasked (by rw [exactResult, if_neg h43, if_pos h45])
  rw [if_neg h45] at h ⊢
  by_cases h42 : operation = 42
  · rw [if_pos h42, hmul] at h
    rw [if_pos h42]
    exact answers_wrapped h hasked (by rw [exactResult, if_neg h43, if_neg h45, if_pos h42])
  rw [if_neg h42] at h ⊢
  by_cases h47 : operation = 47
  · rw [if_pos h47] at h
    rw [if_pos h47]
    refine answers_divided (fun a b ha _ hb htrap => tdiv_inRange ha hb htrap) h hasked ?_
    rw [exactResult, if_neg h43, if_neg h45, if_neg h42, if_pos h47]
  rw [if_neg h47] at h ⊢
  by_cases h37 : operation = 37
  · rw [if_pos h37] at h
    rw [if_pos h37]
    refine answers_divided (fun a b _ hb hne _ => tmod_inRange hb hne) h hasked ?_
    rw [exactResult, if_neg h43, if_neg h45, if_neg h42, if_neg h47, if_pos h37]
  rw [if_neg h37] at h ⊢
  exact iff_of_true (answers_warning h) trivial

end

theorem commandCalc_none {args : Bytes} (h : written args = none) : Answers args := by
  obtain ⟨rest, hparse⟩ := parseI32_none h
  exact answers_warning (by rw [commandCalc, hparse]; rfl)

section
variable {args rest more : Bytes} {left : Int} {operation : UInt8}

theorem commandCalc_end (h : written args = some (left, rest)) (hend : rest.dropWhile isSpace = []) :
    commandCalc (args ++ [0]) = .error .overread := by
  simp only [commandCalc, parseI32_written h, bind, Except.bind, skipSpaces_eq, hend]
  rfl

theorem answers_operation (h : written args = some (left, rest)) (hop : rest.dropWhile isSpace = operation :: more) :
    Answers args ↔ ∀ right, asked args = some (left, operation, right) → Fits operation left right := by
  have hcmd : commandCalc (args ++ [0]) = (parseI32 (more ++ [0])).bind fun r =>
      r.1.elim (.ok (.warning "The right operand is invalid.")) (calculate operation (i32 left)) := by
    simp only [commandCalc, parseI32_written h, bind, Except.bind, skipSpaces_eq, hop]
    rw [show deref (operation :: more ++ [0]) = .ok operation from rfl,
      show List.drop 1 (operation :: more ++ [0]) = more ++ [0] from rfl]
    rcases parseI32 (more ++ [0]) with e | ⟨_ | right, after⟩ <;> rfl
  cases hmore : written more with
  | none =>
    obtain ⟨after, hparse⟩ := parseI32_none hmore
    rw [hparse] at hcmd
    refine iff_of_true (answers_warning hcmd) ?_
    intro right hasked
    simp [asked, h, hop, hmore] at hasked
  | some value =>
    obtain ⟨right, after⟩ := value
    rw [parseI32_written hmore] at hcmd
    have hasked : asked args = some (left, operation, right) := by simp [asked, h, hop, hmore]
    rw [answers_calculated hcmd hasked]
    refine ⟨fun hfits right' hasked' => ?_, fun hfits => hfits right hasked⟩
    rw [hasked, Option.some.injEq, Prod.mk.injEq, Prod.mk.injEq] at hasked'
    exact hasked'.2.2 ▸ hfits

end

theorem asked_left {args rest : Bytes} {left left' right : Int} {operation : UInt8} (h : written args = some (left, rest))
    (hasked : asked args = some (left', operation, right)) : left' = left ∧ (rest.dropWhile isSpace).head? = some operation := by
  simp only [asked, h, Option.bind_eq_bind, Option.bind_some] at hasked
  cases hop : rest.dropWhile isSpace with
  | nil => simp [hop] at hasked
  | cons c more =>
    rw [hop] at hasked
    obtain ⟨value, -, hvalue⟩ := Option.bind_eq_some_iff.mp hasked
    simp only [Option.some.injEq, Prod.mk.injEq] at hvalue
    exact ⟨hvalue.1.symm, congrArg some hvalue.2.1⟩

/-- The command answers exactly where something stands behind a left operand and 32 bits are enough for the operation. -/
theorem calc_answers_iff (args : Bytes) : Answers args ↔ Answerable args := by
  cases h : written args with
  | none =>
    refine iff_of_true (commandCalc_none h) ?_
    intro left rest hwritten
    rw [h] at hwritten
    cases hwritten
  | some value =>
    obtain ⟨left, rest⟩ := value
    have hone : Answerable args ↔ rest.dropWhile isSpace ≠ [] ∧
        ∀ operation right, asked args = some (left, operation, right) → Fits operation left right := by
      refine ⟨fun ha => ha left rest h, fun ha left' rest' h' => ?_⟩
      rw [h, Option.some.injEq, Prod.mk.injEq] at h'
      obtain ⟨rfl, rfl⟩ := h'
      exact ha
    rw [hone]
    cases hop : rest.dropWhile isSpace with
    | nil => exact iff_of_false (answers_fault (commandCalc_end h hop)) fun ha => ha.1 rfl
    | cons operation more =>
      rw [answers_operation h hop]
      refine ⟨fun ha => ⟨List.cons_ne_nil _ _, fun operation' right hasked => ?_⟩, fun ha right hasked => ha.2 operation right hasked⟩
      obtain ⟨-, hhead⟩ := asked_left h hasked
      rw [hop, List.head?_cons, Option.some.injEq] at hhead
      exact hhead ▸ ha right (hhead ▸ hasked)

/-- `1`, the least integer divided by `-1`, and `2147483647+1`: the byte behind the terminator is read as the start of the right operand, the
processor traps, and the sum that is printed is negative. -/
theorem calc_not_exact :
    ¬Answers [49] ∧ ¬Answers [45, 50, 49, 52, 55, 52, 56, 51, 54, 52, 56, 47, 45, 49] ∧
    ¬Answers [50, 49, 52, 55, 52, 56, 51, 54, 52, 55, 43, 49] := by
  have hend : commandCalc ([49] ++ [0]) = .error .overread := by decide
  have htrap : commandCalc ([45, 50, 49, 52, 55, 52, 56, 51, 54, 52, 56, 47, 45, 49] ++ [0]) = .error .divideError := by decide
  refine ⟨answers_fault hend, answers_fault htrap, ?_⟩
  have hcmd : commandCalc ([50, 49, 52, 55, 52, 56, 51, 54, 52, 55, 43, 49] ++ [0]) = .ok (printResult (-2147483648)) := by decide
  have hasked : asked [50, 49, 52, 55, 52, 56, 51, 54, 52, 55, 43, 49] = some (2147483647, 43, 1) := by decide
  have hresult : exactResult 43 2147483647 1 = some 2147483648 := by decide
  rw [answers_printed hcmd ⟨by decide, by decide⟩ hasked hresult]
  decide

end ZenovOS.Shell
