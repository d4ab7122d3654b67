import ZenovOS.Productivity.Calculator

/-! The language of the calculator, and what a round of the loop of each level does: it takes an operator of the level, or refuses one
that is not allowed, or ends the loop. -/

namespace ZenovOS.Productivity
open Expressions

/-! ### The language -/

inductive CalcSign where
  | plus
  | minus
  | tilde

inductive CalcOperator where
  | mul
  | div
  | rem
  | add
  | sub
  | shl
  | shr
  | and
  | xor
  | or
  deriving DecidableEq

namespace CalcOperator

/-- `*`, `/`, `%`, `+`, `-`, `<<`, `>>`, `&`, `^` and `|`. -/
def token : CalcOperator → Bytes
  | .mul => [42]
  | .div => [47]
  | .rem => [37]
  | .add => [43]
  | .sub => [45]
  | .shl => [60, 60]
  | .shr => [62, 62]
  | .and => [38]
  | .xor => [94]
  | .or => [124]

def level : CalcOperator → Nat
  | .mul | .div | .rem => 0
  | .add | .sub => 1
  | .shl | .shr => 2
  | .and => 3
  | .xor => 4
  | .or => 5

/-- The exact result, where it fits into 32 bits: division is truncated, and `>>` rounds down. -/
def apply : CalcOperator → Int → Int → Option Int
  | .mul, a, b => int32 (a * b)
  | .div, a, b => if b = 0 then none else int32 (a.tdiv b)
  | .rem, a, b => if b = 0 then none else some (a.tmod b)
  | .add, a, b => int32 (a + b)
  | .sub, a, b => int32 (a - b)
  | .shl, a, b => if 0 ≤ b ∧ b ≤ 31 then some (BitVec.ofInt 32 a <<< b.toNat).toInt else none
  | .shr, a, b => if 0 ≤ b ∧ b ≤ 31 then some (a / 2 ^ b.toNat) else none
  | .and, a, b => some (BitVec.ofInt 32 a &&& BitVec.ofInt 32 b).toInt
  | .xor, a, b => some (BitVec.ofInt 32 a ^^^ BitVec.ofInt 32 b).toInt
  | .or, a, b => some (BitVec.ofInt 32 a ||| BitVec.ofInt 32 b).toInt

end CalcOperator

/-- The number that digits write in a base. -/
def digitsValue (base : Nat) (digits : Bytes) : Nat := digits.foldl (fun value c => value * base + calcDigit c) 0

/-- What a literal in a base begins with. -/
def LiteralStart : Bytes → Nat → Prop := fun start base =>
  (start = [] ∧ base = 10) ∨ ((start = ascii "0x" ∨ start = ascii "0X") ∧ base = 16) ∨ ((start = ascii "0b" ∨ start = ascii "0B") ∧ base = 2)

inductive CalcLiteral : Bytes → Int → Prop where
  | mk {start digits : Bytes} {base : Nat} : LiteralStart start base → digits ≠ [] → (∀ c ∈ digits, calcDigit c < base) →
      digitsValue base digits ≤ 2147483647 → CalcLiteral (start ++ digits) (digitsValue base digits)

/-- The expressions of the calculator. -/
def calcLanguage (allowBitwise : Bool) : Language UInt8 Int where
  blank := 32
  opening := 40
  closing := 41
  Literal := CalcLiteral
  Sign := CalcSign
  sign
    | .plus => 43
    | .minus => 45
    | .tilde => 126
  admitsSign
    | .tilde => allowBitwise
    | _ => True
  applySign
    | .plus, v => some v
    | .minus, v => int32 (-v)
    | .tilde, v => some (-v - 1)
  Operator := CalcOperator
  token := CalcOperator.token
  level := CalcOperator.level
  admits op := op.level < 2 ∨ allowBitwise
  apply := CalcOperator.apply
  top := 6

variable {allow : Bool}

theorem lawful_calcLanguage : (calcLanguage allow).Lawful where
  token_ne op := by cases op <;> exact List.cons_ne_nil _ _
  token_blank op x h := by cases op <;> cases h
  token_inj {op op' x y} h := by cases op <;> cases op' <;> first | rfl | (cases h)
  token_closing {op x y} h := by cases op <;> cases h
  closing_blank := (by decide : (41 : UInt8) ≠ 32)

/-! ### Arithmetic -/

def InRange (n : Int) : Prop := calcIntMin ≤ n ∧ n ≤ calcIntMax

instance (n : Int) : Decidable (InRange n) := inferInstanceAs (Decidable (_ ∧ _))

theorem int32_eq_some {n m : Int} : int32 n = some m ↔ InRange n ∧ n = m := by
  unfold int32
  split
  · next h => exact ⟨fun hn => ⟨h, Option.some.inj hn⟩, fun hn => congrArg some hn.2⟩
  · next h => exact ⟨nofun, fun hn => absurd hn.1 h⟩

theorem int32_eq_none {n : Int} : int32 n = none ↔ ¬InRange n := by
  unfold int32
  split
  · next h => exact ⟨nofun, fun hn => absurd h hn⟩
  · next h => exact ⟨fun _ => h, fun _ => rfl⟩

theorem int32_of_inRange {n : Int} (h : InRange n) : int32 n = some n := int32_eq_some.mpr ⟨h, rfl⟩

theorem check_eq {refused : Prop} [Decidable refused] {n : Int} (h : refused ↔ ¬InRange n) :
    (if refused then some none else (int32 n).map some) = some (int32 n) := by
  by_cases hrefused : refused
  · rw [if_pos hrefused, int32_eq_none.mpr (h.mp hrefused)]
  · rw [if_neg hrefused, int32_of_inRange (not_not.mp (mt h.mpr hrefused)), Option.map_some]

theorem checkedAdd_eq {l r : Int} (hl : InRange l) (hr : InRange r) : checkedAdd l r = some (int32 (l + r)) := by
  refine check_eq ?_
  unfold InRange calcIntMin calcIntMax at *
  omega

theorem checkedSub_eq {l r : Int} (hl : InRange l) (hr : InRange r) : checkedSub l r = some (int32 (l - r)) := by
  refine check_eq ?_
  unfold InRange calcIntMin calcIntMax at *
  omega

theorem checkedMul_eq {l r : Int} (hl : InRange l) (hr : InRange r) : checkedMul l r = some (int32 (l * r)) := by
  unfold checkedMul
  by_cases hzero : l = 0 ∨ r = 0
  · have hproduct : l * r = 0 := by
      rcases hzero with rfl | rfl
      · exact Int.zero_mul r
      · exact Int.mul_zero l
    rw [if_pos hzero, hproduct, int32_of_inRange (by decide)]
  rw [if_neg hzero]
  by_cases hmin : (l = -1 ∧ r = calcIntMin) ∨ (r = -1 ∧ l = calcIntMin)
  · have hproduct : l * r = 2147483648 := by
      rcases hmin with ⟨rfl, rfl⟩ | ⟨rfl, rfl⟩ <;> rfl
    rw [if_pos hmin, hproduct, int32_eq_none.mpr (by decide)]
  rw [if_neg hmin]
  refine check_eq ?_
  have hswap {x y : Int} : x < -y ↔ y < -x := by omega
  have hmaxdiv {d : Int} (hd : 0 < d) (x : Int) : x > calcIntMax.tdiv d ↔ calcIntMax < x * d := by
    rw [Int.tdiv_eq_ediv_of_nonneg (by decide)]
    exact Int.ediv_lt_iff_lt_mul hd
  have hmindiv {d : Int} (hd : 0 < d) (x : Int) : x < calcIntMin.tdiv d ↔ x * d < calcIntMin := by
    rw [show calcIntMin = -2147483648 from rfl, Int.neg_tdiv, Int.tdiv_eq_ediv_of_nonneg (by decide), hswap, Int.ediv_lt_iff_lt_mul hd,
      Int.neg_mul, hswap]
  have hnegdiv {d : Int} (hd : d < 0) (x : Int) : x < calcIntMax.tdiv d ↔ calcIntMax < x * d := by
    obtain ⟨c, rfl⟩ : ∃ c, d = -c := ⟨-d, (Int.neg_neg d).symm⟩
    rw [Int.tdiv_neg, hswap, Int.tdiv_eq_ediv_of_nonneg (by decide), Int.ediv_lt_iff_lt_mul (by omega), Int.neg_mul, Int.mul_neg]
  have hbounds : ¬InRange (l * r) ↔ calcIntMax < l * r ∨ l * r < calcIntMin := by
    unfold InRange
    omega
  rw [hbounds]
  rcases Int.lt_or_gt_of_ne (fun h => hzero (Or.inl h)) with hlneg | hlpos <;>
    rcases Int.lt_or_gt_of_ne (fun h => hzero (Or.inr h)) with hrneg | hrpos
  · have hpos := Int.mul_pos_of_neg_of_neg hlneg hrneg
    rw [if_neg (by omega), if_neg (by omega), hnegdiv hrneg]
    unfold calcIntMin
    omega
  · have hneg := Int.mul_neg_of_neg_of_pos hlneg hrpos
    rw [if_neg (by omega), if_pos hrpos, hmindiv hrpos]
    unfold calcIntMax
    omega
  · have hneg := Int.mul_neg_of_pos_of_neg hlpos hrneg
    rw [if_pos hlpos, if_neg (by omega), hmindiv hlpos, Int.mul_comm r l]
    unfold calcIntMax
    omega
  · have hpos := Int.mul_pos hlpos hrpos
    rw [if_pos hlpos, if_pos hrpos, hmaxdiv hrpos]
    unfold calcIntMin
    omega

theorem inRange_tdiv {l r : Int} (hl : InRange l) : InRange (l.tdiv r) ↔ ¬(l = calcIntMin ∧ r = -1) := by
  unfold InRange calcIntMin calcIntMax at *
  by_cases hone : r = -1
  · rw [hone, Int.tdiv_neg, Int.tdiv_one]
    omega
  by_cases hunit : r = 1
  · rw [hunit, Int.tdiv_one]
    omega
  have habs : (l.tdiv r).natAbs = l.natAbs / r.natAbs := Int.natAbs_tdiv l r
  have hhalf : l.natAbs / r.natAbs ≤ l.natAbs / 2 := by
    rcases Nat.eq_zero_or_pos r.natAbs with hzero | hpos
    · rw [hzero, Nat.div_zero]
      exact Nat.zero_le _
    · exact Nat.div_le_div_left (by omega) (by decide)
  omega

theorem inRange_tmod {l r : Int} (hl : InRange l) : InRange (l.tmod r) := by
  have habs : (l.tmod r).natAbs = l.natAbs % r.natAbs := Int.natAbs_tmod l r
  have hle : l.natAbs % r.natAbs ≤ l.natAbs := Nat.mod_le ..
  have hsign : l ≤ 0 → 0 ≤ -l.tmod r := fun h => by
    rw [← Int.neg_tmod]
    exact Int.tmod_nonneg r (by omega)
  unfold InRange calcIntMin calcIntMax at *
  omega

theorem inRange_toInt (x : BitVec 32) : InRange x.toInt := by
  have hlo := BitVec.le_toInt x
  have hhi := BitVec.toInt_lt (x := x)
  unfold InRange calcIntMin calcIntMax
  omega

/-! ### Symbols -/

/-- What every state of a run keeps. -/
structure CalculatorParser.Valid (input : Bytes) (allow : Bool) (p : CalculatorParser) : Prop where
  input : p.input = input
  allow : p.allowBitwise = allow
  position : p.position ≤ p.size
  size : p.size < 256

def calcScanner (input : Bytes) (allow : Bool) : Scanner UInt8 Int CalculatorParser where
  rest p := p.input.drop p.position
  failed p := !p.running
  Valid := CalculatorParser.Valid input allow
  Value := InRange

namespace CalculatorParser
variable {input : Bytes} {p : CalculatorParser} {x : Bytes} {c d : UInt8}

def rest (p : CalculatorParser) : Bytes := p.input.drop p.position

/-- A state that a valid one comes to, with this still to be read, and no other error. -/
structure Moved (input : Bytes) (allow : Bool) (p : CalculatorParser) (x : Bytes) (p' : CalculatorParser) : Prop where
  valid : p'.Valid input allow
  rest : p'.rest = x
  error : p'.error = p.error

theorem Valid.fail (h : p.Valid input allow) (error : CalculatorError) : (p.fail error).Valid input allow :=
  ⟨h.input, h.allow, h.position, h.size⟩

theorem Moved.trans {p' p'' : CalculatorParser} {x y : Bytes} (h : Moved input allow p x p') (h' : Moved input allow p' y p'') :
    Moved input allow p y p'' := ⟨h'.valid, h'.rest, h'.error.trans h.error⟩

theorem length_rest (p : CalculatorParser) : p.rest.length = p.size - p.position := List.length_drop

theorem at_rest (hrest : p.rest = c :: x) : p.position < p.size ∧ p.input[p.position]? = some c := by
  have hlength := p.length_rest
  rw [hrest, List.length_cons] at hlength
  have hfirst : p.rest[0]? = some c := by rw [hrest, List.getElem?_cons_zero]
  rw [rest, List.getElem?_drop, Nat.add_zero] at hfirst
  exact ⟨by omega, hfirst⟩

theorem at_rest_two (hrest : p.rest = c :: d :: x) :
    p.position + 1 < p.size ∧ p.input[p.position]? = some c ∧ p.input[p.position + 1]? = some d := by
  have hlength := p.length_rest
  rw [hrest, List.length_cons, List.length_cons] at hlength
  have hsecond : p.rest[1]? = some d := by rw [hrest, List.getElem?_cons_succ, List.getElem?_cons_zero]
  rw [rest, List.getElem?_drop] at hsecond
  exact ⟨by omega, (at_rest hrest).2, hsecond⟩

theorem end_rest_two (hrest : p.rest.length < 2) : ¬p.position + 1 < p.size := by
  rw [length_rest] at hrest
  omega

theorem end_rest (hrest : p.rest = []) : ¬p.position < p.size := by
  have hlength := p.length_rest
  rw [hrest, List.length_nil] at hlength
  omega

theorem Valid.advance (h : p.Valid input allow) {t : Bytes} (hrest : p.rest = t ++ x) : Moved input allow p x (p.advance t.length) := by
  have hlength := p.length_rest
  have hposition := h.position
  rw [hrest, List.length_append] at hlength
  have hbound : p.position + t.length ≤ p.size := by omega
  have hmod : (p.position + t.length) % 256 = p.position + t.length := Nat.mod_eq_of_lt (by have := h.size; omega)
  refine ⟨⟨h.input, h.allow, ?_, h.size⟩, ?_, rfl⟩
  · show (p.position + t.length) % 256 ≤ p.size
    rw [hmod]
    exact hbound
  · show p.input.drop ((p.position + t.length) % 256) = x
    rw [hmod, ← List.drop_drop]
    show p.rest.drop t.length = x
    rw [hrest, List.drop_left]

theorem Valid.byte (h : p.Valid input allow) (hrest : p.rest = c :: x) : Moved input allow p x (p.advance 1) := h.advance (t := [c]) hrest

theorem skipSpacesLoop_eq {n : Nat} (h : p.Valid input allow) (hn : p.rest.length < n) :
    ∃ p', skipSpacesLoop n p = some p' ∧ Moved input allow p ((calcLanguage allow).ahead p.rest) p' := by
  induction n generalizing p with
  | zero => omega
  | succ n ih =>
    rw [skipSpacesLoop]
    cases hrest : p.rest with
    | nil => exact ⟨p, if_neg (end_rest hrest), h, hrest, rfl⟩
    | cons c x =>
      obtain ⟨hlt, hat⟩ := at_rest hrest
      rw [if_pos hlt, hat]
      by_cases hc : c = 32
      · have hmoved := h.byte hrest
        rw [hrest, List.length_cons] at hn
        obtain ⟨p', hrun, hmoved'⟩ := ih hmoved.valid (by rw [hmoved.rest]; omega)
        refine ⟨p', (if_pos hc).trans hrun, hmoved'.valid, ?_, hmoved'.error⟩
        rw [hmoved'.rest, hmoved.rest]
        exact (Language.ahead_blanks (s := [c]) (by simp [Language.Blanks, calcLanguage, hc]) x).symm
      · exact ⟨p, if_neg hc, h, hrest.trans (Language.ahead_cons hc x).symm, rfl⟩

theorem skipSpaces_eq (h : p.Valid input allow) :
    ∃ p', p.skipSpaces = some p' ∧ Moved input allow p ((calcLanguage allow).ahead p.rest) p' := by
  refine skipSpacesLoop_eq h ?_
  rw [length_rest, rounds]
  omega

theorem take_yes (h : p.Valid input allow) (hahead : (calcLanguage allow).ahead p.rest = c :: x) :
    ∃ p', p.take c = some (true, p') ∧ Moved input allow p x p' := by
  obtain ⟨p1, hskip, hmoved⟩ := skipSpaces_eq h
  rw [hahead] at hmoved
  obtain ⟨hlt, hat⟩ := at_rest hmoved.rest
  have hmoved' := hmoved.valid.byte hmoved.rest
  refine ⟨p1.advance 1, ?_, hmoved'.valid, hmoved'.rest, hmoved.error⟩
  rw [take, hskip, Option.bind_eq_bind, Option.bind_some, if_pos hlt, hat]
  exact if_pos rfl

theorem take_no (h : p.Valid input allow) (hahead : (calcLanguage allow).ahead p.rest = x) (hno : ∀ y, x ≠ c :: y) :
    ∃ p', p.take c = some (false, p') ∧ Moved input allow p x p' ∧ (calcLanguage allow).ahead p'.rest = x := by
  obtain ⟨p1, hskip, hmoved⟩ := skipSpaces_eq h
  have hagain : (calcLanguage allow).ahead p1.rest = x := by rw [hmoved.rest, Language.ahead_ahead, hahead]
  rw [hahead] at hmoved
  refine ⟨p1, ?_, hmoved, hagain⟩
  rw [take, hskip, Option.bind_eq_bind, Option.bind_some]
  cases hrest : p1.rest with
  | nil => exact if_neg (end_rest hrest)
  | cons d y =>
    obtain ⟨hlt, hat⟩ := at_rest hrest
    rw [if_pos hlt, hat]
    refine if_neg fun hd => hno y ?_
    rw [← hmoved.rest, hrest, hd]

theorem takeTwo_yes (h : p.Valid input allow) (hahead : (calcLanguage allow).ahead p.rest = c :: d :: x) :
    ∃ p', p.takeTwo c d = some (true, p') ∧ Moved input allow p x p' := by
  obtain ⟨p1, hskip, hmoved⟩ := skipSpaces_eq h
  rw [hahead] at hmoved
  obtain ⟨hlt, hat, hnext⟩ := at_rest_two hmoved.rest
  have hmoved' := hmoved.valid.advance (t := [c, d]) hmoved.rest
  refine ⟨p1.advance 2, ?_, hmoved'.valid, hmoved'.rest, hmoved.error⟩
  rw [takeTwo, hskip, Option.bind_eq_bind, Option.bind_some, if_pos hlt, hat, hnext]
  exact if_pos ⟨rfl, rfl⟩

theorem takeTwo_no (h : p.Valid input allow) (hahead : (calcLanguage allow).ahead p.rest = x) (hno : ∀ y, x ≠ c :: d :: y) :
    ∃ p', p.takeTwo c d = some (false, p') ∧ Moved input allow p x p' ∧ (calcLanguage allow).ahead p'.rest = x := by
  obtain ⟨p1, hskip, hmoved⟩ := skipSpaces_eq h
  have hagain : (calcLanguage allow).ahead p1.rest = x := by rw [hmoved.rest, Language.ahead_ahead, hahead]
  rw [hahead] at hmoved
  refine ⟨p1, ?_, hmoved, hagain⟩
  rw [takeTwo, hskip, Option.bind_eq_bind, Option.bind_some]
  match hrest : p1.rest with
  | [] => exact if_neg (end_rest_two (by rw [hrest]; decide))
  | [a] => exact if_neg (end_rest_two (by rw [hrest, List.length_singleton]; decide))
  | a :: b :: y =>
    obtain ⟨hlt, hat, hnext⟩ := at_rest_two hrest
    rw [if_pos hlt, hat, hnext]
    refine if_neg fun hcd => hno y ?_
    rw [← hmoved.rest, hrest, hcd.1, hcd.2]

end CalculatorParser

/-! ### Rounds -/

section
variable {input : Bytes} {k : Nat} {sub : CalculatorLevel}

theorem failed_eq_false {p : CalculatorParser} : (calcScanner input allow).failed p = false ↔ p.error = .none := by
  simp [calcScanner, CalculatorParser.running]

theorem failed_fail {p : CalculatorParser} {error : CalculatorError} (h : error ≠ .none) :
    (calcScanner input allow).failed (p.fail error) = true := by
  simpa [calcScanner, CalculatorParser.running, CalculatorParser.fail] using h

theorem finished_value {op : CalcOperator} {l r v : Int} {p : CalculatorParser} (hp : p.Valid input allow)
    (happly : op.apply l r = some v) (hv : InRange v) : Finished (calcLanguage allow) (calcScanner input allow) op l r p v p true :=
  ⟨rfl, hp, hv, fun h => ⟨h, happly, rfl⟩, fun h _ _ => h⟩

theorem finished_error {op : CalcOperator} {l r v : Int} {p : CalculatorParser} {error : CalculatorError} {again : Bool}
    (hp : p.Valid input allow) (happly : op.apply l r = none) (hv : InRange v) (herror : error ≠ .none) :
    Finished (calcLanguage allow) (calcScanner input allow) op l r p v (p.fail error) again :=
  ⟨rfl, hp.fail error, hv, fun h => absurd ((failed_fail herror).symm.trans h) (by decide),
    fun _ _ h => absurd (happly.symm.trans h) nofun⟩

theorem finished_checked {op : CalcOperator} {l r n : Int} {p : CalculatorParser} (hp : p.Valid input allow)
    (happly : op.apply l r = int32 n) :
    ∃ value p' again, (match int32 n with
        | some result => some (result, p, true)
        | none => some (0, p.fail .overflow, true)) = some (value, p', again) ∧
      Finished (calcLanguage allow) (calcScanner input allow) op l r p value p' again := by
  cases hresult : int32 n with
  | some result =>
    obtain ⟨hrange, rfl⟩ := int32_eq_some.mp hresult
    exact ⟨_, p, true, rfl, finished_value hp (happly.trans hresult) hrange⟩
  | none => exact ⟨0, p.fail .overflow, true, rfl, finished_error hp (happly.trans hresult) (by decide) (by decide)⟩

theorem Moved.start {p p1 : CalculatorParser} {x : Bytes} (hready : (calcScanner input allow).Ready k p)
    (h : CalculatorParser.Moved input allow p x p1) :
    (calcScanner input allow).Valid p1 ∧ (calcScanner input allow).failed p1 = false ∧ (calcScanner input allow).rest p1 = x :=
  ⟨h.valid, failed_eq_false.mpr (h.error.trans (failed_eq_false.mp hready.running)), h.rest⟩

theorem rounds_mulBody : Rounds (calcLanguage allow) (calcScanner input allow) 0 k sub (mulBody sub) where
  stop v p hready hno := by
    obtain ⟨p1, htake1, hmoved1, hahead1⟩ := CalculatorParser.take_no (c := 42) hready.valid rfl fun y hy => hno .mul y rfl hy
    obtain ⟨p2, htake2, hmoved2, hahead2⟩ := CalculatorParser.take_no (c := 47) hmoved1.valid hahead1 fun y hy => hno .div y rfl hy
    obtain ⟨p3, htake3, hmoved3, -⟩ := CalculatorParser.take_no (c := 37) hmoved2.valid hahead2 fun y hy => hno .rem y rfl hy
    obtain ⟨hvalid, hrunning, hrest⟩ := Moved.start hready (hmoved1.trans (hmoved2.trans hmoved3))
    refine ⟨p3, ?_, hvalid, hrunning, hrest⟩
    simp only [mulBody, Option.bind_eq_bind, htake1, htake2, htake3, Option.bind_some, Bool.false_eq_true, if_false]
  refuse v p op x _ _ hlevel hadmits _ := absurd (Or.inl (hlevel.trans_lt (by decide))) hadmits
  go v p op x hv hready hlevel _ hahead := by
    cases op with
    | mul =>
      obtain ⟨p1, htake1, hmoved1⟩ := CalculatorParser.take_yes (c := 42) hready.valid hahead
      obtain ⟨hvalid, hrunning, hrest⟩ := Moved.start hready hmoved1
      refine ⟨p1, hvalid, hrunning, hrest, fun right p2 hsub hright hvalid2 => ?_⟩
      simp only [mulBody, Option.bind_eq_bind, htake1, Option.bind_some, if_true, hsub, checkedMul_eq hv hright]
      exact finished_checked hvalid2 rfl
    | div =>
      obtain ⟨p1, htake1, hmoved1, hahead1⟩ := CalculatorParser.take_no (c := 42) hready.valid hahead fun y hy => nomatch hy
      obtain ⟨p2, htake2, hmoved2⟩ := CalculatorParser.take_yes (c := 47) hmoved1.valid hahead1
      obtain ⟨hvalid, hrunning, hrest⟩ := Moved.start hready (hmoved1.trans hmoved2)
      refine ⟨p2, hvalid, hrunning, hrest, fun right p3 hsub hright hvalid3 => ?_⟩
      simp only [mulBody, Option.bind_eq_bind, htake1, htake2, Option.bind_some, Bool.false_eq_true, if_false, if_true, hsub]
      by_cases hzero : right = 0
      · exact ⟨v, p3.fail .divideByZero, true, if_pos hzero, finished_error hvalid3 (if_pos hzero) hv (by decide)⟩
      have happly : CalcOperator.apply .div v right = int32 (v.tdiv right) := if_neg hzero
      rw [if_neg hzero]
      by_cases hmin : v = calcIntMin ∧ right = -1
      · have hnone := int32_eq_none.mpr (mt (inRange_tdiv hv).mp (not_not.mpr hmin))
        exact ⟨v, p3.fail .overflow, true, if_pos hmin, finished_error hvalid3 (happly.trans hnone) hv (by decide)⟩
      · have hresult := (inRange_tdiv hv).mpr hmin
        rw [if_neg hmin, int32_of_inRange hresult]
        exact ⟨_, p3, true, rfl, finished_value hvalid3 (happly.trans (int32_of_inRange hresult)) hresult⟩
    | rem =>
      obtain ⟨p1, htake1, hmoved1, hahead1⟩ := CalculatorParser.take_no (c := 42) hready.valid hahead fun y hy => nomatch hy
      obtain ⟨p2, htake2, hmoved2, hahead2⟩ := CalculatorParser.take_no (c := 47) hmoved1.valid hahead1 fun y hy => nomatch hy
      obtain ⟨p3, htake3, hmoved3⟩ := CalculatorParser.take_yes (c := 37) hmoved2.valid hahead2
      obtain ⟨hvalid, hrunning, hrest⟩ := Moved.start hready (hmoved1.trans (hmoved2.trans hmoved3))
      refine ⟨p3, hvalid, hrunning, hrest, fun right p4 hsub hright hvalid4 => ?_⟩
      simp only [mulBody, Option.bind_eq_bind, htake1, htake2, htake3, Option.bind_some, Bool.false_eq_true, if_false, if_true, hsub]
      by_cases hzero : right = 0
      · exact ⟨v, p4.fail .divideByZero, true, if_pos hzero, finished_error hvalid4 (if_pos hzero) hv (by decide)⟩
      have happly : CalcOperator.apply .rem v right = some (v.tmod right) := if_neg hzero
      rw [if_neg hzero]
      by_cases hmin : v = calcIntMin ∧ right = -1
      · have hvalue : v.tmod right = 0 := by
          rw [hmin.1, hmin.2]
          rfl
        exact ⟨0, p4, true, if_pos hmin, finished_value hvalid4 (happly.trans (congrArg some hvalue)) (by decide)⟩
      · have hresult := inRange_tmod (r := right) hv
        rw [if_neg hmin, int32_of_inRange hresult]
        exact ⟨_, p4, true, rfl, finished_value hvalid4 happly hresult⟩
    | _ => cases hlevel

theorem rounds_addBody : Rounds (calcLanguage allow) (calcScanner input allow) 1 k sub (addBody sub) where
  stop v p hready hno := by
    obtain ⟨p1, htake1, hmoved1, hahead1⟩ := CalculatorParser.take_no (c := 43) hready.valid rfl fun y hy => hno .add y rfl hy
    obtain ⟨p2, htake2, hmoved2, -⟩ := CalculatorParser.take_no (c := 45) hmoved1.valid hahead1 fun y hy => hno .sub y rfl hy
    obtain ⟨hvalid, hrunning, hrest⟩ := Moved.start hready (hmoved1.trans hmoved2)
    refine ⟨p2, ?_, hvalid, hrunning, hrest⟩
    simp only [addBody, Option.bind_eq_bind, htake1, htake2, Option.bind_some, Bool.false_eq_true, if_false]
  refuse v p op x _ _ hlevel hadmits _ := absurd (Or.inl (hlevel.trans_lt (by decide))) hadmits
  go v p op x hv hready hlevel _ hahead := by
    cases op with
    | add =>
      obtain ⟨p1, htake1, hmoved1⟩ := CalculatorParser.take_yes (c := 43) hready.valid hahead
      obtain ⟨hvalid, hrunning, hrest⟩ := Moved.start hready hmoved1
      refine ⟨p1, hvalid, hrunning, hrest, fun right p2 hsub hright hvalid2 => ?_⟩
      simp only [addBody, Option.bind_eq_bind, htake1, Option.bind_some, if_true, hsub, checkedAdd_eq hv hright]
      exact finished_checked hvalid2 rfl
    | sub =>
      obtain ⟨p1, htake1, hmoved1, hahead1⟩ := CalculatorParser.take_no (c := 43) hready.valid hahead fun y hy => nomatch hy
      obtain ⟨p2, htake2, hmoved2⟩ := CalculatorParser.take_yes (c := 45) hmoved1.valid hahead1
      obtain ⟨hvalid, hrunning, hrest⟩ := Moved.start hready (hmoved1.trans hmoved2)
      refine ⟨p2, hvalid, hrunning, hrest, fun right p3 hsub hright hvalid3 => ?_⟩
      simp only [addBody, Option.bind_eq_bind, htake1, htake2, Option.bind_some, Bool.false_eq_true, if_false, if_true, hsub,
        checkedSub_eq hv hright]
      exact finished_checked hvalid3 rfl
    | _ => cases hlevel

theorem admits_iff {op : CalcOperator} (h : 2 ≤ op.level) : (calcLanguage allow).admits op ↔ allow = true :=
  ⟨fun hadmits => hadmits.resolve_left (by omega), Or.inr⟩

theorem fail_leads {p p1 : CalculatorParser} {x : Bytes} {error : CalculatorError}
    (hahead : (calcLanguage allow).ahead p.rest = x) {token : Bytes} {y : Bytes} (hx : x = token ++ y)
    (h : CalculatorParser.Moved input allow p y p1) : (calcScanner input allow).Leads p (p1.fail error) := by
  refine ⟨h.valid.fail error, ?_⟩
  obtain ⟨s, -, hrest⟩ := Language.exists_blanks (L := calcLanguage allow) p.rest
  show p1.rest.length ≤ p.rest.length
  rw [h.rest, hrest, hahead, hx, List.length_append, List.length_append]
  omega

theorem apply_shr {a b : Int} (ha : InRange a) : ((BitVec.ofInt 32 a).sshiftRight b.toNat).toInt = a / 2 ^ b.toNat := by
  have hvalue : (BitVec.ofInt 32 a).toInt = a := by
    unfold InRange calcIntMin calcIntMax at ha
    rw [BitVec.toInt_ofInt, Int.bmod_eq_of_le (by omega) (by omega)]
  rw [BitVec.toInt_sshiftRight, hvalue, Int.shiftRight_eq_div_pow]
  norm_cast

theorem rounds_shiftBody : Rounds (calcLanguage allow) (calcScanner input allow) 2 k sub (shiftBody sub) where
  stop v p hready hno := by
    obtain ⟨p1, htake1, hmoved1, hahead1⟩ := CalculatorParser.takeTwo_no (c := 60) (d := 60) hready.valid rfl fun y hy => hno .shl y rfl hy
    obtain ⟨p2, htake2, hmoved2, -⟩ := CalculatorParser.takeTwo_no (c := 62) (d := 62) hmoved1.valid hahead1 fun y hy => hno .shr y rfl hy
    obtain ⟨hvalid, hrunning, hrest⟩ := Moved.start hready (hmoved1.trans hmoved2)
    refine ⟨p2, ?_, hvalid, hrunning, hrest⟩
    simp only [shiftBody, Option.bind_eq_bind, htake1, htake2, Option.bind_some, Bool.false_eq_true, if_false]
  refuse v p op x _ hready hlevel hadmits hahead := by
    obtain rfl : allow = false := by simpa using mt (admits_iff hlevel.ge).mpr hadmits
    cases op with
    | shl =>
      obtain ⟨p1, htake1, hmoved1⟩ := CalculatorParser.takeTwo_yes (c := 60) (d := 60) hready.valid hahead
      refine ⟨p1.fail .badSyntax, ?_, fail_leads hahead rfl hmoved1, failed_fail (by decide)⟩
      simp only [shiftBody, Option.bind_eq_bind, htake1, Option.bind_some, if_true, hmoved1.valid.allow, Bool.false_eq_true,
        if_false]
    | shr =>
      obtain ⟨p1, htake1, hmoved1, hahead1⟩ := CalculatorParser.takeTwo_no (c := 60) (d := 60) hready.valid hahead fun y hy => nomatch hy
      obtain ⟨p2, htake2, hmoved2⟩ := CalculatorParser.takeTwo_yes (c := 62) (d := 62) hmoved1.valid hahead1
      refine ⟨p2.fail .badSyntax, ?_, fail_leads hahead rfl (hmoved1.trans hmoved2), failed_fail (by decide)⟩
      simp only [shiftBody, Option.bind_eq_bind, htake1, htake2, Option.bind_some, if_true, hmoved2.valid.allow, Bool.false_eq_true,
        if_false]
    | _ => cases hlevel
  go v p op x hv hready hlevel hadmits hahead := by
    obtain rfl := (admits_iff hlevel.ge).mp hadmits
    cases op with
    | shl =>
      obtain ⟨p1, htake1, hmoved1⟩ := CalculatorParser.takeTwo_yes (c := 60) (d := 60) hready.valid hahead
      obtain ⟨hvalid, hrunning, hrest⟩ := Moved.start hready hmoved1
      refine ⟨p1, hvalid, hrunning, hrest, fun right p2 hsub hright hvalid2 => ?_⟩
      simp only [shiftBody, Option.bind_eq_bind, htake1, Option.bind_some, if_true, hvalid.allow, hsub]
      by_cases hcount : right < 0 ∨ right > 31
      · have happly : CalcOperator.apply .shl v right = none := if_neg (by omega)
        exact ⟨v, p2.fail .shiftRange, false, if_pos hcount, finished_error hvalid2 happly hv (by decide)⟩
      · have happly : CalcOperator.apply .shl v right = some (BitVec.ofInt 32 v <<< right.toNat).toInt := if_pos (by omega)
        rw [if_neg hcount]
        exact ⟨_, p2, true, rfl, finished_value hvalid2 happly (inRange_toInt _)⟩
    | shr =>
      obtain ⟨p1, htake1, hmoved1, hahead1⟩ := CalculatorParser.takeTwo_no (c := 60) (d := 60) hready.valid hahead fun y hy => nomatch hy
      obtain ⟨p2, htake2, hmoved2⟩ := CalculatorParser.takeTwo_yes (c := 62) (d := 62) hmoved1.valid hahead1
      obtain ⟨hvalid, hrunning, hrest⟩ := Moved.start hready (hmoved1.trans hmoved2)
      refine ⟨p2, hvalid, hrunning, hrest, fun right p3 hsub hright hvalid3 => ?_⟩
      simp only [shiftBody, Option.bind_eq_bind, htake1, htake2, Option.bind_some, if_true, hvalid.allow, hsub, Bool.false_eq_true,
        if_false]
      by_cases hcount : right < 0 ∨ right > 31
      · have happly : CalcOperator.apply .shr v right = none := if_neg (by omega)
        exact ⟨v, p3.fail .shiftRange, false, if_pos hcount, finished_error hvalid3 happly hv (by decide)⟩
      · rw [if_neg hcount]
        have happly : CalcOperator.apply .shr v right = some ((BitVec.ofInt 32 v).sshiftRight right.toNat).toInt := by
          rw [apply_shr hv]
          exact if_pos (by omega)
        exact ⟨_, p3, true, rfl, finished_value hvalid3 happly (inRange_toInt _)⟩
    | _ => cases hlevel

theorem bitwise_starts {op : CalcOperator} {symbol : UInt8} {operate : BitVec 32 → BitVec 32 → BitVec 32} {v : Int} {p : CalculatorParser}
    {x : Bytes} (htoken : op.token = [symbol]) (hp : p.Valid input allow) (hahead : (calcLanguage allow).ahead p.rest = op.token ++ x) :
    ∃ p1, bitwiseBody symbol operate sub v p = (if p1.allowBitwise then do
        let (right, parser) ← sub p1
        some ((operate (BitVec.ofInt 32 v) (BitVec.ofInt 32 right)).toInt, parser, true)
      else some (v, p1.fail .badSyntax, false)) ∧ CalculatorParser.Moved input allow p x p1 := by
  obtain ⟨p1, hskip, hmoved⟩ := CalculatorParser.skipSpaces_eq hp
  rw [hahead, htoken] at hmoved
  obtain ⟨hlt, hat⟩ := CalculatorParser.at_rest hmoved.rest
  have hmoved' := hmoved.valid.byte hmoved.rest
  refine ⟨p1.advance 1, ?_, hmoved'.valid, hmoved'.rest, hmoved.error⟩
  rw [bitwiseBody, hskip, Option.bind_eq_bind, Option.bind_some, if_neg (by omega), hat, Option.bind_eq_bind, Option.bind_some,
    if_neg (not_not.mpr rfl)]

theorem rounds_bitwiseBody (op : CalcOperator) {n : Nat} {symbol : UInt8} {operate : BitVec 32 → BitVec 32 → BitVec 32}
    (hn : 2 ≤ n) (hop : ∀ op' : CalcOperator, op'.level = n ↔ op' = op) (htoken : op.token = [symbol])
    (happly : ∀ a b, op.apply a b = some (operate (BitVec.ofInt 32 a) (BitVec.ofInt 32 b)).toInt) :
    Rounds (calcLanguage allow) (calcScanner input allow) n k sub (bitwiseBody symbol operate sub) where
  stop v p hready hno := by
    obtain ⟨p1, hskip, hmoved⟩ := CalculatorParser.skipSpaces_eq hready.valid
    obtain ⟨hvalid, hrunning, hrest⟩ := Moved.start hready hmoved
    refine ⟨p1, ?_, hvalid, hrunning, hrest⟩
    rw [bitwiseBody, hskip, Option.bind_eq_bind, Option.bind_some]
    cases hp1 : p1.rest with
    | nil => exact if_pos (not_lt.mp (CalculatorParser.end_rest hp1))
    | cons c y =>
      obtain ⟨hlt, hat⟩ := CalculatorParser.at_rest hp1
      rw [if_neg (by omega), hat, Option.bind_eq_bind, Option.bind_some]
      refine if_pos fun hc => hno op y ((hop op).mpr rfl) ?_
      show (calcLanguage allow).ahead p.rest = op.token ++ y
      rw [← hmoved.rest, hp1, hc, htoken]
      rfl
  refuse v p op' x _ hready hlevel hadmits hahead := by
    obtain rfl := (hop op').mp hlevel
    obtain rfl : allow = false := by simpa using mt (admits_iff (hn.trans_eq hlevel.symm)).mpr hadmits
    obtain ⟨p1, htake1, hmoved1⟩ := bitwise_starts htoken hready.valid hahead
    refine ⟨p1.fail .badSyntax, ?_, fail_leads hahead rfl hmoved1, failed_fail (by decide)⟩
    rw [htake1, hmoved1.valid.allow]
    rfl
  go v p op' x hv hready hlevel hadmits hahead := by
    obtain rfl := (hop op').mp hlevel
    obtain rfl := (admits_iff (hn.trans_eq hlevel.symm)).mp hadmits
    obtain ⟨p1, htake1, hmoved1⟩ := bitwise_starts htoken hready.valid hahead
    obtain ⟨hvalid, hrunning, hrest⟩ := Moved.start hready hmoved1
    refine ⟨p1, hvalid, hrunning, hrest, fun right p2 hsub hright hvalid2 => ?_⟩
    refine ⟨_, p2, true, ?_, finished_value hvalid2 (happly v right) (inRange_toInt _)⟩
    rw [htake1, hmoved1.valid.allow, if_pos rfl, hsub]
    rfl

/-- `productivity_calculator_parse_xor` takes its operator as the others look for theirs. -/
theorem xorBody_eq : xorBody sub = bitwiseBody 94 (· ^^^ ·) sub := by
  funext v p
  rw [xorBody, bitwiseBody, CalculatorParser.take]
  cases p.skipSpaces with
  | none => rfl
  | some p1 =>
    simp only [Option.bind_eq_bind, Option.bind_some]
    by_cases hlt : p1.position < p1.size
    · rw [if_pos hlt, if_neg (by omega)]
      cases p1.input[p1.position]? with
      | none => rfl
      | some c =>
        simp only [Option.bind_some]
        by_cases hc : c = 94
        · rw [if_pos hc, if_neg (not_not.mpr hc)]
          rfl
        · rw [if_neg hc, if_pos hc]
          rfl
    · rw [if_neg hlt, if_pos (by omega)]
      rfl

theorem rounds_andBody : Rounds (calcLanguage allow) (calcScanner input allow) 3 k sub (andBody sub) :=
  rounds_bitwiseBody .and (by decide) (fun op => by cases op <;> decide) rfl fun _ _ => rfl

theorem rounds_xorBody : Rounds (calcLanguage allow) (calcScanner input allow) 4 k sub (xorBody sub) := by
  rw [xorBody_eq]
  exact rounds_bitwiseBody .xor (by decide) (fun op => by cases op <;> decide) rfl fun _ _ => rfl

theorem rounds_orBody : Rounds (calcLanguage allow) (calcScanner input allow) 5 k sub (orBody sub) :=
  rounds_bitwiseBody .or (by decide) (fun op => by cases op <;> decide) rfl fun _ _ => rfl

end

end ZenovOS.Productivity
