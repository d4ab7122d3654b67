import ZenovOS.Lib.Bytes

/-! # String literals of C++

What stands between the quotes of an ordinary literal, and the bytes that it denotes. An octal escape takes up to three digits and a
hexadecimal one all that follow, so that what an escape means depends on what stands behind it. -/

namespace ZenovOS.CppLiteral
open Bytes

def isOctalDigit (c : UInt8) : Bool := 48 ≤ c && c ≤ 55

def isHexDigit (c : UInt8) : Bool := (48 ≤ c && c ≤ 57) || (65 ≤ c && c ≤ 70) || (97 ≤ c && c ≤ 102)

def digitValue (c : UInt8) : Nat := if c ≤ 57 then c.toNat - 48 else if c ≤ 70 then c.toNat - 55 else c.toNat - 87

/-- The number that digits write behind a number. -/
def number (base : Nat) (digits : Bytes) (n : Nat) : Nat := digits.foldl (fun n c => n * base + digitValue c) n

/-- `\'`, `\"`, `\?`, `\\`, `\a`, `\b`, `\f`, `\n`, `\r`, `\t` and `\v` -/
def simpleEscape (c : UInt8) : Option UInt8 :=
  if c = 39 ∨ c = 34 ∨ c = 63 ∨ c = 92 then some c
  else [(97, 7), (98, 8), (102, 12), (110, 10), (114, 13), (116, 9), (118, 11)].lookup c

/-- An escape with digits has a value that is a byte. -/
def numeric (base : Nat) (digits rest : Bytes) : Option (UInt8 × Bytes) :=
  if digits = [] ∨ 255 < number base digits 0 then none else some (UInt8.ofNat (number base digits 0), rest)

/-- The escape behind a backslash, and what is left of the text. -/
def escape : Bytes → Option (UInt8 × Bytes)
  | [] => none
  | c :: rest =>
    if c = 120 then numeric 16 (rest.takeWhile isHexDigit) (rest.dropWhile isHexDigit)
    else if isOctalDigit c then
      let digits := c :: (rest.take 2).takeWhile isOctalDigit
      numeric 8 digits (rest.drop ((rest.take 2).takeWhile isOctalDigit).length)
    else (simpleEscape c).map fun value => (value, rest)

/-- The bytes of the text of a literal, with at least as many rounds as it has bytes. -/
def scan : Nat → Bytes → Option Bytes
  | _, [] => some []
  | 0, _ :: _ => none
  | fuel + 1, c :: rest =>
    if c = 34 ∨ c = 10 then none
    else if c ≠ 92 then (scan fuel rest).map (c :: ·)
    else
      match escape rest with
      | none => none
      | some (value, rest) => (scan fuel rest).map (value :: ·)

/-- What a literal with this text denotes. -/
def denote (text : Bytes) : Option Bytes := scan text.length text

theorem numeric_rest {base : Nat} {digits rest rest' : Bytes} {value : UInt8} (h : numeric base digits rest = some (value, rest')) :
    rest' = rest := by
  unfold numeric at h
  split at h
  · cases h
  · exact (Prod.mk.inj (Option.some.inj h)).2.symm

theorem length_escape {text rest : Bytes} {value : UInt8} (h : escape text = some (value, rest)) : rest.length ≤ text.length := by
  cases text with
  | nil => cases h
  | cons c text =>
    rw [List.length_cons]
    rw [escape] at h
    split at h
    · rw [numeric_rest h]
      have := (List.dropWhile_suffix isHexDigit (l := text)).length_le
      omega
    split at h
    · rw [numeric_rest h, List.length_drop]
      omega
    · obtain ⟨_, -, heq⟩ := Option.map_eq_some_iff.mp h
      rw [(Prod.mk.inj heq).2]
      omega

theorem scan_fuel {n m : Nat} {text : Bytes} (hn : text.length ≤ n) (hm : text.length ≤ m) : scan n text = scan m text := by
  induction n generalizing m text with
  | zero =>
    obtain rfl := List.eq_nil_of_length_eq_zero (Nat.le_zero.mp hn)
    cases m <;> rfl
  | succ n ih =>
    cases text with
    | nil => cases m <;> rfl
    | cons c rest =>
      obtain ⟨m, rfl⟩ := Nat.exists_eq_succ_of_ne_zero (Nat.ne_zero_of_lt hm)
      rw [List.length_cons] at hn hm
      rw [scan, scan, @ih m rest (by omega) (by omega)]
      cases hescape : escape rest with
      | none => rfl
      | some pair =>
        obtain ⟨value, rest'⟩ := pair
        have hle := length_escape hescape
        dsimp only
        rw [@ih m rest' (by omega) (by omega)]

theorem denote_plain {c : UInt8} (hquote : c ≠ 34) (hline : c ≠ 10) (hslash : c ≠ 92) (rest : Bytes) :
    denote (c :: rest) = (denote rest).map (c :: ·) := by
  rw [denote, List.length_cons, scan, if_neg (not_or.mpr ⟨hquote, hline⟩), if_pos hslash]
  rfl

theorem denote_escape {text rest : Bytes} {value : UInt8} (h : escape text = some (value, rest)) :
    denote (92 :: text) = (denote rest).map (value :: ·) := by
  rw [denote, List.length_cons, scan, if_neg (by decide), if_neg (by decide), h]
  exact congrArg (Option.map (value :: ·)) (scan_fuel (length_escape h) (le_refl _))

theorem denote_bad {text : Bytes} (h : escape text = none) : denote (92 :: text) = none := by
  rw [denote, List.length_cons, scan, if_neg (by decide), if_neg (by decide), h]

end ZenovOS.CppLiteral
