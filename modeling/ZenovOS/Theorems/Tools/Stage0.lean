import Mathlib.Data.List.Chain
import ZenovOS.Lib.CppLiteral
import ZenovOS.Lib.Text
import ZenovOS.Tools.Stage0

/-! # What the generated literals denote

An escape with digits takes the digits that follow. So the literal that is generated for a text denotes it exactly where no such escape is
followed by a digit of its base. -/

namespace ZenovOS.Stage0
open Bytes CppLiteral

/-! ### Single bytes -/

/-- A byte that becomes a hexadecimal escape. -/
def hexed (c : UInt8) : Bool := (c < 32 || 126 < c) && c ≠ 0 && c ≠ 9 && c ≠ 10 && c ≠ 13

/-- The escape of `a` takes a following `b` as a digit. -/
def absorbs (a b : UInt8) : Bool := (a = 0 && isOctalDigit b) || (hexed a && isHexDigit b)

theorem forall_byte {P : UInt8 → Prop} (h : ∀ n < 256, P (UInt8.ofNat n)) (c : UInt8) : P c := by
  have := h c.toNat c.toNat_lt
  rwa [UInt8.ofNat_toNat] at this

theorem cppEscapeByte_cases (c : UInt8) :
    (cppEscapeByte c = [c] ∧ c ≠ 34 ∧ c ≠ 10 ∧ c ≠ 92 ∧ c ≠ 0 ∧ hexed c = false) ∨
    (∃ e, cppEscapeByte c = [92, e] ∧ e ≠ 120 ∧ isOctalDigit e = false ∧ simpleEscape e = some c ∧ c ≠ 0 ∧ hexed c = false) ∨
    (c = 0 ∧ cppEscapeByte c = [92, 48]) ∨
    (hexed c = true ∧ c ≠ 0 ∧ cppEscapeByte c = [92, 120, hexDigit (c >>> 4 &&& 0xF), hexDigit (c &&& 0xF)]) := by
  by_cases h92 : c = 92
  · subst h92
    exact .inr (.inl ⟨92, by decide, by decide, by decide, by decide, by decide, by decide⟩)
  by_cases h34 : c = 34
  · subst h34
    exact .inr (.inl ⟨34, by decide, by decide, by decide, by decide, by decide, by decide⟩)
  by_cases h10 : c = 10
  · subst h10
    exact .inr (.inl ⟨110, by decide, by decide, by decide, by decide, by decide, by decide⟩)
  by_cases h13 : c = 13
  · subst h13
    exact .inr (.inl ⟨114, by decide, by decide, by decide, by decide, by decide, by decide⟩)
  by_cases h9 : c = 9
  · subst h9
    exact .inr (.inl ⟨116, by decide, by decide, by decide, by decide, by decide, by decide⟩)
  by_cases h0 : c = 0
  · subst h0
    exact .inr (.inr (.inl ⟨rfl, by decide⟩))
  have hlast : cppEscapeByte c =
      if c < 32 ∨ 126 < c then [92, 120, hexDigit (c >>> 4 &&& 0xF), hexDigit (c &&& 0xF)] else [c] := by
    rw [cppEscapeByte, if_neg h92, if_neg h34, if_neg h10, if_neg h13, if_neg h9, if_neg h0]
    rfl
  by_cases hrange : c < 32 ∨ 126 < c
  · rw [if_pos hrange] at hlast
    exact .inr (.inr (.inr ⟨by simp [hexed, hrange, h0, h9, h10, h13], h0, hlast⟩))
  · rw [if_neg hrange] at hlast
    exact .inl ⟨hlast, h34, h10, h92, h0, by simp [hexed, hrange]⟩

theorem number_hexDigits (c : UInt8) :
    isHexDigit (hexDigit (c >>> 4 &&& 0xF)) = true ∧ isHexDigit (hexDigit (c &&& 0xF)) = true ∧
      number 16 [hexDigit (c >>> 4 &&& 0xF), hexDigit (c &&& 0xF)] 0 = c.toNat :=
  forall_byte (P := fun c => isHexDigit (hexDigit (c >>> 4 &&& 0xF)) = true ∧ isHexDigit (hexDigit (c &&& 0xF)) = true ∧
    number 16 [hexDigit (c >>> 4 &&& 0xF), hexDigit (c &&& 0xF)] 0 = c.toNat) (by decide +kernel) c

/-! ### Runs of digits -/

/-- Digits stay as they are, and nothing else becomes a text that starts with one. -/
structure Digits (p : UInt8 → Bool) : Prop where
  kept : ∀ c, p c = true → cppEscapeByte c = [c]
  others : ∀ c, p c = false → ∃ h rest, cppEscapeByte c = h :: rest ∧ p h = false

theorem digits_of {p : UInt8 → Bool} (hkept : ∀ n < 256, p (UInt8.ofNat n) = true → cppEscapeByte (UInt8.ofNat n) = [UInt8.ofNat n])
    (hothers : ∀ n < 256, p (UInt8.ofNat n) = false → (cppEscapeByte (UInt8.ofNat n)).head?.map p = some false) : Digits p := by
  refine ⟨forall_byte hkept, fun c hc => ?_⟩
  have hhead := forall_byte (P := fun c => p c = false → (cppEscapeByte c).head?.map p = some false) hothers c hc
  cases hescape : cppEscapeByte c with
  | nil =>
    rw [hescape] at hhead
    cases hhead
  | cons first rest =>
    rw [hescape] at hhead
    exact ⟨first, rest, rfl, Option.some.inj hhead⟩

theorem digits_hex : Digits isHexDigit := digits_of (by decide +kernel) (by decide +kernel)

theorem digits_octal : Digits isOctalDigit := digits_of (by decide +kernel) (by decide +kernel)

variable {p : UInt8 → Bool}

theorem takeWhile_cppEscape (h : Digits p) (s : Bytes) : (cppEscape s).takeWhile p = s.takeWhile p := by
  induction s with
  | nil => rfl
  | cons c s ih =>
    rw [cppEscape, List.flatMap_cons]
    cases hc : p c with
    | true => rw [h.kept c hc, List.singleton_append, List.takeWhile_cons_of_pos hc, List.takeWhile_cons_of_pos hc, ← ih, cppEscape]
    | false =>
      obtain ⟨first, rest, heq, hfirst⟩ := h.others c hc
      rw [heq, List.cons_append, List.takeWhile_cons_of_neg (by simp [hfirst]), List.takeWhile_cons_of_neg (by simp [hc])]

theorem drop_cppEscape (h : Digits p) {s : Bytes} {k : Nat} (hk : k ≤ (s.takeWhile p).length) : (cppEscape s).drop k = cppEscape (s.drop k) := by
  induction s generalizing k with
  | nil =>
    obtain rfl := Nat.le_zero.mp hk
    rfl
  | cons c s ih =>
    cases k with
    | zero => rfl
    | succ k =>
      cases hc : p c with
      | true =>
        rw [List.takeWhile_cons_of_pos hc, List.length_cons] at hk
        rw [cppEscape, List.flatMap_cons, h.kept c hc, List.singleton_append, List.drop_succ_cons, List.drop_succ_cons, ← ih (by omega), cppEscape]
      | false =>
        rw [List.takeWhile_cons_of_neg (by simp [hc])] at hk
        exact absurd hk (Nat.not_succ_le_zero k)

/-! ### Literals -/

/-- How many of the characters behind `a` its escape takes. -/
def munched (a : UInt8) (s : Bytes) : Nat :=
  if a = 0 then ((s.takeWhile isOctalDigit).take 2).length else if hexed a then (s.takeWhile isHexDigit).length else 0

theorem munched_eq_zero_iff {a : UInt8} {s : Bytes} : munched a s = 0 ↔ ∀ b ∈ s.head?, absorbs a b = false := by
  have hzero : hexed 0 = false := by decide
  cases s with
  | nil =>
    simp only [munched, List.takeWhile_nil, List.take_nil, List.length_nil, ite_self, List.head?_nil, true_iff]
    exact fun b hb => nomatch hb
  | cons b s =>
    rw [List.head?_cons]
    simp only [Option.mem_some_iff, forall_eq', munched, absorbs]
    by_cases ha : a = 0
    · subst ha
      cases hb : isOctalDigit b <;> simp [hb, hzero]
    · cases hx : hexed a
      · simp [ha]
      · cases hb : isHexDigit b <;> simp [ha, hb]

theorem take_takeWhile (l : Bytes) (n : Nat) : (l.take n).takeWhile p = (l.takeWhile p).take n := by
  induction l generalizing n with
  | nil => simp
  | cons c l ih =>
    cases n with
    | zero => simp
    | succ n => cases hc : p c <;> simp [hc, ih]

theorem denote_numeric {base : Nat} {digits rest text t : Bytes} (h : escape text = numeric base digits rest) (ht : denote (92 :: text) = some t) :
    ∃ v t', t = v :: t' ∧ denote rest = some t' := by
  cases hnumeric : numeric base digits rest with
  | none =>
    rw [denote_bad (h.trans hnumeric)] at ht
    cases ht
  | some pair =>
    obtain ⟨value, rest'⟩ := pair
    obtain rfl := numeric_rest hnumeric
    rw [denote_escape (h.trans hnumeric)] at ht
    obtain ⟨t', ht', rfl⟩ := Option.map_eq_some_iff.mp ht
    exact ⟨value, t', rfl, ht'⟩

theorem escape_zero (s : Bytes) :
    escape (48 :: cppEscape s) = numeric 8 (48 :: (s.takeWhile isOctalDigit).take 2) (cppEscape (s.drop (munched 0 s))) := by
  have hrun : ((cppEscape s).take 2).takeWhile isOctalDigit = (s.takeWhile isOctalDigit).take 2 := by
    rw [take_takeWhile, takeWhile_cppEscape digits_octal]
  have hle : munched 0 s ≤ (s.takeWhile isOctalDigit).length := by
    rw [munched, if_pos rfl, List.length_take]
    exact Nat.min_le_right _ _
  rw [escape, if_neg (by decide), if_pos (by decide)]
  dsimp only
  rw [hrun, ← drop_cppEscape digits_octal hle, munched, if_pos rfl]

theorem escape_hexed {a : UInt8} (ha : hexed a = true) (hne : a ≠ 0) (s : Bytes) :
    escape (120 :: hexDigit (a >>> 4 &&& 0xF) :: hexDigit (a &&& 0xF) :: cppEscape s) =
      numeric 16 (hexDigit (a >>> 4 &&& 0xF) :: hexDigit (a &&& 0xF) :: s.takeWhile isHexDigit) (cppEscape (s.drop (munched a s))) := by
  obtain ⟨hhigh, hlow, -⟩ := number_hexDigits a
  have hmunched : munched a s = (s.takeWhile isHexDigit).length := by rw [munched, if_neg hne, if_pos ha]
  have hdrop : (cppEscape s).dropWhile isHexDigit = cppEscape (s.drop (munched a s)) := by
    rw [hmunched, ← drop_cppEscape digits_hex (le_refl _), ← takeWhile_cppEscape digits_hex, Text.drop_takeWhile]
  rw [escape, if_pos rfl, List.takeWhile_cons_of_pos hhigh, List.takeWhile_cons_of_pos hlow, List.dropWhile_cons_of_pos hhigh,
    List.dropWhile_cons_of_pos hlow, takeWhile_cppEscape digits_hex, hdrop]

theorem denote_cppEscape_cons (a : UInt8) (s : Bytes) :
    (munched a s = 0 → denote (cppEscape (a :: s)) = (denote (cppEscape s)).map (a :: ·)) ∧
    ∀ t, denote (cppEscape (a :: s)) = some t → ∃ v t', t = v :: t' ∧ denote (cppEscape (s.drop (munched a s))) = some t' := by
  have hcons : cppEscape (a :: s) = cppEscapeByte a ++ cppEscape s := List.flatMap_cons
  -- a byte that is no escape with digits takes nothing
  have hnone : a ≠ 0 → hexed a = false → munched a s = 0 := fun ha hx => by rw [munched, if_neg ha, if_neg (by simp [hx])]
  have hplain : munched a s = 0 → denote (cppEscape (a :: s)) = (denote (cppEscape s)).map (a :: ·) →
      (munched a s = 0 → denote (cppEscape (a :: s)) = (denote (cppEscape s)).map (a :: ·)) ∧
      ∀ t, denote (cppEscape (a :: s)) = some t → ∃ v t', t = v :: t' ∧ denote (cppEscape (s.drop (munched a s))) = some t' := by
    intro hzero heq
    refine ⟨fun _ => heq, fun t ht => ?_⟩
    rw [heq] at ht
    obtain ⟨t', ht', rfl⟩ := Option.map_eq_some_iff.mp ht
    exact ⟨a, t', rfl, by rw [hzero]; exact ht'⟩
  rcases cppEscapeByte_cases a with ⟨hbyte, hquote, hline, hslash, ha, hx⟩ | ⟨e, hbyte, he, hoctal, hsimple, ha, hx⟩ | ⟨rfl, hbyte⟩ | ⟨hx, ha, hbyte⟩
  · refine hplain (hnone ha hx) ?_
    rw [hcons, hbyte]
    exact denote_plain hquote hline hslash _
  · refine hplain (hnone ha hx) ?_
    have hescape : escape (e :: cppEscape s) = some (a, cppEscape s) := by
      rw [escape, if_neg he, if_neg (by simp [hoctal]), hsimple]
      rfl
    rw [hcons, hbyte]
    exact denote_escape hescape
  · have hescape := escape_zero s
    rw [hcons, hbyte]
    refine ⟨fun hzero => ?_, fun t ht => denote_numeric hescape ht⟩
    have hdigits : (s.takeWhile isOctalDigit).take 2 = [] := by
      rw [munched, if_pos rfl] at hzero
      exact List.eq_nil_of_length_eq_zero hzero
    rw [hdigits, hzero, List.drop_zero] at hescape
    exact denote_escape hescape
  · have hescape := escape_hexed hx ha s
    rw [hcons, hbyte]
    refine ⟨fun hzero => ?_, fun t ht => denote_numeric hescape ht⟩
    have hdigits : s.takeWhile isHexDigit = [] := by
      rw [munched, if_neg ha, if_pos hx] at hzero
      exact List.eq_nil_of_length_eq_zero hzero
    have hnumber := (number_hexDigits a).2.2
    rw [hdigits, hzero, List.drop_zero, numeric, hnumber, UInt8.ofNat_toNat,
      if_neg (not_or.mpr ⟨List.cons_ne_nil _ _, Nat.not_lt.mpr (Nat.le_of_lt_succ a.toNat_lt)⟩)] at hescape
    exact denote_escape hescape

/-! ### Texts -/

/-- No escape of a text takes the character behind it. -/
def Apart (s : Bytes) : Prop := s.IsChain fun a b => absorbs a b = false

theorem apart_cons {a : UInt8} {s : Bytes} : Apart (a :: s) ↔ munched a s = 0 ∧ Apart s := by
  rw [munched_eq_zero_iff, Apart, List.isChain_cons]
  rfl

theorem length_denote (s : Bytes) : ∀ t, denote (cppEscape s) = some t → t.length ≤ s.length := by
  induction hn : s.length using Nat.strongRecOn generalizing s with
  | ind n ih =>
    subst hn
    intro t ht
    cases s with
    | nil =>
      obtain rfl := Option.some.inj ht
      exact le_refl _
    | cons a s =>
      obtain ⟨v, t', rfl, ht'⟩ := (denote_cppEscape_cons a s).2 t ht
      have hle := ih _ (by rw [List.length_drop, List.length_cons]; omega) (s.drop (munched a s)) rfl t' ht'
      rw [List.length_drop] at hle
      rw [List.length_cons, List.length_cons]
      omega

theorem munched_le (a : UInt8) (s : Bytes) : munched a s ≤ s.length := by
  have hoctal := (List.takeWhile_prefix isOctalDigit (l := s)).length_le
  have hhex := (List.takeWhile_prefix isHexDigit (l := s)).length_le
  unfold munched
  split
  · rw [List.length_take]
    omega
  split <;> omega

theorem denote_cppEscape_iff (s : Bytes) : denote (cppEscape s) = some s ↔ Apart s := by
  induction s with
  | nil => exact ⟨fun _ => List.IsChain.nil, fun _ => rfl⟩
  | cons a s ih =>
    obtain ⟨hkeeps, htakes⟩ := denote_cppEscape_cons a s
    rw [apart_cons]
    by_cases hzero : munched a s = 0
    · rw [hkeeps hzero, ← ih, and_iff_right hzero]
      constructor
      · intro h
        obtain ⟨t, ht, heq⟩ := Option.map_eq_some_iff.mp h
        rw [ht, (List.cons.inj heq).2]
      · intro h
        rw [h]
        rfl
    · refine ⟨fun h => ?_, fun h => absurd h.1 hzero⟩
      obtain ⟨v, t', heq, ht'⟩ := htakes _ h
      have hle := length_denote _ _ ht'
      have hmunched := munched_le a s
      rw [← (List.cons.inj heq).2, List.length_drop] at hle
      omega

/-! ### Strings of a source -/

/-- A string that the lexer reads from a literal. -/
def Lexed (s : Bytes) : Prop :=
  ∃ start source position rest position', stringLiteral start source position [] = .ok (s, rest, position')

/-- How a source can write a byte of a string. -/
def sourceByte (c : UInt8) : Bytes :=
  if c = 10 then [92, 110] else if c = 13 then [92, 114] else if c = 34 then [92, 34] else if c = 92 then [92, 92] else [c]

theorem stringLiteral_sourceByte (start position : Position) (c : UInt8) (rest text : Bytes) :
    ∃ position', stringLiteral start (sourceByte c ++ rest) position text = stringLiteral start rest position' (text ++ [c]) := by
  unfold sourceByte
  by_cases h10 : c = 10
  · subst h10
    exact ⟨(position.take 92).take 110, rfl⟩
  by_cases h13 : c = 13
  · subst h13
    exact ⟨(position.take 92).take 114, rfl⟩
  by_cases h34 : c = 34
  · subst h34
    exact ⟨(position.take 92).take 34, rfl⟩
  by_cases h92 : c = 92
  · subst h92
    exact ⟨(position.take 92).take 92, rfl⟩
  rw [if_neg h10, if_neg h13, if_neg h34, if_neg h92]
  refine ⟨position.take c, ?_⟩
  show stringLiteral start (c :: rest) position text = _
  rw [stringLiteral.eq_def]
  dsimp only
  rw [if_neg h34, if_neg (not_or.mpr ⟨h10, h13⟩), if_neg h92]

theorem lexed (s : Bytes) : Lexed s := by
  have hread : ∀ (s text : Bytes) (position : Position), ∃ position', stringLiteral ⟨1, 1⟩ (s.flatMap sourceByte ++ [34]) position text =
      .ok (text ++ s, [], position') := by
    intro s
    induction s with
    | nil =>
      intro text position
      exact ⟨position.take 34, by rw [List.append_nil]; rfl⟩
    | cons c s ih =>
      intro text position
      rw [List.flatMap_cons, List.append_assoc]
      obtain ⟨next, hnext⟩ := stringLiteral_sourceByte ⟨1, 1⟩ position c (s.flatMap sourceByte ++ [34]) text
      obtain ⟨position', hrest⟩ := ih (text ++ [c]) next
      exact ⟨position', by rw [hnext, hrest, List.append_assoc]; rfl⟩
  obtain ⟨position', h⟩ := hread s [] ⟨1, 2⟩
  exact ⟨_, _, _, _, _, h⟩

/-- Every string can come from the lexer, and its literal denotes it exactly where no escape takes the character behind it. -/
theorem generated_literal_iff (s : Bytes) : Lexed s ∧ (denote (cppEscape s) = some s ↔ Apart s) := ⟨lexed s, denote_cppEscape_iff s⟩

/-- The source `"\01"` is NUL and a one, and the literal that is generated for it denotes the one character with the number 1. -/
theorem literal_loses_nul :
    stringLiteral ⟨1, 1⟩ (ascii "\\01\"") ⟨1, 2⟩ [] = .ok ([0, 49], [], ⟨1, 6⟩) ∧ cppEscape [0, 49] = ascii "\\01" ∧
      denote (cppEscape [0, 49]) = some [1] ∧ ¬∀ s, Lexed s → denote (cppEscape s) = some s := by
  have hone : denote (cppEscape [0, 49]) = some [1] := by decide
  refine ⟨by decide, by decide, hone, fun h => ?_⟩
  have := (h [0, 49] (lexed _)).symm.trans hone
  exact absurd this (by decide)

end ZenovOS.Stage0
