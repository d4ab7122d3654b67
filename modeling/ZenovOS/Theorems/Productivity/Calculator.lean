import ZenovOS.Theorems.Productivity.CalculatorLevels
import ZenovOS.Theorems.Productivity.Text

/-! The calculator evaluates exactly the expressions of its grammar, to their exact values, and never reads behind its input.
A result that is put back into the line is evaluated to itself, except for the least number. -/

namespace ZenovOS.Productivity
open Expressions

variable {allow : Bool}

/-! ### Literals -/

section
variable {input : Bytes} {p : CalculatorParser} {base : Nat}

/-- The number that digits write behind others. -/
def digitsFrom (base value : Nat) (digits : Bytes) : Nat := digits.foldl (fun value c => value * base + calcDigit c) value

theorem le_digitsFrom {base : Nat} (hbase : 1 ≤ base) (value : Nat) (digits : Bytes) : value ≤ digitsFrom base value digits := by
  induction digits generalizing value with
  | nil => exact Nat.le_refl _
  | cons c digits ih => exact (Nat.le_add_right_of_le (Nat.le_mul_of_pos_right _ hbase)).trans (ih _)

/-- Digits that end here. -/
def Ends (base : Nat) (tail : Bytes) : Prop := ∀ c y, tail = c :: y → base ≤ calcDigit c

theorem parseDigits_eq (hbase : 2 ≤ base ∧ base ≤ 16) {digits tail : Bytes} (hdigits : ∀ c ∈ digits, calcDigit c < base)
    (htail : Ends base tail) : ∀ {n value count : Nat} {p : CalculatorParser}, p.Valid input allow → p.rest = digits ++ tail →
      p.rest.length < n → value ≤ 2147483647 → count + digits.length < 256 →
      if digitsFrom base value digits ≤ 2147483647 then
        ∃ p', parseDigits base n value count p =
            some (((digitsFrom base value digits : Nat) : Int), if count + digits.length = 0 then p'.fail .badSyntax else p') ∧
          CalculatorParser.Moved input allow p tail p'
      else ∃ p' x, parseDigits base n value count p = some (0, p'.fail .overflow) ∧ CalculatorParser.Moved input allow p x p' ∧
        x.length ≤ p.rest.length := by
  induction digits with
  | nil =>
    intro n value count p hp hrest hn hvalue _
    obtain ⟨n, rfl⟩ : ∃ m, n = m + 1 := ⟨n - 1, by omega⟩
    rw [if_pos (by exact hvalue)]
    refine ⟨p, ?_, hp, hrest, rfl⟩
    rw [parseDigits]
    cases tail with
    | nil => exact if_neg (CalculatorParser.end_rest hrest)
    | cons c y =>
      obtain ⟨hlt, hat⟩ := CalculatorParser.at_rest hrest
      rw [if_pos hlt, hat]
      exact if_pos (htail c y rfl)
  | cons c digits ih =>
    intro n value count p hp hrest hn hvalue hcount
    obtain ⟨n, rfl⟩ : ∃ m, n = m + 1 := ⟨n - 1, by omega⟩
    rw [List.length_cons] at hcount
    have hc := hdigits c (List.mem_cons_self ..)
    obtain ⟨hlt, hat⟩ := CalculatorParser.at_rest hrest
    have hmoved := hp.byte hrest
    have hlength : p.rest.length = (p.advance 1).rest.length + 1 := by
      rw [hmoved.rest, hrest]
      rfl
    have hstep : digitsFrom base value (c :: digits) = digitsFrom base (value * base + calcDigit c) digits := rfl
    have hfits : value > (2147483647 - calcDigit c) / base ↔ 2147483647 < value * base + calcDigit c := by
      rw [gt_iff_lt, Nat.div_lt_iff_lt_mul (by omega)]
      omega
    rw [parseDigits, if_pos hlt, hat, hstep, Option.bind_eq_bind, Option.bind_some, if_neg (not_le.mpr hc)]
    by_cases hover : value > (2147483647 - calcDigit c) / base
    · have hlarge := (hfits.mp hover).trans_le (le_digitsFrom (Nat.le_of_succ_le hbase.1) (value * base + calcDigit c) digits)
      rw [if_pos hover, if_neg (not_le.mpr hlarge)]
      exact ⟨p, p.rest, rfl, ⟨hp, rfl, rfl⟩, Nat.le_refl _⟩
    · rw [if_neg hover, Nat.mod_eq_of_lt (by omega)]
      have hnext := @ih (fun d hd => hdigits d (List.mem_cons_of_mem _ hd)) n _ (count + 1) _ hmoved.valid hmoved.rest
        (by omega) (not_lt.mp (mt hfits.mpr hover)) (by omega)
      split
      · next hle =>
        rw [if_pos hle] at hnext
        obtain ⟨p', hrun, hmoved'⟩ := hnext
        refine ⟨p', ?_, hmoved.trans hmoved'⟩
        rw [List.length_cons, if_neg (by omega)]
        rwa [if_neg (by omega)] at hrun
      · next hle =>
        rw [if_neg hle] at hnext
        obtain ⟨p', x, hrun, hmoved', hless⟩ := hnext
        exact ⟨p', x, hrun, hmoved.trans hmoved', hless.trans (by omega)⟩

theorem LiteralStart.bounds {start : Bytes} (h : LiteralStart start base) : 2 ≤ base ∧ base ≤ 16 := by
  rcases h with ⟨-, rfl⟩ | ⟨-, rfl⟩ | ⟨-, rfl⟩ <;> decide

/-- The letters of `0x` and `0b`. -/
def Marks (c : UInt8) : Prop := c = 120 ∨ c = 88 ∨ c = 98 ∨ c = 66

theorem takeBase_two {c d : UInt8} {x : Bytes} (hrest : p.rest = c :: d :: x) :
    takeBase p = if c = 48 ∧ (d = 120 ∨ d = 88) then some (16, p.advance 2)
      else if c = 48 ∧ (d = 98 ∨ d = 66) then some (2, p.advance 2) else some (10, p) := by
  obtain ⟨hlt, hat, hnext⟩ := CalculatorParser.at_rest_two hrest
  rw [takeBase, if_pos hlt, hat, hnext]
  rfl

theorem takeBase_eq (hp : p.Valid input allow) :
    ∃ start base x p', takeBase p = some (base, p') ∧ LiteralStart start base ∧ p.rest = start ++ x ∧ CalculatorParser.Moved input allow p x p' := by
  have hten : LiteralStart [] 10 := Or.inl ⟨rfl, rfl⟩
  match hrest : p.rest with
  | [] =>
    have hrun : takeBase p = some (10, p) := if_neg (CalculatorParser.end_rest_two (by rw [hrest]; decide))
    exact ⟨[], 10, [], p, hrun, hten, rfl, hp, hrest, rfl⟩
  | [c] =>
    have hrun : takeBase p = some (10, p) := if_neg (CalculatorParser.end_rest_two (by rw [hrest, List.length_singleton]; decide))
    exact ⟨[], 10, [c], p, hrun, hten, rfl, hp, hrest, rfl⟩
  | c :: d :: x =>
    have hmoved := hp.advance (t := [c, d]) hrest
    rw [takeBase_two hrest]
    by_cases hhex : c = 48 ∧ (d = 120 ∨ d = 88)
    · obtain ⟨rfl, hd⟩ := hhex
      refine ⟨[48, d], 16, x, p.advance 2, if_pos ⟨rfl, hd⟩, Or.inr (Or.inl ⟨?_, rfl⟩), rfl, hmoved⟩
      rcases hd with rfl | rfl
      · exact Or.inl rfl
      · exact Or.inr rfl
    rw [if_neg hhex]
    by_cases hbin : c = 48 ∧ (d = 98 ∨ d = 66)
    · obtain ⟨rfl, hd⟩ := hbin
      refine ⟨[48, d], 2, x, p.advance 2, if_pos ⟨rfl, hd⟩, Or.inr (Or.inr ⟨?_, rfl⟩), rfl, hmoved⟩
      rcases hd with rfl | rfl
      · exact Or.inl rfl
      · exact Or.inr rfl
    · exact ⟨[], 10, c :: d :: x, p, if_neg hbin, hten, rfl, hp, hrest, rfl⟩

theorem takeBase_of {start digits tail : Bytes} (hp : p.Valid input allow) (hrest : p.rest = start ++ (digits ++ tail))
    (hstart : LiteralStart start base) (hne : digits ≠ []) (hdigits : ∀ c ∈ digits, calcDigit c < base)
    (htail : ∀ c y, tail = c :: y → ¬Marks c) :
    ∃ p', takeBase p = some (base, p') ∧ CalculatorParser.Moved input allow p (digits ++ tail) p' := by
  rcases hstart with ⟨rfl, rfl⟩ | ⟨hx, rfl⟩ | ⟨hb, rfl⟩
  · refine ⟨p, ?_, hp, hrest, rfl⟩
    match hshape : p.rest with
    | [] => exact if_neg (CalculatorParser.end_rest_two (by rw [hshape]; decide))
    | [c] => exact if_neg (CalculatorParser.end_rest_two (by rw [hshape, List.length_singleton]; decide))
    | c :: d :: x =>
      -- the second byte is a digit, or it stands behind the literal
      have hmark : ¬Marks d := by
        rw [hrest, List.nil_append] at hshape
        match digits, hne, hdigits with
        | [_], _, _ =>
          obtain ⟨-, htail'⟩ := List.cons.inj hshape
          exact htail d x htail'
        | _ :: e :: digits, _, hdigits =>
          obtain ⟨-, hshape⟩ := List.cons.inj hshape
          obtain ⟨rfl, -⟩ := List.cons.inj hshape
          have he := hdigits e (List.mem_cons_of_mem _ (List.mem_cons_self ..))
          rintro (rfl | rfl | rfl | rfl) <;> revert he <;> decide
      rw [takeBase_two hshape, if_neg fun h => hmark (h.2.elim Or.inl fun h => Or.inr (Or.inl h)),
        if_neg fun h => hmark (Or.inr (Or.inr h.2))]
  · have hbytes : ∃ d, start = [48, d] ∧ (d = 120 ∨ d = 88) := by
      rcases hx with rfl | rfl
      · exact ⟨120, rfl, Or.inl rfl⟩
      · exact ⟨88, rfl, Or.inr rfl⟩
    obtain ⟨d, rfl, hd⟩ := hbytes
    refine ⟨p.advance 2, ?_, hp.advance (t := [48, d]) hrest⟩
    rw [takeBase_two hrest, if_pos ⟨rfl, hd⟩]
  · have hbytes : ∃ d, start = [48, d] ∧ (d = 98 ∨ d = 66) := by
      rcases hb with rfl | rfl
      · exact ⟨98, rfl, Or.inl rfl⟩
      · exact ⟨66, rfl, Or.inr rfl⟩
    obtain ⟨d, rfl, hd⟩ := hbytes
    refine ⟨p.advance 2, ?_, hp.advance (t := [48, d]) hrest⟩
    rw [takeBase_two hrest, if_neg, if_pos ⟨rfl, hd⟩]
    rintro ⟨-, rfl | rfl⟩ <;> revert hd <;> decide

theorem length_rest_lt_rounds (p : CalculatorParser) : p.rest.length < p.rounds := by
  rw [CalculatorParser.length_rest, CalculatorParser.rounds]
  omega

def parseLiteral : CalculatorLevel := fun p => (takeBase p).bind fun (base, p) => parseDigits base p.rounds 0 0 p

theorem inRange_natCast {n : Nat} (h : n ≤ 2147483647) : InRange n := by
  unfold InRange calcIntMin calcIntMax
  omega

theorem parseLiteral_of (tail : Bytes) {text : Bytes} {v : Int} (hp : p.Valid input allow) (hrest : p.rest = text ++ tail) (htext : CalcLiteral text v)
    (htail : ∀ c y, tail = c :: y → 16 ≤ calcDigit c ∧ ¬Marks c) :
    ∃ p', parseLiteral p = some (v, p') ∧ CalculatorParser.Moved input allow p tail p' := by
  obtain ⟨hstart, hne, hdigits, hfits⟩ := htext
  rename_i start digits base
  rw [List.append_assoc] at hrest
  obtain ⟨p1, hbase, hmoved⟩ := takeBase_of hp hrest hstart hne hdigits fun c y h => (htail c y h).2
  have hcount : 0 + digits.length < 256 := by
    have hlength := p1.length_rest
    have hsize := hmoved.valid.size
    rw [hmoved.rest, List.length_append] at hlength
    omega
  have hends : Ends base tail := fun c y h => hstart.bounds.2.trans (htail c y h).1
  have hrun := parseDigits_eq hstart.bounds hdigits hends hmoved.valid hmoved.rest (length_rest_lt_rounds p1)
    (Nat.zero_le 2147483647) hcount
  rw [if_pos (by exact hfits)] at hrun
  obtain ⟨p', hrun, hmoved'⟩ := hrun
  have hpos := List.length_pos_iff.mpr hne
  rw [if_neg (by omega)] at hrun
  refine ⟨p', ?_, hmoved.trans hmoved'⟩
  rw [parseLiteral, hbase]
  exact hrun

theorem parseLiteral_ends (hp : p.Valid input allow) :
    ∃ v p', parseLiteral p = some (v, p') ∧ InRange v ∧ (calcScanner input allow).Leads p p' ∧
      (p'.error = .none → ∃ text, CalcLiteral text v ∧ p.rest = text ++ p'.rest) := by
  obtain ⟨start, base, x, p1, hbase, hstart, hrest, hmoved⟩ := takeBase_eq hp
  have hsplit : x = x.takeWhile (calcDigit · < base) ++ x.dropWhile (calcDigit · < base) := (List.takeWhile_append_dropWhile ..).symm
  have hdigits : ∀ c ∈ x.takeWhile (calcDigit · < base), calcDigit c < base := fun c hc => by simpa using List.mem_takeWhile_imp hc
  have hends : Ends base (x.dropWhile (calcDigit · < base)) := by
    intro c y hcons
    have hne : x.dropWhile (calcDigit · < base) ≠ [] := by
      rw [hcons]
      exact List.cons_ne_nil c y
    have hhead := List.head_dropWhile_not (calcDigit · < base) hne
    simpa [hcons] using hhead
  generalize x.takeWhile (calcDigit · < base) = digits at hsplit hdigits
  generalize x.dropWhile (calcDigit · < base) = tail at hsplit hends
  subst hsplit
  have hlength := p1.length_rest
  have hsize := hmoved.valid.size
  rw [hmoved.rest, List.length_append] at hlength
  have hless : p1.rest.length ≤ p.rest.length := by
    rw [hmoved.rest, hrest, @List.length_append _ start]
    omega
  have hrun := parseDigits_eq hstart.bounds hdigits hends hmoved.valid hmoved.rest (length_rest_lt_rounds p1)
    (Nat.zero_le 2147483647) (by omega : 0 + digits.length < 256)
  split at hrun
  · next hfits =>
    obtain ⟨p', hrun, hmoved'⟩ := hrun
    have hshorter : p'.rest.length ≤ p1.rest.length := by
      rw [hmoved'.rest, hmoved.rest, List.length_append]
      omega
    by_cases hnone : 0 + digits.length = 0
    · rw [if_pos hnone] at hrun
      exact ⟨_, p'.fail .badSyntax, by rw [parseLiteral, hbase]; exact hrun, inRange_natCast hfits,
        ⟨hmoved'.valid.fail _, hshorter.trans hless⟩, nofun⟩
    · rw [if_neg hnone] at hrun
      refine ⟨_, _, by rw [parseLiteral, hbase]; exact hrun, inRange_natCast hfits, ⟨hmoved'.valid, hshorter.trans hless⟩, fun _ => ?_⟩
      have hne : digits ≠ [] := fun h => hnone (by rw [h]; rfl)
      exact ⟨_, .mk hstart hne hdigits hfits, by rw [hrest, hmoved'.rest, List.append_assoc]⟩
  · obtain ⟨p', y, hrun, hmoved', hshorter⟩ := hrun
    refine ⟨0, p'.fail .overflow, by rw [parseLiteral, hbase]; exact hrun, by decide, ⟨hmoved'.valid.fail _, ?_⟩, nofun⟩
    rw [← hmoved'.rest] at hshorter
    exact hshorter.trans hless

theorem stops_tail {tail : Bytes} (h : (calcLanguage allow).Stops 0 ((calcLanguage allow).ahead tail)) :
    ∀ c y, tail = c :: y → 16 ≤ calcDigit c ∧ ¬Marks c := by
  rintro c y rfl
  by_cases hblank : c = 32
  · subst hblank
    exact ⟨by decide, by unfold Marks; decide⟩
  · rw [Language.ahead_cons (L := calcLanguage allow) hblank] at h
    rcases h with h | ⟨x, h⟩ | ⟨op, x, -, h⟩
    · cases h
    · obtain rfl : c = 41 := (List.cons.inj h).1
      exact ⟨by decide, by unfold Marks; decide⟩
    · cases op <;> cases h <;> exact ⟨by decide, by unfold Marks; decide⟩

end

/-! ### Operands -/

section
variable {input : Bytes} {k : Nat} {p : CalculatorParser} {or : CalculatorLevel}

variable (or) in
theorem parsePrimary_group (hp : p.Valid input allow) {x : Bytes} (hahead : (calcLanguage allow).ahead p.rest = 40 :: x) :
    ∃ p1, CalculatorParser.Moved input allow p x p1 ∧ parsePrimary or p = (or p1).bind fun (value, p) => (p.take 41).bind fun (closed, p) =>
      some (value, if ¬closed ∧ p.error = .none then p.fail .badSyntax else p) := by
  obtain ⟨p1, hskip, hmoved⟩ := CalculatorParser.skipSpaces_eq hp
  obtain ⟨p2, htake, hmoved'⟩ := CalculatorParser.take_yes (c := 40) hmoved.valid
    (show (calcLanguage allow).ahead p1.rest = 40 :: x by rw [hmoved.rest, Language.ahead_ahead, hahead])
  refine ⟨p2, hmoved.trans hmoved', ?_⟩
  simp only [parsePrimary, Option.bind_eq_bind, hskip, htake, Option.bind_some, if_true]

variable (or) in
theorem parsePrimary_literal (hp : p.Valid input allow) (hahead : ∀ x, (calcLanguage allow).ahead p.rest ≠ 40 :: x) :
    ∃ p1, CalculatorParser.Moved input allow p ((calcLanguage allow).ahead p.rest) p1 ∧ parsePrimary or p = parseLiteral p1 := by
  obtain ⟨p1, hskip, hmoved⟩ := CalculatorParser.skipSpaces_eq hp
  obtain ⟨p2, htake, hmoved', -⟩ := CalculatorParser.take_no (c := 40) hmoved.valid
    (show (calcLanguage allow).ahead p1.rest = (calcLanguage allow).ahead p.rest by rw [hmoved.rest, Language.ahead_ahead]) hahead
  refine ⟨p2, hmoved.trans hmoved', ?_⟩
  simp only [parsePrimary, Option.bind_eq_bind, hskip, htake, Option.bind_some, Bool.false_eq_true, if_false]
  rfl

theorem rest_ahead {c : UInt8} {x : Bytes} (hahead : (calcLanguage allow).ahead p.rest = c :: x) :
    ∃ s, (calcLanguage allow).Blanks s ∧ p.rest = s ++ c :: x ∧ x.length < p.rest.length := by
  obtain ⟨s, hs, hrest⟩ := Language.exists_blanks (L := calcLanguage allow) p.rest
  rw [hahead] at hrest
  refine ⟨s, hs, hrest, ?_⟩
  rw [hrest, List.length_append, List.length_cons]
  omega

theorem length_ahead_le (text : Bytes) : ((calcLanguage allow).ahead text).length ≤ text.length := (List.dropWhile_suffix _).length_le

theorem Moved.ready {p1 : CalculatorParser} {x : Bytes} {j : Nat} (hready : (calcScanner input allow).Ready k p)
    (h : CalculatorParser.Moved input allow p x p1) (hx : x.length ≤ j) : (calcScanner input allow).Ready j p1 :=
  ⟨h.valid, (Moved.start hready h).2.1, by rw [(Moved.start hready h).2.2]; exact hx⟩

section
variable (hor : ∀ j < k, Parses (calcLanguage allow) (calcScanner input allow) 6 j or)
include hor

theorem parsePrimary_ends (hready : (calcScanner input allow).Ready k p) :
    ∃ v p', parsePrimary or p = some (v, p') ∧ InRange v ∧ (calcScanner input allow).Leads p p' ∧
      ((calcScanner input allow).failed p' = false → Derived (calcLanguage allow) (calcScanner input allow) 0 p v p') := by
  by_cases hgroup : ∃ x, (calcLanguage allow).ahead p.rest = 40 :: x
  · obtain ⟨x, hahead⟩ := hgroup
    obtain ⟨p1, hmoved1, hrun⟩ := parsePrimary_group or hready.valid hahead
    obtain ⟨s, hs, hrest, hless⟩ := rest_ahead hahead
    have hshort : p.rest.length ≤ k := hready.short
    obtain ⟨v, p2, hor2, hv, hleads2, hread2⟩ := (hor (k - 1) (by omega)).sound p1 (Moved.ready hready hmoved1 (by omega))
    have hleads1 : (calcScanner input allow).Leads p p1 := ⟨hmoved1.valid, by show p1.rest.length ≤ _; rw [hmoved1.rest]; exact hless.le⟩
    rw [hrun, hor2, Option.bind_some]
    by_cases hclose : ∃ y, (calcLanguage allow).ahead p2.rest = 41 :: y
    · obtain ⟨y, hahead2⟩ := hclose
      obtain ⟨p3, htake, hmoved3⟩ := CalculatorParser.take_yes (c := 41) hleads2.valid hahead2
      obtain ⟨t, ht, hrest2, hless2⟩ := rest_ahead hahead2
      have hleads3 : (calcScanner input allow).Leads p2 p3 := ⟨hmoved3.valid, by show p3.rest.length ≤ _; rw [hmoved3.rest]; exact hless2.le⟩
      refine ⟨v, p3, by simp [htake], hv, hleads1.trans (hleads2.trans hleads3), fun hrunning => ?_⟩
      have hrunning2 : (calcScanner input allow).failed p2 = false :=
        failed_eq_false.mpr (hmoved3.error.symm.trans (failed_eq_false.mp hrunning))
      obtain ⟨text, u, e, hu, hread, he, heval⟩ := hread2 hrunning2
      refine ⟨s ++ 40 :: (text ++ ((u ++ t) ++ [41])), [], e, Language.blanks_nil, ?_, .group hs he (Language.blanks_append hu ht), heval⟩
      have hread' : x = text ++ (u ++ p2.rest) := hmoved1.rest.symm.trans hread
      show p.rest = _ ++ ([] ++ p3.rest)
      rw [hrest, hread', hrest2, hmoved3.rest]
      simp
    · obtain ⟨p3, htake, hmoved3, -⟩ := CalculatorParser.take_no (c := 41) hleads2.valid rfl fun y hy => hclose ⟨y, hy⟩
      have hlength3 : p3.rest.length ≤ p2.rest.length := by
        rw [hmoved3.rest]
        exact length_ahead_le _
      have hleads3 (p4 : CalculatorParser) (hvalid : p4.Valid input allow) (hp4 : p4.rest = p3.rest) :
          (calcScanner input allow).Leads p p4 :=
        hleads1.trans (hleads2.trans ⟨hvalid, by show p4.rest.length ≤ _; rw [hp4]; exact hlength3⟩)
      by_cases herror : p3.error = .none
      · exact ⟨v, p3.fail .badSyntax, by simp [htake, herror], hv, hleads3 _ (hmoved3.valid.fail _) rfl,
          fun h => absurd ((failed_fail (by decide)).symm.trans h) (by decide)⟩
      · exact ⟨v, p3, by simp [htake, herror], hv, hleads3 _ hmoved3.valid rfl, fun h => absurd (failed_eq_false.mp h) herror⟩
  · obtain ⟨p1, hmoved1, hrun⟩ := parsePrimary_literal or hready.valid fun x hx => hgroup ⟨x, hx⟩
    obtain ⟨v, p2, hliteral, hv, hleads2, hread2⟩ := parseLiteral_ends hmoved1.valid
    obtain ⟨s, hs, hrest⟩ := Language.exists_blanks (L := calcLanguage allow) p.rest
    have hlength1 : p1.rest.length ≤ p.rest.length := by
      rw [hmoved1.rest]
      exact length_ahead_le _
    refine ⟨v, p2, hrun.trans hliteral, hv, ⟨hleads2.valid, hleads2.length.trans hlength1⟩, fun hrunning => ?_⟩
    obtain ⟨text, htext, hread⟩ := hread2 (failed_eq_false.mp hrunning)
    refine ⟨s ++ text, [], .literal v, Language.blanks_nil, ?_, .literal hs htext, rfl⟩
    show p.rest = s ++ text ++ ([] ++ p2.rest)
    rw [hrest, ← hmoved1.rest, hread]
    simp

theorem parsePrimary_complete {text t tail : Bytes} {e : Expr (calcLanguage allow)} (hready : (calcScanner input allow).Ready k p)
    (he : (calcLanguage allow).Derives 6 text e) (ht : (calcLanguage allow).Blanks t)
    (hahead : (calcLanguage allow).ahead p.rest = 40 :: (text ++ (t ++ 41 :: tail))) :
    ∃ v p', parsePrimary or p = some (v, p') ∧ Outcome (calcLanguage allow) (calcScanner input allow) e tail v p' := by
  obtain ⟨p1, hmoved1, hrun⟩ := parsePrimary_group or hready.valid hahead
  obtain ⟨s, hs, hrest, hless⟩ := rest_ahead hahead
  have hshort : p.rest.length ≤ k := hready.short
  have hready1 := Moved.ready (j := k - 1) hready hmoved1 (by omega)
  have hbehind : (calcLanguage allow).ahead (t ++ 41 :: tail) = 41 :: tail := by
    rw [Language.ahead_blanks ht, Language.ahead_cons (L := calcLanguage allow) (by decide : (41 : UInt8) ≠ 32)]
  obtain ⟨v, p2, hor2, houtcome⟩ := (hor (k - 1) (by omega)).complete p1 text (t ++ 41 :: tail) e hready1 he
    (congrArg _ hmoved1.rest) (Or.inr (Or.inl ⟨tail, hbehind⟩))
  obtain ⟨v', p2', hor2', -, hleads2, -⟩ := (hor (k - 1) (by omega)).sound p1 hready1
  obtain ⟨rfl, rfl⟩ := Prod.mk.inj (Option.some.inj (hor2'.symm.trans hor2))
  rw [hrun, hor2, Option.bind_some]
  unfold Outcome at houtcome ⊢
  cases heval : e.eval with
  | some w =>
    rw [heval] at houtcome
    obtain ⟨rfl, hrunning, hahead2⟩ := houtcome
    obtain ⟨p3, htake, hmoved3⟩ := CalculatorParser.take_yes (c := 41) hleads2.valid (hahead2.trans hbehind)
    refine ⟨_, p3, by simp [htake], rfl, ?_, congrArg _ hmoved3.rest⟩
    exact failed_eq_false.mpr (hmoved3.error.trans (failed_eq_false.mp hrunning))
  | none =>
    rw [heval] at houtcome
    have herror : p2'.error ≠ .none := fun h => absurd ((failed_eq_false.mpr h).symm.trans houtcome) (by decide)
    obtain ⟨closed, p3, htake, herror3⟩ : ∃ closed p3, p2'.take 41 = some (closed, p3) ∧ p3.error = p2'.error := by
      by_cases hclose : ∃ y, (calcLanguage allow).ahead p2'.rest = 41 :: y
      · obtain ⟨y, hy⟩ := hclose
        obtain ⟨p3, htake, hmoved3⟩ := CalculatorParser.take_yes (c := 41) hleads2.valid hy
        exact ⟨_, p3, htake, hmoved3.error⟩
      · obtain ⟨p3, htake, hmoved3, -⟩ := CalculatorParser.take_no (c := 41) hleads2.valid rfl fun y hy => hclose ⟨y, hy⟩
        exact ⟨_, p3, htake, hmoved3.error⟩
    refine ⟨v', p3, by simp [htake, herror3, herror], ?_⟩
    exact Bool.of_not_eq_false fun h => herror (herror3.symm.trans (failed_eq_false.mp h))

end

/-! ### Signs -/

theorem sign_ne_blank (u : CalcSign) : (calcLanguage allow).sign u ≠ (calcLanguage allow).blank := by
  cases u with
  | plus => exact (by decide : (43 : UInt8) ≠ 32)
  | minus => exact (by decide : (45 : UInt8) ≠ 32)
  | tilde => exact (by decide : (126 : UInt8) ≠ 32)

theorem complement_eq {v : Int} (h : InRange v) : complement v = -v - 1 ∧ InRange (-v - 1) := by
  unfold InRange calcIntMin calcIntMax at *
  refine ⟨?_, by omega⟩
  rw [complement, BitVec.toInt_not, BitVec.toNat_ofInt, Int.bmod_def]
  omega

theorem parseUnary_sign (rounds : Nat) (primary : CalculatorLevel) (hp : p.Valid input allow) {u : CalcSign} {x : Bytes}
    (hahead : (calcLanguage allow).ahead p.rest = (calcLanguage allow).sign u :: x) :
    ∃ p1, CalculatorParser.Moved input allow p x p1 ∧ parseUnary primary (rounds + 1) p = match u with
      | .plus => parseUnary primary rounds p1
      | .minus => (parseUnary primary rounds p1).bind fun (value, p) =>
          if value = calcIntMin then some (0, p.fail .overflow) else (int32 (-value)).bind fun value => some (value, p)
      | .tilde => if p1.allowBitwise then (parseUnary primary rounds p1).bind fun (value, p) => some (complement value, p)
          else some (0, p1.fail .badSyntax) := by
  cases u with
  | plus =>
    obtain ⟨p1, htake1, hmoved1⟩ := CalculatorParser.take_yes (c := 43) hp hahead
    refine ⟨p1, hmoved1, ?_⟩
    simp only [parseUnary, Option.bind_eq_bind, htake1, Option.bind_some, if_true]
  | minus =>
    obtain ⟨p1, htake1, hmoved1, hahead1⟩ := CalculatorParser.take_no (c := 43) hp hahead fun y hy => nomatch hy
    obtain ⟨p2, htake2, hmoved2⟩ := CalculatorParser.take_yes (c := 45) hmoved1.valid hahead1
    refine ⟨p2, hmoved1.trans hmoved2, ?_⟩
    simp only [parseUnary, Option.bind_eq_bind, htake1, htake2, Option.bind_some, Bool.false_eq_true, if_false, if_true]
  | tilde =>
    obtain ⟨p1, htake1, hmoved1, hahead1⟩ := CalculatorParser.take_no (c := 43) hp hahead fun y hy => nomatch hy
    obtain ⟨p2, htake2, hmoved2, hahead2⟩ := CalculatorParser.take_no (c := 45) hmoved1.valid hahead1 fun y hy => nomatch hy
    obtain ⟨p3, htake3, hmoved3⟩ := CalculatorParser.take_yes (c := 126) hmoved2.valid hahead2
    refine ⟨p3, hmoved1.trans (hmoved2.trans hmoved3), ?_⟩
    simp only [parseUnary, Option.bind_eq_bind, htake1, htake2, htake3, Option.bind_some, Bool.false_eq_true, if_false, if_true]

theorem parseUnary_primary (rounds : Nat) (primary : CalculatorLevel) (hp : p.Valid input allow)
    (hahead : ∀ u x, (calcLanguage allow).ahead p.rest ≠ (calcLanguage allow).sign u :: x) :
    ∃ p1, CalculatorParser.Moved input allow p ((calcLanguage allow).ahead p.rest) p1 ∧ parseUnary primary (rounds + 1) p = primary p1 := by
  obtain ⟨p1, htake1, hmoved1, hahead1⟩ := CalculatorParser.take_no (c := 43) hp rfl fun y hy => hahead .plus y hy
  obtain ⟨p2, htake2, hmoved2, hahead2⟩ := CalculatorParser.take_no (c := 45) hmoved1.valid hahead1 fun y hy => hahead .minus y hy
  obtain ⟨p3, htake3, hmoved3, -⟩ := CalculatorParser.take_no (c := 126) hmoved2.valid hahead2 fun y hy => hahead .tilde y hy
  refine ⟨p3, hmoved1.trans (hmoved2.trans hmoved3), ?_⟩
  simp only [parseUnary, Option.bind_eq_bind, htake1, htake2, htake3, Option.bind_some, Bool.false_eq_true, if_false]

theorem CalcLiteral.head {text : Bytes} {v : Int} (h : CalcLiteral text v) : ∃ c y, text = c :: y ∧ calcDigit c < 16 := by
  obtain ⟨hstart, hne, hdigits, -⟩ := h
  rename_i start digits base
  rcases hstart with ⟨rfl, rfl⟩ | ⟨rfl | rfl, rfl⟩ | ⟨rfl | rfl, rfl⟩
  · obtain ⟨c, y, rfl⟩ := List.exists_cons_of_ne_nil hne
    exact ⟨c, y, rfl, (hdigits c (List.mem_cons_self ..)).trans (by decide)⟩
  all_goals exact ⟨48, _, rfl, by decide⟩

theorem negate_eq {v : Int} (h : InRange v) : int32 (-v) = if v = calcIntMin then none else some (-v) := by
  unfold InRange calcIntMin calcIntMax at h
  split
  · next hmin =>
    rw [hmin]
    decide
  · next hmin =>
    unfold calcIntMin at hmin
    exact int32_of_inRange ⟨by unfold calcIntMin; omega, by unfold calcIntMax; omega⟩

theorem inRange_neg {v : Int} (h : InRange v) (hmin : v ≠ calcIntMin) : InRange (-v) := by
  unfold InRange calcIntMin calcIntMax at *
  omega

theorem parseUnary_parses {rounds : Nat} : ∀ {k : Nat}, k < rounds →
    (∀ j < k, Parses (calcLanguage allow) (calcScanner input allow) 6 j or) →
    Parses (calcLanguage allow) (calcScanner input allow) 0 k (parseUnary (parsePrimary or) rounds) := by
  induction rounds with
  | zero => exact fun h => absurd h (Nat.not_lt_zero _)
  | succ rounds ih =>
    intro k hk hor
    constructor
    · intro p hready
      have hshort : p.rest.length ≤ k := hready.short
      by_cases hsign : ∃ u x, (calcLanguage allow).ahead p.rest = (calcLanguage allow).sign u :: x
      · obtain ⟨u, x, hahead⟩ := hsign
        obtain ⟨p1, hmoved1, hrun⟩ := parseUnary_sign rounds (parsePrimary or) hready.valid hahead
        obtain ⟨s, hs, hrest, hless⟩ := rest_ahead hahead
        have hinner := ih (k := k - 1) (by omega) fun j hj => hor j (by omega)
        obtain ⟨v, p2, hrun2, hv, hleads2, hread2⟩ := hinner.sound p1 (Moved.ready hready hmoved1 (by omega))
        have hleads1 : (calcScanner input allow).Leads p p1 :=
          ⟨hmoved1.valid, by show p1.rest.length ≤ _; rw [hmoved1.rest]; exact hless.le⟩
        have hread {w : Int} (hadmits : (calcLanguage allow).admitsSign u) (happly : (calcLanguage allow).applySign u v = some w)
            (hrunning : (calcScanner input allow).failed p2 = false) : Derived (calcLanguage allow) (calcScanner input allow) 0 p w p2 := by
          obtain ⟨text, t, e, ht, hread, he, heval⟩ := hread2 hrunning
          refine ⟨s ++ (calcLanguage allow).sign u :: text, t, .sign u e, ht, ?_, .sign u hs hadmits he, ?_⟩
          · have hx : x = text ++ (t ++ p2.rest) := hmoved1.rest.symm.trans hread
            show p.rest = _ ++ (t ++ p2.rest)
            rw [hrest, hx]
            simp
          · rw [Expr.eval, heval, Option.bind_some, happly]
        rw [hrun]
        cases u with
        | plus => exact ⟨v, p2, hrun2, hv, hleads1.trans hleads2, hread trivial rfl⟩
        | minus =>
          simp only [hrun2, Option.bind_some]
          by_cases hmin : v = calcIntMin
          · rw [if_pos hmin]
            exact ⟨0, _, rfl, (by decide : InRange 0), hleads1.trans ⟨hleads2.valid.fail _, hleads2.length⟩,
              fun h => absurd ((failed_fail (by decide)).symm.trans h) (by decide)⟩
          · have happly : int32 (-v) = some (-v) := (negate_eq hv).trans (if_neg hmin)
            rw [if_neg hmin, happly]
            exact ⟨_, p2, rfl, inRange_neg hv hmin, hleads1.trans hleads2, hread trivial happly⟩
        | tilde =>
          simp only [hmoved1.valid.allow, hrun2, Option.bind_some]
          cases allow with
          | true =>
            obtain ⟨hvalue, hrange⟩ := complement_eq hv
            rw [hvalue]
            exact ⟨_, p2, rfl, hrange, hleads1.trans hleads2, hread rfl rfl⟩
          | false =>
            exact ⟨0, _, rfl, (by decide : InRange 0), ⟨hmoved1.valid.fail _, hleads1.length⟩,
              fun h => absurd ((failed_fail (by decide)).symm.trans h) (by decide)⟩
      · obtain ⟨p1, hmoved1, hrun⟩ := parseUnary_primary rounds (parsePrimary or) hready.valid
          fun u x hx => hsign ⟨u, x, hx⟩
        obtain ⟨s, hs, hrest⟩ := Language.exists_blanks (L := calcLanguage allow) p.rest
        have hlength1 : p1.rest.length ≤ p.rest.length := by
          rw [hmoved1.rest]
          exact length_ahead_le _
        obtain ⟨v, p2, hrun2, hv, hleads2, hread2⟩ := parsePrimary_ends hor (Moved.ready hready hmoved1 ((length_ahead_le _).trans hshort))
        refine ⟨v, p2, hrun.trans hrun2, hv, ⟨hleads2.valid, hleads2.length.trans hlength1⟩, fun hrunning => ?_⟩
        obtain ⟨text, t, e, ht, hread, he, heval⟩ := hread2 hrunning
        refine ⟨s ++ text, t, e, ht, ?_, he.blanks hs, heval⟩
        have hread' : p1.rest = text ++ (t ++ p2.rest) := hread
        show p.rest = s ++ text ++ (t ++ p2.rest)
        rw [hrest, ← hmoved1.rest, hread', List.append_assoc]
    · intro p text tail e hready he hahead hstops
      have hshort : p.rest.length ≤ k := hready.short
      have hahead : (calcLanguage allow).ahead p.rest = (calcLanguage allow).ahead (text ++ tail) := hahead
      cases he with
      | @literal s text v hs htext =>
        obtain ⟨c, y, rfl, hc⟩ := htext.head
        have hne : c ≠ 32 ∧ c ≠ 40 ∧ c ≠ 43 ∧ c ≠ 45 ∧ c ≠ 126 := by
          refine ⟨?_, ?_, ?_, ?_, ?_⟩ <;> rintro rfl <;> revert hc <;> decide
        have hfront : (calcLanguage allow).ahead p.rest = c :: (y ++ tail) := by
          rw [hahead, List.append_assoc, Language.ahead_blanks hs]
          exact Language.ahead_cons (L := calcLanguage allow) hne.1 _
        obtain ⟨p1, hmoved1, hrun1⟩ := parseUnary_primary rounds (parsePrimary or) hready.valid (p := p) fun u x hx => by
          obtain ⟨hu, -⟩ := List.cons.inj (hfront.symm.trans hx)
          cases u
          · exact hne.2.2.1 hu
          · exact hne.2.2.2.1 hu
          · exact hne.2.2.2.2 hu
        have hfront1 : (calcLanguage allow).ahead p1.rest = c :: (y ++ tail) := by
          rw [hmoved1.rest, Language.ahead_ahead, hfront]
        obtain ⟨p2, hmoved2, hrun2⟩ := parsePrimary_literal or hmoved1.valid fun x hx =>
          hne.2.1 (List.cons.inj (hfront1.symm.trans hx)).1
        obtain ⟨p3, hrun3, hmoved3⟩ := parseLiteral_of tail hmoved2.valid (hmoved2.rest.trans hfront1) htext (stops_tail hstops)
        have herror := hmoved3.error.trans (hmoved2.error.trans hmoved1.error)
        exact ⟨v, p3, hrun1.trans (hrun2.trans hrun3), rfl, failed_eq_false.mpr (herror.trans (failed_eq_false.mp hready.running)),
          congrArg _ hmoved3.rest⟩
      | @group s text t _ hs htext ht =>
        have hfront : (calcLanguage allow).ahead p.rest = 40 :: (text ++ (t ++ 41 :: tail)) := by
          rw [hahead, List.append_assoc, Language.ahead_blanks hs]
          refine (Language.ahead_cons (L := calcLanguage allow) (by decide : (40 : UInt8) ≠ 32) _).trans ?_
          simp [calcLanguage]
        obtain ⟨p1, hmoved1, hrun1⟩ := parseUnary_primary rounds (parsePrimary or) hready.valid (p := p) fun u x hx => by
          cases u <;> cases hfront.symm.trans hx
        obtain ⟨v, p2, hrun2, houtcome⟩ := parsePrimary_complete hor (Moved.ready hready hmoved1 ((length_ahead_le _).trans hshort)) htext ht
          (by rw [hmoved1.rest, Language.ahead_ahead, hfront])
        exact ⟨v, p2, hrun1.trans hrun2, houtcome⟩
      | @sign s text e u hs hadmits htext =>
        have hfront : (calcLanguage allow).ahead p.rest = (calcLanguage allow).sign u :: (text ++ tail) := by
          rw [hahead, List.append_assoc, Language.ahead_blanks hs]
          exact Language.ahead_cons (L := calcLanguage allow) (sign_ne_blank u) _
        obtain ⟨p1, hmoved1, hrun1⟩ := parseUnary_sign rounds (parsePrimary or) hready.valid hfront
        obtain ⟨-, -, -, hless⟩ := rest_ahead hfront
        have hready1 := Moved.ready (j := k - 1) hready hmoved1 (by omega)
        have hinner := ih (k := k - 1) (by omega) fun j hj => hor j (by omega)
        obtain ⟨v, p2, hrun2, houtcome⟩ := hinner.complete p1 text tail e hready1 htext (congrArg _ hmoved1.rest) hstops
        obtain ⟨v', p2', hrun2', hv, -, -⟩ := hinner.sound p1 hready1
        obtain ⟨rfl, rfl⟩ := Prod.mk.inj (Option.some.inj (hrun2'.symm.trans hrun2))
        rw [hrun1]
        unfold Outcome at houtcome ⊢
        rw [Expr.eval]
        cases u with
        | plus =>
          refine ⟨v', p2', hrun2, ?_⟩
          cases heval : e.eval with
          | none => rwa [heval] at houtcome
          | some w => rwa [heval] at houtcome
        | minus =>
          simp only [hrun2, Option.bind_some]
          cases heval : e.eval with
          | none =>
            rw [heval] at houtcome
            by_cases hmin : v' = calcIntMin
            · exact ⟨0, _, if_pos hmin, failed_fail (by decide)⟩
            · rw [if_neg hmin, (negate_eq hv).trans (if_neg hmin)]
              exact ⟨_, p2', rfl, houtcome⟩
          | some w =>
            rw [heval] at houtcome
            obtain ⟨rfl, hrunning, hbehind⟩ := houtcome
            rw [Option.bind_some, show (calcLanguage allow).applySign .minus v' = int32 (-v') from rfl, negate_eq hv]
            by_cases hmin : v' = calcIntMin
            · rw [if_pos hmin, if_pos hmin]
              exact ⟨0, _, rfl, failed_fail (by decide)⟩
            · rw [if_neg hmin, if_neg hmin]
              exact ⟨_, p2', rfl, rfl, hrunning, hbehind⟩
        | tilde =>
          obtain rfl : allow = true := hadmits
          simp only [hmoved1.valid.allow, hrun2, Option.bind_some, if_true]
          refine ⟨_, p2', rfl, ?_⟩
          cases heval : e.eval with
          | none => rwa [heval] at houtcome
          | some w =>
            rw [heval] at houtcome
            obtain ⟨rfl, hrunning, hbehind⟩ := houtcome
            exact ⟨(complement_eq hv).1, hrunning, hbehind⟩

/-! ### All levels -/

theorem parseOr_parses {rounds depth : Nat} : ∀ {k : Nat}, k < depth → k < rounds →
    Parses (calcLanguage allow) (calcScanner input allow) 6 k (parseOr rounds depth) := by
  induction depth with
  | zero => exact fun h => absurd h (Nat.not_lt_zero _)
  | succ depth ih =>
    intro k hk hrounds
    have hunary : Parses (calcLanguage allow) (calcScanner input allow) 0 k (parseUnary (parsePrimary (parseOr rounds depth)) rounds) :=
      parseUnary_parses hrounds fun j hj => ih (by omega) (by omega)
    have hmul := level_parses lawful_calcLanguage hunary rounds_mulBody hrounds
    have hadd := level_parses lawful_calcLanguage hmul rounds_addBody hrounds
    have hshift := level_parses lawful_calcLanguage hadd rounds_shiftBody hrounds
    have hand := level_parses lawful_calcLanguage hshift rounds_andBody hrounds
    have hxor := level_parses lawful_calcLanguage hand rounds_xorBody hrounds
    exact level_parses lawful_calcLanguage hxor rounds_orBody hrounds

/-- The whole input is the text of this expression. -/
def Written (allow : Bool) (input : Bytes) (e : Expr (calcLanguage allow)) : Prop :=
  ∃ text s, (calcLanguage allow).Derives 6 text e ∧ (calcLanguage allow).Blanks s ∧ input = text ++ s

theorem ahead_of_blanks {s : Bytes} (h : (calcLanguage allow).Blanks s) : (calcLanguage allow).ahead s = [] := by
  rw [← List.append_nil s, Language.ahead_blanks h]
  rfl

theorem blanks_of_ahead {s : Bytes} (h : (calcLanguage allow).ahead s = []) : (calcLanguage allow).Blanks s := by
  obtain ⟨t, ht, hs⟩ := Language.exists_blanks (L := calcLanguage allow) s
  rw [hs, h, List.append_nil]
  exact ht

/-- The evaluation ends with a number in range. It succeeds exactly if no error is set, and then the input is the text of an expression with
this value; each expression whose text the input is has the result, or no value if there is none. -/
theorem evaluateExpression_result {input : Bytes} (hinput : input.length ≤ 255) (allow : Bool) :
    ∃ okay output error, evaluateExpression input allow = some (okay, output, error) ∧ InRange output ∧ okay = decide (error = .none) ∧
      (okay = true → ∃ e, Written allow input e ∧ e.eval = some output) ∧
      ∀ e, Written allow input e → e.eval = if okay then some output else none := by
  let p : CalculatorParser := { input, position := 0, allowBitwise := allow, error := .none }
  have hready : (calcScanner input allow).Ready input.length p :=
    ⟨⟨rfl, rfl, Nat.zero_le _, Nat.lt_succ_of_le hinput⟩, rfl, Nat.le_refl _⟩
  have hparses : Parses (calcLanguage allow) (calcScanner input allow) 6 input.length (parseOr p.rounds p.rounds) :=
    parseOr_parses (Nat.lt_succ_self _) (Nat.lt_succ_self _)
  obtain ⟨v, p1, hrun, hrange, hleads, hread⟩ := hparses.sound p hready
  obtain ⟨p2, hskip, hmoved⟩ := CalculatorParser.skipSpaces_eq hleads.valid
  have hend : p2.position = p2.size ↔ (calcLanguage allow).ahead p1.rest = [] := by
    have hlength := p2.length_rest
    have hposition := hmoved.valid.position
    rw [hmoved.rest] at hlength
    rw [← List.length_eq_zero_iff, hlength]
    omega
  have hevaluate : evaluateExpression input allow = some (decide ((if p2.error = .none ∧ p2.position ≠ p2.size then .badSyntax else p2.error) = .none),
      v, if p2.error = .none ∧ p2.position ≠ p2.size then .badSyntax else p2.error) := by
    show (parseOr p.rounds p.rounds p).bind _ = _
    rw [hrun, Option.bind_some]
    show p1.skipSpaces.bind _ = _
    rw [hskip]
    rfl
  have hokay : (if p2.error = .none ∧ p2.position ≠ p2.size then CalculatorError.badSyntax else p2.error) = .none ↔
      p1.error = .none ∧ (calcLanguage allow).ahead p1.rest = [] := by
    rw [← hend, hmoved.error]
    by_cases herror : p1.error = .none <;> by_cases hposition : p2.position = p2.size <;> simp [herror, hposition]
  refine ⟨_, _, _, hevaluate, hrange, rfl, fun htrue => ?_, fun e he => ?_⟩
  · obtain ⟨herror, hahead⟩ := hokay.mp (of_decide_eq_true htrue)
    obtain ⟨text, s, e, hs, hrest, he, heval⟩ := hread (failed_eq_false.mpr herror)
    exact ⟨e, ⟨text, s ++ p1.rest, he, Language.blanks_append hs (blanks_of_ahead hahead), hrest⟩, heval⟩
  · simp only [decide_eq_true_eq, hokay]
    obtain ⟨text, s, hderives, hs, htext⟩ := he
    have hahead : (calcLanguage allow).ahead s = [] := ahead_of_blanks hs
    obtain ⟨v', p1', hrun', houtcome⟩ := hparses.complete p text s e hready hderives (congrArg _ htext) (Or.inl hahead)
    obtain ⟨rfl, rfl⟩ := Prod.mk.inj (Option.some.inj (hrun.symm.trans hrun'))
    unfold Outcome at houtcome
    cases heval : e.eval with
    | none =>
      rw [heval] at houtcome
      rw [if_neg fun h => absurd ((failed_eq_false.mpr h.1).symm.trans houtcome) (by decide)]
    | some w =>
      rw [heval] at houtcome
      obtain ⟨rfl, hrunning, hbehind⟩ := houtcome
      rw [if_pos ⟨failed_eq_false.mp hrunning, hbehind.trans hahead⟩]

/-- The evaluation ends without a read behind the input and without undefined arithmetic. It succeeds for the texts of expressions that
have a value, and with that value; any expression whose text the input is has the result, or no value if there is none. -/
theorem evaluateExpression_exact {input : Bytes} (hinput : input.length ≤ 255) (allow : Bool) :
    ∃ okay output error, evaluateExpression input allow = some (okay, output, error) ∧
      (okay = true ↔ ∃ e v, Written allow input e ∧ e.eval = some v) ∧
      ∀ e, Written allow input e → e.eval = if okay then some output else none := by
  obtain ⟨okay, output, error, hrun, -, -, hwritten, hresult⟩ := evaluateExpression_result hinput allow
  refine ⟨okay, output, error, hrun, ⟨fun htrue => ?_, ?_⟩, hresult⟩
  · obtain ⟨e, he, heval⟩ := hwritten htrue
    exact ⟨e, output, he, heval⟩
  · rintro ⟨e, w, he, heval⟩
    by_contra hno
    rw [hresult e he, if_neg hno] at heval
    cases heval

/-- The sum is less than the product: `1 + 2*3`. -/
theorem evaluateExpression_exact_sample : (ascii "1 + 2*3").length ≤ 255 ∧ ∃ okay output error,
    evaluateExpression (ascii "1 + 2*3") false = some (okay, output, error) ∧
      (okay = true ↔ ∃ e v, Written false (ascii "1 + 2*3") e ∧ e.eval = some v) := by
  obtain ⟨okay, output, error, hrun, hokay, -⟩ := evaluateExpression_exact (show (ascii "1 + 2*3").length ≤ 255 by decide) false
  exact ⟨by decide, okay, output, error, hrun, hokay⟩

end

/-! ### Results in the line -/

section
open Decimal

theorem calcDigit_of_isDigit {c : UInt8} (h : IsDigit c) : calcDigit c = c.toNat - 48 ∧ calcDigit c < 10 := by
  have hdigit : calcDigit c = c.toNat - 48 := if_pos h
  have hhigh := UInt8.le_iff_toNat_le.mp h.2
  have hbound : (57 : UInt8).toNat = 57 := rfl
  rw [hdigit]
  omega

theorem digitsValue_decimal (n : Nat) : digitsValue 10 (decimal n) = n := by
  have hagree {digits : Bytes} (hdigits : ∀ c ∈ digits, IsDigit c) (value : Nat) :
      digits.foldl (fun value c => value * 10 + calcDigit c) value = number value digits := by
    induction digits generalizing value with
    | nil => rfl
    | cons c digits ih =>
      rw [List.foldl_cons, ih (fun d hd => hdigits d (List.mem_cons_of_mem _ hd)), (calcDigit_of_isDigit (hdigits c (List.mem_cons_self ..))).1]
      rfl
  rw [digitsValue, hagree (isDigit_decimal n), number_decimal]

theorem derives_decimal {n : Nat} (h : n ≤ 2147483647) : (calcLanguage allow).Derives 0 (decimal n) (.literal (n : Int)) := by
  have hliteral := CalcLiteral.mk (show LiteralStart [] 10 from Or.inl ⟨rfl, rfl⟩) (decimal_ne_nil n)
    (fun c hc => (calcDigit_of_isDigit (isDigit_decimal n c hc)).2) (by rwa [digitsValue_decimal])
  rw [digitsValue_decimal, List.nil_append] at hliteral
  exact .literal (s := []) Language.blanks_nil hliteral

theorem written_of_operand {text : Bytes} {e : Expr (calcLanguage allow)} (h : (calcLanguage allow).Derives 0 text e) : Written allow text e :=
  ⟨text, [], .operand (.operand (.operand (.operand (.operand (.operand h))))), Language.blanks_nil, (List.append_nil text).symm⟩

theorem written_formatInt32 {v : Int} (hrange : InRange v) (hmin : v ≠ calcIntMin) (allow : Bool) :
    ∃ e, Written allow (formatInt32 16 v) e ∧ e.eval = some v := by
  unfold InRange calcIntMin calcIntMax at hrange
  unfold calcIntMin at hmin
  rw [formatInt32_eq hrange.1 hrange.2]
  by_cases hneg : v < 0
  · refine ⟨.sign .minus (.literal (v.natAbs : Int)), ?_, ?_⟩
    · rw [if_pos hneg]
      exact written_of_operand (.sign (s := []) (L := calcLanguage allow) .minus Language.blanks_nil trivial (derives_decimal (by omega)))
    · show int32 (-(v.natAbs : Int)) = some v
      exact int32_eq_some.mpr ⟨⟨by unfold calcIntMin; omega, by unfold calcIntMax; omega⟩, by omega⟩
  · refine ⟨.literal (v.natAbs : Int), ?_, ?_⟩
    · rw [if_neg hneg]
      exact written_of_operand (derives_decimal (by omega))
    · show some (v.natAbs : Int) = some v
      rw [show (v.natAbs : Int) = v by omega]

/-- The text that the result of an expression leaves in the line evaluates to the result again, in either mode. -/
def Reusable (v : Int) : Prop := ∀ allow, evaluateExpression (formatInt32 16 v) allow = some (true, v, .none)

theorem evaluateExpression_inRange {input : Bytes} (hinput : input.length ≤ 255) {allow okay : Bool} {output : Int} {error : CalculatorError}
    (h : evaluateExpression input allow = some (okay, output, error)) : InRange output := by
  obtain ⟨_, _, _, hrun, hrange, -⟩ := evaluateExpression_result hinput allow
  obtain ⟨-, rfl, -⟩ : _ ∧ _ ∧ _ := by simpa using h.symm.trans hrun
  exact hrange

theorem evaluateExpression_value {input : Bytes} (hinput : input.length ≤ 255) {e : Expr (calcLanguage allow)} {v : Int}
    (he : Written allow input e) (heval : e.eval = some v) : evaluateExpression input allow = some (true, v, .none) := by
  obtain ⟨okay, output, error, hrun, -, hokay, -, hresult⟩ := evaluateExpression_result hinput allow
  have hvalue := hresult e he
  rw [heval] at hvalue
  cases okay with
  | false => cases hvalue
  | true =>
    obtain rfl := Option.some.inj hvalue
    rw [hrun, of_decide_eq_true hokay.symm]

theorem least_not_reusable : ¬Reusable (-2147483648) := by
  intro h
  have hrun := h false
  revert hrun
  decide +kernel

theorem reusable_iff {v : Int} (h : InRange v) : Reusable v ↔ v ≠ calcIntMin := by
  constructor
  · rintro hreusable rfl
    exact least_not_reusable hreusable
  · intro hmin allow
    obtain ⟨e, he, heval⟩ := written_formatInt32 h hmin allow
    have hlength : (formatInt32 16 v).length ≤ 255 := by
      obtain ⟨hlow, hhigh⟩ := h
      have hdigits : (decimal v.natAbs).length ≤ 10 :=
        length_decimal_le (k := 10) (by unfold calcIntMin at hlow; unfold calcIntMax at hhigh; omega) (by decide)
      rw [formatInt32_eq hlow hhigh]
      split
      · rw [List.length_cons]
        omega
      · omega
    exact evaluateExpression_value hlength he heval

/-- An expression with a value is evaluated to it, and the text of the value is evaluated to it again unless it is the least number,
whose digits without the sign are not a literal. -/
theorem evaluateExpression_reusable {input : Bytes} (hinput : input.length ≤ 255) {e : Expr (calcLanguage allow)} {v : Int}
    (he : Written allow input e) (heval : e.eval = some v) :
    evaluateExpression input allow = some (true, v, .none) ∧ (Reusable v ↔ v ≠ -2147483648) := by
  have hrun := evaluateExpression_value hinput he heval
  exact ⟨hrun, reusable_iff (evaluateExpression_inRange hinput hrun)⟩

theorem evaluateExpression_reusable_sample : evaluateExpression (ascii "42") false = some (true, 42, .none) ∧ (Reusable 42 ↔ (42 : Int) ≠ -2147483648) :=
  evaluateExpression_reusable (e := .literal 42) (by decide) (written_of_operand (derives_decimal (n := 42) (by decide))) rfl

/-- `-2147483647 - 1` has a value that does not come back. -/
theorem least_not_evaluated_again : ¬∀ input : Bytes, input.length ≤ 255 → ∀ allow v,
    evaluateExpression input allow = some (true, v, .none) → Reusable v := by
  intro h
  exact least_not_reusable (h (ascii "-2147483647-1") (by decide) false (-2147483648) (by decide +kernel))

end
end ZenovOS.Productivity
