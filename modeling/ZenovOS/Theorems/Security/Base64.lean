import ZenovOS.Lib.Base64
import ZenovOS.Theorems.Security.Aliasing

/-! # Base64

The decoder accepts the encodings of at least sixteen characters, with blanks anywhere, and nothing else. -/

namespace ZenovOS.Security.Inspection
open Bytes Base64

/-! ### Characters -/

set_option maxRecDepth 8000 in
theorem base64Value_alphabets : standard.map base64Value = (List.range 64).map some ∧ urlSafe.map base64Value = (List.range 64).map some := by
  decide

set_option maxRecDepth 8000 in
theorem base64Value_range : ∀ n < 256, ∀ value ∈ base64Value (UInt8.ofNat n),
    standard[value]? = some (UInt8.ofNat n) ∨ urlSafe[value]? = some (UInt8.ofNat n) := by
  decide

theorem base64Value_iff {letter : UInt8} {value : Nat} : base64Value letter = some value ↔ Letter letter value := by
  constructor
  · intro h
    have hrange := base64Value_range letter.toNat letter.toNat_lt value
    rw [UInt8.ofNat_toNat] at hrange
    exact hrange h
  · intro h
    have hletter : ∀ alphabet : Bytes, alphabet.map base64Value = (List.range 64).map some → alphabet[value]? = some letter →
        base64Value letter = some value := by
      intro alphabet hmap hat
      have hvalue := congrArg (·[value]?) hmap
      simp only [List.getElem?_map, hat, List.getElem?_range h.lt, Option.map_some, Option.some.injEq] at hvalue
      exact hvalue
    rcases h with hat | hat
    · exact hletter standard base64Value_alphabets.1 hat
    · exact hletter urlSafe base64Value_alphabets.2 hat

/-- What the decoder holds for a character; 64 stands for the padding. -/
def Symbol (ch : UInt8) (value : Nat) : Prop := ch = 61 ∧ value = 64 ∨ Letter ch value

variable {ch a b c e : UInt8} {text input rest data written : Bytes} {capacity significant outputSize n value : Nat} {quartet : List Nat}

theorem Symbol.letter (h : Symbol ch value) (hvalue : value < 64) : Letter ch value := by
  rcases h with ⟨-, rfl⟩ | h
  · omega
  · exact h

theorem Symbol.padding (h : Symbol ch 64) : ch = 61 := by
  rcases h with ⟨hch, -⟩ | h
  · exact hch
  · exact absurd h.lt (by decide)

theorem not_letter_padding : ¬Letter 61 value := by
  intro h
  have hnone : base64Value 61 = none := by decide
  rw [base64Value_iff.mpr h] at hnone
  cases hnone

theorem Symbol.unique {value' : Nat} (h : Symbol ch value) (h' : Symbol ch value') : value = value' := by
  rcases h with ⟨rfl, rfl⟩ | h <;> rcases h' with ⟨hch, rfl⟩ | h'
  · rfl
  · exact absurd h' not_letter_padding
  · exact absurd (hch ▸ h) not_letter_padding
  · exact Option.some.inj ((base64Value_iff.mpr h).symm.trans (base64Value_iff.mpr h'))

theorem quartetBytes_two {p q : Nat} : quartetBytes [p, q] = some data ↔ p < 64 ∧ q < 64 ∧ q % 16 = 0 ∧ data = [firstByte p q] := by
  unfold quartetBytes
  dsimp only
  by_cases h : 64 ≤ p ∨ 64 ≤ q ∨ q % 16 ≠ 0
  · rw [if_pos h]
    refine ⟨fun h => (nomatch h), fun h' => by omega⟩
  · rw [if_neg h, Option.some.injEq, eq_comm]
    exact ⟨fun hdata => ⟨by omega, by omega, by omega, hdata⟩, fun h => h.2.2.2⟩

theorem quartetBytes_three {p q r : Nat} (hr : r ≤ 64) : quartetBytes [p, q, r] = some data ↔
    p < 64 ∧ q < 64 ∧ r < 64 ∧ r % 4 = 0 ∧ data = [firstByte p q, secondByte q r] := by
  unfold quartetBytes
  dsimp only
  by_cases h : 64 ≤ p ∨ 64 ≤ q ∨ r = 64 ∨ r % 4 ≠ 0
  · rw [if_pos h]
    refine ⟨fun h => (nomatch h), fun h' => by omega⟩
  · rw [if_neg h, Option.some.injEq, eq_comm]
    exact ⟨fun hdata => ⟨by omega, by omega, by omega, by omega, hdata⟩, fun h => h.2.2.2.2⟩

theorem quartetBytes_four {p q r s : Nat} (hr : r ≤ 64) (hs : s ≤ 64) : quartetBytes [p, q, r, s] = some data ↔ p < 64 ∧ q < 64 ∧
    (r < 64 ∧ s < 64 ∧ data = [firstByte p q, secondByte q r, thirdByte r s] ∨
      r < 64 ∧ s = 64 ∧ r % 4 = 0 ∧ data = [firstByte p q, secondByte q r] ∨
      r = 64 ∧ s = 64 ∧ q % 16 = 0 ∧ data = [firstByte p q]) := by
  unfold quartetBytes
  dsimp only
  by_cases h : 64 ≤ p ∨ 64 ≤ q ∨ r = 64 ∧ s ≠ 64
  · rw [if_pos h]
    refine ⟨fun h => (nomatch h), fun h' => by omega⟩
  · rw [if_neg h]
    by_cases hr' : r = 64
    · rw [if_pos hr']
      by_cases hq : q % 16 ≠ 0
      · rw [if_pos hq]
        refine ⟨fun h => (nomatch h), fun h' => by omega⟩
      · rw [if_neg hq, Option.some.injEq, eq_comm]
        refine ⟨fun hdata => ⟨by omega, by omega, .inr (.inr ⟨hr', by omega, by omega, hdata⟩)⟩, fun h' => ?_⟩
        rcases h'.2.2 with ⟨hlt, -⟩ | ⟨hlt, -⟩ | ⟨-, -, -, hdata⟩
        · omega
        · omega
        · exact hdata
    · rw [if_neg hr']
      by_cases hs' : s = 64
      · rw [if_pos hs']
        by_cases hbits : r % 4 ≠ 0
        · rw [if_pos hbits]
          refine ⟨fun h => (nomatch h), fun h' => by omega⟩
        · rw [if_neg hbits, Option.some.injEq, eq_comm]
          refine ⟨fun hdata => ⟨by omega, by omega, .inr (.inl ⟨by omega, hs', by omega, hdata⟩)⟩, fun h' => ?_⟩
          rcases h'.2.2 with ⟨-, hlt, -⟩ | ⟨-, -, -, hdata⟩ | ⟨heq, -⟩
          · omega
          · exact hdata
          · omega
      · rw [if_neg hs', Option.some.injEq, eq_comm]
        refine ⟨fun hdata => ⟨by omega, by omega, .inl ⟨by omega, by omega, hdata⟩⟩, fun h' => ?_⟩
        rcases h'.2.2 with ⟨-, -, hdata⟩ | ⟨-, heq, -⟩ | ⟨heq, -⟩
        · exact hdata
        · omega
        · omega

/-! ### A run of the decoder -/

/-- What the decoder writes and returns, from the variables `d` on. -/
def Decoder.run (capacity : Nat) : Bytes → Decoder → Bytes × Option Nat
  | [], d => d.finish capacity
  | b :: rest, d =>
    match (d.step capacity b).2 with
    | none => ((d.step capacity b).1, none)
    | some next => ((d.step capacity b).1 ++ (next.run capacity rest).1, (next.run capacity rest).2)

abbrev Blank (ch : UInt8) : Prop := ch = 32 ∨ ch = 10 ∨ ch = 13 ∨ ch = 9

/-- The characters that the decoder does not pass over. -/
def significantOf (input : Bytes) : Bytes := input.filter fun ch => ¬Blank ch

theorem Decoder.run_significant (input : Bytes) (d : Decoder) : d.run capacity input = d.run capacity (significantOf input) := by
  induction input generalizing d with
  | nil => rfl
  | cons ch rest ih =>
    by_cases hblank : Blank ch
    · have hstep : d.step capacity ch = ([], some d) := by
        unfold Decoder.step
        exact if_pos hblank
      have hskip : significantOf (ch :: rest) = significantOf rest := List.filter_cons_of_neg (by simpa only [decide_eq_true_eq, not_not] using hblank)
      rw [hskip, Decoder.run, hstep]
      exact ih d
    · have hkeep : significantOf (ch :: rest) = ch :: significantOf rest := List.filter_cons_of_pos (decide_eq_true hblank)
      rw [hkeep, Decoder.run, Decoder.run]
      cases (d.step capacity ch).2 with
      | none => rfl
      | some next =>
        dsimp only
        rw [ih next]

/-- The variables with characters held back, before the end of the text. -/
def held (quartet : List Nat) (significant outputSize : Nat) : Decoder :=
  ⟨quartet, significant, decide (64 ∈ quartet), false, outputSize⟩

/-- The variables behind a padded quartet. -/
def closed (significant outputSize : Nat) : Decoder := ⟨[], significant, true, true, outputSize⟩

theorem take_held {d : Decoder} (hroom : quartet.length < 4) : (held quartet significant outputSize).take ch = some d ↔
    ∃ value, Symbol ch value ∧ (value ≠ 64 → 64 ∉ quartet) ∧ d = held (quartet ++ [value]) (significant + 1) outputSize := by
  have hplain : ¬((held quartet significant outputSize).terminalQuartet = true ∨ 4 ≤ (held quartet significant outputSize).quartet.length) := by
    rintro (h | h)
    · cases h
    · exact absurd hroom (Nat.not_lt.mpr h)
  unfold Decoder.take
  rw [if_neg hplain]
  by_cases hpad : ch = 61
  · rw [if_pos hpad, Option.some.injEq]
    subst hpad
    constructor
    · rintro rfl
      refine ⟨64, .inl ⟨rfl, rfl⟩, fun h => absurd rfl h, ?_⟩
      simp [held]
    · rintro ⟨value, ⟨-, rfl⟩ | hletter, -, rfl⟩
      · simp [held]
      · exact absurd hletter not_letter_padding
  · rw [if_neg hpad]
    cases hvalue : base64Value ch with
    | none =>
      refine ⟨fun h => (nomatch h), ?_⟩
      rintro ⟨value, ⟨h, -⟩ | hletter, -⟩
      · exact absurd h hpad
      · rw [base64Value_iff.mpr hletter] at hvalue
        cases hvalue
    | some value =>
      have hletter := base64Value_iff.mp hvalue
      have hne : 64 ≠ value := Nat.ne_of_gt hletter.lt
      have hunique : ∀ value', Symbol ch value' → value' = value := fun value' h => h.unique (.inr hletter)
      dsimp only
      by_cases hstarted : 64 ∈ quartet
      · rw [if_pos (by simpa [held] using hstarted)]
        refine ⟨fun h => (nomatch h), fun ⟨value', hsymbol, hnot, _⟩ => ?_⟩
        rw [hunique value' hsymbol] at hnot
        exact absurd hstarted (hnot hne.symm)
      · rw [if_neg (by simpa [held] using hstarted), Option.some.injEq]
        constructor
        · rintro rfl
          exact ⟨value, .inr hletter, fun _ => hstarted, by simp [held, hne]⟩
        · rintro ⟨value', hsymbol, -, rfl⟩
          rw [hunique value' hsymbol]
          simp [held, hne]

theorem emitBase64Quartet_iff : emitBase64Quartet quartet capacity outputSize = (written, true) ↔
    quartetBytes quartet = some written ∧ written.length ≤ capacity - outputSize := by
  unfold emitBase64Quartet
  cases hbytes : quartetBytes quartet with
  | none => simp
  | some data =>
    simp only [Prod.mk.injEq, decide_eq_true_eq, Option.some.injEq]
    constructor
    · rintro ⟨rfl, hroom⟩
      rw [List.take_of_length_le hroom]
      exact ⟨rfl, hroom⟩
    · rintro ⟨rfl, hroom⟩
      exact ⟨List.take_of_length_le hroom, hroom⟩

theorem run_end : (held quartet significant outputSize).run capacity [] = (written, some n) ↔ 16 ≤ significant ∧
    (quartet = [] ∧ written = [] ∧ n = outputSize ∨ quartet.length ≠ 1 ∧ quartetBytes quartet = some written ∧
      written.length ≤ capacity - outputSize ∧ n = outputSize + written.length) := by
  rw [Decoder.run]
  unfold Decoder.finish held
  dsimp only
  by_cases hshort : significant < 16 ∨ quartet.length = 1
  · rw [if_pos hshort]
    refine ⟨fun h => (nomatch h), ?_⟩
    rintro ⟨henough, ⟨rfl, -⟩ | ⟨hlength, -⟩⟩
    · simp only [List.length_nil] at hshort
      omega
    · omega
  · rw [if_neg hshort]
    by_cases hempty : quartet = []
    · subst hempty
      rw [if_pos rfl]
      constructor
      · intro h
        cases h
        exact ⟨by omega, .inl ⟨rfl, rfl, rfl⟩⟩
      · rintro ⟨-, ⟨-, rfl, rfl⟩ | ⟨-, hbytes, -⟩⟩
        · rfl
        · cases hbytes
    · rw [if_neg hempty]
      rcases hemit : emitBase64Quartet quartet capacity outputSize with ⟨data, _ | _⟩
      · refine ⟨fun h => (nomatch h), ?_⟩
        rintro ⟨-, ⟨h, -⟩ | ⟨-, hbytes, hroom, -⟩⟩
        · exact absurd h hempty
        · rw [emitBase64Quartet_iff.mpr ⟨hbytes, hroom⟩] at hemit
          cases hemit
      · obtain ⟨hbytes, hroom⟩ := emitBase64Quartet_iff.mp hemit
        constructor
        · intro h
          cases h
          exact ⟨by omega, .inr ⟨by omega, hbytes, hroom, rfl⟩⟩
        · rintro ⟨-, ⟨h, -⟩ | ⟨-, hbytes', -, rfl⟩⟩
          · exact absurd h hempty
          · rw [hbytes] at hbytes'
            cases hbytes'
            rfl

theorem run_held (hroom : quartet.length < 3) (hblank : ¬Blank ch) :
    (held quartet significant outputSize).run capacity (ch :: rest) = (written, some n) ↔
      ∃ value, Symbol ch value ∧ (value ≠ 64 → 64 ∉ quartet) ∧
        (held (quartet ++ [value]) (significant + 1) outputSize).run capacity rest = (written, some n) := by
  have hstep : ∀ value, (held (quartet ++ [value]) (significant + 1) outputSize).quartet.length ≠ 4 := by
    intro value
    rw [held, List.length_append, List.length_singleton]
    omega
  rw [Decoder.run]
  unfold Decoder.step
  rw [if_neg hblank]
  cases htake : (held quartet significant outputSize).take ch with
  | none =>
    refine ⟨fun h => (nomatch h), fun ⟨value, hsymbol, hplain, _⟩ => ?_⟩
    rw [(take_held (by omega)).mpr ⟨value, hsymbol, hplain, rfl⟩] at htake
    cases htake
  | some d =>
    obtain ⟨value, hsymbol, hplain, rfl⟩ := (take_held (by omega)).mp htake
    dsimp only
    rw [if_pos (hstep value)]
    dsimp only
    rw [List.nil_append]
    constructor
    · exact fun h => ⟨value, hsymbol, hplain, h⟩
    · rintro ⟨value', hsymbol', -, h⟩
      rwa [hsymbol.unique hsymbol']

/-- The variables behind a quartet. -/
def behind (quartet : List Nat) (significant outputSize : Nat) : Decoder :=
  ⟨[], significant, decide (64 ∈ quartet), quartet.getD 2 0 = 64 || quartet.getD 3 0 = 64, outputSize⟩

theorem run_fourth (hfull : quartet.length = 3) (hblank : ¬Blank ch) :
    (held quartet significant outputSize).run capacity (ch :: rest) = (written, some n) ↔
      ∃ value data more, Symbol ch value ∧ (value ≠ 64 → 64 ∉ quartet) ∧ quartetBytes (quartet ++ [value]) = some data ∧
        data.length ≤ capacity - outputSize ∧ written = data ++ more ∧
        (behind (quartet ++ [value]) (significant + 1) (outputSize + data.length)).run capacity rest = (more, some n) := by
  have hstep : ∀ value, ¬(held (quartet ++ [value]) (significant + 1) outputSize).quartet.length ≠ 4 := by
    intro value
    rw [held, List.length_append, List.length_singleton]
    omega
  rw [Decoder.run]
  unfold Decoder.step
  rw [if_neg hblank]
  cases htake : (held quartet significant outputSize).take ch with
  | none =>
    refine ⟨fun h => (nomatch h), fun ⟨value, _, _, hsymbol, hplain, _⟩ => ?_⟩
    rw [(take_held (by omega)).mpr ⟨value, hsymbol, hplain, rfl⟩] at htake
    cases htake
  | some d =>
    obtain ⟨value, hsymbol, hplain, rfl⟩ := (take_held (by omega)).mp htake
    dsimp only
    rw [if_neg (hstep value)]
    dsimp only
    rw [held]
    dsimp only
    rcases hemit : emitBase64Quartet (quartet ++ [value]) capacity outputSize with ⟨data, _ | _⟩
    · refine ⟨fun h => (nomatch h), ?_⟩
      rintro ⟨value', data', more, hsymbol', -, hbytes, hroom, -⟩
      rw [hsymbol'.unique hsymbol] at hbytes
      rw [emitBase64Quartet_iff.mpr ⟨hbytes, hroom⟩] at hemit
      cases hemit
    · obtain ⟨hbytes, hroom⟩ := emitBase64Quartet_iff.mp hemit
      rw [if_pos rfl]
      dsimp only
      rw [Prod.mk.injEq]
      constructor
      · rintro ⟨hwritten, hsize⟩
        refine ⟨value, data, _, hsymbol, hplain, hbytes, hroom, hwritten.symm, ?_⟩
        rw [← hsize]
        rfl
      · rintro ⟨value', data', more, hsymbol', -, hbytes', -, rfl, hrun⟩
        rw [hsymbol'.unique hsymbol] at hbytes' hrun
        rw [hbytes, Option.some.injEq] at hbytes'
        subst hbytes'
        unfold behind at hrun
        rw [hrun]
        exact ⟨rfl, rfl⟩

theorem run_closed (htext : ∀ ch ∈ text, ¬Blank ch) :
    (closed significant outputSize).run capacity text = (written, some n) ↔ text = [] ∧ 16 ≤ significant ∧ written = [] ∧ n = outputSize := by
  cases text with
  | nil =>
    rw [Decoder.run]
    unfold Decoder.finish closed
    dsimp only
    by_cases hshort : significant < 16
    · rw [if_pos (.inl hshort)]
      refine ⟨fun h => (nomatch h), fun h => by omega⟩
    · rw [if_neg (by simpa using hshort), if_pos rfl]
      constructor
      · intro h
        cases h
        exact ⟨rfl, by omega, rfl, rfl⟩
      · rintro ⟨-, -, rfl, rfl⟩
        rfl
  | cons ch rest =>
    rw [Decoder.run]
    unfold Decoder.step
    rw [if_neg (htext ch (List.mem_cons_self ..))]
    refine ⟨fun h => (nomatch h), fun h => (nomatch h.1)⟩

theorem behind_letters {p q r s : Nat} (hp : p < 64) (hq : q < 64) (hr : r < 64) (hs : s < 64) :
    behind [p, q, r, s] significant outputSize = held [] significant outputSize := by
  have hnot : 64 ∉ [p, q, r, s] := by
    simp only [List.mem_cons, List.not_mem_nil, or_false]
    omega
  unfold behind held
  rw [decide_eq_false hnot]
  simp [Nat.ne_of_lt hr, Nat.ne_of_lt hs]

theorem behind_padding {p q r : Nat} : behind [p, q, r, 64] significant outputSize = closed significant outputSize := by
  simp [behind, closed]

/-! ### Texts without blanks -/

theorem run_letter {value : Nat} (hroom : quartet.length < 3) (hblank : ¬Blank ch) (hletter : Letter ch value) (hplain : 64 ∉ quartet)
    (h : (held (quartet ++ [value]) (significant + 1) outputSize).run capacity rest = (written, some n)) :
    (held quartet significant outputSize).run capacity (ch :: rest) = (written, some n) :=
  (run_held hroom hblank).mpr ⟨value, .inr hletter, fun _ => hplain, h⟩

theorem not_padding_one {p : Nat} (hp : p < 64) : 64 ∉ [p] := by
  simp only [List.mem_singleton]
  omega

theorem not_padding_two {p q : Nat} (hp : p < 64) (hq : q < 64) : 64 ∉ [p, q] := by
  simp only [List.mem_cons, List.not_mem_nil, or_false]
  omega

theorem not_padding_three {p q r : Nat} (hp : p < 64) (hq : q < 64) (hr : r < 64) : 64 ∉ [p, q, r] := by
  simp only [List.mem_cons, List.not_mem_nil, or_false]
  omega

theorem run_two (ha : ¬Blank a) (hb : ¬Blank b) : (held [] significant outputSize).run capacity [a, b] = (written, some n) ↔
    Encodes written [a, b] ∧ 16 ≤ significant + 2 ∧ written.length ≤ capacity - outputSize ∧ n = outputSize + written.length := by
  rw [run_held (by decide) ha, encodes_two]
  constructor
  · rintro ⟨p, hp, -, h⟩
    obtain ⟨q, hq, -, h⟩ := (run_held (by simp) hb).mp h
    obtain ⟨henough, ⟨hnil, -⟩ | ⟨-, hbytes, hroom, hn⟩⟩ := run_end.mp h
    · cases hnil
    · obtain ⟨hp', hq', hbits, hdata⟩ := quartetBytes_two.mp hbytes
      exact ⟨⟨p, q, hp.letter hp', hq.letter hq', hbits, hdata⟩, henough, hroom, hn⟩
  · rintro ⟨⟨p, q, hp, hq, hbits, hdata⟩, henough, hroom, hn⟩
    rw [← run_held (by decide) ha]
    refine run_letter (by simp) ha hp List.not_mem_nil (run_letter (by simp) hb hq (not_padding_one hp.lt) ?_)
    exact run_end.mpr ⟨henough, .inr ⟨by simp, quartetBytes_two.mpr ⟨hp.lt, hq.lt, hbits, hdata⟩, hroom, hn⟩⟩

theorem Symbol.le (h : Symbol ch value) : value ≤ 64 := by
  rcases h with ⟨-, rfl⟩ | h
  · exact Nat.le_refl 64
  · exact Nat.le_of_lt h.lt

theorem run_three (ha : ¬Blank a) (hb : ¬Blank b) (hc : ¬Blank c) :
    (held [] significant outputSize).run capacity [a, b, c] = (written, some n) ↔
      Encodes written [a, b, c] ∧ 16 ≤ significant + 3 ∧ written.length ≤ capacity - outputSize ∧ n = outputSize + written.length := by
  rw [encodes_three]
  constructor
  · intro h
    obtain ⟨p, hp, -, h⟩ := (run_held (by simp) ha).mp h
    obtain ⟨q, hq, -, h⟩ := (run_held (by simp) hb).mp h
    obtain ⟨r, hr, -, h⟩ := (run_held (by simp) hc).mp h
    obtain ⟨henough, ⟨hnil, -⟩ | ⟨-, hbytes, hroom, hn⟩⟩ := run_end.mp h
    · cases hnil
    · obtain ⟨hp', hq', hr', hbits, hdata⟩ := (quartetBytes_three hr.le).mp hbytes
      exact ⟨⟨p, q, r, hp.letter hp', hq.letter hq', hr.letter hr', hbits, hdata⟩, henough, hroom, hn⟩
  · rintro ⟨⟨p, q, r, hp, hq, hr, hbits, hdata⟩, henough, hroom, hn⟩
    refine run_letter (by simp) ha hp List.not_mem_nil (run_letter (by simp) hb hq (not_padding_one hp.lt)
      (run_letter (by simp) hc hr (not_padding_two hp.lt hq.lt) ?_))
    exact run_end.mpr ⟨henough, .inr ⟨by simp, (quartetBytes_three (Nat.le_of_lt hr.lt)).mpr ⟨hp.lt, hq.lt, hr.lt, hbits, hdata⟩, hroom, hn⟩⟩

theorem run_four (ha : ¬Blank a) (hb : ¬Blank b) (hc : ¬Blank c) (he : ¬Blank e) :
    (held [] significant outputSize).run capacity (a :: b :: c :: e :: rest) = (written, some n) ↔
      ∃ p q r s data more, Symbol a p ∧ Symbol b q ∧ Symbol c r ∧ Symbol e s ∧ quartetBytes [p, q, r, s] = some data ∧
        data.length ≤ capacity - outputSize ∧ written = data ++ more ∧
        (behind [p, q, r, s] (significant + 4) (outputSize + data.length)).run capacity rest = (more, some n) := by
  constructor
  · intro h
    obtain ⟨p, hp, -, h⟩ := (run_held (by simp) ha).mp h
    obtain ⟨q, hq, -, h⟩ := (run_held (by simp) hb).mp h
    obtain ⟨r, hr, -, h⟩ := (run_held (by simp) hc).mp h
    obtain ⟨s, data, more, hs, -, hbytes, hroom, hwritten, hrun⟩ := (run_fourth (by simp) he).mp h
    exact ⟨p, q, r, s, data, more, hp, hq, hr, hs, hbytes, hroom, hwritten, hrun⟩
  · rintro ⟨p, q, r, s, data, more, hp, hq, hr, hs, hbytes, hroom, hwritten, hrun⟩
    obtain ⟨hp', hq', hcases⟩ := (quartetBytes_four hr.le hs.le).mp hbytes
    -- no letter follows a padding character, since the quartet is well formed
    have hthird : s ≠ 64 → 64 ∉ [p, q, r] := fun hne => not_padding_three hp' hq' (by omega)
    refine run_letter (by simp) ha (hp.letter hp') List.not_mem_nil (run_letter (by simp) hb (hq.letter hq') (not_padding_one hp')
      ((run_held (by simp) hc).mpr ⟨r, hr, fun _ => not_padding_two hp' hq', ?_⟩))
    exact (run_fourth (by simp) he).mpr ⟨s, data, more, hs, hthird, hbytes, hroom, hwritten, hrun⟩

theorem run_iff : ∀ {text written : Bytes} {significant outputSize : Nat}, outputSize ≤ capacity → (∀ ch ∈ text, ¬Blank ch) →
    ((held [] significant outputSize).run capacity text = (written, some n) ↔
      Encodes written text ∧ 16 ≤ significant + text.length ∧ outputSize + written.length ≤ capacity ∧ n = outputSize + written.length)
  | [], written, significant, outputSize, hout, _ => by
    rw [run_end, encodes_nil]
    constructor
    · rintro ⟨henough, ⟨-, rfl, rfl⟩ | ⟨-, hbytes, -⟩⟩
      · exact ⟨rfl, henough, hout, rfl⟩
      · cases hbytes
    · rintro ⟨rfl, henough, -, hn⟩
      exact ⟨henough, .inl ⟨rfl, rfl, hn⟩⟩
  | [a], written, significant, outputSize, hout, htext => by
    rw [run_held (by decide) (htext a (by simp))]
    constructor
    · rintro ⟨p, -, -, h⟩
      obtain ⟨-, ⟨hnil, -⟩ | ⟨hlength, -⟩⟩ := run_end.mp h
      · cases hnil
      · exact absurd rfl hlength
    · exact fun h => absurd h.1 not_encodes_one
  | [a, b], written, significant, outputSize, hout, htext => by
    rw [run_two (htext a (by simp)) (htext b (by simp)), Nat.le_sub_iff_add_le' hout]
    rfl
  | [a, b, c], written, significant, outputSize, hout, htext => by
    rw [run_three (htext a (by simp)) (htext b (by simp)) (htext c (by simp)), Nat.le_sub_iff_add_le' hout]
    rfl
  | a :: b :: c :: e :: rest, written, significant, outputSize, hout, htext => by
    have hrest : ∀ ch ∈ rest, ¬Blank ch := fun ch hch => htext ch (by simp [hch])
    have hlength : significant + (a :: b :: c :: e :: rest).length = significant + 4 + rest.length := by
      simp only [List.length_cons]
      omega
    rw [run_four (htext a (by simp)) (htext b (by simp)) (htext c (by simp)) (htext e (by simp)), encodes_four, hlength]
    constructor
    · rintro ⟨p, q, r, s, data, more, hp, hq, hr, hs, hbytes, hroom, rfl, hrun⟩
      have hout' : outputSize + data.length ≤ capacity := by omega
      obtain ⟨hp', hq', ⟨hr', hs', rfl⟩ | ⟨hr', rfl, hbits, rfl⟩ | ⟨rfl, rfl, hbits, rfl⟩⟩ := (quartetBytes_four hr.le hs.le).mp hbytes
      · rw [behind_letters hp' hq' hr' hs', run_iff hout' hrest] at hrun
        obtain ⟨hencodes, henough, hfits, hn⟩ := hrun
        refine ⟨.inl ⟨p, q, r, s, more, hp.letter hp', hq.letter hq', hr.letter hr', hs.letter hs', hencodes, rfl⟩, henough, ?_, ?_⟩
        · rw [List.length_append]
          omega
        · rw [List.length_append]
          omega
      · rw [behind_padding, run_closed hrest] at hrun
        obtain ⟨rfl, henough, rfl, hn⟩ := hrun
        rw [List.append_nil]
        exact ⟨.inr (.inl ⟨p, q, r, ⟨hp.letter hp', hq.letter hq', hr.letter hr', hbits, rfl⟩, hs.padding, rfl⟩), henough, hout', hn⟩
      · rw [behind_padding, run_closed hrest] at hrun
        obtain ⟨rfl, henough, rfl, hn⟩ := hrun
        rw [List.append_nil]
        exact ⟨.inr (.inr ⟨p, q, ⟨hp.letter hp', hq.letter hq', hbits, rfl⟩, hr.padding, hs.padding, rfl⟩), henough, hout', hn⟩
    · rintro ⟨⟨p, q, r, s, more, hp, hq, hr, hs, hencodes, rfl⟩ | ⟨p, q, r, ⟨hp, hq, hr, hbits, rfl⟩, rfl, rfl⟩ |
        ⟨p, q, ⟨hp, hq, hbits, rfl⟩, rfl, rfl, rfl⟩, henough, hfits, hn⟩
      · simp only [List.length_cons] at hfits hn
        have hout' : outputSize + [firstByte p q, secondByte q r, thirdByte r s].length ≤ capacity := by
          simp only [List.length_cons, List.length_nil]
          omega
        refine ⟨p, q, r, s, [firstByte p q, secondByte q r, thirdByte r s], more, .inr hp, .inr hq, .inr hr, .inr hs, ?_, by omega, rfl, ?_⟩
        · exact (quartetBytes_four (Nat.le_of_lt hr.lt) (Nat.le_of_lt hs.lt)).mpr ⟨hp.lt, hq.lt, .inl ⟨hr.lt, hs.lt, rfl⟩⟩
        · rw [behind_letters hp.lt hq.lt hr.lt hs.lt, run_iff hout' hrest]
          simp only [List.length_cons, List.length_nil] at hout' ⊢
          exact ⟨hencodes, henough, by omega, by omega⟩
      · refine ⟨p, q, r, 64, [firstByte p q, secondByte q r], [], .inr hp, .inr hq, .inr hr, .inl ⟨rfl, rfl⟩, ?_, by omega, rfl, ?_⟩
        · exact (quartetBytes_four (Nat.le_of_lt hr.lt) (Nat.le_refl 64)).mpr ⟨hp.lt, hq.lt, .inr (.inl ⟨hr.lt, rfl, hbits, rfl⟩)⟩
        · rw [behind_padding, run_closed hrest]
          exact ⟨rfl, henough, rfl, hn⟩
      · refine ⟨p, q, 64, 64, [firstByte p q], [], .inr hp, .inr hq, .inl ⟨rfl, rfl⟩, .inl ⟨rfl, rfl⟩, ?_, by omega, rfl, ?_⟩
        · exact (quartetBytes_four (Nat.le_refl 64) (Nat.le_refl 64)).mpr ⟨hp.lt, hq.lt, .inr (.inr ⟨rfl, rfl, hbits, rfl⟩)⟩
        · rw [behind_padding, run_closed hrest]
          exact ⟨rfl, henough, rfl, hn⟩

/-! ### Buffers -/

theorem Buffer.put_append (output : Buffer) (offset : Nat) (first second : Bytes) :
    (output.put offset first).put (offset + first.length) second = output.put offset (first ++ second) := by
  have hworkspace := Workspace.write_append (fun _ => output) .a offset first second
  exact congrFun hworkspace .a

theorem Buffer.range_put (output : Buffer) (data : Bytes) : (List.range data.length).map (output.put 0 data) = data := by
  refine List.ext_getElem (by simp) fun i h₁ h₂ => ?_
  rw [List.getElem_map, List.getElem_range]
  unfold Buffer.put
  rw [if_pos ⟨Nat.zero_le i, by omega⟩, Nat.sub_zero, List.getD_eq_getElem _ _ h₂]

theorem Decoder.step_outputSize {d next : Decoder} (h : (d.step capacity ch).2 = some next) :
    next.outputSize = d.outputSize + (d.step capacity ch).1.length := by
  unfold Decoder.step at h ⊢
  split
  · rename_i hblank
    rw [if_pos hblank, Option.some.injEq] at h
    exact h ▸ rfl
  · rename_i hblank
    rw [if_neg hblank] at h
    cases htake : d.take ch with
    | none =>
      rw [htake] at h
      cases h
    | some e =>
      obtain ⟨-, -, hout⟩ := Decoder.take_eq htake
      rw [htake] at h
      dsimp only at h ⊢
      by_cases hfull : e.quartet.length ≠ 4
      · rw [if_pos hfull, Option.some.injEq] at h
        rw [if_pos hfull, ← h]
        exact hout
      · rw [if_neg hfull] at h ⊢
        dsimp only at h ⊢
        split at h
        · cases h
          exact congrArg (· + _) hout
        · cases h

theorem decodeLoopInto_eq (input : Bytes) (d : Decoder) (output : Buffer) : decodeLoopInto capacity input d output =
    ((d.run capacity input).2, output.put d.outputSize (d.run capacity input).1) := by
  induction input generalizing d output with
  | nil => rfl
  | cons ch rest ih =>
    rw [decodeLoopInto, Decoder.run]
    dsimp only
    cases hnext : (d.step capacity ch).2 with
    | none => rfl
    | some next =>
      dsimp only
      rw [ih, Decoder.step_outputSize hnext, Buffer.put_append]

theorem not_blank_of_significant (input : Bytes) : ∀ ch ∈ significantOf input, ¬Blank ch := fun _ hch =>
  of_decide_eq_true (List.mem_filter.mp hch).2

theorem run_start_iff : Decoder.start.run capacity input = (written, some n) ↔ Encodes written (significantOf input) ∧
    16 ≤ (significantOf input).length ∧ written.length ≤ capacity ∧ n = written.length := by
  rw [Decoder.run_significant]
  have hiff : (held [] 0 0).run capacity (significantOf input) = (written, some n) ↔ _ :=
    run_iff (Nat.zero_le capacity) (not_blank_of_significant input)
  rw [Nat.zero_add, Nat.zero_add] at hiff
  exact hiff

/-- `decode_base64` returns with bytes exactly for their encodings, of sixteen characters or more besides the blanks, if they have
    room in the buffer. -/
theorem decodeBase64Into_iff (input : Bytes) (capacity : Nat) (output : Buffer) (data : Bytes) (size : Nat) :
    ((decodeBase64Into input capacity output).1 = some size ∧ (List.range size).map (decodeBase64Into input capacity output).2 = data) ↔
      Encodes data (significantOf input) ∧ 16 ≤ (significantOf input).length ∧ data.length ≤ capacity ∧ size = data.length := by
  unfold decodeBase64Into
  by_cases hcapacity : capacity = 0
  · rw [if_pos hcapacity]
    refine ⟨fun h => (nomatch h.1), fun ⟨hencodes, henough, hroom, _⟩ => ?_⟩
    obtain rfl : data = [] := List.eq_nil_of_length_eq_zero (by omega)
    generalize significantOf input = text at hencodes henough
    cases hencodes
    exact absurd henough (by decide)
  · rw [if_neg hcapacity, decodeLoopInto_eq, ← run_start_iff]
    dsimp only [Decoder.start]
    rcases hrun : Decoder.run capacity input ⟨[], 0, false, false, 0⟩ with ⟨written, _ | n⟩
    · exact ⟨fun h => (nomatch h.1), fun h => (nomatch h)⟩
    · obtain ⟨-, -, -, hn⟩ := run_start_iff.mp hrun
      rw [Prod.mk.injEq, Option.some.injEq]
      constructor
      · rintro ⟨rfl, hdata⟩
        refine ⟨?_, rfl⟩
        rw [← hdata, hn]
        exact (Buffer.range_put output written).symm
      · rintro ⟨rfl, rfl⟩
        refine ⟨rfl, ?_⟩
        rw [hn]
        exact Buffer.range_put output written

end ZenovOS.Security.Inspection
