import ZenovOS.Lib.Bytes

/-! # Base64

The encoding of RFC 4648: three bytes are four letters of six bits, and the bits that the last letter has too many are zero.
A letter comes from the standard alphabet (§4) or from the one for file names (§5), and the padding may be left out. -/

namespace ZenovOS.Base64
open Bytes

def standard : Bytes := ascii "ABCDEFGHIJKLMNOPQRSTUVWXYZabcdefghijklmnopqrstuvwxyz0123456789+/"

def urlSafe : Bytes := ascii "ABCDEFGHIJKLMNOPQRSTUVWXYZabcdefghijklmnopqrstuvwxyz0123456789-_"

/-- The letter stands for the value in one of the alphabets. -/
def Letter (letter : UInt8) (value : Nat) : Prop := standard[value]? = some letter ∨ urlSafe[value]? = some letter

/-- The text encodes the bytes. -/
inductive Encodes : Bytes → Bytes → Prop
  | nil : Encodes [] []
  | one {a b : UInt8} {padding : Bytes} (x : UInt8) : Letter a (x.toNat / 4) → Letter b (x.toNat % 4 * 16) →
      padding = [] ∨ padding = [61, 61] → Encodes [x] (a :: b :: padding)
  | two {a b c : UInt8} {padding : Bytes} (x y : UInt8) : Letter a (x.toNat / 4) → Letter b (x.toNat % 4 * 16 + y.toNat / 16) →
      Letter c (y.toNat % 16 * 4) → padding = [] ∨ padding = [61] → Encodes [x, y] (a :: b :: c :: padding)
  | three {a b c d : UInt8} {rest text : Bytes} (x y z : UInt8) : Letter a (x.toNat / 4) →
      Letter b (x.toNat % 4 * 16 + y.toNat / 16) → Letter c (y.toNat % 16 * 4 + z.toNat / 64) → Letter d (z.toNat % 64) →
      Encodes rest text → Encodes (x :: y :: z :: rest) (a :: b :: c :: d :: text)

variable {a b c d letter : UInt8} {p q r s value : Nat} {data text : Bytes}

theorem Letter.lt (h : Letter letter value) : value < 64 := by
  have hs : standard.length = 64 := by decide
  have hu : urlSafe.length = 64 := by decide
  rcases h with h | h
  · exact hs ▸ (List.getElem?_eq_some_iff.mp h).1
  · exact hu ▸ (List.getElem?_eq_some_iff.mp h).1

/-! ### Bytes from letters -/

def firstByte (p q : Nat) : UInt8 := UInt8.ofNat (p * 4 + q / 16)

def secondByte (q r : Nat) : UInt8 := UInt8.ofNat (q * 16 + r / 4)

def thirdByte (r s : Nat) : UInt8 := UInt8.ofNat (r * 64 + s)

theorem firstByte_bits (hp : p < 64) (hq : q < 64) : (firstByte p q).toNat / 4 = p ∧ (firstByte p q).toNat % 4 = q / 16 := by
  unfold firstByte
  rw [UInt8.toNat_ofNat']
  omega

theorem secondByte_bits (hr : r < 64) : (secondByte q r).toNat / 16 = q % 16 ∧ (secondByte q r).toNat % 16 = r / 4 := by
  unfold secondByte
  rw [UInt8.toNat_ofNat']
  omega

theorem thirdByte_bits (hs : s < 64) : (thirdByte r s).toNat / 64 = r % 4 ∧ (thirdByte r s).toNat % 64 = s := by
  unfold thirdByte
  rw [UInt8.toNat_ofNat']
  omega

theorem firstByte_eq (x : UInt8) (hq : q / 16 = x.toNat % 4) : firstByte (x.toNat / 4) q = x := by
  unfold firstByte
  rw [hq, ← UInt8.toNat_inj, UInt8.toNat_ofNat']
  have hx := x.toNat_lt
  omega

theorem secondByte_eq (y : UInt8) (hq : q % 16 = y.toNat / 16) (hr : r / 4 = y.toNat % 16) : secondByte q r = y := by
  unfold secondByte
  rw [hr, ← UInt8.toNat_inj, UInt8.toNat_ofNat']
  have hy := y.toNat_lt
  omega

theorem thirdByte_eq (z : UInt8) (hr : r % 4 = z.toNat / 64) : thirdByte r (z.toNat % 64) = z := by
  unfold thirdByte
  rw [← UInt8.toNat_inj, UInt8.toNat_ofNat']
  have hz := z.toNat_lt
  omega

/-! ### Texts by their letters -/

theorem encodes_nil : Encodes data [] ↔ data = [] := by
  constructor
  · rintro ⟨⟩
    rfl
  · rintro rfl
    exact .nil

theorem not_encodes_one : ¬Encodes data [a] := by
  rintro ⟨⟩

/-- The letters of one byte; the bits that are left over are zero. -/
structure One (a b : UInt8) (data : Bytes) (p q : Nat) : Prop where
  first : Letter a p
  second : Letter b q
  bits : q % 16 = 0
  data : data = [firstByte p q]

/-- The letters of two bytes. -/
structure Two (a b c : UInt8) (data : Bytes) (p q r : Nat) : Prop where
  first : Letter a p
  second : Letter b q
  third : Letter c r
  bits : r % 4 = 0
  data : data = [firstByte p q, secondByte q r]

theorem One.encodes {padding : Bytes} (h : One a b data p q) (hpadding : padding = [] ∨ padding = [61, 61]) :
    Encodes data (a :: b :: padding) := by
  obtain ⟨ha, hb, hbits, rfl⟩ := h
  obtain ⟨h₁, h₂⟩ := firstByte_bits ha.lt hb.lt
  refine .one _ (h₁.symm ▸ ha) ?_ hpadding
  rw [h₂, show q / 16 * 16 = q by omega]
  exact hb

theorem Two.encodes {padding : Bytes} (h : Two a b c data p q r) (hpadding : padding = [] ∨ padding = [61]) :
    Encodes data (a :: b :: c :: padding) := by
  obtain ⟨ha, hb, hc, hbits, rfl⟩ := h
  obtain ⟨h₁, h₂⟩ := firstByte_bits ha.lt hb.lt
  obtain ⟨h₃, h₄⟩ := secondByte_bits (q := q) hc.lt
  refine .two _ _ (h₁.symm ▸ ha) ?_ ?_ hpadding
  · rw [h₂, h₃, show q / 16 * 16 + q % 16 = q by omega]
    exact hb
  · rw [h₄, show r / 4 * 4 = r by omega]
    exact hc

theorem encodes_two : Encodes data [a, b] ↔ ∃ p q, One a b data p q := by
  constructor
  · intro h
    cases h with
    | one x ha hb => exact ⟨_, _, ha, hb, by omega, by rw [firstByte_eq x (by omega)]⟩
  · rintro ⟨p, q, h⟩
    exact h.encodes (.inl rfl)

theorem encodes_three : Encodes data [a, b, c] ↔ ∃ p q r, Two a b c data p q r := by
  constructor
  · intro h
    cases h with
    | one x ha hb hpadding => simp at hpadding
    | two x y ha hb hc =>
      have hy := y.toNat_lt
      exact ⟨_, _, _, ha, hb, hc, by omega, by rw [firstByte_eq x (by omega), secondByte_eq y (by omega) (by omega)]⟩
  · rintro ⟨p, q, r, h⟩
    exact h.encodes (.inl rfl)

theorem encodes_four : Encodes data (a :: b :: c :: d :: text) ↔
    (∃ p q r s rest, Letter a p ∧ Letter b q ∧ Letter c r ∧ Letter d s ∧ Encodes rest text ∧
      data = firstByte p q :: secondByte q r :: thirdByte r s :: rest) ∨
    (∃ p q r, Two a b c data p q r ∧ d = 61 ∧ text = []) ∨ (∃ p q, One a b data p q ∧ c = 61 ∧ d = 61 ∧ text = []) := by
  constructor
  · intro h
    cases h with
    | one x ha hb hpadding =>
      simp only [List.cons.injEq, reduceCtorEq, false_or] at hpadding
      exact .inr (.inr ⟨_, _, ⟨ha, hb, by omega, by rw [firstByte_eq x (by omega)]⟩, hpadding⟩)
    | two x y ha hb hc hpadding =>
      simp only [List.cons.injEq, reduceCtorEq, false_or] at hpadding
      have hy := y.toNat_lt
      exact .inr (.inl ⟨_, _, _, ⟨ha, hb, hc, by omega, by rw [firstByte_eq x (by omega), secondByte_eq y (by omega) (by omega)]⟩,
        hpadding⟩)
    | three x y z ha hb hc hd hrest =>
      have hy := y.toNat_lt
      have hz := z.toNat_lt
      refine .inl ⟨_, _, _, _, _, ha, hb, hc, hd, hrest, ?_⟩
      rw [firstByte_eq x (by omega), secondByte_eq y (by omega) (by omega), thirdByte_eq z (by omega)]
  · rintro (⟨p, q, r, s, rest, ha, hb, hc, hd, hrest, rfl⟩ | ⟨p, q, r, h, rfl, rfl⟩ | ⟨p, q, h, rfl, rfl, rfl⟩)
    · obtain ⟨h₁, h₂⟩ := firstByte_bits ha.lt hb.lt
      obtain ⟨h₃, h₄⟩ := secondByte_bits (q := q) hc.lt
      obtain ⟨h₅, h₆⟩ := thirdByte_bits (r := r) hd.lt
      refine .three _ _ _ (h₁.symm ▸ ha) ?_ ?_ (h₆.symm ▸ hd) hrest
      · rw [h₂, h₃, show q / 16 * 16 + q % 16 = q by omega]
        exact hb
      · rw [h₄, h₅, show r / 4 * 4 + r % 4 = r by omega]
        exact hc
    · exact h.encodes (.inr rfl)
    · exact h.encodes (.inr rfl)

end ZenovOS.Base64
