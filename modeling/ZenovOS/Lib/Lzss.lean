import Mathlib.Tactic.Ring

/-! # Copies of what was written

A text is written symbol by symbol, or by a copy of what stands some distance behind the end; a copy may overlap
itself. Tokens that describe a text, one after the other, give it back. -/

namespace ZenovOS.Lzss
variable {α : Type}

/-- `length` symbols more, each the one that lies `distance` behind the end. -/
def copyBack [Inhabited α] (distance : Nat) : Nat → List α → List α
  | 0, output => output
  | length + 1, output => copyBack distance length (output ++ [output.getD (output.length - distance) default])

inductive Token (α : Type)
  | literal (a : α)
  | copy (distance length : Nat)

/-- How many symbols a token stands for. -/
def Token.size : Token α → Nat
  | literal _ => 1
  | copy _ length => length

def Token.apply [Inhabited α] (output : List α) : Token α → List α
  | literal a => output ++ [a]
  | copy distance length => copyBack distance length output

/-- The token stands for what the text has at a position. -/
def Token.Describes (text : List α) (position : Nat) : Token α → Prop
  | literal a => text[position]? = some a
  | copy distance length => 0 < distance ∧ distance ≤ position ∧ position + length ≤ text.length ∧
      ∀ k < length, text[position - distance + k]? = text[position + k]?

/-- Tokens that describe the text from one position to another. -/
inductive Parses (text : List α) : Nat → List (Token α) → Nat → Prop
  | nil (position : Nat) : Parses text position [] position
  | cons {position stop : Nat} {token : Token α} {tokens : List (Token α)} :
      token.Describes text position → Parses text (position + token.size) tokens stop → Parses text position (token :: tokens) stop

variable {text : List α} {position stop distance length : Nat} {tokens : List (Token α)} {token : Token α}

theorem copyBack_take [Inhabited α] (hdistance : 0 < distance) (hle : distance ≤ position) (hlen : position + length ≤ text.length)
    (hsame : ∀ k < length, text[position - distance + k]? = text[position + k]?) :
    copyBack distance length (text.take position) = text.take (position + length) := by
  induction length generalizing position with
  | zero => rfl
  | succ length ih =>
    have hposition : position < text.length := by omega
    have hlength : (text.take position).length = position := List.length_take_of_le (Nat.le_of_lt hposition)
    have hread : (text.take position).getD (position - distance) default = text[position] := by
      have hhead := hsame 0 (Nat.succ_pos length)
      rw [Nat.add_zero, Nat.add_zero, List.getElem?_eq_getElem hposition] at hhead
      rw [List.getD_eq_getElem?_getD, List.getElem?_take_of_lt (by omega), hhead]
      rfl
    have hnext : text.take position ++ [text[position]] = text.take (position + 1) := (List.take_succ_eq_append_getElem hposition).symm
    rw [copyBack, hlength, hread, hnext]
    have htail : copyBack distance length (text.take (position + 1)) = text.take (position + 1 + length) := ih (by omega) (by omega) fun k hk => by
      have hk := hsame (k + 1) (by omega)
      rwa [show position - distance + (k + 1) = position + 1 - distance + k by omega,
        show position + (k + 1) = position + 1 + k by omega] at hk
    rw [htail, Nat.add_assoc, Nat.add_comm 1 length]

theorem Token.Describes.apply [Inhabited α] (h : token.Describes text position) :
    token.apply (text.take position) = text.take (position + token.size) := by
  cases token with
  | literal a =>
    obtain ⟨hposition, rfl⟩ := List.getElem?_eq_some_iff.mp h
    exact (List.take_succ_eq_append_getElem hposition).symm
  | copy distance length =>
    obtain ⟨hdistance, hle, hlen, hsame⟩ := h
    exact copyBack_take hdistance hle hlen hsame

theorem Token.Describes.stop_le (h : token.Describes text position) : position + token.size ≤ text.length := by
  cases token with
  | literal a => exact (List.getElem?_eq_some_iff.mp h).1
  | copy distance length => exact h.2.2.1

theorem Parses.le (h : Parses text position tokens stop) : position ≤ stop := by
  induction h with
  | nil => exact Nat.le_refl _
  | cons _ _ ih => exact Nat.le_trans (Nat.le_add_right _ _) ih

end ZenovOS.Lzss
