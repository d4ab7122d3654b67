import ZenovOS.Lib.Decimal

/-! # The configuration compiler

`zenov_stage0`: the string literals of its source, `lexer.inc`, and the text that the generated header has for one, `validate.inc`. -/

namespace ZenovOS.Stage0
open Bytes

/-- `line_` and `column_` of the lexer -/
structure Position where
  line : Nat
  column : Nat
  deriving DecidableEq

/-- The position behind a character that is taken. -/
def Position.take (position : Position) (c : UInt8) : Position :=
  if c = 10 then ⟨position.line + 1, 1⟩ else ⟨position.line, position.column + 1⟩

/-- The text that `fail` throws. -/
def failure (position : Position) (message : Bytes) : Bytes :=
  decimal position.line ++ ascii ":" ++ decimal position.column ++ ascii ": " ++ message

/-- The character that an escape of the source means. -/
def escaped (e : UInt8) : Option UInt8 :=
  if e = 110 then some 10
  else if e = 114 then some 13
  else if e = 116 then some 9
  else if e = 48 then some 0
  else if e = 92 then some 92
  else if e = 34 then some 34
  else none

/-- The loop over a string literal behind its first quote; `start` is where the literal starts and `text` what was read. -/
def stringLiteral (start : Position) : Bytes → Position → Bytes → Except Bytes (Bytes × Bytes × Position)
  | [], _, _ => .error (failure start (ascii "unterminated string literal"))
  | c :: rest, position, text =>
    if c = 34 then .ok (text, rest, position.take c)
    else if c = 10 ∨ c = 13 then .error (failure start (ascii "newline in string literal"))
    else if c = 92 then
      match rest with
      | [] => .error (failure start (ascii "unterminated escape"))
      | e :: rest =>
        match escaped e with
        | some value => stringLiteral start rest ((position.take c).take e) (text ++ [value])
        | none => .error (failure ((position.take c).take e) (ascii "unsupported escape \\" ++ [e]))
    else stringLiteral start rest (position.take c) (text ++ [c])

/-- A hexadecimal digit of four bits. -/
def hexDigit (nibble : UInt8) : UInt8 := (ascii "0123456789ABCDEF").getD nibble.toNat 0

/-- One round of the loop of `cpp_escape`. -/
def cppEscapeByte (c : UInt8) : Bytes :=
  if c = 92 then ascii "\\\\"
  else if c = 34 then ascii "\\\""
  else if c = 10 then ascii "\\n"
  else if c = 13 then ascii "\\r"
  else if c = 9 then ascii "\\t"
  else if c = 0 then ascii "\\0"
  else if c < 32 ∨ 126 < c then ascii "\\x" ++ [hexDigit (c >>> 4 &&& 0xF), hexDigit (c &&& 0xF)]
  else [c]

def cppEscape (input : Bytes) : Bytes := input.flatMap cppEscapeByte

end ZenovOS.Stage0
