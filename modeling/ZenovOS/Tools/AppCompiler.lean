import ZenovOS.Lib.Decimal
import ZenovOS.Lib.Text

/-! # The compiler of source programs

`zenov_app_compiler.cpp`: the statements of a program, and the ZEX image that is emitted for them. An error is the text that the program
prints for it. -/

namespace ZenovOS.AppCompiler
open Bytes

/-- A message with the place of its offset in the code. -/
structure Say where
  text : Bytes
  patch : Nat
  deriving DecidableEq

def trim (value : Bytes) : Bytes := Text.trim (fun c => c = 32 || c = 9 || c = 13) value

/-- The character that an escape means. -/
def escaped (e : UInt8) : Option UInt8 :=
  if e = 110 then some 10
  else if e = 114 then some 13
  else if e = 116 then some 9
  else if e = 92 ∨ e = 34 then some e
  else none

/-- The loop over a string behind its first quote: the string, and what follows the closing quote if there is one. -/
def scanString : Bytes → Bytes → Except Bytes (Bytes × Option Bytes)
  | [], out => .ok (out, none)
  | c :: rest, out =>
    if c = 34 then .ok (out, some rest)
    else if c = 92 then
      match rest with
      | [] => .error (ascii "unterminated escape")
      | e :: rest =>
        match escaped e with
        | some value => scanString rest (out ++ [value])
        | none => .error (ascii "unsupported escape")
    else scanString rest (out ++ [c])

def quoted (line keyword : Bytes) : Except Bytes Bytes :=
  if !keyword.isPrefixOf line ∨ line.length < keyword.length + 3 ∨ line.getLast? ≠ some 59 then
    .error (ascii "unsupported ZenovOS app statement: " ++ line)
  else
    match line.drop keyword.length with
    | 40 :: 34 :: rest =>
      match scanString rest [] with
      | .error message => .error message
      | .ok (out, after) =>
        if after ≠ some (ascii ");") then .error (ascii "malformed call: " ++ line)
        else if 4096 < out.length then .error (ascii "string literal too large")
        else .ok out
    | _ => .error (ascii "expected quoted string: " ++ line)

def isSpace (c : UInt8) : Bool := c = 32 || (9 ≤ c && c ≤ 13)
def isDigit (c : UInt8) : Bool := 48 ≤ c && c ≤ 57

/-- `std::stol` with base 10: the number, and how many characters were used for it. -/
def stol (text : Bytes) : Option (Int × Nat) :=
  let signed := text.dropWhile isSpace
  let (negative, unsigned) :=
    match signed with
    | 43 :: rest => (false, rest)
    | 45 :: rest => (true, rest)
    | _ => (false, signed)
  let digits := unsigned.takeWhile isDigit
  let value : Int := if negative then -(Decimal.number 0 digits : Int) else Decimal.number 0 digits
  if digits = [] then none
  else if value < -2 ^ 63 ∨ 2 ^ 63 ≤ value then none
  else some (value, text.length - (unsigned.length - digits.length))

/-- The code of an exit statement. -/
def exitStatement (line : Bytes) : Except Bytes Nat :=
  if !(ascii "exit(").isPrefixOf line ∨ line.length < 8 ∨ line.drop (line.length - 2) ≠ ascii ");" then
    .error (ascii "malformed exit statement")
  else
    let number := slice line 5 (line.length - 7)
    match stol number with
    | none => .error (ascii "stol")
    | some (parsed, used) =>
      if used ≠ number.length ∨ parsed < 0 ∨ 255 < parsed then .error (ascii "exit code must be 0..255") else .ok parsed.toNat

/-! ### The statements -/

/-- What the loop over the lines keeps: `name`, `messages`, `exit_code` and `have_exit`. -/
structure Collected where
  name : Bytes
  messages : List Bytes
  exitCode : Nat
  haveExit : Bool
  deriving DecidableEq

/-- An empty line, or one with a comment. -/
def skipped (line : Bytes) : Bool := line = [] || (ascii "//").isPrefixOf line || line.head? = some 35

/-- One round of the loop. -/
def collect (c : Collected) (text : Bytes) : Except Bytes Collected :=
  let line := trim text
  if skipped line then .ok c
  else if (ascii "app").isPrefixOf line then
    if c.name ≠ [] then .error (ascii "duplicate app declaration")
    else (quoted line (ascii "app")).map fun name => { c with name }
  else if (ascii "say").isPrefixOf line then
    (quoted line (ascii "say")).map fun message => { c with messages := c.messages ++ [message] }
  else if (ascii "exit").isPrefixOf line then
    (exitStatement line).map fun exitCode => { c with exitCode, haveExit := true }
  else .error (ascii "unsupported ZenovOS app statement: " ++ line)

def collectAll : List Bytes → Collected → Except Bytes Collected
  | [], c => .ok c
  | text :: rest, c =>
    match collect c text with
    | .error message => .error message
    | .ok c => collectAll rest c

/-! ### The image -/

/-- The loop that emits a call for every message, with a zero for the offset. -/
def emitCalls : List Bytes → Bytes → List Say → Bytes × List Say
  | [], image, patches => (image, patches)
  | message :: rest, image, patches =>
    let image := image ++ [0xB8] ++ le 4 1 ++ [0xBB]
    let patch := image.length
    let image := image ++ le 4 0 ++ [0xB9] ++ le 4 message.length ++ [0xCD, 0x80]
    emitCalls rest image (patches ++ [⟨message, patch⟩])

/-- What is emitted behind the calls. -/
def emitExit (exitCode : Nat) : Bytes := [0xBB] ++ le 4 exitCode ++ [0xB8] ++ le 4 0 ++ [0xCD, 0x80, 0x0F, 0x0B]

/-- `patch_u32`; outside of the image `at` throws. -/
def patchU32 (out : Bytes) (at_ value : Nat) : Option Bytes :=
  if at_ + 4 ≤ out.length then some (overwrite out at_ (le 4 value)) else none

/-- The loop that puts the messages behind the code. -/
def placeMessages : List Say → Bytes → Option Bytes
  | [], image => some image
  | item :: rest, image =>
    match patchU32 image item.patch image.length with
    | none => none
    | some image => placeMessages rest (image ++ item.text)

/-- The image, behind the checks. -/
def emit (messages : List Bytes) (exitCode : Nat) : Option Bytes :=
  let (image, patches) := emitCalls messages [] []
  placeMessages patches (image ++ emitExit exitCode)

/-- `compile`: the name and the image. The text of the error that `at` throws is the library's. -/
def compile (source : Bytes) : Except Bytes (Bytes × Bytes) :=
  match collectAll (Text.lines 10 source) ⟨[], [], 0, false⟩ with
  | .error message => .error message
  | .ok c =>
    if c.name = [] then .error (ascii "missing app declaration")
    else if c.messages = [] then .error (ascii "app must emit at least one message")
    else if !c.haveExit then .error (ascii "missing exit statement")
    else
      match emit c.messages c.exitCode with
      | none => .error (ascii "vector::_M_range_check")
      | some image => .ok (c.name, image)

def fnv1a (data : Bytes) : UInt32 := data.foldl (fun hash byte => (hash ^^^ byte.toUInt32) * 16777619) 2166136261

/-- What `main` writes to the file: the header and the image. -/
def zexFile (image : Bytes) : Bytes :=
  ascii "ZEX1" ++ le 4 1 ++ le 4 32 ++ le 4 image.length ++ le 4 0 ++ le 4 0 ++ le 4 16384 ++
    le 4 (fnv1a image).toNat ++ image

end ZenovOS.AppCompiler
