import ZenovOS.Productivity.Text

/-! # The shell's input

The integers of `input_v2.inc`, the command `calc` of `commands.inc` that reads them, and the numbers `core.inc` writes. -/

namespace ZenovOS.Shell

/-! ### Integers -/

/-- A 32-bit integer from what its operation gives. -/
def i32 (n : Int) : Int := n.bmod (2 ^ 32)

/-- What ends a command other than a return. -/
inductive Fault where
  /-- A byte behind the terminator was read. -/
  | overread
  /-- The processor's divide error. -/
  | divideError
deriving DecidableEq

def isSpace (c : UInt8) : Bool := c == 32 || c == 9

def isDigit (c : UInt8) : Bool := 48 ≤ c && c ≤ 57

/-- `*text`, where `text` is the rest of a string with its terminator. -/
def deref (text : Bytes) : Except Fault UInt8 :=
  match text with
  | [] => .error .overread
  | c :: _ => .ok c

/-- `while (is_space(*text)) ++text` -/
def skipSpaces : Bytes → Except Fault Bytes
  | [] => .error .overread
  | c :: text => if isSpace c then skipSpaces text else .ok (c :: text)

/-- The digits, into 32 bits. -/
def readDigits : Nat → Bytes → Except Fault (Nat × Bytes)
  | _, [] => .error .overread
  | result, c :: text => if isDigit c then readDigits ((result * 10 + (c.toNat - 48)) % 2 ^ 32) text else .ok (result, c :: text)

/-- The value, if there is one, and where `text` points to then. -/
def parseI32 (text : Bytes) : Except Fault (Option Int × Bytes) := do
  let text ← skipSpaces text
  let sign ← deref text
  let negative := sign = 45
  let text := if sign = 45 ∨ sign = 43 then text.drop 1 else text
  let first ← deref text
  if !isDigit first then pure (none, text)
  else do
    let (result, text) ← readDigits 0 text
    pure (some (if negative then i32 (-i32 result) else i32 result), text)

/-! ### The command `calc` -/

/-- `console::unsigned_dec` -/
def unsignedDec (value : Nat) : Bytes := (Productivity.reverseDigits 11 value).reverse

/-- `console::signed_dec`: the magnitude of the least integer fits into `uint32_t` only. -/
def signedDec (value : Int) : Bytes :=
  if value < 0 then 45 :: unsignedDec ((-(value + 1)).toNat + 1) else unsignedDec value.toNat

inductive Reply where
  | warning (text : String)
  | line (text : Bytes)
deriving DecidableEq

def printResult (result : Int) : Reply := .line (ascii "Result: " ++ signedDec result ++ [10])

/-- `left / right` and `left % right`, with the quotient in 32 bits -/
def divide (operation : Int → Int → Int) (left right : Int) (byZero : String) : Except Fault Reply :=
  if right = 0 then .ok (.warning byZero)
  else if left = -2 ^ 31 ∧ right = -1 then .error .divideError
  else .ok (printResult (operation left right))

def calculate (operation : UInt8) (left right : Int) : Except Fault Reply :=
  if operation = 43 then .ok (printResult (i32 (left + right)))
  else if operation = 45 then .ok (printResult (i32 (left - right)))
  else if operation = 42 then .ok (printResult (i32 (left * right)))
  else if operation = 47 then divide Int.tdiv left right "Division by zero is not allowed."
  else if operation = 37 then divide Int.tmod left right "Modulo by zero is not allowed."
  else .ok (.warning "Unsupported operator.")

/-- `command_calc`, of a string with its terminator -/
def commandCalc (args : Bytes) : Except Fault Reply := do
  let (left, args) ← parseI32 args
  match left with
  | none => pure (.warning "Usage: calc <integer> <+|-|*|/|%> <integer>")
  | some left =>
    let args ← skipSpaces args
    let operation ← deref args
    let (right, _) ← parseI32 (args.drop 1)
    match right with
    | none => pure (.warning "The right operand is invalid.")
    | some right => calculate operation left right

end ZenovOS.Shell

/-! ## The shell's line editor

`read_line` of `input_v2.inc` with its history, its draft and the completion of commands. The limits and the static commands are those of the
generated configuration, with the bounds its generator checks. -/

namespace ZenovOS.Shell

open Bytes

/-- `zenov_generated` -/
structure Config where
  lineCapacity : Nat
  historyCapacity : Nat
  staticCommands : List Bytes
  line_bounds : 128 ≤ lineCapacity ∧ lineCapacity ≤ 1024
  history_bounds : 16 ≤ historyCapacity ∧ historyCapacity ≤ 256
  memory : lineCapacity * historyCapacity ≤ 128 * 1024
  names : ∀ name ∈ staticCommands, 0 ∉ name

/-- The string in an array. -/
def cString (array : Bytes) : Bytes := array.takeWhile (· ≠ 0)

/-- `string_copy` into an array -/
def stringCopy (destination source : Bytes) (capacity : Nat) : Bytes :=
  if capacity = 0 then destination else overwrite destination 0 (source.take (capacity - 1) ++ [0])

/-! ### The history -/

section
variable (config : Config)

/-- `shell_history` and `shell_history_count`: each slot has a string that fits. -/
structure History where
  slot : Nat → Bytes
  count : Nat
  fits : ∀ i, (slot i).length < config.lineCapacity
  noNul : ∀ i, 0 ∉ slot i

end

section
variable {config : Config}

/-- `history_add`, of a string without its terminator -/
def History.add (history : History config) (line : Bytes) (noNul : 0 ∉ line) : History config :=
  if line = [] then history
  else if history.count ≠ 0 ∧ history.slot ((history.count - 1) % config.historyCapacity) = line then history
  else
    { slot := Function.update history.slot (history.count % config.historyCapacity) (line.take (config.lineCapacity - 1))
      count := history.count + 1
      fits := by
        have hline := config.line_bounds.1
        intro i
        rcases eq_or_ne i (history.count % config.historyCapacity) with rfl | hne
        · rw [Function.update_self, List.length_take]
          omega
        · rw [Function.update_of_ne hne]
          exact history.fits i
      noNul := by
        intro i
        rcases eq_or_ne i (history.count % config.historyCapacity) with rfl | hne
        · rw [Function.update_self]
          exact fun h => noNul (List.mem_of_mem_take h)
        · rw [Function.update_of_ne hne]
          exact history.noNul i }

/-- How many lines back the history reaches. -/
def History.available (history : History config) : Nat := min history.count config.historyCapacity

def History.oldest (history : History config) : Nat := history.count - history.available

end

/-! ### The edited line -/

/-- The locals of `read_line`. `buffer` is the whole array, `draft` the string in its array. -/
structure Editor where
  buffer : Bytes
  length : Nat
  cursor : Nat
  viewStart : Nat
  navigation : Nat
  draft : Bytes
  draftSaved : Bool
deriving DecidableEq

/-- `visible` cells of the screen show the line. -/
def keepCursorVisible (cursor visible viewStart : Nat) : Nat :=
  if visible = 0 then cursor
  else if cursor < viewStart then cursor
  else if cursor ≥ viewStart + visible then cursor - visible + 1
  else viewStart

def renderInput (visible : Nat) (s : Editor) : Editor :=
  { s with viewStart := keepCursorVisible s.cursor visible s.viewStart }

def replaceInput (maximum visible : Nat) (replacement : Bytes) (s : Editor) : Editor :=
  let buffer := stringCopy s.buffer replacement (maximum + 1)
  let length := (cString buffer).length
  let (buffer, length) := if length > maximum then (buffer.set maximum 0, maximum) else (buffer, length)
  renderInput visible { s with buffer, length, cursor := length }

/-- `buffer[i] = buffer[i + 1]` for the next `count` of the `i` -/
def shiftDown : Nat → Nat → Bytes → Bytes
  | 0, _, buffer => buffer
  | count + 1, i, buffer => shiftDown count (i + 1) (buffer.set i (buffer.getD (i + 1) 0))

/-- `buffer[i] = buffer[i - 1]` for `i` and the `count - 1` before it -/
def shiftUp : Nat → Nat → Bytes → Bytes
  | 0, _, buffer => buffer
  | count + 1, i, buffer => shiftUp count (i - 1) (buffer.set i (buffer.getD (i - 1) 0))

/-! ### Completion -/

def builtinCommands : List String :=
  ["help", "home", "info", "system", "status", "devices", "disk", "mount", "df", "fsck", "sync",
    "ver", "version", "uname", "cpu", "mem", "pmm", "vm", "memmap", "uptime", "ticks", "date", "time",
    "echo", "calc", "theme", "color", "pwd", "cd", "ls", "files", "dir", "cat", "open", "view",
    "mkdir", "touch", "write", "append", "rm", "del", "cp", "copy", "mv", "ren", "stat", "apps", "run",
    "history", "bootlog", "clear", "cls", "reboot", "halt", "shutdown", "panic"]

def asciiLower (c : UInt8) : UInt8 := if 65 ≤ c ∧ c ≤ 90 then c + 32 else c

def commonPrefixLength : Bytes → Bytes → Nat
  | l :: left, r :: right => if l = r then commonPrefixLength left right + 1 else 0
  | _, _ => 0

structure Matches where
  completion : Bytes
  count : Nat
  shared : Nat

/-- One candidate; `typed` is the line in lower case. -/
def matchCandidate (config : Config) (typed : Bytes) (m : Matches) (candidate : Bytes) : Matches :=
  if !typed.isPrefixOf candidate then m
  else if m.count = 0 then { completion := candidate.take (config.lineCapacity - 1), count := 1, shared := candidate.length }
  else
    let common := commonPrefixLength m.completion candidate
    { m with count := m.count + 1, shared := if common < m.shared then common else m.shared }

def matchCommands (config : Config) (typed : Bytes) : Matches :=
  (builtinCommands.map ascii ++ config.staticCommands).foldl (matchCandidate config typed) ⟨[], 0, 0⟩

/-- What the completion writes, unless it returns before. -/
def completed (config : Config) (maximum : Nat) (s : Editor) : Option Matches :=
  if s.cursor ≠ s.length ∨ s.length = 0 then none
  else if (s.buffer.take s.length).any isSpace then none
  else
    let m := matchCommands config (((cString s.buffer).take (config.lineCapacity - 1)).map asciiLower)
    if m.count = 0 ∨ m.shared ≤ s.length ∨ m.shared > maximum then none else some m

def completeInput (config : Config) (maximum visible : Nat) (s : Editor) : Editor :=
  match completed config maximum s with
  | none => s
  | some m =>
    let target := if m.count = 1 ∧ m.shared + 1 ≤ maximum then m.shared + 1 else m.shared
    let buffer := overwrite s.buffer 0 (m.completion.take m.shared)
    let buffer := if target > m.shared then buffer.set m.shared 32 else buffer
    renderInput visible { s with buffer := buffer.set target 0, length := target, cursor := target }

/-! ### Keys -/

inductive Key where
  | character (value : UInt8)
  | enter
  | escape
  | backspace
  | delete
  | left
  | right
  | home
  | lineEnd
  | tab
  | up
  | down
  | f1
  | f2
  | f3
  | f4
deriving DecidableEq

def shortcutCommand : Key → Option Bytes
  | .f1 => some (ascii "help")
  | .f2 => some (ascii "info")
  | .f3 => some (ascii "ls")
  | .f4 => some (ascii "home")
  | _ => none

def typeKey (maximum visible : Nat) (value : UInt8) (s : Editor) : Editor :=
  if 32 ≤ value ∧ value ≤ 126 ∧ s.length < maximum then
    let buffer := shiftUp (s.length - s.cursor) s.length s.buffer
    let buffer := (buffer.set s.cursor value).set (s.length + 1) 0
    renderInput visible { s with buffer, length := s.length + 1, cursor := s.cursor + 1 }
  else s

section
variable {config : Config} (history : History config) (visible : Nat)

/-- `capacity - 1` of the shell's array -/
def maximum (config : Config) : Nat := config.lineCapacity - 1

def upKey (s : Editor) : Editor :=
  let s := if !s.draftSaved then { s with draft := (cString s.buffer).take (config.lineCapacity - 1), draftSaved := true } else s
  if s.navigation > history.oldest then
    replaceInput (maximum config) visible (history.slot ((s.navigation - 1) % config.historyCapacity))
      { s with navigation := s.navigation - 1 }
  else s

def downKey (s : Editor) : Editor :=
  if s.navigation < history.count then
    let replacement := if s.navigation + 1 = history.count then s.draft else history.slot ((s.navigation + 1) % config.historyCapacity)
    replaceInput (maximum config) visible replacement { s with navigation := s.navigation + 1 }
  else s

def backspaceKey (s : Editor) : Editor :=
  if s.cursor ≠ 0 then
    renderInput visible { s with
      buffer := shiftDown (s.length - (s.cursor - 1)) (s.cursor - 1) s.buffer
      length := s.length - 1
      cursor := s.cursor - 1 }
  else s

def deleteKey (s : Editor) : Editor :=
  if s.cursor < s.length then
    renderInput visible { s with buffer := shiftDown (s.length - s.cursor) s.cursor s.buffer, length := s.length - 1 }
  else s

def escapeKey (s : Editor) : Editor :=
  { renderInput visible { s with buffer := s.buffer.set 0 0, length := 0, cursor := 0, viewStart := 0 } with
    navigation := history.count
    draftSaved := false }

/-- One turn of the loop, and whether `read_line` returns. -/
def press (key : Key) (s : Editor) : Editor × Bool :=
  match shortcutCommand key with
  | some command => if s.length = 0 then (replaceInput (maximum config) visible command s, true) else (s, false)
  | none =>
    match key with
    | .enter => ({ s with buffer := s.buffer.set s.length 0 }, true)
    | .escape => (escapeKey history visible s, false)
    | .backspace => (backspaceKey visible s, false)
    | .delete => (deleteKey visible s, false)
    | .left => (renderInput visible { s with cursor := s.cursor - 1 }, false)
    | .right => (renderInput visible { s with cursor := if s.cursor < s.length then s.cursor + 1 else s.cursor }, false)
    | .home => (renderInput visible { s with cursor := 0 }, false)
    | .lineEnd => (renderInput visible { s with cursor := s.length }, false)
    | .tab => (completeInput config (maximum config) visible s, false)
    | .up => (upKey history visible s, false)
    | .down => (downKey history visible s, false)
    | .character value => (typeKey (maximum config) visible value s, false)
    | _ => (s, false)

/-- The state `read_line` starts with, on an array of any bytes. -/
def start (array : Vector UInt8 config.lineCapacity) : Editor :=
  { buffer := array.toList.set 0 0, length := 0, cursor := 0, viewStart := 0, navigation := history.count, draft := [], draftSaved := false }

/-- The keys up to the one that makes `read_line` return. -/
def readLine : List Key → Editor → Editor × Bool
  | [], s => (s, false)
  | key :: keys, s =>
    match press history visible key s with
    | (s, true) => (s, true)
    | (s, false) => readLine keys s

end

end ZenovOS.Shell
