import ZenovOS.Lib.Bytes

/-! # The notes editor

The text of the opened note, its cursor and its undo and redo history: `ui_productivity_notes_v2_editor.inc` and
`ui_productivity_notes_v2_types.inc`. -/

namespace ZenovOS.Productivity.Notes

open Bytes

def noteBufferCapacity : Nat := 2048
def historyCapacity : Nat := 8
def visibleRows : Nat := 18
def visibleColumns : Nat := 68
def tabWidth : Nat := 4

def lineFeed : UInt8 := 10

/-- `static_cast<uint16_t>` -/
def u16 (n : Nat) : Nat := n % 65536

/-- `ProductivityNotesV2EditKind` -/
inductive EditKind where
  | insert
  | erase
deriving DecidableEq

/-- `ProductivityNotesV2Edit`: the array `bytes` has `tabWidth` bytes, of which the first `count` are the edit's. -/
structure Edit where
  kind : EditKind
  position : Nat
  cursorBefore : Nat
  cursorAfter : Nat
  count : Nat
  bytes : Bytes
  dirtyBefore : Bool
  dirtyAfter : Bool
deriving DecidableEq

/-- The globals of the editor. `text` is the whole array; the histories are the used parts of theirs, the last edit last. -/
structure Editor where
  text : Bytes
  size : Nat
  cursor : Nat
  dirty : Bool
  undo : List Edit
  redo : List Edit
  preferredColumn : Nat
  preferredValid : Bool
  scrollLine : Nat
  scrollColumn : Nat
deriving DecidableEq

/-! ### The operations on the text -/

def historyPush (stack : List Edit) (edit : Edit) : List Edit :=
  if stack.length ≥ historyCapacity then (stack.drop 1).take (historyCapacity - 1) ++ [edit] else stack ++ [edit]

def bytesMatch (position : Nat) (bytes : Bytes) (count : Nat) (s : Editor) : Bool :=
  if count = 0 ∨ position > s.size ∨ count > s.size - position then false
  else (List.range count).all fun index => s.text.getD (position + index) 0 == bytes.getD index 0

/-- `memmove` within one array. -/
def memmove (text : Bytes) (destination source count : Nat) : Bytes := overwrite text destination (slice text source count)

def applyInsert (position : Nat) (bytes : Bytes) (count : Nat) (s : Editor) : Option Editor :=
  if count = 0 ∨ count > tabWidth ∨ position > s.size ∨ s.size + count ≥ noteBufferCapacity then none
  else
    let tail := s.size - position
    let moved := memmove s.text (position + count) position (tail + 1)
    some { s with text := (overwrite moved position (bytes.take count)).set (s.size + count) 0, size := s.size + count }

def applyErase (position : Nat) (expected : Bytes) (count : Nat) (s : Editor) : Option Editor :=
  if count = 0 ∨ count > tabWidth ∨ position > s.size ∨ count > s.size - position then none
  else if !bytesMatch position expected count s then none
  else
    let tail := s.size - position - count
    some { s with text := (memmove s.text position (position + count) (tail + 1)).set (s.size - count) 0, size := s.size - count }

/-! ### Lines and the view -/

/-- Back from `position` to the byte behind the last line feed before it. -/
def lineStartFrom (text : Bytes) : Nat → Nat
  | 0 => 0
  | position + 1 => if text.getD position 0 ≠ lineFeed then lineStartFrom text position else position + 1

def lineStart (s : Editor) (offset : Nat) : Nat :=
  u16 (lineStartFrom s.text (if offset ≤ s.size then offset else s.size))

/-- On from `position` to the next line feed, or over the `left` bytes of the text behind it. -/
def lineEndFrom (text : Bytes) : Nat → Nat → Nat
  | 0, position => position
  | left + 1, position => if text.getD position 0 ≠ lineFeed then lineEndFrom text left (position + 1) else position

def lineEnd (s : Editor) (offset : Nat) : Nat :=
  let position := if offset ≤ s.size then offset else s.size
  u16 (lineEndFrom s.text (s.size - position) position)

def cursorColumn (s : Editor) : Nat := u16 (s.cursor - lineStart s s.cursor)

def cursorLine (s : Editor) : Nat :=
  (s.text.take (if s.cursor ≤ s.size then s.cursor else s.size)).foldl
    (fun line value => if value = lineFeed ∧ line ≠ 0xFFFF then line + 1 else line) 0

def ensureVisible (s : Editor) : Editor :=
  let line := cursorLine s
  let column := cursorColumn s
  { s with
    scrollLine := if line < s.scrollLine then line
      else if line ≥ u16 (s.scrollLine + visibleRows) then u16 (line + 65536 - visibleRows + 1) else s.scrollLine
    scrollColumn := if column < s.scrollColumn then column
      else if column ≥ u16 (s.scrollColumn + visibleColumns) then u16 (column + 65536 - visibleColumns + 1) else s.scrollColumn }

/-! ### Opening -/

/-- What `security_read_file` puts into the array: at most all of it but the last byte. -/
structure Note where
  text : Bytes
  fits : text.length ≤ noteBufferCapacity - 1

/-- `productivity_notes_open_path`, of the note that was read -/
def openPath (note : Note) (s : Editor) : Editor :=
  { s with
    text := (overwrite (List.replicate noteBufferCapacity 0) 0 note.text).set note.text.length 0
    size := note.text.length
    dirty := false }

/-- `productivity_notes_v2_bind`, of a note that is not bound yet -/
def bind (s : Editor) : Editor :=
  ensureVisible { s with
    cursor := u16 (if s.size < noteBufferCapacity then s.size else noteBufferCapacity - 1)
    preferredValid := false
    scrollLine := 0
    scrollColumn := 0
    undo := []
    redo := [] }

/-! ### Edits -/

/-- The last lines of an edit, an undo and a redo. -/
def settle (undo redo : List Edit) (cursor : Nat) (dirty : Bool) (s : Editor) : Editor :=
  ensureVisible { s with
    undo
    redo
    dirty
    cursor := if cursor ≤ s.size then cursor else u16 s.size
    preferredValid := false }

def finishEdit (edit : Edit) (s : Editor) : Editor :=
  settle (historyPush s.undo edit) [] edit.cursorAfter edit.dirtyAfter s

def insertBytes (bytes : Bytes) (count : Nat) (s : Editor) : Option Editor :=
  if count = 0 ∨ count > tabWidth ∨ s.cursor > s.size ∨ s.size + count ≥ noteBufferCapacity then none
  else do
    let edit : Edit :=
      { kind := .insert
        position := s.cursor
        cursorBefore := s.cursor
        cursorAfter := u16 (s.cursor + count)
        count
        bytes := overwrite (List.replicate tabWidth 0) 0 (bytes.take count)
        dirtyBefore := s.dirty
        dirtyAfter := true }
    let s ← applyInsert edit.position edit.bytes edit.count s
    some (finishEdit edit s)

def insertChar (value : UInt8) : Editor → Option Editor := insertBytes [value] 1

def insertTab : Editor → Option Editor := insertBytes [32, 32, 32, 32] tabWidth

/-- One byte is erased at `position`. -/
def eraseByte (position cursorAfter : Nat) (s : Editor) : Option Editor := do
  let edit : Edit :=
    { kind := .erase
      position
      cursorBefore := s.cursor
      cursorAfter
      count := 1
      bytes := [s.text.getD position 0, 0, 0, 0]
      dirtyBefore := s.dirty
      dirtyAfter := true }
  let s ← applyErase edit.position edit.bytes edit.count s
  some (finishEdit edit s)

def backspace (s : Editor) : Option Editor :=
  if s.cursor = 0 ∨ s.size = 0 then none else eraseByte (s.cursor - 1) (s.cursor - 1) s

def deleteForward (s : Editor) : Option Editor :=
  if s.cursor ≥ s.size then none else eraseByte s.cursor s.cursor s

/-! ### Moves -/

def moveHorizontal (right : Bool) (s : Editor) : Editor :=
  ensureVisible { s with
    cursor := if right then (if s.cursor < s.size then s.cursor + 1 else s.cursor) else s.cursor - 1
    preferredValid := false }

def moveHome (s : Editor) : Editor := ensureVisible { s with cursor := lineStart s s.cursor, preferredValid := false }

def moveEnd (s : Editor) : Editor := ensureVisible { s with cursor := lineEnd s s.cursor, preferredValid := false }

/-- The start of the line a vertical move goes to. -/
def targetStart (down : Bool) (s : Editor) : Option Nat :=
  if down then
    let currentEnd := lineEnd s s.cursor
    if currentEnd ≥ s.size then none else some (u16 (currentEnd + 1))
  else
    let currentStart := lineStart s s.cursor
    if currentStart = 0 then none else some (lineStart s (u16 (currentStart - 1)))

def moveVertical (down : Bool) (s : Editor) : Editor :=
  let s := if s.preferredValid then s
    else { s with preferredColumn := u16 (s.cursor - lineStart s s.cursor), preferredValid := true }
  match targetStart down s with
  | none => s
  | some start =>
    let length := u16 (lineEnd s start - start)
    let column := if s.preferredColumn < length then s.preferredColumn else length
    ensureVisible { s with cursor := u16 (start + column) }

/-! ### Undo and redo -/

/-- The edit on the text, taken back. -/
def revert (edit : Edit) (s : Editor) : Option Editor :=
  match edit.kind with
  | .insert => applyErase edit.position edit.bytes edit.count s
  | .erase => applyInsert edit.position edit.bytes edit.count s

/-- The edit on the text, made again. -/
def reapply (edit : Edit) (s : Editor) : Option Editor :=
  match edit.kind with
  | .insert => applyInsert edit.position edit.bytes edit.count s
  | .erase => applyErase edit.position edit.bytes edit.count s

def undoOnce (s : Editor) : Option Editor := do
  let edit ← s.undo.getLast?
  let applied ← revert edit s
  some (settle s.undo.dropLast (historyPush s.redo edit) edit.cursorBefore edit.dirtyBefore applied)

def redoOnce (s : Editor) : Option Editor := do
  let edit ← s.redo.getLast?
  let applied ← reapply edit s
  some (settle (historyPush s.undo edit) s.redo.dropLast edit.cursorAfter edit.dirtyAfter applied)

/-! ### Keys -/

/-- The keys that move the cursor. -/
inductive Move where
  | left
  | right
  | up
  | down
  | home
  | lineEnd

/-- The keys that edit the text. -/
inductive Change where
  | character (value : UInt8)
  | newline
  | tab
  | backspace
  | delete

inductive Key where
  | move (m : Move)
  | change (c : Change)
  | f5
  | f6

def move : Move → Editor → Editor
  | .left => moveHorizontal false
  | .right => moveHorizontal true
  | .up => moveVertical false
  | .down => moveVertical true
  | .home => moveHome
  | .lineEnd => moveEnd

def change : Change → Editor → Option Editor
  | .character value => insertChar value
  | .newline => insertChar lineFeed
  | .tab => insertTab
  | .backspace => backspace
  | .delete => deleteForward

/-- `productivity_notes_v2_handle_editor_key`, of the keys that neither save nor close. An operation that returns false changes nothing. -/
def handleEditorKey (key : Key) (s : Editor) : Editor :=
  match key with
  | .move m => move m s
  | .change c => (change c s).getD s
  | .f5 => (undoOnce s).getD s
  | .f6 => (redoOnce s).getD s

end ZenovOS.Productivity.Notes
