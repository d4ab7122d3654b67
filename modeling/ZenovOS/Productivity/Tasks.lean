import ZenovOS.Productivity.Calendar
import ZenovOS.Productivity.Notes

/-! # The tasks of the notes

`ui_productivity_tasks_types.inc`, `ui_productivity_tasks_index.inc` and `ui_productivity_tasks_storage.inc`: the index of the checkbox
lines, and the changes of a line that is found through it. -/

namespace ZenovOS.Productivity.Tasks
open Bytes Notes

inductive Filter where
  | today
  | overdue
  | planned
  | pending
  | done
  | all
deriving DecidableEq

def taskCapacity : Nat := 24
def visibleTaskRows : Nat := 8
def textCapacity : Nat := 65
def noteCapacity : Nat := 12

/-- `ProductivityTask`. The text is what stands before the terminator of its array. -/
structure Task where
  sourcePath : String
  text : Bytes
  lineStart : Nat
  lineEnd : Nat
  payloadOffset : Nat
  stateOffset : Nat
  lineNumber : Nat
  dueYear : Nat
  dueMonth : Nat
  dueDay : Nat
  priority : Nat
  lineHash : UInt32
  done : Bool
  waiting : Bool
deriving DecidableEq

def tagBoundary (value : UInt8) : Bool := value = 32 || value = 9

def lineHash (data : Bytes) (start stop : Nat) : UInt32 :=
  if stop < start then 0
  else (slice data start (stop - start)).foldl (fun hash c => (hash ^^^ c.toUInt32) * 16777619) 2166136261

/-! ### Tags -/

/-- The token stands at a position, between boundaries. -/
def tokenAt (data : Bytes) (start stop : Nat) (token : Bytes) (position : Nat) : Bool :=
  (position = start || tagBoundary (data.getD (position - 1) 0)) &&
    (position + token.length = stop || tagBoundary (data.getD (position + token.length) 0)) &&
    (List.range token.length).all fun index => asciiEqualCi (data.getD (position + index) 0) (token.getD index 0)

def lineHasTokenCi (data : Bytes) (start stop : Nat) (token : Bytes) : Bool :=
  if token.length = 0 ∨ stop < start ∨ token.length > stop - start then false
  else (List.range (stop - token.length + 1 - start)).any fun i => tokenAt data start stop token (start + i)

/-- The date of a tag `#D-yyyy-mm-dd` at a position. -/
def dueAt (data : Bytes) (start stop position : Nat) : Option Date :=
  if (position ≠ start ∧ !tagBoundary (data.getD (position - 1) 0)) ∨ (position + 13 ≠ stop ∧ !tagBoundary (data.getD (position + 13) 0)) ∨
      data.getD position 0 ≠ 35 ∨ !asciiEqualCi (data.getD (position + 1) 0) 68 ∨ data.getD (position + 2) 0 ≠ 45 ∨
      data.getD (position + 7) 0 ≠ 45 ∨ data.getD (position + 10) 0 ≠ 45 then none
  else do
    let year ← parseDigitsAt data (position + 3) 4
    let month ← parseDigitsAt data (position + 8) 2
    let day ← parseDigitsAt data (position + 11) 2
    if ¬Date.Valid ⟨year, month, day⟩ then none else some ⟨year, month, day⟩

def parseDue (data : Bytes) (start stop : Nat) : Option Date :=
  if stop < start ∨ stop - start < 13 then none
  else (List.range (stop - 13 + 1 - start)).findSome? fun i => dueAt data start stop (start + i)

/-! ### The order -/

def compareDate (left right : Date) : Int :=
  if left.year ≠ right.year then if left.year < right.year then -1 else 1
  else if left.month ≠ right.month then if left.month < right.month then -1 else 1
  else if left.day ≠ right.day then if left.day < right.day then -1 else 1
  else 0

def Task.due (task : Task) : Date := ⟨task.dueYear, task.dueMonth, task.dueDay⟩

/-- `today` is what `rtc_read_date` gives, if it gives a date. -/
def relationToToday (today : Option Date) (task : Task) : Int :=
  if task.dueYear = 0 then 2
  else
    match today with
    | none => 2
    | some today => compareDate task.due today

def dueBefore (left right : Task) : Bool :=
  let leftHasDue : Bool := left.dueYear ≠ 0
  let rightHasDue : Bool := right.dueYear ≠ 0
  if leftHasDue ≠ rightHasDue then leftHasDue else leftHasDue && compareDate left.due right.due < 0

def taskBefore (left right : Task) : Bool :=
  if left.done ≠ right.done then !left.done
  else if left.waiting ≠ right.waiting then !left.waiting
  else if dueBefore left right then true
  else if dueBefore right left then false
  else if left.priority ≠ right.priority then left.priority < right.priority
  else
    let sourceOrder := compareText (ascii left.sourcePath) (ascii right.sourcePath)
    if sourceOrder ≠ 0 then sourceOrder < 0 else left.lineNumber < right.lineNumber

/-- The inner loop of the sort, from the end of the sorted tasks on. -/
def insertTask (value : Task) : List Task → List Task
  | [] => [value]
  | last :: rest => if taskBefore value last then last :: insertTask value rest else value :: last :: rest

def sortTasks (tasks : List Task) : List Task := (tasks.foldl (fun sorted value => insertTask value sorted) []).reverse

/-! ### The lines of a note

Behind the note the array has zeros. -/

/-- `while (position < stop && p(data[position])) ++position;` -/
def skipWhile (p : UInt8 → Bool) (data : Bytes) (position stop : Nat) : Nat :=
  position + ((slice data position (stop - position)).takeWhile p).length

/-- What the loop finds in a line: no checkbox, one without a payload, or a task with the offsets of its state and its payload. -/
inductive Found where
  | nothing
  | empty
  | task (state payload : Nat)
deriving DecidableEq

def findBox (data : Bytes) (lineStart lineEnd : Nat) : Found :=
  let marker := skipWhile tagBoundary data lineStart lineEnd
  if marker + 5 < lineEnd ∧ data.getD marker 0 = 45 ∧ data.getD (marker + 1) 0 = 32 ∧ data.getD (marker + 2) 0 = 91 ∧
      data.getD (marker + 4) 0 = 93 ∧ (data.getD (marker + 3) 0 = 32 ∨ data.getD (marker + 3) 0 = 120 ∨ data.getD (marker + 3) 0 = 88) ∧
      tagBoundary (data.getD (marker + 5) 0) = true then
    let payloadStart := skipWhile tagBoundary data (marker + 5) lineEnd
    if payloadStart ≥ lineEnd then .empty else .task (marker + 3) payloadStart
  else .nothing

/-- The record that is filled for a task. -/
def taskOf (path : String) (data : Bytes) (lineNumber lineStart lineEnd state payload : Nat) : Task :=
  let due := (parseDue data payload lineEnd).getD ⟨0, 0, 0⟩
  { sourcePath := path
    text := ((slice data payload (lineEnd - payload)).filter fun c => !(c < 32 || c > 126)).take (textCapacity - 1)
    lineStart := u16 lineStart
    lineEnd := u16 lineEnd
    payloadOffset := u16 payload
    stateOffset := u16 state
    lineNumber
    dueYear := due.year
    dueMonth := due.month
    dueDay := due.day
    priority := if lineHasTokenCi data payload lineEnd (ascii "#P1") then 1
      else if lineHasTokenCi data payload lineEnd (ascii "#P2") then 2
      else if lineHasTokenCi data payload lineEnd (ascii "#P3") then 3 else 4
    lineHash := lineHash data lineStart lineEnd
    done := data.getD state 0 ≠ 32
    waiting := lineHasTokenCi data payload lineEnd (ascii "#W") }

/-- The loop over the lines of a note, for at most `left` rounds. A line without a payload takes the `continue`, before the line number is
    counted on. -/
def scanLines (path : String) (data : Bytes) : Nat → Nat → Nat → List Task → List Task
  | 0, _, _, tasks => tasks
  | left + 1, position, lineNumber, tasks =>
    if position < data.length ∧ tasks.length < taskCapacity then
      let lineEnd := skipWhile (· ≠ lineFeed) data position data.length
      let next := if lineEnd < data.length then lineEnd + 1 else lineEnd
      let nextNumber := if lineNumber ≠ 0xFFFF then lineNumber + 1 else lineNumber
      match findBox data position lineEnd with
      | .empty => scanLines path data left next lineNumber tasks
      | .nothing => scanLines path data left next nextNumber tasks
      | .task state payload =>
        scanLines path data left next nextNumber (tasks ++ [taskOf path data lineNumber position lineEnd state payload])
    else tasks

/-! ### The notes -/

/-- The fields of `storage::BrowserEntry` that are read. -/
structure BrowserEntry where
  name : Bytes
  path : String
  isFile : Bool
deriving DecidableEq

/-- The storage with `storage::list_directory`, which is given the room for entries. -/
structure NoteStorage (σ : Type) extends Storage σ where
  list : σ → String → Nat → List BrowserEntry

/-- The globals of the tasks, with the listed notes. -/
structure Board (σ : Type) where
  desk : Desk σ
  notes : List BrowserEntry
  tasks : List Task
  visible : List Nat
  focus : Nat
  scroll : Nat
  filter : Filter
  input : Bytes
  adding : Bool
  editing : Bool

def matchesFilter (today : Option Date) (filter : Filter) (task : Task) : Bool :=
  let relation := relationToToday today task
  match filter with
  | .today => !task.done && relation = 0
  | .overdue => !task.done && relation < 0
  | .planned => !task.done && task.dueYear ≠ 0 && relation ≥ 0 && relation ≤ 1
  | .pending => !task.done
  | .done => task.done
  | .all => true

section
variable {σ : Type} (S : NoteStorage σ) (today : Option Date)

def rebuildVisible (b : Board σ) : Board σ :=
  let visible := (List.range b.tasks.length).filter fun index => b.tasks[index]?.any (matchesFilter today b.filter)
  if visible = [] then { b with visible, focus := 0, scroll := 0 }
  else
    let focus := if b.focus ≥ visible.length then visible.length - 1 else b.focus
    let scroll := if focus < b.scroll then focus else b.scroll
    { b with visible, focus, scroll := if focus ≥ scroll + visibleTaskRows then focus - visibleTaskRows + 1 else scroll }

/-- `productivity_notes_reload`, of which the tasks see the listed notes. -/
def notesReload (b : Board σ) : Board σ :=
  match ensureStorage S.toStorage b.desk with
  | (false, desk) => { b with desk, notes := [] }
  | (true, desk) => { b with desk, notes := S.list desk.disk "/notes" noteCapacity }

/-- The loop over the notes. -/
def scanNotes (disk : σ) : List BrowserEntry → List Task → List Task
  | [], tasks => tasks
  | note :: rest, tasks =>
    if tasks.length < taskCapacity then
      if !note.isFile || !(ascii ".md").isSuffixOf note.name then scanNotes disk rest tasks
      else
        match S.read disk note.path (noteBufferCapacity - 1) with
        | none => scanNotes disk rest tasks
        | some data => scanNotes disk rest (scanLines note.path data data.length 0 1 tasks)
    else tasks

/-- `productivity_tasks_scan` -/
def scan (b : Board σ) : Board σ :=
  let b := notesReload S b
  rebuildVisible today { b with tasks := sortTasks (scanNotes S b.desk.disk b.notes []) }

/-! ### Changes of a line -/

/-- `productivity_tasks_selected` -/
def selected (b : Board σ) : Option Task :=
  match b.visible[b.focus]? with
  | none => none
  | some index => b.tasks[index]?

/-- The line that the offsets of a task show is a checkbox with the recorded hash. -/
def stillThere (task : Task) (data : Bytes) : Bool :=
  !(task.lineStart ≥ task.lineEnd ∨ task.lineEnd > data.length ∨ task.payloadOffset ≥ task.lineEnd ∨ task.stateOffset < task.lineStart + 3 ∨
    task.stateOffset + 2 ≥ task.lineEnd ∨ data.getD (task.stateOffset - 3) 0 ≠ 45 ∨ data.getD (task.stateOffset - 2) 0 ≠ 32 ∨
    data.getD (task.stateOffset - 1) 0 ≠ 91 ∨ data.getD (task.stateOffset + 1) 0 ≠ 93 ∨ tagBoundary (data.getD (task.stateOffset + 2) 0) = false ∨
    task.payloadOffset ≤ task.stateOffset + 2 ∨
    (data.getD task.stateOffset 0 ≠ 32 ∧ data.getD task.stateOffset 0 ≠ 120 ∧ data.getD task.stateOffset 0 ≠ 88) ∨
    lineHash data task.lineStart task.lineEnd ≠ task.lineHash)

def readValidated (disk : σ) (task : Task) : Option Bytes :=
  match S.read disk task.sourcePath (noteBufferCapacity - 1) with
  | none => none
  | some data => if stillThere task data then some data else none

/-- The array with the note at its start. -/
def noteBuffer (data : Bytes) : Bytes := overwrite (List.replicate noteBufferCapacity 0) 0 data

/-- The end of a change: the note is written, and the index is built again. -/
def store (path : String) (data : Bytes) (finish : Board σ → Board σ) (b : Board σ) : Bool × Board σ :=
  match writeFile S.toStorage path data b.desk with
  | (false, desk) => (false, { b with desk })
  | (true, desk) => (true, scan S today (finish { b with desk }))

/-- `productivity_tasks_toggle_selected` -/
def toggleSelected (b : Board σ) : Bool × Board σ :=
  match selected b with
  | none => (false, b)
  | some task =>
    match readValidated S b.desk.disk task with
    | none => (false, b)
    | some data =>
      let toggled := data.set task.stateOffset (if data.getD task.stateOffset 0 = 32 then 120 else 32)
      store S today task.sourcePath toggled id b

/-- `productivity_tasks_edit_selected` -/
def editSelected (b : Board σ) : Bool × Board σ :=
  if b.input.length = 0 then (false, b)
  else
    match selected b with
    | none => (false, b)
    | some task =>
      match readValidated S b.desk.disk task with
      | none => (false, b)
      | some data =>
        let oldSize := task.lineEnd - task.payloadOffset
        let newSize := b.input.length
        if newSize ≥ textCapacity ∨ data.length - oldSize + newSize ≥ noteBufferCapacity then (false, b)
        else
          let moved := memmove (noteBuffer data) (task.payloadOffset + newSize) task.lineEnd (data.length - task.lineEnd)
          let edited := (overwrite moved task.payloadOffset b.input).take (data.length - oldSize + newSize)
          store S today task.sourcePath edited (fun b => { b with input := [], editing := false }) b

/-- `productivity_tasks_delete_selected` -/
def deleteSelected (b : Board σ) : Bool × Board σ :=
  match selected b with
  | none => (false, b)
  | some task =>
    match readValidated S b.desk.disk task with
    | none => (false, b)
    | some data =>
      let removeEnd := if task.lineEnd < data.length ∧ data.getD task.lineEnd 0 = lineFeed then task.lineEnd + 1 else task.lineEnd
      let removed := removeEnd - task.lineStart
      let moved := memmove (noteBuffer data) task.lineStart removeEnd (data.length - removeEnd)
      store S today task.sourcePath (moved.take (data.length - removed)) id b

end
end ZenovOS.Productivity.Tasks
