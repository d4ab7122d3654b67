import ZenovOS.Lib.Text
import ZenovOS.Productivity.Dates
import ZenovOS.Productivity.Text

/-! # Records in text files

What the files of the reminders, the calendar and the alarms have in common: the helpers of `ui_productivity_calendar_clock_v2_common.inc`
and of `ui_productivity_reminders_format.inc`, and the storage below them. A title is the text before the terminator of its array. -/

namespace ZenovOS.Productivity

/-! ### Fields -/

/-- `productivity_calendar_clock_v2_parse_digits` and `productivity_reminder_parse_digits` -/
def parseDigitsAt (text : Bytes) (offset count : Nat) : Option Nat :=
  (List.range count).foldlM (fun value index => do
    let digit ← text[offset + index]?
    if digit < 48 ∨ digit > 57 then none else some (value * 10 + (digit.toNat - 48))) 0

/-- The fixed characters of a line stand at their places. -/
def marked (line : Bytes) (marks : List (Nat × UInt8)) : Bool := marks.all fun mark => (line)[mark.1]? = some mark.2

def titleCharacter (c : UInt8) : Bool := !(c < 32 || c > 126 || c = 124)

/-- `productivity_calendar_clock_v2_title_valid` and `productivity_reminder_title_valid` -/
def titleValid (title : Bytes) (capacity : Nat) : Bool := title.length ≠ 0 && title.length < capacity && title.all titleCharacter

inductive Repeat where
  | none
  | daily
  | weekly
  | monthly
deriving DecidableEq

/-- `productivity_calendar_v2_repeat_code` and `productivity_reminder_repeat_code` -/
def repeatCode : Repeat → UInt8
  | .daily => 68
  | .weekly => 87
  | .monthly => 77
  | .none => 78

/-- `productivity_calendar_v2_repeat_from_code` and `productivity_reminder_repeat_from_code` -/
def repeatFromCode (code : UInt8) : Option Repeat :=
  if code = 78 then some .none
  else if code = 68 then some .daily
  else if code = 87 then some .weekly
  else if code = 77 then some .monthly
  else none

/-! ### Input lines -/

def blank (c : UInt8) : Bool := c = 32 || c = 9

/-- `productivity_calendar_clock_v2_trim` -/
def trim (text : Bytes) : Bytes := Text.trim blank text

def asciiLower (c : UInt8) : UInt8 := if c ≥ 65 ∧ c ≤ 90 then c + 32 else c

def asciiEqualCi (left right : UInt8) : Bool := asciiLower left = asciiLower right

/-- `productivity_calendar_clock_v2_suffix` -/
def hasSuffix (text suffix : Bytes) : Bool :=
  if suffix.length > text.length then false
  else (List.zipWith asciiEqualCi (text.drop (text.length - suffix.length)) suffix).all id

/-- The first suffix of the table that the text ends with is cut off. -/
def cutSuffix {α : Type} (text : Bytes) (default : α) : List (Bytes × α) → Bytes × α
  | [] => (text, default)
  | (suffix, value) :: suffixes =>
    if hasSuffix text suffix then (trim (text.take (text.length - suffix.length)), value) else cutSuffix text default suffixes

/-- The last place where a blank stands before the mark. -/
def lastMark (mark : UInt8) (text : Bytes) : Option Nat :=
  (List.range (text.length - 1)).foldl (fun found index => if text[index]? = some 32 ∧ text[index + 1]? = some mark then some index else found) none

/-! ### Writing and reading a file -/

/-- `if (!productivity_append_text(…)) return false;` -/
def putText (capacity : Nat) (data text : Bytes) : Option Bytes :=
  match appendText capacity data text with
  | (true, data) => some data
  | (false, _) => none

/-- Characters that are stored after a look at the room for them. -/
def putBytes (capacity room : Nat) (data bytes : Bytes) : Option Bytes := if data.length + room ≥ capacity then none else some (data ++ bytes)

/-- The loop of a `load` over the lines of its file. -/
def readRecords {ρ : Type} (capacity : Nat) (parse : Bytes → Option ρ) : List Bytes → List ρ → List ρ
  | [], records => records
  | line :: lines, records =>
    if records.length ≥ capacity then records
    else if line = [] then readRecords capacity parse lines records
    else
      match parse line with
      | some record => readRecords capacity parse lines (records ++ [record])
      | none => readRecords capacity parse lines records

/-- The storage as the productivity applications call it. -/
structure Storage (σ : Type) where
  directoryExists : σ → String → Bool
  makeDirectory : σ → String → σ
  /-- `storage::guarded_write_file` -/
  write : σ → String → Bytes → Bool × σ
  /-- `storage::security_read_file` with the size of the buffer. -/
  read : σ → String → Nat → Option Bytes

/-- The storage, and which directories were found in it. -/
structure Desk (σ : Type) where
  disk : σ
  storageReady : Bool
  utilitiesReady : Bool

section
variable {σ : Type} (S : Storage σ)

def makeMissing (disk : σ) (directories : List String) : σ :=
  directories.foldl (fun disk directory => if S.directoryExists disk directory then disk else S.makeDirectory disk directory) disk

def ensureStorage (desk : Desk σ) : Bool × Desk σ :=
  if desk.storageReady then (true, desk)
  else
    let disk := makeMissing S desk.disk ["/notes", "/calendar"]
    let ready := S.directoryExists disk "/notes" && S.directoryExists disk "/calendar"
    (ready, { desk with disk, storageReady := ready })

def utilitiesEnsureStorage (desk : Desk σ) : Bool × Desk σ :=
  if desk.utilitiesReady then (true, desk)
  else
    let (_, desk) := ensureStorage S desk
    let disk := makeMissing S desk.disk ["/utilities", "/reminders"]
    let ready := S.directoryExists disk "/utilities" && S.directoryExists disk "/reminders"
    (ready, { desk with disk, utilitiesReady := ready })

/-- A file that was written. -/
def writeFile (path : String) (data : Bytes) (desk : Desk σ) : Bool × Desk σ :=
  let (written, disk) := S.write desk.disk path data
  (written, { desk with disk })

end
end ZenovOS.Productivity
