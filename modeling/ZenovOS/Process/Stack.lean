import ZenovOS.Lib.ByteMemory
import ZenovOS.Security.Guard

/-! # The user window

What a program sees of memory: the bytes of its window and the pages that they are on, with the checks of
user pointers. -/

namespace ZenovOS.Process
open Bytes

abbrev userLimit : Nat := 1024 * 1024
abbrev pageSize : Nat := 4096

/-- The bits of a page table entry that access checks read. -/
structure Page where
  present : Bool
  user : Bool
  writable : Bool
  deriving DecidableEq

structure Window where
  memory : Nat → UInt8
  pages : Nat → Page

namespace Window
variable (w : Window)

def bytesAt (offset length : Nat) : Bytes := (List.range length).map fun i => w.memory (offset + i)

/-- A C string in the window. No path function looks further than this. -/
def stringAt (offset : Nat) : Bytes := w.bytesAt offset 128

def store (offset : Nat) (data : Bytes) : Window :=
  { w with memory := fun a => if offset ≤ a ∧ a < offset + data.length then data.getD (a - offset) 0 else w.memory a }

/-- `paging::user_access`. -/
def userAccess (offset length : Nat) (write : Bool) : Bool :=
  if length = 0 then offset ≤ userLimit
  else if userLimit ≤ offset ∨ userLimit - offset < length then false
  else
    let first := offset / pageSize
    let last := (offset + length + pageSize - 1) / pageSize
    (List.range (last - first)).all fun i =>
      let page := w.pages (first + i)
      page.present && page.user && (!write || page.writable)

def userRange (offset length : Nat) (write : Bool) : Bool :=
  offset < userLimit && length ≤ userLimit - offset && w.userAccess offset length write

/-- The loop of `user_string` over the `left` characters that may follow. -/
def scanString : Nat → Nat → Bytes → Option Bytes
  | 0, _, _ => none
  | left + 1, offset, text =>
    if !w.userAccess offset 1 false then none
    else if w.memory offset = 0 then some text
    else scanString left (offset + 1) (text ++ [w.memory offset])

def userString (offset : Nat) : Option Bytes :=
  if userLimit ≤ offset then none else w.scanString (min (userLimit - offset) 96) offset []

end Window
end ZenovOS.Process

/-! ## The first stack of a program

`build_initial_stack` of `process.inc` and `build_linux_i386_stack` of `process_linux_i386.inc`, with what they write to the user
window. Addresses are offsets in the window. -/

namespace ZenovOS.Process
open Bytes Security

abbrev stackTop : UInt32 := UInt32.ofNat userLimit - 16
abbrev maxArguments : Nat := 8
abbrev maxArgumentBytes : UInt32 := 64

/-- A string of the command line. It lies in memory with its terminator, beside other things. -/
structure Argument where
  text : Bytes
  ended : 0 ∉ text
  fits : text.length + 1 < 2 ^ 32

namespace Argument

/-- `string_length(argument) + 1U`. -/
def length (a : Argument) : UInt32 := UInt32.ofNat a.text.length + 1

/-- The characters with the terminator. -/
def bytes (a : Argument) : Bytes := a.text ++ [0]

end Argument

/-- The loop over the arguments, the last of them first: what it writes, and the offsets that it notes and the top that it leaves
    if it does not return false. -/
def placeArguments (offset : UInt32 → UInt32) : List Argument → List Write × Option (List UInt32 × UInt32)
  | [] => ([], some ([], stackTop))
  | a :: arguments =>
    match placeArguments offset arguments with
    | (writes, none) => (writes, none)
    | (writes, some (offsets, top)) =>
      if maxArgumentBytes < a.length ∨ top - UInt32.ofNat stackBase < a.length then (writes, none)
      else
        let top := top - a.length
        (writes ++ [⟨top.toNat, a.bytes⟩], some (offset top :: offsets, top))

def buildInitialStack (arguments : List Argument) : List Write × Option UInt32 :=
  let count := UInt32.ofNat arguments.length
  match placeArguments (fun top => top) arguments with
  | (writes, none) => (writes, none)
  | (writes, some (offsets, top)) =>
    let top := top &&& ~~~3
    let vectorBytes := (count + 1) * 4
    if top - UInt32.ofNat stackBase < vectorBytes + 8 then (writes, none)
    else
      let vectorOffset := top - vectorBytes
      let top := vectorOffset - 8
      (writes ++ Write.words vectorOffset.toNat (offsets ++ [0]) ++ Write.words top.toNat [count, vectorOffset], some top)

def buildLinuxI386Stack (arguments : List Argument) (imageBias : UInt32) : List Write × Option UInt32 :=
  let count := UInt32.ofNat arguments.length
  match placeArguments (fun top => imageBias + top) arguments with
  | (writes, none) => (writes, none)
  | (writes, some (offsets, top)) =>
    let top := top &&& ~~~3
    let words := count + 5
    if top - UInt32.ofNat stackBase < words * 4 then (writes, none)
    else
      let top := top - words * 4
      (writes ++ Write.words top.toNat (count :: offsets ++ [0, 0, 0, 0]), some (imageBias + top))

end ZenovOS.Process
