import ZenovOS.Lib.Bytes

/-! # Writing to a text buffer

`productivity_append_text` and `productivity_append_uint` of `ui_productivity.inc`, the versions of `ui_productivity_calendar_clock_v2_common.inc`,
and `productivity_utility_format_int32`. A buffer is what was written to it; the array of `capacity` bytes has zeros behind that. -/

namespace ZenovOS.Productivity

/-- A character goes where it leaves a byte for the terminator. -/
def appendText (capacity : Nat) (output : Bytes) : Bytes → Bool × Bytes
  | [] => (true, output)
  | c :: text => if output.length + 1 ≥ capacity then (false, output) else appendText capacity (output ++ [c]) text

/-- The digits from the last one on, as many as `reverse` has room for. -/
def reverseDigits : Nat → Nat → Bytes
  | 0, _ => []
  | room + 1, value => UInt8.ofNat (48 + value % 10) :: if value / 10 = 0 then [] else reverseDigits room (value / 10)

/-- `reverse[11]`, filled up with zeros. -/
def digitBuffer (value digits : Nat) : Bytes :=
  let reverse := reverseDigits 11 value
  reverse ++ List.replicate (min digits 11 - reverse.length) 48

/-- What is too long is cut off without a sign. -/
def pushAll (capacity : Nat) (output : Bytes) : Bytes → Bytes
  | [] => output
  | c :: text => if output.length + 1 < capacity then pushAll capacity (output ++ [c]) text else output

def appendUint (capacity : Nat) (output : Bytes) (value digits : Nat) : Bytes := pushAll capacity output (digitBuffer value digits).reverse

/-- The magnitude of a negative number is its two's complement. -/
def appendInt32 (capacity : Nat) (output : Bytes) (value : Int) : Bytes :=
  if capacity = 0 ∨ output.length ≥ capacity then output
  else
    let magnitude := BitVec.ofInt 32 value
    if value < 0 then
      appendUint capacity (if output.length + 1 < capacity then output ++ [45] else output) (0#32 - magnitude).toNat 0
    else appendUint capacity output magnitude.toNat 0

def formatInt32 (capacity : Nat) (value : Int) : Bytes := appendInt32 capacity [] value

end ZenovOS.Productivity
