import Mathlib.Data.List.FinRange
import Mathlib.Tactic.Ring
import Mathlib.Logic.Function.Basic

/-! # Process handles

`process_handles.inc`: the handle table of a task. A handle is the number of an entry and the generation
that the entry had when it was given out. Slots and indices are in the range of their array by type. -/

namespace ZenovOS.Process

abbrev objectCapacity : Nat := 16
abbrev handleCapacity : Nat := 8

instance : NeZero objectCapacity := ⟨by decide⟩

abbrev rightWait : UInt8 := 1
abbrev rightQuery : UInt8 := 2
abbrev rightsAll : UInt8 := rightWait ||| rightQuery

/-- The name of a process object; the key of generation 0 names none. -/
structure ObjectKey where
  slot : Fin objectCapacity := 0
  generation : UInt16 := 0
  deriving DecidableEq

/-- `next_generation`, of handles and of objects. -/
def nextGeneration (current : UInt16) : UInt16 := if current + 1 = 0 then 1 else current + 1

namespace Handles

structure Entry where
  used : Bool := false
  rights : UInt8 := 0
  generation : UInt16 := 0
  object : ObjectKey := {}
  deriving DecidableEq

structure Table where
  entries : Fin handleCapacity → Entry := fun _ => {}
  generations : Fin handleCapacity → UInt16 := fun _ => 0

def encode (index : Fin handleCapacity) (generation : UInt16) : Nat :=
  if generation = 0 then 0 else generation.toNat * 256 + (index.val + 1)

/-- The index and the generation of a handle. Bits above these are not looked at. -/
def decode (handle : Nat) : Option (Fin handleCapacity × UInt16) :=
  let generation := UInt16.ofNat (handle / 256)
  if h : handle % 256 - 1 < handleCapacity then
    if handle % 256 = 0 ∨ generation = 0 then none else some (⟨handle % 256 - 1, h⟩, generation)
  else none

def setEntry (table : Table) (index : Fin handleCapacity) (entry : Entry) : Table :=
  { table with entries := Function.update table.entries index entry }

/-- `allocate`: the table with the new entry, and its handle. -/
def allocate (table : Table) (object : ObjectKey) (rights : UInt8) : Option (Table × Nat) :=
  if object.generation = 0 ∨ rights = 0 ∨ rights &&& ~~~rightsAll ≠ 0 then none
  else
    match (List.finRange handleCapacity).find? fun index => !(table.entries index).used with
    | none => none
    | some index =>
      let generation := nextGeneration (table.generations index)
      let table := { table with generations := Function.update table.generations index generation }
      some (setEntry table index ⟨true, rights, generation, object⟩, encode index generation)

def resolve (table : Table) (handle : Nat) (requiredRights : UInt8) : Option ObjectKey :=
  match decode handle with
  | none => none
  | some (index, generation) =>
    let entry := table.entries index
    if !entry.used ∨ entry.generation ≠ generation ∨ entry.rights &&& requiredRights ≠ requiredRights ∨
        entry.object.generation = 0 then none
    else some entry.object

def close (table : Table) (handle : Nat) : Option (Table × ObjectKey) :=
  match decode handle with
  | none => none
  | some (index, generation) =>
    let entry := table.entries index
    if !entry.used ∨ entry.generation ≠ generation ∨ entry.object.generation = 0 then none
    else some (setEntry table index {}, entry.object)

end Handles
end ZenovOS.Process
