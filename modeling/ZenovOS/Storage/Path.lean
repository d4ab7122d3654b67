import Mathlib.Data.List.DropRight
import ZenovOS.Lib.FileStore

/-! # ZenovFS paths

`path_copy`, `path_append`, `normalize_path` and `parent_path` of `storage_zenovfs_core.inc`. A `const
char*` argument is the memory it points to; the string ends at the first zero. A C string in a local
buffer is the list of its bytes before the terminator, and a buffer's capacity is checked where the
source checks it. -/

namespace ZenovOS.Storage
open Bytes

abbrev slash : UInt8 := 47

/-- The root directory `"/"`. -/
abbrev root : Bytes := [slash]

abbrev pathBytes : Nat := 48

def pathCopy (input : Bytes) (capacity : Nat) : Option Bytes :=
  if input.length < capacity then some input else none

def pathAppend (output input : Bytes) (capacity : Nat) : Option Bytes :=
  if input = [] ∨ output.length + input.length < capacity then some (output ++ input) else none

/-- A separator, unless the path is still the root. -/
def appendSeparator (output : Bytes) (capacity : Nat) : Option Bytes :=
  if output = root then some output else pathAppend output root capacity

/-- The maximal runs of bytes other than `/`, as `normalize_path` scans them; `component` is the run
    read so far. -/
def componentsFrom (component : Bytes) : Bytes → List Bytes
  | [] => if component = [] then [] else [component]
  | b :: rest =>
    if b = slash then
      if component = [] then componentsFrom [] rest else component :: componentsFrom [] rest
    else componentsFrom (component ++ [b]) rest

def components (path : Bytes) : List Bytes := componentsFrom [] path

/-- `char combined[96]`: the absolute path that is normalised. `/data` is an alias of the root. -/
def combine (currentDirectory source : Bytes) : Option Bytes :=
  if (ascii "/data").isPrefixOf source then
    let rest := source.drop 5
    if rest = [] then pathCopy root 96
    else if rest.head? ≠ some slash then none
    else pathCopy rest 96
  else if source.head? = some slash then pathCopy source 96
  else do
    let combined ← pathCopy currentDirectory 96
    let combined ← appendSeparator combined 96
    pathAppend combined source 96

/-- The main loop: `starts` is the stack of the offsets at which the components of `output` begin, the
    last one first. -/
def normalizeComponents : List Bytes → List Nat → Bytes → Option Bytes
  | [], _, output => some output
  | component :: rest, starts, output =>
    if pathBytes ≤ component.length then none
    else if component = ascii "." then normalizeComponents rest starts output
    else if component = ascii ".." then
      match starts with
      | [] => normalizeComponents rest [] output
      | start :: below =>
        normalizeComponents rest below (output.take (if start = 1 then 1 else start - 1))
    else if 16 ≤ starts.length then none
    else do
      let start := if output.length = 1 then 1 else output.length + 1
      let output ← appendSeparator output pathBytes
      let output ← pathAppend output component pathBytes
      normalizeComponents rest (start :: starts) output

def normalizePath (currentDirectory input : Bytes) : Option Bytes :=
  if cstr input = [] then none
  else do
    let combined ← combine (cstr currentDirectory) (cstr input)
    normalizeComponents (components combined) [] root

def parentPath (path : Bytes) : Option Bytes :=
  if path = root then none
  else do
    let parent ← pathCopy path pathBytes
    let kept := parent.rdropWhile (· != slash)
    some (if kept.length ≤ 1 then root else kept.dropLast)

end ZenovOS.Storage

/-! ## The file system as the kernel's services use it

The services of the kernel name their files by absolute paths and rely on the file system for one thing:
that a file is replaced as a whole or not at all. -/

namespace ZenovOS
open Storage

/-- The files and the shell's current directory, against which a path is normalized. -/
structure Mounted where
  store : FileStore Bytes
  currentDirectory : Bytes

namespace Mounted

def files (m : Mounted) : Bytes → Option Bytes := m.store.files

/-- The next requests of the file system, when they are not all to pass. -/
def answers (m : Mounted) : List Answer := m.store.answers

def request {α : Type} (m : Mach (FileStore Bytes) α) : Mach Mounted α :=
  Mach.zoom Mounted.store (fun s store => { s with store }) m

def readFile (input : Bytes) (capacity : Nat) : Mach Mounted (Option Bytes) := do
  match normalizePath (← Mach.get).currentDirectory input with
  | none => pure none
  | some path => request (FileStore.read path capacity)

def writeFile (input data : Bytes) : Mach Mounted Bool := do
  match normalizePath (← Mach.get).currentDirectory input with
  | none => pure false
  | some path => request (FileStore.write path data)

def syncMetadata : Mach Mounted Bool := request FileStore.sync

end Mounted
end ZenovOS
