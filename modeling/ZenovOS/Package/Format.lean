import ZenovOS.Security.Sha256
import ZenovOS.Storage.Layout

/-! # Native packages

`native_package` of `package_format.inc`: a container of a header, a manifest and a payload, with SHA-256
digests of the three. The manifest is a text of `key=value` lines in a fixed order. -/

namespace ZenovOS.Package
open Bytes Security

abbrev headerSize : Nat := 128
abbrev maximumManifestSize : Nat := 8192
abbrev maximumDependencies : Nat := 4
abbrev maximumConflicts : Nat := 4
abbrev payloadZex1 : UInt8 := 1
abbrev payloadElf32 : UInt8 := 2

structure Manifest where
  name : Bytes
  version : Bytes
  entrypoint : Bytes
  payloadType : UInt8
  dependencies : List Bytes
  conflicts : List Bytes
  deriving DecidableEq

/-- A zeroed `Manifest`. -/
def Manifest.empty : Manifest := ⟨[], [], [], 0, [], []⟩

structure VerifiedPackage where
  manifest : Manifest
  payload : Bytes
  packageDigest : Bytes
  deriving DecidableEq

inductive Error
  | io
  | tooLarge
  | truncated
  | magic
  | version
  | flags
  | length
  | headerDigest
  | manifestDigest
  | payloadDigest
  | manifestSyntax
  | manifestOrder
  | manifestMissing
  | manifestValue
  | unsupported
  | path
  | payloadFormat
  deriving DecidableEq

/-! ### Text -/

/-- `slice_compare`: the first byte that differs decides, else the length. -/
def sliceCompare : Bytes → Bytes → Int
  | [], [] => 0
  | [], _ :: _ => -1
  | _ :: _, [] => 1
  | a :: left, b :: right => if a ≠ b then (a.toNat : Int) - b.toNat else sliceCompare left right

/-- `copy_slice` into a zeroed field: there must be room for the terminator. -/
def copySlice (capacity : Nat) (data : Bytes) : Option Bytes := if capacity < data.length + 1 then none else some data

def isLower (value : UInt8) : Bool := 97 ≤ value && value ≤ 122
def isDigit (value : UInt8) : Bool := 48 ≤ value && value ≤ 57

/-- No two full stops in a row. -/
def noDoubleStop : Bytes → Bool
  | a :: b :: rest => !(a = 46 && b = 46) && noDoubleStop (b :: rest)
  | _ => true

def safeLowerIdentifier (data : Bytes) (maximum : Nat) : Bool :=
  data.length ≤ maximum && (data.head?.any fun a => isLower a || isDigit a) &&
    (data.getLast?.any fun a => isLower a || isDigit a) &&
    (data.all fun value => isLower value || isDigit value || value = 46 || value = 45 || value = 95) && noDoubleStop data

def safeVersion (data : Bytes) : Bool :=
  data ≠ [] && data.length ≤ 15 &&
    data.all fun value => isDigit value || value = 46 || value = 45 || value = 43 || value = 95

def printableValue (data : Bytes) (maximum : Nat) : Bool :=
  data ≠ [] && data.length ≤ maximum && data.all fun value => 0x20 ≤ value && value ≠ 0x7F

/-- The digits at the start of a text as a 32-bit number, and what follows them. -/
def parseVersionComponent (input : Bytes) : Option (Nat × Bytes) :=
  let digits := input.takeWhile isDigit
  let value := digits.foldl (fun value digit => value * 10 + (digit.toNat - 48)) 0
  if digits = [] ∨ 2 ^ 32 ≤ value then none else some (value, input.drop digits.length)

/-- The three components of a release version; a suffix starts with a hyphen or a plus sign. -/
def parseRelease (input : Bytes) : Option (Nat × Nat × Nat) := do
  let (major, rest) ← parseVersionComponent input
  if rest.head? ≠ some 46 then none
  else
    let (minor, rest) ← parseVersionComponent rest.tail
    if rest.head? ≠ some 46 then none
    else
      let (patch, rest) ← parseVersionComponent rest.tail
      if rest = [] ∨ rest.head? = some 45 ∨ rest.head? = some 43 then some (major, minor, patch) else none

/-- `version_supported`: no later than 0.1.1. -/
def versionSupported (value : Bytes) : Bool :=
  match parseRelease value with
  | none => false
  | some (major, minor, patch) => major = 0 && (minor = 0 || (minor = 1 && patch ≤ 1))

/-- `append_text`. -/
def appendText (capacity : Nat) (output text : Bytes) : Option Bytes :=
  if text = [] ∨ output.length + text.length < capacity then some (output ++ text) else none

def expectedEntrypoint (manifest : Manifest) : Option Bytes := do
  let output ← appendText 48 [] (ascii "/data/apps/pkg-")
  let output ← appendText 48 output manifest.name
  let output ← appendText 48 output (ascii "-")
  let output ← appendText 48 output manifest.version
  appendText 48 output (if manifest.payloadType = payloadZex1 then ascii ".zex" else ascii ".elf")

/-! ### The manifest -/

def keys : List Bytes :=
  [ascii "format", ascii "name", ascii "version", ascii "architecture", ascii "target", ascii "kind", ascii "entrypoint",
    ascii "payload_type", ascii "runtime", ascii "min_os", ascii "license", ascii "source", ascii "asset_policy",
    ascii "capability", ascii "dependency", ascii "conflict"]

/-- `key_rank`. -/
def keyRank (key : Bytes) : Option Nat := keys.idxOf? key

def copyRequirement (capacity : Nat) (value : Bytes) : Option Bytes :=
  if value = [] ∨ capacity < value.length + 1 ∨
      !(value.all fun ch => isLower ch || isDigit ch || ch = 46 || ch = 45 || ch = 95 || ch = 64) then none
  else copySlice capacity value

/-- The variables of `parse_manifest`; `last` is the value of the last repeated key and its rank. -/
structure ManifestParser where
  manifest : Manifest
  requiredMask : Nat
  lastRank : Int
  last : Bytes
  lastRepeatedRank : Int
  capabilityMask : Nat

def ManifestParser.start : ManifestParser := ⟨.empty, 0, -1, [], -1, 0⟩

def capabilityBit (value : Bytes) : Option Nat :=
  if value = ascii "abi.zex1.v1" then some 1
  else if value = ascii "abi.elf32.i386.static" then some 2
  else if value = ascii "kernel.ring3" then some 4
  else if value = ascii "storage.zenovfs1" then some 8
  else none

/-- The order of the keys: a scalar key once, the values of a repeated key in ascending order. -/
def ManifestParser.advance (p : ManifestParser) (rank : Nat) (value : Bytes) : Except Error ManifestParser :=
  if (rank : Int) < p.lastRank then .error .manifestOrder
  else if rank ≤ 12 then
    if p.requiredMask.testBit rank then .error .manifestOrder
    else .ok { p with requiredMask := p.requiredMask ||| 2 ^ rank, lastRank := rank }
  else if (rank : Int) = p.lastRepeatedRank ∧ 0 ≤ sliceCompare p.last value then .error .manifestOrder
  else
    match copySlice 48 value with
    | none => .error .manifestValue
    | some last => .ok { p with last, lastRepeatedRank := rank, lastRank := rank }

/-- A value that must be one of a few texts. -/
def oneOf (texts : List Bytes) (value : Bytes) (error : Error) (m : Manifest) : Except Error Manifest :=
  if texts.contains value then .ok m else .error error

/-- What `parse_manifest` makes of the value of a scalar key. -/
def setScalar (m : Manifest) (rank : Nat) (value : Bytes) : Except Error Manifest :=
  match rank with
  | 0 => oneOf [ascii "zenpkg-manifest-1"] value .manifestValue m
  | 1 =>
    match if safeLowerIdentifier value 31 then copySlice 32 value else none with
    | none => .error .manifestValue
    | some name => .ok { m with name }
  | 2 =>
    match if safeVersion value then copySlice 16 value else none with
    | none => .error .manifestValue
    | some version => .ok { m with version }
  | 3 => oneOf [ascii "i686"] value .unsupported m
  | 4 => oneOf [ascii "i686-zenov-none"] value .unsupported m
  | 5 => oneOf [ascii "application", ascii "native"] value .unsupported m
  | 6 =>
    match if printableValue value 47 then copySlice 48 value else none with
    | none => .error .path
    | some entrypoint => .ok { m with entrypoint }
  | 7 =>
    if value = ascii "zex1" then .ok { m with payloadType := payloadZex1 }
    else if value = ascii "elf32" then .ok { m with payloadType := payloadElf32 }
    else .error .unsupported
  | 8 => oneOf [ascii "native"] value .unsupported m
  | 9 =>
    match if safeVersion value then copySlice 16 value else none with
    | none => .error .unsupported
    | some minimum => if versionSupported minimum then .ok m else .error .unsupported
  | 10 => if printableValue value 96 then .ok m else .error .manifestValue
  | 11 => if printableValue value 256 then .ok m else .error .manifestValue
  | _ => oneOf [ascii "redistributable"] value .unsupported m

/-- What `parse_manifest` makes of the value of a repeated key. -/
def setRepeated (p : ManifestParser) (rank : Nat) (value : Bytes) : Except Error ManifestParser :=
  let m := p.manifest
  if rank = 13 then
    match capabilityBit value with
    | none => .error .unsupported
    | some bit => .ok { p with capabilityMask := p.capabilityMask ||| bit }
  else if rank = 14 then
    match if m.dependencies.length < maximumDependencies then copyRequirement 48 value else none with
    | none => .error .manifestValue
    | some dependency => .ok { p with manifest := { m with dependencies := m.dependencies ++ [dependency] } }
  else
    match if m.conflicts.length < maximumConflicts then copyRequirement 32 value else none with
    | none => .error .manifestValue
    | some conflict => .ok { p with manifest := { m with conflicts := m.conflicts ++ [conflict] } }

def ManifestParser.setValue (p : ManifestParser) (rank : Nat) (value : Bytes) : Except Error ManifestParser :=
  if rank ≤ 12 then (setScalar p.manifest rank value).map fun manifest => { p with manifest }
  else setRepeated p rank value

/-- One line, without its end. -/
def ManifestParser.line (p : ManifestParser) (line : Bytes) : Except Error ManifestParser := do
  let key := line.takeWhile (· ≠ 61)
  let value := line.drop (key.length + 1)
  if key = [] ∨ value = [] then .error .manifestSyntax
  else
    match keyRank key with
    | none => .error .manifestSyntax
    | some rank => do
      let p ← p.advance rank value
      p.setValue rank value

/-- The loop of `parse_manifest`. -/
def parseLines : Nat → Bytes → ManifestParser → Except Error ManifestParser
  | 0, _, p => .ok p
  | left + 1, rest, p =>
    if rest = [] then .ok p
    else
      let line := rest.takeWhile (· ≠ 10)
      if line.any (fun value => value = 13 || value = 0) || line.length = rest.length || line = [] then .error .manifestSyntax
      else do
        let p ← p.line line
        parseLines left (rest.drop (line.length + 1)) p

def parseManifest (bytes : Bytes) : Except Error Manifest := do
  if bytes = [] ∨ maximumManifestSize < bytes.length ∨ bytes.getLast? ≠ some 10 then .error .manifestSyntax
  else
    let p ← parseLines bytes.length bytes .start
    let required := (if p.manifest.payloadType = payloadZex1 then 1 else 2) ||| 4 ||| 8
    if p.requiredMask ≠ 2 ^ 13 - 1 then .error .manifestMissing
    else if p.capabilityMask &&& required ≠ required then .error .unsupported
    else if expectedEntrypoint p.manifest ≠ some p.manifest.entrypoint then .error .path
    else .ok p.manifest

/-! ### The container -/

def payloadShapeValid (manifest : Manifest) (payload : Bytes) : Bool :=
  4 ≤ payload.length &&
    (if manifest.payloadType = payloadZex1 then slice payload 0 4 = ascii "ZEX1" else slice payload 0 4 = [0x7F, 69, 76, 70])

def verifyBytes (bytes : Bytes) : Except Error VerifiedPackage := do
  let manifestSize := toNat (slice bytes 16 8)
  let payloadSize := toNat (slice bytes 24 8)
  if bytes.length < headerSize then .error .truncated
  else if slice bytes 0 8 ≠ ascii "ZENPKG1" ++ [0] then .error .magic
  else if toNat (slice bytes 8 4) ≠ 1 then .error .version
  else if toNat (slice bytes 12 4) ≠ 0 then .error .flags
  else if maximumManifestSize < manifestSize ∨ 0xFFFFFFFF < payloadSize then .error .tooLarge
  else if headerSize + manifestSize + payloadSize ≠ bytes.length then .error .length
  else
    let manifestBytes := slice bytes headerSize manifestSize
    let payload := slice bytes (headerSize + manifestSize) payloadSize
    if sha256 (slice bytes 0 96) ≠ slice bytes 96 32 then .error .headerDigest
    else if sha256 manifestBytes ≠ slice bytes 32 32 then .error .manifestDigest
    else if sha256 payload ≠ slice bytes 64 32 then .error .payloadDigest
    else
      let manifest ← parseManifest manifestBytes
      if payloadShapeValid manifest payload then .ok ⟨manifest, payload, sha256 bytes⟩ else .error .payloadFormat

/-! ### Versions -/

/-- `string_compare` of two strings: the difference of the first bytes that differ. -/
def stringCompare : Bytes → Bytes → Int
  | [], [] => 0
  | [], b :: _ => -b.toNat
  | a :: _, [] => a.toNat
  | a :: left, b :: right => if a = b then stringCompare left right else (a.toNat : Int) - b.toNat

/-- The sign of a comparison of three components. -/
def compareComponents : Nat × Nat × Nat → Nat × Nat × Nat → Int
  | (a₀, a₁, a₂), (b₀, b₁, b₂) =>
    if a₀ < b₀ then -1 else if b₀ < a₀ then 1
    else if a₁ < b₁ then -1 else if b₁ < a₁ then 1
    else if a₂ < b₂ then -1 else if b₂ < a₂ then 1 else 0

/-- `version_compare`: by release number, or as texts if one is no release version. -/
def versionCompare (left right : Bytes) : Int :=
  match parseRelease left, parseRelease right with
  | some a, some b => compareComponents a b
  | _, _ => stringCompare left right

end ZenovOS.Package
