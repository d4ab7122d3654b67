import Mathlib.Data.List.Sort
import ZenovOS.Lib.Refuse
import ZenovOS.Lib.Text
import ZenovOS.Package.Format

/-! # Manifests of the package tools

`manifest.hpp` of `zenpkg`, with what it uses of `common.hpp`: a manifest is a text of `key=value` lines, in any
order, with blanks and comments. It is read, validated, and written out again in its canonical form. An error is the
text that is thrown. -/

namespace ZenovOS.Zenpkg
open Bytes Text

/-! ### Text -/

/-- `std::isspace` of the C locale. -/
def isSpace (ch : UInt8) : Bool := ch = 32 || (9 ≤ ch && ch ≤ 13)

/-- `std::isalnum` of the C locale. -/
def isAlnum (ch : UInt8) : Bool := (48 ≤ ch && ch ≤ 57) || (65 ≤ ch && ch ≤ 90) || (97 ≤ ch && ch ≤ 122)

/-- `trim`. -/
def trimmed (value : Bytes) : Bytes := trim isSpace value

def isSafeIdentifier (value : Bytes) : Bool :=
  value ≠ [] && value.length ≤ 64 && value.head?.any isAlnum && value.getLast?.any isAlnum && Package.noDoubleStop value &&
    value.all fun ch => isAlnum ch || ch = 46 || ch = 45 || ch = 95

def isPrintableText (value : Bytes) (maximum : Nat) : Bool :=
  value ≠ [] && value.length ≤ maximum && value.all fun ch => 0x20 ≤ ch && ch ≠ 0x7F

def isSafeVersion (value : Bytes) : Bool :=
  value ≠ [] && value.length ≤ 64 && value.all fun ch => isAlnum ch || ch = 46 || ch = 45 || ch = 43 || ch = 95

/-! ### The manifest -/

structure Manifest where
  format : Bytes
  name : Bytes
  version : Bytes
  architecture : Bytes
  target : Bytes
  kind : Bytes
  entrypoint : Bytes
  payloadType : Bytes
  runtime : Bytes
  minOs : Bytes
  license : Bytes
  source : Bytes
  assetPolicy : Bytes
  capabilities : List Bytes
  dependencies : List Bytes
  conflicts : List Bytes
  deriving DecidableEq

def Manifest.empty : Manifest := ⟨[], [], [], [], [], [], [], [], [], [], [], [], [], [], [], []⟩

/-- The fields of `scalar_fields`. -/
inductive Scalar
  | format
  | name
  | version
  | architecture
  | target
  | kind
  | entrypoint
  | payloadType
  | runtime
  | minOs
  | license
  | source
  | assetPolicy
  deriving DecidableEq

def Scalar.all : List Scalar :=
  [.format, .name, .version, .architecture, .target, .kind, .entrypoint, .payloadType, .runtime, .minOs, .license, .source,
    .assetPolicy]

def Scalar.key : Scalar → Bytes
  | .format => ascii "format"
  | .name => ascii "name"
  | .version => ascii "version"
  | .architecture => ascii "architecture"
  | .target => ascii "target"
  | .kind => ascii "kind"
  | .entrypoint => ascii "entrypoint"
  | .payloadType => ascii "payload_type"
  | .runtime => ascii "runtime"
  | .minOs => ascii "min_os"
  | .license => ascii "license"
  | .source => ascii "source"
  | .assetPolicy => ascii "asset_policy"

/-- `scalar_fields.find(key)`. -/
def Scalar.find (key : Bytes) : Option Scalar := Scalar.all.find? fun s => s.key = key

def Manifest.get (m : Manifest) : Scalar → Bytes
  | .format => m.format
  | .name => m.name
  | .version => m.version
  | .architecture => m.architecture
  | .target => m.target
  | .kind => m.kind
  | .entrypoint => m.entrypoint
  | .payloadType => m.payloadType
  | .runtime => m.runtime
  | .minOs => m.minOs
  | .license => m.license
  | .source => m.source
  | .assetPolicy => m.assetPolicy

/-- `*found->second = value`. -/
def Manifest.set (m : Manifest) (value : Bytes) : Scalar → Manifest
  | .format => { m with format := value }
  | .name => { m with name := value }
  | .version => { m with version := value }
  | .architecture => { m with architecture := value }
  | .target => { m with target := value }
  | .kind => { m with kind := value }
  | .entrypoint => { m with entrypoint := value }
  | .payloadType => { m with payloadType := value }
  | .runtime => { m with runtime := value }
  | .minOs => { m with minOs := value }
  | .license => { m with license := value }
  | .source => { m with source := value }
  | .assetPolicy => { m with assetPolicy := value }

def isAllowedKind (value : Bytes) : Bool :=
  [ascii "native", ascii "application", ascii "runtime", ascii "compat-profile", ascii "firmware-descriptor"].contains value

def isAllowedPayloadType (value : Bytes) : Bool :=
  [ascii "zex1", ascii "elf32", ascii "elf64", ascii "tar", ascii "runtime-bundle", ascii "metadata", ascii "none"].contains value

def isAllowedRuntime (value : Bytes) : Bool :=
  [ascii "native", ascii "wine", ascii "proton", ascii "qemu-user", ascii "qemu-system", ascii "darling", ascii "pcsx2",
    ascii "rpcs3", ascii "xemu", ascii "xenia", ascii "external"].contains value

def safeComponent (component : Bytes) : Bool :=
  component ≠ [] && component ≠ [46] && component ≠ [46, 46] &&
    component.all fun ch => 0x20 ≤ ch && ch ≠ 0x7F && ch ≠ 92 && ch ≠ 58

/-- The components stand between slashes; that the last byte is no slash is checked before. -/
def isSafeAbsoluteEntrypoint (value : Bytes) : Bool :=
  if value = [] then false
  else if value = ascii "-" then true
  else if value.head? ≠ some 47 ∨ 127 < value.length ∨ value.getLast? = some 47 then false
  else (lines 47 value.tail).all safeComponent

def requirementByte (ch : UInt8) : Bool :=
  isAlnum ch || ch = 46 || ch = 45 || ch = 95 || ch = 58 || ch = 64 || ch = 60 || ch = 62 || ch = 61 || ch = 43

def validateRequirement (value field : Bytes) : Except Bytes Unit := do
  refuse (value = [] ∨ 96 < value.length) (field ++ ascii " entry has invalid length")
  refuse (value.all requirementByte = false) (field ++ ascii " contains an unsupported character: " ++ value)

/-! ### Reading -/

/-- The variables of `parse_manifest`. -/
structure ManifestReader where
  manifest : Manifest
  seenScalars : List Scalar
  lineNumber : Nat

def ManifestReader.start : ManifestReader := ⟨.empty, [], 0⟩

/-- A key with a value. -/
def ManifestReader.put (r : ManifestReader) (key value : Bytes) : Except Bytes ManifestReader :=
  let m := r.manifest
  if key = ascii "capability" then .ok { r with manifest := { m with capabilities := m.capabilities ++ [value] } }
  else if key = ascii "dependency" then .ok { r with manifest := { m with dependencies := m.dependencies ++ [value] } }
  else if key = ascii "conflict" then .ok { r with manifest := { m with conflicts := m.conflicts ++ [value] } }
  else
    match Scalar.find key with
    | none => .error (ascii "unknown manifest key on line " ++ ascii (toString r.lineNumber) ++ ascii ": " ++ key)
    | some s =>
      if s ∈ r.seenScalars then .error (ascii "duplicate manifest key: " ++ key)
      else .ok { r with manifest := m.set value s, seenScalars := s :: r.seenScalars }

/-- A round of the loop of `parse_manifest`. -/
def ManifestReader.line (r : ManifestReader) (line : Bytes) : Except Bytes ManifestReader :=
  let r := { r with lineNumber := r.lineNumber + 1 }
  let line := if line.getLast? = some 13 then line.dropLast else line
  let cleaned := trimmed line
  if cleaned = [] ∨ cleaned.head? = some 35 then .ok r
  else
    let equal := (cleaned.takeWhile (· ≠ 61)).length
    if equal = cleaned.length ∨ equal = 0 then
      .error (ascii "manifest line " ++ ascii (toString r.lineNumber) ++ ascii " must use key=value syntax")
    else
      let key := trimmed (cleaned.take equal)
      let value := trimmed (cleaned.drop (equal + 1))
      if value = [] then .error (ascii "manifest line " ++ ascii (toString r.lineNumber) ++ ascii " has an empty value")
      else r.put key value

def parseManifest (input : Bytes) : Except Bytes Manifest := do
  let r ← (lines 10 input).foldlM ManifestReader.line .start
  pure r.manifest

/-! ### Validation -/

/-- The loop over the values of a repeated key; `unique` holds those before. -/
def validateList (field : Bytes) : List Bytes → List Bytes → Except Bytes Unit
  | _, [] => .ok ()
  | unique, value :: rest => do
    validateRequirement value field
    refuse (value ∈ unique) (ascii "duplicate " ++ field ++ ascii ": " ++ value)
    validateList field (value :: unique) rest

def validateManifest (m : Manifest) (payloadSize : Nat) : Except Bytes Unit := do
  refuse (m.format ≠ ascii "zenpkg-manifest-1") (ascii "format must be zenpkg-manifest-1")
  refuse (!isSafeIdentifier m.name) (ascii "name must be a 1-64 character safe identifier")
  refuse (!isSafeVersion m.version) (ascii "version contains unsupported characters")
  refuse (!isSafeIdentifier m.architecture) (ascii "architecture must be a safe identifier")
  refuse (!isSafeIdentifier m.target) (ascii "target must be a safe identifier")
  refuse (!isAllowedKind m.kind) (ascii "unsupported package kind: " ++ m.kind)
  refuse (!isSafeAbsoluteEntrypoint m.entrypoint) (ascii "entrypoint must be '-' or a safe absolute path")
  refuse (!isAllowedPayloadType m.payloadType) (ascii "unsupported payload_type: " ++ m.payloadType)
  refuse (!isAllowedRuntime m.runtime) (ascii "unsupported runtime: " ++ m.runtime)
  refuse (!isSafeVersion m.minOs) (ascii "min_os contains unsupported characters")
  refuse (!isPrintableText m.license 96) (ascii "license is required, printable and must fit 96 characters")
  refuse (!isPrintableText m.source 256) (ascii "source is required, printable and must fit 256 characters")
  refuse (m.assetPolicy ≠ ascii "redistributable" ∧ m.assetPolicy ≠ ascii "user-supplied" ∧ m.assetPolicy ≠ ascii "metadata-only")
    (ascii "asset_policy must be redistributable, user-supplied, or metadata-only")
  refuse (m.payloadType = ascii "none" ∧ payloadSize ≠ 0) (ascii "payload_type=none requires an empty payload")
  refuse (m.payloadType ≠ ascii "none" ∧ payloadSize = 0) (ascii "non-empty payload_type requires payload bytes")
  refuse ((m.kind = ascii "compat-profile" ∨ m.kind = ascii "firmware-descriptor") ∧ m.entrypoint ≠ ascii "-")
    (ascii "metadata-only package kinds must use entrypoint=-")
  refuse ((m.kind = ascii "application" ∨ m.kind = ascii "native" ∨ m.kind = ascii "runtime") ∧ m.entrypoint = ascii "-")
    (ascii "executable package kinds require an entrypoint")
  validateList (ascii "capability") [] m.capabilities
  validateList (ascii "dependency") [] m.dependencies
  validateList (ascii "conflict") [] m.conflicts

def parseAndValidateManifest (input : Bytes) (payloadSize : Nat) : Except Bytes Manifest := do
  let manifest ← parseManifest input
  validateManifest manifest payloadSize
  pure manifest

/-! ### The canonical form -/

/-- `std::sort` of strings: they are compared byte by byte, as unsigned numbers. -/
def sorted (values : List Bytes) : List Bytes := values.insertionSort (· ≤ ·)

/-- A line of the canonical form. -/
def rendered (key value : Bytes) : Bytes := key ++ 61 :: value ++ [10]

def canonicalManifest (m : Manifest) : Bytes :=
  Scalar.all.flatMap (fun s => rendered s.key (m.get s)) ++
    (sorted m.capabilities).flatMap (rendered (ascii "capability")) ++
    (sorted m.dependencies).flatMap (rendered (ascii "dependency")) ++
    (sorted m.conflicts).flatMap (rendered (ascii "conflict"))

end ZenovOS.Zenpkg

/-! ## Versions of the operating system

`parse_numeric_version` and `version_at_least` of `manifest.hpp`. -/

namespace ZenovOS.Zenpkg
open Bytes ZenovOS.Package

/-- The loop over the digits of a component; `parsed` is what was read before. -/
def parseComponent (value : Bytes) : Nat → Bytes → Except Bytes Nat
  | parsed, [] => .ok parsed
  | parsed, ch :: rest => do
    refuse (isDigit ch = false) (ascii "version core must be numeric: " ++ value)
    refuse ((2 ^ 64 - 1 - (ch.toNat - 48)) / 10 < parsed) (ascii "version component overflows: " ++ value)
    parseComponent value (parsed * 10 + (ch.toNat - 48)) rest

def parseComponents (value : Bytes) : List Bytes → Except Bytes (List Nat)
  | [] => .ok []
  | component :: rest => do
    refuse (component = []) (ascii "version has an empty numeric component: " ++ value)
    let parsed ← parseComponent value 0 component
    let parts ← parseComponents value rest
    pure (parsed :: parts)

/-- What stands before the suffix. -/
def coreOf (value : Bytes) : Bytes := value.takeWhile fun ch => ch ≠ 45 && ch ≠ 43

def parseNumericVersion (value : Bytes) : Except Bytes (List Nat) := parseComponents value ((coreOf value).splitOn 46)

/-- `parts.resize(count, 0)`, which is called with no less than there are. -/
def resized (count : Nat) (parts : List Nat) : List Nat := parts ++ List.replicate (count - parts.length) 0

def versionAtLeast (current minimum : Bytes) : Except Bytes Bool := do
  let left ← parseNumericVersion current
  let right ← parseNumericVersion minimum
  let count := max left.length right.length
  if resized count left ≠ resized count right then pure (decide (resized count right < resized count left))
  else
    let currentPrerelease := current.contains 45
    let minimumPrerelease := minimum.contains 45
    if currentPrerelease ≠ minimumPrerelease then pure !currentPrerelease
    else pure (decide (minimum ≤ current))

end ZenovOS.Zenpkg
