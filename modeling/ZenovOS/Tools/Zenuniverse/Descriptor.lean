import ZenovOS.Tools.Zenpkg.Manifest

/-! # Descriptors of the package universe

`capability.hpp` and `validate_descriptor` of `descriptor.hpp`, with what they use of `common.hpp`. A descriptor
says what a package needs of its host and what it provides. An error is the text that is thrown. -/

namespace ZenovOS.Zenuniverse
open Bytes Zenpkg

/-! ### Text -/

/-- `value.find(text) != npos`. -/
def contains (value text : Bytes) : Bool := value.tails.any text.isPrefixOf

def safeId (value : Bytes) : Bool :=
  value ≠ [] && value.length ≤ 96 &&
    (value.all fun c => isAlnum c || c = 46 || c = 45 || c = 95 || c = 43) &&
    value.head? ≠ some 46 && value.getLast? ≠ some 46 && !contains value [46, 46]

def printable (value : Bytes) (maximum : Nat) : Bool :=
  value ≠ [] && value.length ≤ maximum && value.all fun c => 0x20 ≤ c && c ≠ 0x7F

/-- `std::isxdigit` without the capitals. -/
def isLowerHex (c : UInt8) : Bool := (48 ≤ c && c ≤ 57) || (97 ≤ c && c ≤ 102)

def hex64 (value : Bytes) : Bool := value.length = 64 && value.all isLowerHex

def httpsUrl (value : Bytes) : Bool :=
  if value.length < 12 ∨ 512 < value.length ∨ value.take 8 ≠ ascii "https://" then false
  else if value.any fun c => c = 13 || c = 10 || c = 9 || c = 32 then false
  else
    let host := (value.drop 8).takeWhile (· ≠ 47)
    host ≠ [] && host.contains 46 && host.head? ≠ some 46 && host.getLast? ≠ some 46

/-! ### Capabilities -/

def runtimeNames : List Bytes :=
  [ascii "native", ascii "linux-i386-minimal", ascii "linux-abi", ascii "wine", ascii "proton", ascii "qemu-user",
    ascii "qemu-system", ascii "darling", ascii "duckstation", ascii "ppsspp", ascii "pcsx2", ascii "rpcs3", ascii "xemu",
    ascii "xenia", ascii "external"]

def staticCapabilities : List Bytes :=
  [ascii "abi.zenov.zex1", ascii "abi.linux.i386.int80-minimal", ascii "audio.low-latency", ascii "audio.stream",
    ascii "cpu.avx2", ascii "cpu.sse4.1", ascii "cpu.x86", ascii "cpu.x86_64-modern", ascii "filesystem.fuse-or-extract",
    ascii "filesystem.overlay", ascii "graphics.framebuffer", ascii "graphics.opengl", ascii "graphics.opengl3.0",
    ascii "graphics.opengl3.1", ascii "graphics.opengl3.3", ascii "graphics.vulkan", ascii "graphics.vulkan1.0",
    ascii "graphics.vulkan1.1", ascii "graphics.vulkan1.3", ascii "graphics.window-system", ascii "input.gamepad",
    ascii "input.keyboard", ascii "input.mouse", ascii "kernel.dynamic-linker", ascii "kernel.futex", ascii "kernel.jit",
    ascii "kernel.mmap", ascii "kernel.namespaces", ascii "kernel.processes", ascii "kernel.signals",
    ascii "kernel.single-foreground-process", ascii "kernel.threads", ascii "loader.elf32-static",
    ascii "loader.elf64-dynamic", ascii "loader.elf64-static", ascii "storage.large-files", ascii "storage.small-files",
    ascii "storage.zenovfs"]

def knownCapability (value : Bytes) : Bool :=
  staticCapabilities.contains value || ((ascii "runtime.").isPrefixOf value && runtimeNames.contains (value.drop 8))

/-- The loop of `parse_capability_alternatives`. -/
def checkTokens : List Bytes → Except Bytes Unit
  | [] => .ok ()
  | token :: rest => do
    refuse (!knownCapability token) (ascii "unknown capability in requires-any: " ++ token)
    checkTokens rest

def parseCapabilityAlternatives (value : Bytes) : Except Bytes (List Bytes) := do
  let options := value.splitOn 124
  checkTokens options
  refuse (options.length < 2) (ascii "requires-any must contain at least two capabilities")
  let options := sorted options
  refuse ((options.zip options.tail).any fun pair => pair.1 = pair.2) (ascii "requires-any contains duplicate capability")
  pure options

def canonicalAlternatives (value : Bytes) : Except Bytes Bytes := do
  let options ← parseCapabilityAlternatives value
  pure ([124].intercalate options)

/-! ### Descriptors -/

structure Descriptor where
  schema : Bytes
  id : Bytes
  version : Bytes
  kind : Bytes
  platform : Bytes
  architecture : Bytes
  artifact : Bytes
  delivery : Bytes
  runtime : Bytes
  availability : Bytes
  entrypoint : Bytes
  channel : Bytes
  category : Bytes
  license : Bytes
  description : Bytes
  homepage : Bytes
  sha : Bytes
  providerAbi : Bytes
  launchMode : Bytes
  bytes : Nat
  mirrors : List Bytes
  requirements : List Bytes
  requirementAny : List Bytes
  provides : List Bytes
  assets : List Bytes
  accepts : List Bytes
  launchArgs : List Bytes
  source : Bytes
  deriving DecidableEq

def kinds : List Bytes :=
  [ascii "application", ascii "game", ascii "runtime", ascii "sdk", ascii "toolchain", ascii "profile", ascii "firmware"]

def platforms : List Bytes :=
  [ascii "zenov", ascii "linux", ascii "windows", ascii "macos", ascii "playstation1", ascii "playstation-portable",
    ascii "playstation2", ascii "playstation3", ascii "xbox", ascii "xbox360"]

def architectures : List Bytes := [ascii "any", ascii "x86", ascii "x86_64", ascii "arm64", ascii "ppc64"]

def artifacts : List Bytes :=
  [ascii "zpk", ascii "zex1", ascii "elf32", ascii "elf64", ascii "appimage", ascii "flatpak", ascii "deb", ascii "rpm",
    ascii "tar", ascii "exe", ascii "msi", ascii "msix", ascii "appx", ascii "dmg", ascii "pkg", ascii "app", ascii "iso",
    ascii "disc-image", ascii "rom", ascii "psx-exe", ascii "bin-cue", ascii "chd", ascii "pbp", ascii "cso",
    ascii "runtime-bundle", ascii "metadata"]

def deliveries : List Bytes :=
  [ascii "builtin", ascii "embedded", ascii "https", ascii "user-supplied", ascii "metadata-only"]

def availabilityValues : List Bytes := [ascii "available", ascii "planned", ascii "external"]

def launchModes : List Bytes := [ascii "builtin", ascii "exec", ascii "external"]

def safeRuntimeEntrypoint (value : Bytes) : Bool :=
  if value = ascii "@kernel-loader" then true
  else if value.length < 2 ∨ 192 < value.length ∨ value.head? ≠ some 47 then false
  else if contains value (ascii "//") ∨ contains value (ascii "/../") ∨ contains value (ascii "/./") ∨
      value.getLast? = some 47 then false
  else value.all fun c => 0x21 ≤ c && c ≤ 0x7E && c ≠ 92

def validLaunchArgument (value : Bytes) (assets : List Bytes) : Bool :=
  if !printable value 192 then false
  else if value = ascii "%artifact%" then true
  else if (ascii "%asset:").isPrefixOf value ∧ 8 < value.length ∧ value.getLast? = some 37 then
    assets.contains ((value.drop 7).take (value.length - 8))
  else !value.contains 37

def runtimeCapability (descriptor : Descriptor) : Bytes := ascii "runtime." ++ descriptor.runtime

/-- A loop that inserts the values of a repeated key into a set; `unique` holds those before. -/
def validateUnique (valid : Bytes → Bool) (text : Bytes → Bytes) : List Bytes → List Bytes → Except Bytes Unit
  | _, [] => .ok ()
  | unique, value :: rest => do
    refuse (!valid value ∨ value ∈ unique) (text value)
    validateUnique valid text (value :: unique) rest

def validateUniqueCapabilities (values : List Bytes) (field source : Bytes) : Except Bytes Unit :=
  validateUnique knownCapability
    (fun value => ascii "unknown or duplicate " ++ field ++ ascii " in " ++ source ++ ascii ": " ++ value) [] values

/-- The loop over the `requires-any` groups; `anyGroups` holds the canonical forms before. -/
def validateGroups (source : Bytes) : List Bytes → List Bytes → Except Bytes Unit
  | _, [] => .ok ()
  | anyGroups, group :: rest => do
    let canonical ← canonicalAlternatives group
    refuse (canonical ∈ anyGroups) (ascii "duplicate requires-any in " ++ source)
    validateGroups source (canonical :: anyGroups) rest

def consolePlatforms : List Bytes :=
  [ascii "playstation1", ascii "playstation-portable", ascii "playstation2", ascii "playstation3", ascii "xbox",
    ascii "xbox360"]

/-- The map `allowed`; the platform is one of `platforms`. -/
def allowedArtifacts (platform : Bytes) : List Bytes :=
  if platform = ascii "windows" then
    [ascii "exe", ascii "msi", ascii "msix", ascii "appx", ascii "runtime-bundle", ascii "metadata"]
  else if platform = ascii "linux" then
    [ascii "elf32", ascii "elf64", ascii "appimage", ascii "flatpak", ascii "deb", ascii "rpm", ascii "tar",
      ascii "runtime-bundle", ascii "metadata"]
  else if platform = ascii "macos" then
    [ascii "dmg", ascii "pkg", ascii "app", ascii "runtime-bundle", ascii "metadata"]
  else if platform = ascii "playstation1" then
    [ascii "psx-exe", ascii "bin-cue", ascii "chd", ascii "pbp", ascii "iso", ascii "disc-image", ascii "metadata"]
  else if platform = ascii "playstation-portable" then
    [ascii "iso", ascii "disc-image", ascii "pbp", ascii "cso", ascii "metadata"]
  else if platform = ascii "playstation2" then [ascii "iso", ascii "disc-image", ascii "cso", ascii "metadata"]
  else if platform = ascii "playstation3" then [ascii "iso", ascii "disc-image", ascii "metadata"]
  else if platform = ascii "xbox" ∨ platform = ascii "xbox360" then
    [ascii "iso", ascii "disc-image", ascii "rom", ascii "metadata"]
  else [ascii "zpk", ascii "zex1", ascii "elf32", ascii "runtime-bundle", ascii "metadata"]

/-- The map `platform_runtime`. -/
def platformRuntimes (platform : Bytes) : List Bytes :=
  if platform = ascii "windows" then [ascii "wine", ascii "proton", ascii "qemu-system", ascii "external"]
  else if platform = ascii "linux" then
    [ascii "linux-i386-minimal", ascii "linux-abi", ascii "qemu-user", ascii "qemu-system", ascii "external"]
  else if platform = ascii "macos" then [ascii "darling", ascii "qemu-system", ascii "external"]
  else if platform = ascii "playstation1" then [ascii "duckstation", ascii "external"]
  else if platform = ascii "playstation-portable" then [ascii "ppsspp", ascii "external"]
  else if platform = ascii "playstation2" then [ascii "pcsx2", ascii "external"]
  else if platform = ascii "playstation3" then [ascii "rpcs3", ascii "external"]
  else if platform = ascii "xbox" then [ascii "xemu", ascii "external"]
  else if platform = ascii "xbox360" then [ascii "xenia", ascii "external"]
  else [ascii "native", ascii "external"]

/-- What `validate_descriptor` checks of the delivery. -/
def validateDelivery (d : Descriptor) : Except Bytes Unit :=
  if d.delivery = ascii "https" then
    refuse (d.mirrors = [] ∨ !hex64 d.sha ∨ d.bytes = 0)
      (ascii "https delivery requires mirror, bytes and lowercase sha256: " ++ d.source)
  else if d.delivery = ascii "embedded" then
    refuse (d.mirrors ≠ [] ∨ !hex64 d.sha ∨ d.bytes = 0)
      (ascii "embedded delivery requires bytes/sha256 and no mirrors: " ++ d.source)
  else if d.delivery = ascii "builtin" then
    refuse (d.mirrors ≠ [] ∨ d.sha ≠ ascii "-" ∨ d.bytes ≠ 0 ∨ d.kind ≠ ascii "runtime")
      (ascii "builtin delivery is reserved for zero-byte runtime substrate: " ++ d.source)
  else if d.delivery = ascii "metadata-only" then
    refuse (d.mirrors ≠ [] ∨ d.sha ≠ ascii "-" ∨ d.bytes ≠ 0)
      (ascii "metadata-only requires bytes=0 sha256=- and no mirrors: " ++ d.source)
  else if d.delivery = ascii "user-supplied" then
    refuse (d.mirrors ≠ [] ∨ d.sha ≠ ascii "-" ∨ d.bytes ≠ 0)
      (ascii "user-supplied content cannot publish mirrors or fixed bytes: " ++ d.source)
  else .ok ()

/-- What `validate_descriptor` checks of a runtime provider. -/
def validateRuntime (d : Descriptor) : Except Bytes Unit := do
  refuse (d.runtime ≠ ascii "native") (ascii "runtime provider itself must execute natively: " ++ d.source)
  refuse (d.providerAbi ≠ ascii "zen-runtime-provider-1")
    (ascii "runtime provider must declare provider-abi=zen-runtime-provider-1: " ++ d.source)
  refuse (!launchModes.contains d.launchMode) (ascii "runtime provider has invalid launch-mode: " ++ d.source)
  refuse (d.accepts = []) (ascii "runtime provider must declare accepted artifacts: " ++ d.source)
  refuse (!safeRuntimeEntrypoint d.entrypoint)
    (ascii "runtime provider entrypoint must be absolute or @kernel-loader: " ++ d.source)
  refuse (d.provides.length ≠ 1 ∨ !(d.provides.head?.any (ascii "runtime.").isPrefixOf))
    (ascii "runtime provider must provide exactly one runtime capability: " ++ d.source)
  let expectedSuffix := d.id.rtakeWhile (· ≠ 46)
  refuse (d.provides.head? ≠ some (ascii "runtime." ++ expectedSuffix))
    (ascii "runtime provider id/capability mismatch: " ++ d.source)
  if d.delivery = ascii "builtin" then
    refuse (d.availability ≠ ascii "available" ∨ d.launchMode ≠ ascii "builtin" ∨ d.entrypoint ≠ ascii "@kernel-loader")
      (ascii "builtin runtime must be available through @kernel-loader: " ++ d.source)
  else
    refuse (d.availability = ascii "available" ∧ d.delivery ≠ ascii "embedded" ∧ d.delivery ≠ ascii "https")
      (ascii "available runtime must contain downloadable, embedded or builtin bytes: " ++ d.source)
  refuse (d.launchMode = ascii "builtin" ∧ d.delivery ≠ ascii "builtin")
    (ascii "builtin launch-mode requires builtin delivery: " ++ d.source)

def validateDescriptor (d : Descriptor) : Except Bytes Unit := do
  refuse (d.schema ≠ ascii "zen-source-1") (ascii "schema must be zen-source-1: " ++ d.source)
  refuse (!safeId d.id ∨ !safeId d.version) (ascii "unsafe id or version: " ++ d.source)
  refuse (!kinds.contains d.kind ∨ !platforms.contains d.platform ∨ !architectures.contains d.architecture ∨
      !artifacts.contains d.artifact ∨ !deliveries.contains d.delivery ∨ !runtimeNames.contains d.runtime ∨
      !availabilityValues.contains d.availability) (ascii "unsupported enum in " ++ d.source)
  refuse (!safeId d.channel ∨ !safeId d.category ∨ !printable d.license 96 ∨ !printable d.description 240 ∨
      !httpsUrl d.homepage) (ascii "invalid metadata in " ++ d.source)
  refuse (d.entrypoint = [] ∨ 192 < d.entrypoint.length ∨ (d.entrypoint.any fun c => c = 13 || c = 10) = true)
    (ascii "invalid entrypoint in " ++ d.source)
  validateUniqueCapabilities d.requirements (ascii "requires") d.source
  validateUniqueCapabilities d.provides (ascii "provides") d.source
  validateGroups d.source [] d.requirementAny
  validateUnique safeId (fun _ => ascii "invalid or duplicate asset in " ++ d.source) [] d.assets
  validateUnique artifacts.contains (fun _ => ascii "invalid or duplicate accepts in " ++ d.source) [] d.accepts
  d.launchArgs.forM fun value =>
    refuse (!validLaunchArgument value d.assets) (ascii "invalid launch argument in " ++ d.source ++ ascii ": " ++ value)
  validateUnique httpsUrl (fun _ => ascii "invalid or duplicate HTTPS mirror in " ++ d.source) [] d.mirrors
  validateDelivery d
  refuse (consolePlatforms.contains d.platform ∧ d.kind = ascii "game" ∧ d.delivery ≠ ascii "user-supplied")
    (ascii "console game content must be user-supplied: " ++ d.source)
  refuse (!(allowedArtifacts d.platform).contains d.artifact) (ascii "artifact/platform mismatch: " ++ d.source)
  refuse (d.kind ≠ ascii "runtime" ∧ !(platformRuntimes d.platform).contains d.runtime)
    (ascii "runtime/platform mismatch: " ++ d.source)
  if d.kind = ascii "runtime" then validateRuntime d
  else
    refuse (d.providerAbi ≠ [] ∨ d.launchMode ≠ [] ∨ d.accepts ≠ [] ∨ d.launchArgs ≠ [])
      (ascii "only runtime providers may declare provider ABI, accepts or launch arguments: " ++ d.source)

/-! ### Versions -/

/-- `std::numeric_limits<std::uint64_t>::max()`. -/
abbrev u64Max : Nat := 2 ^ 64 - 1

/-- The number at the start of a part of a version, no more than `u64Max`. -/
def versionNumber (number : Nat) : Bytes → Nat
  | [] => number
  | c :: rest =>
    if c < 48 ∨ 57 < c then number
    else
      let digit := (c - 48).toNat
      if (u64Max - digit) / 10 < number then u64Max else versionNumber (number * 10 + digit) rest

/-- `version_parts`: a version that ends in a full stop has no part behind it. -/
def versionParts (value : Bytes) : List Nat :=
  let parts := value.splitOn 46
  (if parts.getLast? = some [] then parts.dropLast else parts).map (versionNumber 0)

/-- `parts.resize(size)` to a greater size. -/
def resize (parts : List Nat) (size : Nat) : List Nat := parts ++ List.replicate (size - parts.length) 0

def versionLess (left right : Descriptor) : Bool :=
  let a := versionParts left.version
  let b := versionParts right.version
  let size := max a.length b.length
  let a := resize a size
  let b := resize b size
  if a = b then left.version < right.version else a < b

end ZenovOS.Zenuniverse
