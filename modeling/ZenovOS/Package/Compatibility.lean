import ZenovOS.Process.Loader

/-! # The compatibility check

`package_compatibility::check`: what can be done with a file of another system. The detection of formats and the
validators of the formats that cannot run are parameters. -/

namespace ZenovOS.Package.Compatibility
open Process

/-- `package_foreign::Format`. -/
inductive Format
  | unknown | zenpkg | zex1 | elf | elfForeign | appimage | portableExecutable | msi | msix | cabinet | windowsUpdate | windowsImage
  | deb | rpm | alpineApk | archPackage | snap | flatpak | applePkg | appleDmg | macho | xboxXbe | xboxXex | xboxStfs | xboxXvc
  | xboxMsixvc | xboxMsixvc2 | playstationPsxExe | playstationPs2Elf | playstationPbp | playstationPkg | playstationPup
  | playstationSelf | discImage | chdImage | zip
  deriving DecidableEq

inductive Verdict
  | blocked
  | inspectOnly
  | runnableSandbox
  deriving DecidableEq

structure Result where
  format : Format
  verdict : Verdict
  platform : String
  reason : String
  recognized : Bool
  structurallyValid : Bool
  runtimeReady : Bool
  trustVerified : Bool

/-- What `check` calls: on the bytes of the file and its path, and on the bytes. -/
structure Detectors where
  classify : Bytes → Bytes → Format
  validatePe32 : Bytes → Bool
  validatePsxExe : Bytes → Bool
  validatePs2Elf : Bytes → Bool
  validateXbe : Bytes → Bool

/-- A format that is recognized but cannot run. -/
def inspected (format : Format) (platform : String) (valid : Bool) (accepted refused : String) : Result where
  format := format
  verdict := if valid then .inspectOnly else .blocked
  platform := platform
  reason := if valid then accepted else refused
  recognized := true
  structurallyValid := valid
  runtimeReady := false
  trustVerified := false

def check (d : Detectors) (file path : Bytes) : Result :=
  let format := d.classify file path
  match format with
  | .elf =>
    let valid := (LinuxI386Elf.validate file 0x000fc000 4096).isSome
    { format := format
      verdict := if valid then .runnableSandbox else .blocked
      platform := "Linux/i386"
      reason := if valid then "static ET_EXEC fits the one-MiB ring-3 window; minimal write/exit ABI is available"
        else "malformed, dynamic, overlapping, W+X or out-of-window Linux/i386 ELF"
      recognized := true
      structurallyValid := valid
      runtimeReady := valid
      trustVerified := false }
  | .portableExecutable =>
    inspected format "Windows/i386" (d.validatePe32 file)
      "bounded PE32 layout passed; Authenticode and Win32 runtime are not yet available"
      "malformed, overlapping, W+X, DLL, non-i386 or invalid-entry PE32"
  | .playstationPsxExe =>
    inspected format "PlayStation 1" (d.validatePsxExe file)
      "PS-X EXE load, entry, fill and stack ranges fit isolated two-MiB PS1 RAM"
      "malformed or out-of-range PS-X EXE header and payload"
  | .playstationPs2Elf =>
    inspected format "PlayStation 2" (d.validatePs2Elf file)
      "bounded R5900 ET_EXEC layout passed; Emotion Engine runtime is not yet available"
      "malformed, dynamic, overlapping, W+X, generic-MIPS or invalid-entry PS2 ELF"
  | .xboxXbe =>
    inspected format "Original Xbox" (d.validateXbe file)
      "bounded XBE header and sections passed; signature trust and Xbox runtime are not yet available"
      "malformed, overlapping, W+X or out-of-image XBE layout"
  | _ =>
    { format := format
      verdict := .blocked
      platform := "unknown"
      reason := "format is not covered by an exact compatibility validator"
      recognized := false
      structurallyValid := false
      runtimeReady := false
      trustVerified := false }

end ZenovOS.Package.Compatibility
