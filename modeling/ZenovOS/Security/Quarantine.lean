import ZenovOS.Security.Guard

/-! # The quarantine

`scan_path` and `quarantine_path` of `security_guard.inc`, and the functions of `security_paths.inc` through which the
quarantine renames, writes and removes files. -/

namespace ZenovOS.Security.Quarantine
open Bytes Storage

/-! ### Appraisal -/

/-- `trusted_executables`. -/
def trustedExecutables : List (Bytes × Bytes) :=
  [(ascii "/apps/hello.zex",
      [0x2b, 0x7b, 0xa0, 0x11, 0x4d, 0x52, 0x28, 0x82, 0x5b, 0x30, 0xac, 0xa3, 0x0e, 0x0e, 0x97, 0x8f,
       0x2f, 0xaf, 0x9b, 0x79, 0x8c, 0xf7, 0xf5, 0x49, 0x47, 0x42, 0xd7, 0xa1, 0xd3, 0x30, 0x95, 0x6a]),
    (ascii "/apps/fileio.elf",
      [0x5a, 0xcc, 0x70, 0xa7, 0x8b, 0xd8, 0x30, 0xcd, 0x7b, 0x04, 0x79, 0x9b, 0xf3, 0xc2, 0xbc, 0x22,
       0x90, 0x5a, 0xc5, 0x30, 0x70, 0xdb, 0x00, 0xb5, 0x35, 0x68, 0x7c, 0x8b, 0x70, 0x3a, 0x93, 0x4e]),
    (ascii "/apps/args.elf",
      [0x4e, 0xef, 0x2c, 0x49, 0xa2, 0xec, 0x2c, 0xf5, 0x9a, 0xda, 0x1d, 0x0b, 0x0b, 0x78, 0x10, 0x52,
       0xb6, 0xbf, 0x01, 0x44, 0x1a, 0x31, 0x6b, 0xb9, 0xeb, 0x39, 0x9a, 0x23, 0xee, 0xdb, 0x07, 0x41]),
    (ascii "/apps/console.elf",
      [0xd1, 0x64, 0xc2, 0x3e, 0x8a, 0xcb, 0x2b, 0xcf, 0xb5, 0xab, 0xa4, 0x43, 0x57, 0xd4, 0xf4, 0xa4,
       0xd2, 0x23, 0x57, 0x7c, 0x4a, 0x92, 0x04, 0x7c, 0xe5, 0x7e, 0x3a, 0x16, 0x3d, 0x40, 0x71, 0x57]),
    (ascii "/apps/protect.elf",
      [0x1a, 0xad, 0xb7, 0xd6, 0xaf, 0x1a, 0x1f, 0xef, 0x13, 0x1d, 0x8c, 0x97, 0x43, 0x8e, 0xac, 0x7c,
       0x29, 0xfb, 0x43, 0xf0, 0x07, 0x50, 0x6e, 0xa3, 0x19, 0xa7, 0x1c, 0xfe, 0x4d, 0x44, 0xf2, 0xb5]),
    (ascii "/apps/kaccess.elf",
      [0xac, 0xf6, 0x67, 0xbf, 0xe6, 0x4b, 0x37, 0xef, 0x1c, 0xe1, 0x13, 0xc9, 0x34, 0x02, 0xc0, 0x56,
       0x57, 0x79, 0xf7, 0xd9, 0xa7, 0x89, 0xec, 0x8c, 0xd6, 0x1c, 0x4b, 0x53, 0xd1, 0xee, 0xe7, 0x34]),
    (ascii "/apps/zenovapp.zex",
      [0x9e, 0x17, 0x33, 0xaf, 0x56, 0xa5, 0x3a, 0xe3, 0x10, 0x55, 0xb4, 0x48, 0xf7, 0x62, 0x81, 0x5b,
       0xa7, 0xa5, 0xe1, 0xa7, 0x2b, 0xe5, 0x43, 0xae, 0xf3, 0x25, 0xbd, 0x4e, 0xa3, 0x6e, 0x0a, 0xd5])]

def trustedDigest (normalizedPath digest : Bytes) : Bool :=
  trustedExecutables.any fun trusted => normalizedPath = trusted.1 && digest = trusted.2

/-- `ScanResult` with the signature that the metadata of the quarantine names. -/
structure Scan extends ScanResult where
  signature : Bytes

section Scanning

-- the signature that goes with a verdict of `GuardState.classify`
variable (signature : Bytes → Bytes → Bytes)

/-- `scan_memory` with the appraisal of executables. -/
def appraise (s : GuardState) (path data : Bytes) : Scan :=
  let name := Security.scanPath s.volume.currentDirectory path
  let digest := sha256 data
  let zex := (ascii "ZEX1").isPrefixOf data
  let elf := ([0x7F, 69, 76, 70] : Bytes).isPrefixOf data
  match s.classify name data with
  | some verdict => ⟨⟨verdict, name, digest⟩, signature name data⟩
  | none =>
    if (zex && !zexValid data) || (elf && !elfValid data) then ⟨⟨.suspicious, name, digest⟩, ascii "Malformed.Executable"⟩
    else if zex || elf then ⟨⟨if trustedDigest name digest then .trusted else .untrusted, name, digest⟩, []⟩
    else ⟨⟨.clean, name, digest⟩, []⟩

/-- `scan_path`: the result, if the file was read and the scan recorded. -/
def scanPath (path : Bytes) : Mach GuardState (Option Scan) := do
  if cstr path = [] then pure none
  else do
    let read ← onVolume (readFileResult path scanBufferBytes)
    if !read.1.ok then pure none
    else do
      let result := appraise signature (← Mach.get) path read.2
      if ← recordEvent .scan result.toScanResult then pure (some result) else pure none

end Scanning

/-! ### Paths of the quarantine -/

def quarantineDirectory : Bytes := ascii "/quarantine"

def startsWithQuarantine (path : Bytes) : Bool := (ascii "/quarantine/").isPrefixOf path

def hex (nibble : UInt8) : UInt8 := (ascii "0123456789abcdef").getD nibble.toNat 0

def buildQuarantinePath (digest : Bytes) : Bytes :=
  ascii "/quarantine/q-" ++ (digest.take 6).flatMap (fun byte : UInt8 => [hex (byte >>> 4), hex (byte &&& 0x0F)]) ++ ascii ".qtn"

/-! ### The entrances to the file system -/

/-- `append` of a text to the 192-byte buffer. -/
def appendText (metadata text : Bytes) : Bytes := metadata ++ text.take (191 - metadata.length)

end ZenovOS.Security.Quarantine
