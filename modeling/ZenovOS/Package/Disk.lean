import ZenovOS.Lib.Drive
import ZenovOS.Storage.Path

/-! # The file system as the package services use it

The requests of `security_paths.inc` that the package services make. Each goes by the normalised path, and
those that change a file are limited to the paths that the service manages. -/

namespace ZenovOS.Package
open Bytes Storage

/-- The files and the shell's current directory, against which a path is normalised. -/
structure Disk where
  drive : Drive Bytes
  currentDirectory : Bytes

/-! ### Managed paths -/

def packagePayloadName (normalized : Bytes) : Bool := (ascii "/apps/pkg-").isPrefixOf normalized

def packageDatabaseName (normalized : Bytes) : Bool := normalized = ascii "/var/lib/zenpkg/state.v1"

def repositoryStateName (normalized : Bytes) : Bool := normalized = ascii "/var/lib/zenpkg/repo.v1"

def packageTransportStateName (normalized : Bytes) : Bool := normalized = ascii "/var/lib/zenpkg/transport.v1"

def packageCacheObjectName (normalized : Bytes) : Bool :=
  (ascii "/var/cache/zp/").isPrefixOf normalized && normalized.length ≠ 14

def packageManagedName (normalized : Bytes) : Bool :=
  packagePayloadName normalized || packageDatabaseName normalized || repositoryStateName normalized ||
    packageTransportStateName normalized || packageCacheObjectName normalized

/-! ### Requests -/

namespace Disk

def files (d : Disk) : Bytes → Option Bytes := d.drive.files

def mounted (d : Disk) : Bool := d.drive.mounted

/-- The content of a file. -/
def query (d : Disk) (input : Bytes) : Option Bytes := (normalizePath d.currentDirectory input).bind d.drive.query

def onDrive {α : Type} (m : Mach (Drive Bytes) α) : Mach Disk α :=
  Mach.zoom Disk.drive (fun d drive => { d with drive }) m

/-- A request for the file that `input` names, if the path is allowed. -/
def onFile {α : Type} (allowed : Bytes → Bool) (input : Bytes) (rejected : α) (m : Bytes → Mach (Drive Bytes) α) :
    Mach Disk α := do
  let d ← Mach.get
  match (normalizePath d.currentDirectory input).filter allowed with
  | none => pure rejected
  | some path => onDrive (m path)

def readFile (input : Bytes) (capacity : Nat) : Mach Disk (Option Bytes) :=
  onFile (fun _ => true) input none fun path => Drive.read path capacity

def syncMetadata : Mach Disk Bool := onDrive Drive.sync

def packageWriteFile (input data : Bytes) : Mach Disk Bool :=
  onFile packageManagedName input false fun path => Drive.write path data

end Disk
end ZenovOS.Package
