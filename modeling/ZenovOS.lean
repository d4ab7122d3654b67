import ZenovOS.Theorems.Process.Scheduler
import ZenovOS.Theorems.Security.Base64
import ZenovOS.Theorems.Security.ScanCache
import ZenovOS.Theorems.Process.Handles
import ZenovOS.Theorems.Process.Identities
import ZenovOS.Theorems.Process.Monitor
import ZenovOS.Theorems.Security.GuardedWrite
import ZenovOS.Theorems.Security.PolicyUpdate
import ZenovOS.Theorems.Security.ProtectedPaths
import ZenovOS.Theorems.Security.RansomwarePolicy
import ZenovOS.Theorems.Package.Rollback
import ZenovOS.Theorems.Package.Preflight
import ZenovOS.Theorems.Package.Threshold
import ZenovOS.Theorems.Memory.Release
import ZenovOS.Theorems.Memory.HeapRuns
import ZenovOS.Theorems.Package.Compatibility
import ZenovOS.Theorems.Package.PayloadBytes
import ZenovOS.Theorems.Package.Upgrades
import ZenovOS.Theorems.Security.AuditMemory
import ZenovOS.Theorems.Security.Budget
import ZenovOS.Theorems.Security.JournalFormat
import ZenovOS.Theorems.Security.MerkleRoot
import ZenovOS.Theorems.Security.PolicyPaths
import ZenovOS.Theorems.Security.QuarantineLaw
import ZenovOS.Theorems.Storage.Geometry
import ZenovOS.Theorems.Storage.LiveDevice
import ZenovOS.Theorems.Storage.LiveImage
import ZenovOS.Theorems.Tools.Digests
import ZenovOS.Theorems.Tools.Zenpkg.Versions
import ZenovOS.Theorems.Process.Stack
import ZenovOS.Theorems.Tools.Zenuniverse.Canonical
import ZenovOS.Theorems.Tools.Zenuniverse.Alternatives
import ZenovOS.Theorems.Security.RsaPss
import ZenovOS.Theorems.Security.Tpm2
import ZenovOS.Theorems.Productivity.Calculator
import ZenovOS.Theorems.Productivity.InputLines
import ZenovOS.Theorems.Shell.Calc
import ZenovOS.Theorems.Shell.LineEditor
import ZenovOS.Theorems.Runtime.Division
import ZenovOS.Theorems.Productivity.Units
import ZenovOS.Theorems.Tools.Fat12Builder
import ZenovOS.Theorems.Tools.Stage0
import ZenovOS.Theorems.Tools.AppCompiler
import ZenovOS.Theorems.Productivity.Tasks
import ZenovOS.Theorems.Storage.Store
