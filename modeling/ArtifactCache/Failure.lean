import ArtifactCache.Disk.DiskPath
import ArtifactCache.Disk.Fault
import ArtifactCache.Entry.NameError

/-! # Failures

Everything that can go wrong for the user of a cache, with the report, the advice
that goes with it, and the chain of causes.  A failure during startup wraps the
failure of the stage that it happened in and passes its advice on.
-/

namespace ArtifactCache

/-- What the user may do about a failure. -/
inductive Remedy where
  | retry
  | checkPermissions (path : DiskPath)
  | verifyDirectory (path : DiskPath)
  | removeFile (path : DiskPath)
  | updateSettings
  | manual (instructions : String)
  | none
  deriving DecidableEq, Repr

/-- The stages of startup, in their order. -/
inductive Stage where
  | directories
  | upgrade
  | inventory
  | replay
  deriving DecidableEq, Repr

def Stage.purpose : Stage → String
  | .directories => "create directories"
  | .upgrade => "migrate legacy layout"
  | .inventory => "scan cache directory"
  | .replay => "build index"

inductive Failure where
  /-- The disk refused an operation. -/
  | disk (path : DiskPath) (operation : String) (fault : Fault)
  /-- The settings file could not be read. -/
  | unreadableSettings (path : DiskPath) (fault : Fault)
  /-- Something in the cache directory does not belong to the layout. -/
  | foreignEntry (path : DiskPath) (reason : String)
  /-- A file of the current layout could not be decoded. -/
  | unrecognizedFile (path : DiskPath) (reason : String)
  /-- A digest, a token or a size was refused. -/
  | invalidKey (key : String) (reason : String)
  /-- An older layout could not be upgraded. -/
  | upgrade (path : DiskPath) (reason : String) (fault : Option Fault)
  /-- The settings cannot be used. -/
  | settings (reason : String)
  /-- A stage of startup failed. -/
  | startup (stage : Stage) (cause : Failure)
  /-- The task that runs the stages of startup beside the caller was lost: it panicked, or it was
  cancelled.  No stage does either, so an opening never ends like this. -/
  | background (operation : String) (reason : String)
  deriving DecidableEq, Repr

namespace Failure

def ofNameError (error : NameError) : Failure :=
  .invalidKey error.input error.message

def message : Failure → String
  | .disk path operation fault =>
    "I/O error during " ++ operation ++ " on '" ++ path.display ++ "': " ++ fault.message
  | .unreadableSettings path fault =>
    "I/O error during read config file on '" ++ path.display ++ "': " ++ fault.message
  | .foreignEntry path reason =>
    "Unexpected entry in cache directory '" ++ path.display ++ "': " ++ reason
  | .unrecognizedFile path reason => "Unrecognized file '" ++ path.display ++ "': " ++ reason
  | .invalidKey key reason => "Invalid cache key '" ++ key ++ "': " ++ reason
  | .upgrade path reason none =>
    "Migration of '" ++ path.display ++ "' failed: " ++ reason
  | .upgrade path reason (some fault) =>
    "Migration of '" ++ path.display ++ "' failed: " ++ reason ++ ": " ++ fault.message
  | .settings reason => "Cache configuration error: " ++ reason
  | .startup stage cause => "Cache startup failed to " ++ stage.purpose ++ ": " ++ cause.message
  | .background operation reason =>
    "Background task for " ++ operation ++ " failed: " ++ reason

/-- The advice after a fault of the disk. -/
def remedyFor (path : DiskPath) (fault : Fault) : Remedy :=
  match fault.kind with
  | .permissionDenied => .checkPermissions path
  | .interrupted | .timedOut => .retry
  | .notFound | .other => .none

def remedy : Failure → Remedy
  | .disk path _ fault => remedyFor path fault
  | .unreadableSettings path _ => .checkPermissions path
  | .foreignEntry path _ => .verifyDirectory path
  | .unrecognizedFile path _ => .removeFile path
  | .invalidKey _ _ => .none
  | .upgrade _ _ none => .manual "Move or delete the legacy cache directory and restart"
  | .upgrade path _ (some _) => .checkPermissions path
  | .settings _ => .updateSettings
  | .startup _ cause => cause.remedy
  | .background _ _ => .none

/-- Whether trying again may help. -/
def isTransient (failure : Failure) : Bool :=
  failure.remedy = .retry

/-- Whether the cache directory holds foreign or damaged content. -/
def isCorruption : Failure → Bool
  | .foreignEntry _ _ | .unrecognizedFile _ _ => true
  | .startup _ cause => cause.isCorruption
  | _ => false

/-- The reports of the causes behind a failure, the nearest one first. -/
def causes : Failure → List String
  | .disk _ _ fault | .unreadableSettings _ fault | .upgrade _ _ (some fault) => [fault.message]
  | .startup _ cause => cause.message :: cause.causes
  | _ => []

end Failure

end ArtifactCache
