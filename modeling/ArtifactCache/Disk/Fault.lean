import ArtifactCache.Disk.SystemError

/-! # Faults of the disk

An operation on the disk fails with a fault: either an error number of the
system, or a condition that was reported with a text of its own.  A few faults
are told apart, because what is advised afterwards depends on them.
-/

namespace ArtifactCache

/-- The conditions that matter to the advice given after a fault. -/
inductive FaultKind where
  | notFound
  | permissionDenied
  | interrupted
  | timedOut
  | other
  deriving DecidableEq, Repr

/-- Why an operation on the disk failed. -/
inductive Fault where
  | system (number : Int)
  | reported (kind : FaultKind) (text : String)
  deriving DecidableEq, Repr

namespace Fault

def notFound : Fault := .system 2

def busy : Fault := .system 16

def alreadyExists : Fault := .system 17

def notDirectory : Fault := .system 20

def isDirectory : Fault := .system 21

def nameTooLong : Fault := .system 36

/-- Links lead to links without an end. -/
def linkLoop : Fault := .system 40

/-- A path cannot hold the null character. -/
def nullInPath : Fault := .reported .other "file name contained an unexpected NUL byte"

/-- The bytes of a file are no text. -/
def notText : Fault := .reported .other "stream did not contain valid UTF-8"

def kind : Fault → FaultKind
  | .system 1 | .system 13 => .permissionDenied
  | .system 2 => .notFound
  | .system 4 => .interrupted
  | .system 110 => .timedOut
  | .system _ => .other
  | .reported kind _ => kind

def message : Fault → String
  | .system number => systemErrorText number ++ " (os error " ++ toString number ++ ")"
  | .reported _ text => text

end Fault

end ArtifactCache
