import ArtifactCache.Failure
import ArtifactCache.Settings.Environment

/-! # Settings

The settings of a cache, their defaults, and the values that a cache cannot run
with.  The numbers of workers are optional; where they are not set, the hardware
decides, within bounds.
-/

namespace ArtifactCache

structure Settings where
  baseDirectory : DiskPath
  /-- The budget for the bytes on disk of all entries. -/
  maxSize : UInt64
  /-- How many files may be removed at once in the background. -/
  maxRemovals : UInt64
  upgradeWorkers : Option UInt64
  inventoryWorkers : Option UInt64
  deriving DecidableEq, Repr

/-- Why settings cannot be used. -/
inductive SettingsFault where
  | emptyDirectory
  | zeroSize
  | zeroRemovals
  | zeroWorkers
  | notNumber (variableName value : String)
  | malformed (report : String)
  deriving DecidableEq, Repr

def SettingsFault.message : SettingsFault → String
  | .emptyDirectory => "base directory must not be empty"
  | .zeroSize => "maximum size must be greater than zero"
  | .zeroRemovals => "concurrent removal limit must be greater than zero"
  | .zeroWorkers => "worker counts must be greater than zero"
  | .notNumber variableName value =>
    variableName ++ " must be a non-negative integer, got " ++ Text.quoted value
  | .malformed report => "invalid configuration file: " ++ report

/-- A number of workers brought into bounds.  The lower bound wins over the upper
one. -/
def clampWorkers (available low high : Nat) : Nat :=
  max low (min available (max low high))

namespace Settings

/-- Ten gibibytes. -/
def defaultMaxSize : UInt64 := 10737418240

def defaultMaxRemovals : UInt64 := 5000

/-- The bounds on the number of workers for an inventory. -/
def fewestInventoryWorkers : Nat := 4
def mostInventoryWorkers : Nat := 16

/-- The settings of a user who has set nothing. -/
def default (environment : Environment) : Settings :=
  { baseDirectory := environment.storeFolder
    maxSize := defaultMaxSize
    maxRemovals := defaultMaxRemovals
    upgradeWorkers := none
    inventoryWorkers := none }

/-- The number of workers for an upgrade on hardware of a given width. -/
def effectiveUpgradeWorkers (settings : Settings) (available : Nat) : Nat :=
  max 1 ((settings.upgradeWorkers.map UInt64.toNat).getD available)

/-- The number of workers for an inventory on hardware of a given width. -/
def effectiveInventoryWorkers (settings : Settings) (available : Nat) : Nat :=
  max 1 ((settings.inventoryWorkers.map UInt64.toNat).getD
    (clampWorkers available fewestInventoryWorkers mostInventoryWorkers))

/-- The first thing that is wrong with settings. -/
def fault? (settings : Settings) : Option SettingsFault :=
  if settings.baseDirectory.bytes = [] then some .emptyDirectory
  else if settings.maxSize = 0 then some .zeroSize
  else if settings.maxRemovals = 0 then some .zeroRemovals
  else if settings.upgradeWorkers = some 0 ∨ settings.inventoryWorkers = some 0 then
    some .zeroWorkers
  else none

/-- The settings, if a cache can run with them. -/
def checked (settings : Settings) : Except SettingsFault Settings :=
  match settings.fault? with
  | some fault => .error fault
  | none => .ok settings

inductive Change where
  | baseDirectory (path : DiskPath)
  | maxSize (bytes : UInt64)
  | maxRemovals (count : UInt64)
  | upgradeWorkers (count : UInt64)
  | inventoryWorkers (count : UInt64)
  deriving DecidableEq, Repr

def change (settings : Settings) : Change → Settings
  | .baseDirectory path => { settings with baseDirectory := path }
  | .maxSize bytes => { settings with maxSize := bytes }
  | .maxRemovals count => { settings with maxRemovals := count }
  | .upgradeWorkers count => { settings with upgradeWorkers := some count }
  | .inventoryWorkers count => { settings with inventoryWorkers := some count }

/-- The default settings after several changes, if a cache can run with them. -/
def build (environment : Environment) (changes : List Change) : Except SettingsFault Settings :=
  (changes.foldl change (default environment)).checked

end Settings

def Failure.ofSettings (fault : SettingsFault) : Failure :=
  .settings fault.message

end ArtifactCache
