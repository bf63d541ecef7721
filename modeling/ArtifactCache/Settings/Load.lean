import ArtifactCache.Settings.Json

/-! # Loading settings

Settings come from three sources.  The defaults give way to a JSON file, if there is
one, and both give way to variables of the environment.  Only the merged settings
are checked.
-/

namespace ArtifactCache

/-- What was found where the settings file should be. -/
inductive SettingsFile where
  /-- No file was asked for. -/
  | notGiven
  | missing (path : DiskPath)
  | unreadable (path : DiskPath) (fault : Fault)
  | content (path : DiskPath) (bytes : List UInt8)

namespace Settings

def directoryVariable : String := "STASHD_DISK_DIR"

def sizeVariable : String := "STASHD_DISK_MAX_SIZE"

def removalsVariable : String := "STASHD_DISK_MAX_REMOVALS"

/-- The settings in a text, over the given defaults. -/
def parse (defaults : Settings) (bytes : List UInt8) : Except Failure Settings :=
  ((reader defaults).run bytes).mapError fun fault => .ofSettings (.malformed fault.message)

/-- The settings of a file, or the defaults if there is none. -/
def ofFile (defaults : Settings) : SettingsFile → Except Failure Settings
  | .notGiven | .missing _ => .ok defaults
  | .unreadable path fault => .error (.unreadableSettings path fault)
  | .content path bytes =>
    if (Utf8.decode? bytes).isNone then .error (.unreadableSettings path .notText)
    else parse defaults bytes

/-- The number in a variable, if the variable is set. -/
def variableNumber? (environment : Environment) (variableName : String) :
    Except Failure (Option UInt64) :=
  match environment.setting? variableName with
  | none => .ok none
  | some value =>
    match Decimal.readSigned? (Text.trim value.toList) with
    | some number => .ok (some number)
    | none => .error (.ofSettings (.notNumber variableName value))

/-- The settings with what the environment overrides. -/
def override (environment : Environment) (settings : Settings) : Except Failure Settings := do
  let directory := environment.setting? directoryVariable
  let maxSize ← variableNumber? environment sizeVariable
  let maxRemovals ← variableNumber? environment removalsVariable
  return { settings with
    baseDirectory := (directory.map DiskPath.ofString).getD settings.baseDirectory
    maxSize := maxSize.getD settings.maxSize
    maxRemovals := maxRemovals.getD settings.maxRemovals }

/-- Load settings from all sources. -/
def load (environment : Environment) (file : SettingsFile) : Except Failure Settings := do
  let settings ← ofFile (default environment) file
  let settings ← override environment settings
  settings.checked.mapError .ofSettings

end Settings

end ArtifactCache
