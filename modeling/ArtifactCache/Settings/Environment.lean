import ArtifactCache.Disk.DiskPath
import ArtifactCache.Text.Blank

/-! # The environment and the user's folders

Variables of the environment are byte strings.  A variable that is no text counts
as unset, except for the home directory, which is a path.  The folders for cached
data and for settings come from their own variables, or else lie in the home
directory.
-/

namespace ArtifactCache

/-- What the surroundings of the program provide. -/
structure Environment where
  /-- The variables that are set. -/
  bindings : List (String × List UInt8)
  /-- The home directory of the account, for want of a variable. -/
  accountHome : Option DiskPath

namespace Environment

/-- The text of a variable that is set to one. -/
def text? (environment : Environment) (name : String) : Option String :=
  (environment.bindings.lookup name).bind DiskPath.textOf?

/-- The text of a variable that is set to more than blanks. -/
def setting? (environment : Environment) (name : String) : Option String :=
  (environment.text? name).filter fun value => !(Text.trim value.toList).isEmpty

def home? (environment : Environment) : Option DiskPath :=
  match environment.bindings.lookup "HOME" with
  | some bytes => if bytes.isEmpty then environment.accountHome else some ⟨bytes⟩
  | none => environment.accountHome

/-- The folder that a variable names, or one in the home directory. -/
def folder (environment : Environment) (variableName fallback : String) : DiskPath :=
  match (environment.text? variableName).filter fun value => value ≠ "" with
  | some value => .ofString value
  | none =>
    match environment.home? with
    | some home => home.join (.ofString fallback)
    | none => .ofString fallback

def programFolder : DiskPath := .ofString "stashd"

def cacheFolder (environment : Environment) : DiskPath :=
  (environment.folder "XDG_CACHE_HOME" ".cache").join programFolder

/-- The usual root of the disk cache. -/
def storeFolder (environment : Environment) : DiskPath :=
  environment.cacheFolder.join (.ofString "disk")

def settingsFolder (environment : Environment) : DiskPath :=
  (environment.folder "XDG_CONFIG_HOME" ".config").join programFolder

def settingsFile (environment : Environment) : DiskPath :=
  environment.settingsFolder.join (.ofString "disk.json")

end Environment

end ArtifactCache
