import ArtifactCache.Entry.Key
import ArtifactCache.Entry.Name

/-! # Stored files

What the index keeps for a key: enough to write the file name again, and the
bytes that the file occupies.  A file that came from an older layout has no size
in its name, and then its logical size is taken to be its size on disk.
-/

namespace ArtifactCache

/-- The file behind an entry. -/
structure StoredFile where
  logicalSize : UInt64
  diskSize : UInt64
  legacy : Bool
  token : String
  /-- Whether a name that can carry the logical size does so. -/
  sizedName : Bool
  deriving DecidableEq, Repr

namespace StoredFile

/-- A file with a given token, which must be able to stand in a name. -/
def create? (logicalSize diskSize : UInt64) (legacy : Bool) (token : String) :
    Option StoredFile :=
  if isToken token then some { logicalSize, diskSize, legacy, token, sizedName := true } else none

/-- The characters that a generated token is drawn from. -/
def tokenAlphabet : List Char :=
  "ABCDEFGHIJKLMNOPQRSTUVWXYZabcdefghijklmnopqrstuvwxyz0123456789".toList

/-- The token that a sequence of draws selects. -/
def drawnToken (draws : List Nat) : String :=
  String.ofList ((draws.take tokenLength).map fun draw =>
    tokenAlphabet.getD (draw % tokenAlphabet.length) 'A')

/-- A new file whose token is drawn at random. -/
def drawn (logicalSize diskSize : UInt64) (legacy : Bool) (draws : List Nat) : StoredFile :=
  { logicalSize, diskSize, legacy, token := drawnToken draws, sizedName := true }

/-- The file that bears a name and occupies a number of bytes. -/
def ofName (name : EntryName) (diskSize : UInt64) : StoredFile :=
  { logicalSize := name.logicalSize.getD diskSize
    diskSize
    legacy := name.legacy
    token := name.token
    sizedName := name.logicalSize.isSome }

def name (file : StoredFile) (key : Key) : EntryName :=
  { digest := key.digest
    logicalSize := if key.kind.recordsSize && file.sizedName then some file.logicalSize else none
    token := file.token
    legacy := file.legacy }

def fileName (file : StoredFile) (key : Key) : String :=
  (file.name key).render

end StoredFile

end ArtifactCache
