import ArtifactCache.Disk.DiskPath
import ArtifactCache.Entry.StoredFile

/-! # The place of an entry

Under the root of a cache the file of an entry lies at

    directory of the kind / shard of the digest / file name

Writing a place needs the key and the stored file.  Reading one is strict: the
path must have exactly these three parts, the file name must follow its grammar,
the shard must be that of the digest, and only kinds that record sizes may have a
size in the name.
-/

namespace ArtifactCache

/-- The path of an entry, relative to the root of the cache. -/
def placeOf (key : Key) (file : StoredFile) : DiskPath :=
  ((DiskPath.ofString key.kind.directory).join (.ofString key.digest.shard)).join
    (.ofString (file.fileName key))

/-- Why a path is not the place of an entry. -/
inductive PlaceFault where
  | shape
  | kind
  | name (error : NameError)
  | shard
  | sizedName
  deriving DecidableEq, Repr

def PlaceFault.message : PlaceFault → String
  | .shape => "expected <kind>/<shard>/<filename>"
  | .kind => "not under a recognized kind directory"
  | .name error => error.message
  | .shard => "stored under the wrong shard"
  | .sizedName => "size segment is only valid for cas entries"

/-- The text of a component that is a plain name. -/
def DiskPath.Component.text? : DiskPath.Component → Option String
  | .named name => DiskPath.textOf? name
  | _ => none

/-- Read the place of a file that occupies a number of bytes. -/
def readPlace (path : DiskPath) (diskSize : UInt64) : Except PlaceFault (Key × StoredFile) :=
  match path.components.map DiskPath.Component.text? with
  | [some directory, some shard, some fileName] => do
    let some kind := Kind.ofDirectory? directory | throw .kind
    let name ← (EntryName.parse fileName).mapError .name
    if name.digest.shard ≠ shard then throw .shard
    if name.logicalSize.isSome ∧ ¬ kind.recordsSize then throw .sizedName
    return ({ kind, digest := name.digest }, .ofName name diskSize)
  | _ => throw .shape

end ArtifactCache
