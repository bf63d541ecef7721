import ArtifactCache.Disk.Change
import ArtifactCache.Entry.Kind
import ArtifactCache.Failure

/-! # Shard directories

The directory of each kind is divided into 256 shards, named by the two lowercase
hexadecimal characters that the digests in them start with.  All of them are made
before anything else happens to a cache.
-/

namespace ArtifactCache

namespace Shard

/-- The hexadecimal digits in their order. -/
def hexDigits : List Char := "0123456789abcdef".toList

/-- The names of all shards, `00` through `ff`. -/
def names : List String :=
  hexDigits.flatMap fun high => hexDigits.map fun low => String.ofList [high, low]

def isName (text : String) : Bool :=
  text.toList.length == 2 && text.toList.all fun c => hexDigits.contains c

def isNodeName (name : Name) : Bool :=
  (DiskPath.textOf? name).any isName

end Shard

def kindDirectory (root : DiskPath) (kind : Kind) : DiskPath :=
  root.join (.ofString kind.directory)

def shardDirectories (root : DiskPath) : List DiskPath :=
  Kind.all.flatMap fun kind => Shard.names.map fun shard =>
    (kindDirectory root kind).join (.ofString shard)

/-- Make the given shard directories in their order, up to the first that cannot be
made. -/
def makeShards : List DiskPath → Disk → Except Failure Unit × Disk
  | [], disk => (.ok (), disk)
  | path :: rest, disk =>
    match disk.makeDirectories path with
    | (.ok (), disk) => makeShards rest disk
    | (.error fault, disk) => (.error (.disk path "create shard directory" fault), disk)

/-- Make the directories of all kinds and all their shards under a root. -/
def prepareShards (root : DiskPath) (disk : Disk) : Except Failure Unit × Disk :=
  makeShards (shardDirectories root) disk

end ArtifactCache
