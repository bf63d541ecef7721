import ArtifactCache.Host
import ArtifactCache.Shards

/-! # The inventory of a cache

The files of the current layout, each with its size and its last access.  The root
must hold nothing but the directories of the kinds, these nothing but shards, and
the shards nothing but regular files.  Anything else means that the directory is
no cache or was damaged, and then there is no inventory.  The two upper levels are
checked completely before the first shard is listed.  The shards are then listed by
a crew of workers, so the order of the files is up to the host.
-/

namespace ArtifactCache

/-- A regular file in a shard, with its path relative to the root. -/
structure FoundFile where
  path : DiskPath
  size : UInt64
  accessed : Instant
  deriving DecidableEq, Repr

namespace Inventory

def nodesOf (host : Host) (disk : Disk) (directory : DiskPath) :
    Except Failure (List (Name × Node)) :=
  (host.list disk directory).mapError fun fault => .disk directory "read cache directory" fault

/-- The shard that a node in the directory of a kind is. -/
def shard (kindName : Name) (directory : DiskPath) (name : Name) (node : Node) :
    Except Failure DiskPath :=
  let path := directory.child name
  if !node.isDirectory then .error (.foreignEntry path "unexpected file")
  else if Shard.isNodeName name then .ok ((DiskPath.mk kindName).child name)
  else .error (.foreignEntry path "unexpected directory")

/-- The shards in a node of the root, which must be the directory of a kind. -/
def shardsOfKind (host : Host) (disk : Disk) (root : DiskPath) (name : Name) (node : Node) :
    Except Failure (List DiskPath) := do
  let path := root.child name
  unless node.isDirectory do throw (.foreignEntry path "unexpected file")
  unless ((DiskPath.textOf? name).bind Kind.ofDirectory?).isSome do
    throw (.foreignEntry path "unexpected directory")
  (← nodesOf host disk path).mapM fun (shardName, node) => shard name path shardName node

/-- All shards under a root, relative to it. -/
def shards (host : Host) (disk : Disk) (root : DiskPath) : Except Failure (List DiskPath) := do
  let lists ← (← nodesOf host disk root).mapM fun (name, node) =>
    shardsOfKind host disk root name node
  return lists.flatten

/-- The file that a node in a shard is. -/
def file (root shard : DiskPath) (name : Name) (node : Node) : Except Failure FoundFile :=
  let path := (root.join shard).child name
  match node with
  | .file size accessed => .ok { path := shard.child name, size, accessed }
  | .directory => .error (.foreignEntry path "unexpected directory")
  | .link _ | .pipe => .error (.foreignEntry path "not a regular file")

/-- Hand over the files among the nodes of a shard. -/
def handOver (root shard : DiskPath) : List (Name × Node) → Job Disk FoundFile Failure
  | [] => .done
  | (name, node) :: rest =>
    match file root shard name node with
    | .ok found => .emit found (handOver root shard rest)
    | .error failure => .fail failure

/-- Hand over the files in a shard. -/
def task (host : Host) (root shard : DiskPath) : Job Disk FoundFile Failure :=
  .look fun disk => match nodesOf host disk (root.join shard) with
    | .ok nodes => handOver root shard nodes
    | .error failure => .fail failure

end Inventory

/-- Take the inventory of the cache under a root. -/
def inventory (host : Host) (workers : Nat) (root : DiskPath) (disk : Disk) :
    Report Disk FoundFile Failure :=
  match Inventory.shards host disk root with
  | .error failure => { outcome := .error failure, state := disk }
  | .ok shards => host.crew.run workers (Inventory.task host root) shards disk

end ArtifactCache
