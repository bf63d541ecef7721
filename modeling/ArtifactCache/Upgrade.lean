import ArtifactCache.Entry.Name
import ArtifactCache.Host
import ArtifactCache.Notice
import ArtifactCache.Shards

/-! # Upgrading older layouts

Two older layouts kept files under the bare label of their kind:

    root / label / digest            (flat)
    root / label / shard / digest    (sharded)

Their files are moved into the shards of the current layout, and then the old
directory is removed with everything that is still in it.  The flat layout was
never checked, so odd things in it are skipped with a notice.  A directory inside
it was written by code that checked its names, so anything odd in there fails the
upgrade.

A crew of workers shares the nodes directly inside an old directory.  The first error
stops the upgrade; files that were moved by then stay where they are, and the old
directory stays as well.
-/

namespace ArtifactCache

/-- The token of files from the flat layout. -/
def flatToken : String := "222444666"

/-- The token of content blobs from the sharded layout. -/
def shardedContentToken : String := "556677"

/-- The token of other files from the sharded layout. -/
def shardedToken : String := "112233"

structure UpgradeSummary where
  /-- Old directories that were found and removed. -/
  directories : Nat
  /-- Files that were moved. -/
  moved : Nat
  /-- Nodes that were left behind and removed with their directory. -/
  skipped : Nat
  deriving DecidableEq, Repr

namespace Upgrade

/-- What became of a node of an old directory. -/
inductive Fate where
  | moved
  | skipped
  deriving DecidableEq, Repr

/-- What an upgrade changes: the disk, and what is reported on the way. -/
structure Scene where
  disk : Disk
  notices : List Notice

/-- What has to be done with a node of an old directory. -/
abbrev Task := Job Scene Fate Failure

/-- Only content blobs existed in the uncompressed format that is marked today. -/
def isMarked (kind : Kind) : Bool := kind = .content

def tokenInShard : Kind → String
  | .content => shardedContentToken
  | .action | .raw => shardedToken

/-- The digest that a node is named by. -/
def digest? (name : Name) : Option Digest := do
  let text ← DiskPath.textOf? name
  (Digest.parse text).toOption

/-- Where a file with a given digest and token belongs in the current layout. -/
def target (root : DiskPath) (kind : Kind) (digest : Digest) (token : String) : DiskPath :=
  let name : EntryName := { digest, logicalSize := none, token, legacy := isMarked kind }
  ((kindDirectory root kind).join (.ofString digest.shard)).join (.ofString name.render)

def moving (source target : DiskPath) (rest : Task) : Task :=
  .change (fun scene => match scene.disk.moveFile source target with
    | .ok disk => .ok { scene with disk }
    | .error fault => .error (.upgrade source "rename into current layout" (some fault)))
  (.emit .moved rest)

/-- Report something odd. -/
def noting (notice : Notice) (rest : Task) : Task :=
  .change (fun scene => .ok { scene with notices := scene.notices ++ [notice] }) rest

/-- Leave a node behind. -/
def skipping (notice : Notice) : Task :=
  noting notice (.emit .skipped .done)

/-- What to do with the nodes of an old shard. -/
def taskInShard (root : DiskPath) (kind : Kind) (directory : DiskPath) :
    List (Name × Node) → Task
  | [] => .done
  | (name, node) :: rest =>
    let path := directory.child name
    match digest? name, node with
    | some digest, .file _ _ =>
      moving path (target root kind digest (tokenInShard kind))
        (taskInShard root kind directory rest)
    | _, _ => .fail (.upgrade path "unexpected entry in legacy shard" none)

/-- What to do with a directory inside an old directory. -/
def taskOfShard (host : Host) (root : DiskPath) (kind : Kind) (directory : DiskPath) : Task :=
  .look fun scene => match host.list scene.disk directory with
    | .error fault => .fail (.upgrade directory "read legacy shard" (some fault))
    | .ok nodes => taskInShard root kind directory nodes

/-- What to do with a node directly inside an old directory. -/
def task (host : Host) (root : DiskPath) (kind : Kind) (directory : DiskPath) :
    Name × Node → Task
  | (name, .directory) =>
    let path := directory.child name
    let rest := taskOfShard host root kind path
    if Shard.isNodeName name then rest else noting (.oddDirectory path) rest
  | (name, .file _ _) =>
    let path := directory.child name
    match digest? name with
    | some digest => moving path (target root kind digest flatToken) .done
    | none => skipping (.oddFile path)
  | (name, .link _) | (name, .pipe) => skipping (.notRegular (directory.child name))

def oldDirectory (root : DiskPath) (kind : Kind) : DiskPath :=
  root.join (.ofString kind.formerDirectory)

/-- Upgrade the old directory of one kind.  The result tells what became of the nodes
in it, or that there was no such directory. -/
def upgradeKind (host : Host) (workers : Nat) (root : DiskPath) (kind : Kind) (scene : Scene) :
    Except Failure (Option (List Fate)) × Scene :=
  let directory := oldDirectory root kind
  let failed (reason : String) (fault : Fault) (scene : Scene) :
      Except Failure (Option (List Fate)) × Scene :=
    (.error (.upgrade directory reason (some fault)), scene)
  match scene.disk.examineKeeping directory with
  | .error fault =>
    if fault = .notFound then (.ok none, scene) else failed "stat legacy directory" fault scene
  | .ok _ =>
    match host.list scene.disk directory with
    | .error fault => failed "read legacy directory" fault scene
    | .ok nodes =>
      match host.crew.run workers (task host root kind directory) nodes scene with
      | { outcome := .error failure, state := scene } => (.error failure, scene)
      | { outcome := .ok fates, state := scene } =>
        match scene.disk.removeTree directory with
        | .error fault => failed "remove legacy directory" fault scene
        | .ok disk => (.ok (some fates), { scene with disk })

/-- The account with one more kind in it. -/
def counted (summary : UpgradeSummary) : Option (List Fate) → UpgradeSummary
  | none => summary
  | some fates =>
    { directories := summary.directories + 1
      moved := summary.moved + fates.count .moved
      skipped := summary.skipped + fates.count .skipped }

/-- Upgrade the old directories of several kinds, up to the first failure. -/
def upgradeKinds (host : Host) (workers : Nat) (root : DiskPath) :
    List Kind → UpgradeSummary → Scene → Except Failure UpgradeSummary × Scene
  | [], summary, scene => (.ok summary, scene)
  | kind :: rest, summary, scene =>
    match upgradeKind host workers root kind scene with
    | (.error failure, scene) => (.error failure, scene)
    | (.ok fates, scene) => upgradeKinds host workers root rest (counted summary fates) scene

end Upgrade

/-- Upgrade the older layouts under a root, whose shards must exist already. -/
def upgrade (host : Host) (workers : Nat) (root : DiskPath) (disk : Disk) :
    Except Failure UpgradeSummary × Upgrade.Scene :=
  Upgrade.upgradeKinds host workers root Kind.all { directories := 0, moved := 0, skipped := 0 }
    { disk, notices := [] }

end ArtifactCache
