import ArtifactCache.Entry.Place
import ArtifactCache.Index.Basic
import ArtifactCache.Inventory

/-! # Replaying an inventory into the index

The index of a cache is rebuilt by inserting the files of its inventory in the
order of their last access.  The most recent file of a key is the one that counts;
older ones are removed from the disk at once, and so are files that the index
refuses.  Every place is read before anything is inserted or removed, so a file
that cannot be decoded leaves all as it was.
-/

namespace ArtifactCache

structure ReplaySummary where
  /-- Files in the inventory. -/
  filesSeen : Nat
  /-- Entries of the index at the end. -/
  indexed : Nat
  /-- Files that the index refused. -/
  rejected : Nat
  /-- Older files of a key. -/
  duplicates : Nat
  /-- Files that were admitted and then had to make room. -/
  displaced : Nat
  /-- Bytes that the index accounts for. -/
  bytesIndexed : UInt64
  deriving DecidableEq, Repr

namespace Replay

/-- A file together with what its place says. -/
structure Decoded where
  path : DiskPath
  key : Key
  file : StoredFile
  deriving DecidableEq, Repr

structure Progress where
  index : Index
  disk : Disk
  released : List Entry
  rejected : Nat
  duplicates : Nat

/-- The files in the order of their last access.  Files of equal access keep their
order. -/
def byAccess (files : List FoundFile) : List FoundFile :=
  files.mergeSort fun first second => first.accessed ≤ second.accessed

def decode (found : FoundFile) : Except Failure Decoded :=
  match readPlace found.path found.size with
  | .ok (key, file) => .ok { path := found.path, key, file }
  | .error fault => .error (.unrecognizedFile found.path fault.message)

/-- Remove a file that will not be indexed.  It may be gone already. -/
def discard (root path : DiskPath) (disk : Disk) : Except Failure Disk :=
  let path := root.join path
  match disk.removeFile path with
  | .ok disk => .ok disk
  | .error fault =>
    if fault = .notFound then .ok disk else .error (.disk path "remove rejected file" fault)

/-- Handle one file, given the files after it. -/
def handle (root : DiskPath) (decoded : Decoded) (later : List Decoded) (progress : Progress) :
    Except Failure Unit × Progress :=
  if later.any fun other => other.key = decoded.key then
    match discard root decoded.path progress.disk with
    | .ok disk => (.ok (), { progress with disk, duplicates := progress.duplicates + 1 })
    | .error failure => (.error failure, progress)
  else
    let insertion := progress.index.insert decoded.key decoded.file
    if insertion.admitted then
      (.ok (), { progress with
        index := insertion.index, released := progress.released ++ insertion.released })
    else match discard root decoded.path progress.disk with
      | .ok disk => (.ok (), { progress with disk, rejected := progress.rejected + 1 })
      | .error failure => (.error failure, progress)

/-- Handle files up to the first that cannot be removed. -/
def handleAll (root : DiskPath) : List Decoded → Progress → Except Failure Unit × Progress
  | [], progress => (.ok (), progress)
  | decoded :: later, progress =>
    match handle root decoded later progress with
    | (.ok (), progress) => handleAll root later progress
    | (.error failure, progress) => (.error failure, progress)

/-- The account of a finished replay. -/
def summary (files : Nat) (progress : Progress) : ReplaySummary :=
  { filesSeen := files
    indexed := progress.index.size
    rejected := progress.rejected
    duplicates := progress.duplicates
    displaced := files - (progress.index.size + progress.rejected + progress.duplicates)
    bytesIndexed := progress.index.used }

end Replay

/-- The state after a replay, with its account if it came to its end. -/
structure ReplayResult where
  outcome : Except Failure ReplaySummary
  index : Index
  disk : Disk
  /-- Entries that were inserted and had to leave again, in their order. -/
  released : List Entry

/-- Replay the files of an inventory into an index. -/
def replay (root : DiskPath) (files : List FoundFile) (index : Index) (disk : Disk) :
    ReplayResult :=
  match (Replay.byAccess files).mapM Replay.decode with
  | .error failure => { outcome := .error failure, index, disk, released := [] }
  | .ok decoded =>
    let start : Replay.Progress := { index, disk, released := [], rejected := 0, duplicates := 0 }
    let (outcome, progress) := Replay.handleAll root decoded start
    { outcome := outcome.map fun () => Replay.summary files.length progress
      index := progress.index
      disk := progress.disk
      released := progress.released }

end ArtifactCache
