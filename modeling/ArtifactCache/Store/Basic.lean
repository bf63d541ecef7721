import ArtifactCache.Replay
import ArtifactCache.Settings.Basic
import ArtifactCache.Sweeper.Basic
import ArtifactCache.Upgrade

/-! # The open cache

Opening a cache makes its directories, upgrades older layouts, takes the inventory
and replays it into the index.  A failure in one of these stages is fatal and
names the stage.  Once open, the cache registers files that are already in place,
and whatever leaves the index is queued for the sweeper.
-/

namespace ArtifactCache

/-- A cache directory with its index. -/
structure Store where
  root : DiskPath
  index : Index
  sweeper : Sweeper
  /-- What the replay at startup found. -/
  replayed : ReplaySummary
  deriving DecidableEq, Repr

namespace Store

/-- The path of the file of an entry. -/
def pathUnder (root : DiskPath) (key : Key) (file : StoredFile) : DiskPath :=
  root.join (placeOf key file)

/-- Queue the files of entries that left the index. -/
def queueReleased (root : DiskPath) (sweeper : Sweeper) (released : List Entry) : Sweeper :=
  released.foldl (fun sweeper entry => sweeper.request (pathUnder root entry.1 entry.2)) sweeper

/-- Make the base directory and all shards.  The result is the root, with all links
resolved. -/
def prepareRoot (base : DiskPath) (disk : Disk) : Except Failure DiskPath × Disk :=
  match disk.makeDirectories base with
  | (.error fault, disk) => (.error (.disk base "create cache directory" fault), disk)
  | (.ok (), disk) =>
    match disk.canonical base with
    | .error fault => (.error (.disk base "resolve cache directory" fault), disk)
    | .ok root =>
      match prepareShards root disk with
      | (.error failure, disk) => (.error failure, disk)
      | (.ok (), disk) => (.ok root, disk)

/-- The outcome of opening a cache, with the disk and the notices it left. -/
structure Opening where
  outcome : Except Failure Store
  disk : Disk
  notices : List Notice
  /-- Entries that the replay inserted and had to give up again, in their order. -/
  released : List Entry
  /-- Removals that were queued before a failure.  They are still carried out. -/
  orphaned : Sweeper

/-- Run the stages of opening the cache that the settings describe, with a sweeper that can be
made. -/
def start (host : Host) (settings : Settings) (disk : Disk) : Opening :=
  let sweeper := Sweeper.create settings.maxRemovals
  match settings.fault? with
  | some fault =>
    { outcome := .error (.ofSettings fault), disk, notices := [], released := []
      orphaned := sweeper }
  | none =>
    let failed (stage : Stage) (failure : Failure) (disk : Disk) (notices : List Notice) :
        Opening :=
      { outcome := .error (.startup stage failure), disk, notices, released := []
        orphaned := sweeper }
    match prepareRoot settings.baseDirectory disk with
    | (.error failure, disk) => failed .directories failure disk []
    | (.ok root, disk) =>
      match upgrade host (settings.effectiveUpgradeWorkers host.width) root disk with
      | (.error failure, { disk, notices }) => failed .upgrade failure disk notices
      | (.ok _, { disk, notices }) =>
        match inventory host (settings.effectiveInventoryWorkers host.width) root disk with
        | { outcome := .error failure, state := disk } => failed .inventory failure disk notices
        | { outcome := .ok files, state := disk } =>
          let result := replay root files (Index.empty settings.maxSize) disk
          let queued := queueReleased root sweeper result.released
          match result.outcome with
          | .error failure =>
            { failed .replay failure result.disk notices with
              released := result.released, orphaned := queued }
          | .ok replayed =>
            let store : Store := { root, index := result.index, replayed, sweeper := queued }
            { outcome := .ok store, disk := result.disk, notices, released := result.released
              orphaned := sweeper }

/-- What comes of opening a cache.  A panic leaves the disk as it was. -/
inductive Launch where
  | panicked (message : String)
  | finished (opening : Opening)

/-- Open the cache that the settings describe.  The sweeper is made after the settings have been
checked and before the first stage. -/
def launch (host : Host) (settings : Settings) (disk : Disk) : Launch :=
  match settings.fault?, Sweeper.panic? settings.maxRemovals with
  | none, some message => .panicked message
  | _, _ => .finished (start host settings disk)

/-- The path of the file of an entry of this cache. -/
def pathFor (store : Store) (key : Key) (file : StoredFile) : DiskPath :=
  pathUnder store.root key file

/-- Register a file that is already in place.  The result tells whether the index
admitted it.  A refused file is queued for removal, and so is every file that had
to leave.  A content blob whose name would carry the size zero is not accepted,
because no such name can be read again. -/
def insert (store : Store) (key : Key) (file : StoredFile) : Except Failure Bool × Store :=
  if key.kind.recordsSize ∧ file.sizedName ∧ file.logicalSize = 0 then
    (.error (.invalidKey key.digest.text "cas entries must have a positive logical size"), store)
  else
    let insertion := store.index.insert key file
    let sweeper := queueReleased store.root store.sweeper insertion.released
    let sweeper := if insertion.admitted then sweeper else sweeper.request (store.pathFor key file)
    (.ok insertion.admitted, { store with index := insertion.index, sweeper })

/-- Look up a key, whose entry becomes the most recently used one. -/
def get (store : Store) (key : Key) : Option StoredFile × Store :=
  let (file, index) := store.index.touch key
  (file, { store with index })

/-- Forget a key without removing its file. -/
def forget (store : Store) (key : Key) : Option StoredFile × Store :=
  let (file, index) := store.index.remove key
  (file, { store with index })

/-- Let the sweeper finish its work. -/
def settle (store : Store) (disk : Disk) : Store × Disk × List Notice :=
  let (sweeper, disk, notices) := store.sweeper.settle disk
  ({ store with sweeper }, disk, notices)

/-- The last access to the file of the least recently used entry.  There is none if
the index is empty or if that file is gone. -/
def oldestAccess (store : Store) (disk : Disk) : Except Failure (Option Instant) :=
  match store.index.oldest with
  | none => .ok none
  | some (key, file) =>
    let path := store.pathFor key file
    match disk.examine path with
    | .ok (.file _ accessed) => .ok (some accessed)
    | .ok _ => .ok none
    | .error fault =>
      if fault = .notFound then .ok none else .error (.disk path "stat oldest entry" fault)

/-- The time since the last access to the file of the least recently used entry.  An
access in the future counts as one just now. -/
def longestIdle (store : Store) (disk : Disk) (now : Instant) : Except Failure (Option Nat) :=
  (store.oldestAccess disk).map fun accessed => accessed.map fun accessed => (now - accessed).toNat

/-- The cache as logs show it. -/
def summary (store : Store) : String :=
  "DiskCache \x7b root: " ++ Text.quotedBytes store.root.bytes ++
    ", index: " ++ store.index.summary ++ ", remover: " ++ store.sweeper.summary ++ " \x7d"

end Store

end ArtifactCache
