import ArtifactCache.Disk.Change
import ArtifactCache.Decimal.Word
import ArtifactCache.Notice

/-! # The sweeper

Files that left the index are removed in the background, and a limit keeps a burst
of removals from exhausting the system.  A request only joins the queue.  Each
queued path is tried once; a file that is gone already is no fault, and any other
fault costs nothing but a notice.
-/

namespace ArtifactCache

/-- Removals that wait for their turn. -/
structure Sweeper where
  /-- How many removals may be under way at once. -/
  limit : UInt64
  queue : List DiskPath
  deriving DecidableEq, Repr

namespace Sweeper

/-- The most permits that one semaphore can give out. -/
def mostPermits : UInt64 := 2305843009213693951

/-- The panic that the making of a sweeper ends in.  Each removal under way holds a permit of a
semaphore, and no semaphore is made for more permits than it can give out. -/
def panic? (limit : UInt64) : Option String :=
  if mostPermits < max 1 limit then
    some ("a semaphore may not have more than MAX_PERMITS permits (" ++
      Decimal.render mostPermits ++ ")")
  else none

/-- A sweeper without work, for a limit that causes no panic.  At least one removal must be
able to proceed. -/
def create (limit : UInt64) : Sweeper :=
  { limit := max 1 limit, queue := [] }

def request (sweeper : Sweeper) (path : DiskPath) : Sweeper :=
  { sweeper with queue := sweeper.queue ++ [path] }

/-- Removals that have not been tried yet. -/
def pending (sweeper : Sweeper) : Nat :=
  sweeper.queue.length

/-- Try to remove one file. -/
def attempt (disk : Disk) (path : DiskPath) : Disk × List Notice :=
  match disk.removeFile path with
  | .ok disk => (disk, [])
  | .error fault => (disk, if fault = .notFound then [] else [.notRemoved path fault])

/-- Try to remove several files. -/
def attemptAll : List DiskPath → Disk → Disk × List Notice
  | [], disk => (disk, [])
  | path :: rest, disk =>
    let (disk, notices) := attempt disk path
    let (disk, others) := attemptAll rest disk
    (disk, notices ++ others)

/-- The sweeper after one of the queued paths was tried. -/
def complete (sweeper : Sweeper) (path : DiskPath) : Sweeper :=
  { sweeper with queue := sweeper.queue.erase path }

/-- Work until nothing is queued. -/
def settle (sweeper : Sweeper) (disk : Disk) : Sweeper × Disk × List Notice :=
  let (disk, notices) := attemptAll sweeper.queue disk
  ({ sweeper with queue := [] }, disk, notices)

/-- The sweeper as logs show it. -/
def summary (sweeper : Sweeper) : String :=
  "FileRemover \x7b max_concurrent: " ++ Decimal.render sweeper.limit ++
    ", pending: " ++ toString sweeper.pending ++ " \x7d"

end Sweeper

end ArtifactCache
