import ArtifactCache.Disk.Walk

/-! # Changing the disk

Making directories, files, links and pipes, moving a file, and removing a file or
a whole tree.  A change either succeeds and gives the changed disk, or it fails
with a fault.  Only the making of nested directories may fail half way, so it
gives the disk in either case.
-/

namespace ArtifactCache

open DiskPath

/-- Refuse a link to a path that no disk can hold. -/
def Node.checkForm : Node → Except Fault Unit
  | .link target => target.checkForm
  | .directory | .file _ _ | .pipe => .ok ()

namespace Disk

def putNew (disk : Disk) (slot : disk.SlotOf) (node : Node) : Except Fault Disk :=
  match held : disk.node? slot.val with
  | some _ => .error .alreadyExists
  | none => .ok (disk.put slot.val node slot.property (by simp [held]))

def makeDirectoryAt (disk : Disk) (steps : List Step) : Except Fault Disk := do
  match ← disk.holder steps with
  | (directory, .into name) => disk.putNew (← slotIn directory name) .directory
  | (_, .here) | (_, .above) => throw .alreadyExists

def leadsToDirectory (disk : Disk) (steps : List Step) : Bool :=
  match disk.walk false steps with
  | .ok location => (disk.node? location).any Node.isDirectory
  | .error _ => false

/-- Accept a fault if the directory that was to be made is there already. -/
def acceptDirectory (disk : Disk) (steps : List Step) (fault : Fault) :
    Except Fault Unit × Disk :=
  if disk.leadsToDirectory steps then (.ok (), disk) else (.error fault, disk)

/-- The beginnings of a way that end in a name or in a step upwards, the longest one
first.  The way is given backwards, and so are the beginnings. -/
def beginnings : List Step → List (List Step)
  | [] => []
  | .here :: before => beginnings before
  | last :: before => (last :: before) :: beginnings before

/-- Make a directory and the missing ones above it.  All ways are given backwards.  What
exists already is accepted if it is a directory. -/
def makeDirectoriesAt (disk : Disk) (way : List Step) :
    (above : List (List Step)) → Except Fault Unit × Disk
  | [] =>
    match disk.makeDirectoryAt way.reverse with
    | .ok made => (.ok (), made)
    | .error fault => disk.acceptDirectory way.reverse fault
  | next :: above =>
    match disk.makeDirectoryAt way.reverse with
    | .ok made => (.ok (), made)
    | .error fault =>
      if fault = .notFound then
        match disk.makeDirectoriesAt next above with
        | (.error above, disk) => (.error above, disk)
        | (.ok (), disk) =>
          match disk.makeDirectoryAt way.reverse with
          | .ok made => (.ok (), made)
          | .error fault => disk.acceptDirectory way.reverse fault
      else disk.acceptDirectory way.reverse fault

/-- Make the directory under a path and the missing ones above it.  A dot at the end of
the path names nothing that could be made. -/
def makeDirectories (disk : Disk) (path : DiskPath) : Except Fault Unit × Disk :=
  if path.bytes = [] then (.ok (), disk)
  else match path.checkForm with
    | .error fault => (.error fault, disk)
    | .ok () =>
      let way := path.steps.reverse
      disk.makeDirectoriesAt way (beginnings way).tail

/-- Put a node that is no directory under a path where there is none yet.  A slash at
the end of the path asks for a directory. -/
def make (disk : Disk) (path : DiskPath) (node : Node) : Except Fault Disk := do
  node.checkForm
  path.checkForm
  match ← disk.holder path.steps with
  | (directory, .into name) =>
    let made ← disk.putNew (← slotIn directory name) node
    if path.endsInSlash then throw .notFound else return made
  | (_, .here) | (_, .above) => throw .alreadyExists

/-- Put a file in the place of a node that is there. -/
def overwrite (disk : Disk) (location : Location) (file : Node) : Except Fault Disk :=
  match held : disk.node? location with
  | none => .error .notFound
  | some node =>
    if plain : node = .directory then .error .isDirectory
    else .ok (disk.put location file (fits_of_node?_ne held plain) (by simp [held, plain]))

/-- Write a file under a path, through at most a given number of links that lead to
nothing yet. -/
def writeThrough (disk : Disk) (file : Node) (links : Nat) (path : DiskPath) :
    Except Fault Disk :=
  match disk.locate path, disk.locateKeeping path with
  | .ok location, _ => disk.overwrite location file
  | .error _, .error _ => disk.make path file
  | .error fault, .ok location =>
    match links, disk.node? location with
    | links + 1, some (.link target) =>
      disk.writeThrough file links ((DiskPath.ofLocation location.dropLast).join target)
    | _, _ => .error fault

/-- Write a file under a path, in the place of a file that is there.  A link at the end
is followed, also to a place that holds nothing yet. -/
def write (disk : Disk) (path : DiskPath) (size : UInt64) (accessed : Instant) :
    Except Fault Disk :=
  disk.writeThrough (.file size accessed) longestChain path

def eraseFile (disk : Disk) (location : Location) : Except Fault Disk :=
  match held : disk.node? location with
  | none => .error .notFound
  | some node =>
    if plain : node = .directory then .error .isDirectory
    else .ok (disk.erase location (by simp [held, plain]))

/-- Remove the file, link or pipe under a path. -/
def removeFile (disk : Disk) (path : DiskPath) : Except Fault Disk := do
  path.checkForm
  match ← disk.holder path.steps with
  | (directory, .into name) =>
    let slot ← slotIn directory name
    let erased ← disk.eraseFile slot.val
    if path.endsInSlash then throw .notDirectory else return erased
  | (_, .here) | (_, .above) => throw .isDirectory

/-- Remove the node under a path and all below it.  A link is removed itself. -/
def removeTree (disk : Disk) (path : DiskPath) : Except Fault Disk := do
  let location ← disk.locateKeeping path
  match ← disk.nodeAt location with
  | .directory => return disk.prune location
  | .link _ => disk.eraseFile location
  | .file _ _ | .pipe => throw .notDirectory

/-- Move a node that is no directory to another location, over a node there that is
no directory either. -/
def moveNode (disk : Disk) (old new : disk.SlotOf) : Except Fault Disk :=
  match held : disk.node? old.val with
  | none => .error .notFound
  | some node =>
    if plain : node = .directory ∨ disk.node? new.val = some .directory then .error .isDirectory
    else
      have kept : disk.node? old.val ≠ some .directory := by simp_all
      let erased := disk.erase old.val kept
      have fits : erased.Fits new.val := new.property.erase kept
      have vacant : erased.node? new.val ≠ some .directory := by
        rw [node?_erase]
        split <;> simp_all
      .ok (erased.put new.val node fits vacant)

/-- Move a file to another path, over a file that is there. -/
def moveFile (disk : Disk) (source target : DiskPath) : Except Fault Disk := do
  source.checkForm
  target.checkForm
  match ← disk.holder source.steps, ← disk.holder target.steps with
  | (oldDirectory, .into oldName), (newDirectory, .into newName) =>
    let old ← slotIn oldDirectory oldName
    let _ ← disk.nodeAt old.val
    disk.moveNode old (← slotIn newDirectory newName)
  | _, _ => throw .busy

end Disk

end ArtifactCache
