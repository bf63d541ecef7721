import ArtifactCache.Disk.Basic
import ArtifactCache.Disk.Fault

/-! # Following paths

A path is followed step by step from the top of the disk.  Every node on the way
must be a directory or a link that leads to one.  A link at the end of the way is
followed or kept, as the operation demands.  Names that are too long are refused
on the way, and a path that is too long as a whole is refused at once.
-/

namespace ArtifactCache

open DiskPath

/-- The steps that a disk is asked to follow: a slash at the end of the path asks
for the directory itself. -/
def DiskPath.walkSteps (path : DiskPath) : List Step :=
  path.steps ++ (if path.endsInSlash then [.here] else [])

/-- Refuse a path that no disk can hold. -/
def DiskPath.checkForm (path : DiskPath) : Except Fault Unit :=
  if path.bytes.contains 0 then .error .nullInPath
  else if path.bytes = [] then .error .notFound
  else if longestPath < path.bytes.length then .error .nameTooLong
  else .ok ()

/-- The plain path of a location, from the top. -/
def DiskPath.ofLocation (location : Location) : DiskPath :=
  location.foldl DiskPath.child ⟨[slash]⟩

namespace Disk

/-- The number of links that one path may pass through. -/
def longestChain : Nat := 40

/-- Follow steps from a directory, given the way to go on behind a link.  The
result is the location of a node that exists. -/
def walkFrom (disk : Disk) (keepLast : Bool)
    (behindLink : Location → List Step → Except Fault Location) :
    Location → List Step → Except Fault Location
  | place, [] => .ok place
  | place, .here :: rest => walkFrom disk keepLast behindLink place rest
  | place, .above :: rest => walkFrom disk keepLast behindLink place.dropLast rest
  | place, .into name :: rest =>
    if longestName < name.length then .error .nameTooLong
    else
      let next := place ++ [name]
      match disk.node? next with
      | none => .error .notFound
      | some .directory => walkFrom disk keepLast behindLink next rest
      | some (.link target) =>
        if keepLast && rest.isEmpty then .ok next
        else if target.isAbsolute then behindLink [] (target.walkSteps ++ rest)
        else behindLink place (target.walkSteps ++ rest)
      | some (.file _ _) | some .pipe =>
        if rest.isEmpty then .ok next else .error .notDirectory

/-- Follow steps through at most a given number of links. -/
def walkThrough (disk : Disk) (keepLast : Bool) :
    (links : Nat) → Location → List Step → Except Fault Location
  | 0 => walkFrom disk keepLast fun _ _ => .error .linkLoop
  | links + 1 => walkFrom disk keepLast (walkThrough disk keepLast links)

/-- The location of the node that a list of steps leads to from the top. -/
def walk (disk : Disk) (keepLast : Bool) (steps : List Step) : Except Fault Location :=
  disk.walkThrough keepLast longestChain [] steps

/-- The location of the node under a path; a link at the end is followed. -/
def locate (disk : Disk) (path : DiskPath) : Except Fault Location := do
  path.checkForm
  disk.walk false path.walkSteps

/-- The location of the node under a path; a link at the end is the node. -/
def locateKeeping (disk : Disk) (path : DiskPath) : Except Fault Location := do
  path.checkForm
  disk.walk true path.walkSteps

def nodeAt (disk : Disk) (location : Location) : Except Fault Node :=
  match disk.node? location with
  | some node => .ok node
  | none => .error .notFound

/-- The node under a path; a link at the end is followed. -/
def examine (disk : Disk) (path : DiskPath) : Except Fault Node := do
  disk.nodeAt (← disk.locate path)

/-- The node under a path; a link at the end is the node. -/
def examineKeeping (disk : Disk) (path : DiskPath) : Except Fault Node := do
  disk.nodeAt (← disk.locateKeeping path)

def DirectoryOf (disk : Disk) : Type :=
  { location : Location // disk.node? location = some .directory }

def SlotOf (disk : Disk) : Type :=
  { location : Location // disk.Fits location }

/-- The directory in which the last of several steps is taken, and that step. -/
def holder (disk : Disk) (steps : List Step) : Except Fault (disk.DirectoryOf × Step) :=
  match steps.getLast? with
  | none => .ok (⟨[], disk.node?_nil⟩, .here)
  | some last => do
    let directory ← disk.walk false steps.dropLast
    match held : disk.node? directory with
    | some .directory => return (⟨directory, held⟩, last)
    | some _ => throw .notDirectory
    | none => throw .notFound

/-- The location of a name inside a directory.  A name that a path spells can only
fail to be plain by its length. -/
def slotIn {disk : Disk} (directory : disk.DirectoryOf) (name : Name) :
    Except Fault disk.SlotOf :=
  if plain : isPlainName name = true then
    .ok ⟨directory.val ++ [name], directory.val, name, rfl, plain, directory.property⟩
  else .error .nameTooLong

/-- The nodes of the directory under a path, ordered by name. -/
def list (disk : Disk) (path : DiskPath) : Except Fault (List (Name × Node)) := do
  let location ← disk.locate path
  match ← disk.nodeAt location with
  | .directory => return disk.entries location
  | _ => throw .notDirectory

/-- The path that starts at the top and leads to the node under a path without any
detour. -/
def canonical (disk : Disk) (path : DiskPath) : Except Fault DiskPath := do
  let direct := DiskPath.ofLocation (← disk.locate path)
  direct.checkForm
  return direct

end Disk

end ArtifactCache
