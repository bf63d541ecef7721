import ArtifactCache.Disk.DiskPath
import ArtifactCache.Disk.Fault

/-! # Notices

What the cache reports without failing: odd things in an older layout, and files
that could not be removed.
-/

namespace ArtifactCache

/-- Something that is worth a line in the log. -/
inductive Notice where
  | oddDirectory (path : DiskPath)
  | notRegular (path : DiskPath)
  | oddFile (path : DiskPath)
  | notRemoved (path : DiskPath) (fault : Fault)
  deriving DecidableEq, Repr

namespace Notice

def message : Notice → String
  | .oddDirectory _ => "unexpected directory in legacy layout"
  | .notRegular _ => "skipping non-regular file"
  | .oddFile _ => "skipping unexpected file"
  | .notRemoved _ _ => "failed to remove evicted file"

def fields : Notice → List (String × String)
  | .oddDirectory path => [("dir", path.display)]
  | .notRegular path | .oddFile path => [("path", path.display)]
  | .notRemoved path fault => [("path", path.display), ("error", fault.message)]

end Notice

end ArtifactCache
