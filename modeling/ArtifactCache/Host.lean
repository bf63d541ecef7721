import ArtifactCache.Crew.InOrder
import ArtifactCache.Disk.Walk

/-! # Hosts

A cache has no say in some things: how many threads the hardware runs at once, how
workers that share some work take turns, and in which order a directory lists what
it holds.  The host decides them.  What is shown for every host therefore depends on
none of these decisions.
-/

namespace ArtifactCache

/-- The decisions that are not up to the cache. -/
structure Host where
  /-- How many threads the hardware runs at once. -/
  width : Nat
  crew : Crew
  /-- The order in which the nodes of a directory are listed. -/
  arrange : DiskPath → List (Name × Node) → List (Name × Node)
  perm_arrange : ∀ path nodes, (arrange path nodes).Perm nodes

namespace Host

/-- The host that does one thing after the other and lists directories by name. -/
def orderly : Host where
  width := 1
  crew := .inOrder
  arrange _ nodes := nodes
  perm_arrange _ _ := .refl _

/-- The nodes of the directory under a path, as the host lists them. -/
def list (host : Host) (disk : Disk) (path : DiskPath) : Except Fault (List (Name × Node)) :=
  (disk.list path).map (host.arrange path)

end Host

end ArtifactCache
