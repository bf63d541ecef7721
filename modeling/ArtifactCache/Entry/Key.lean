import ArtifactCache.Entry.Digest
import ArtifactCache.Entry.Kind

/-! # Keys

A key identifies an entry by its kind and its digest.  It says nothing about the
file that stores the entry.
-/

namespace ArtifactCache

structure Key where
  kind : Kind
  digest : Digest
  deriving DecidableEq, Repr

namespace Key

/-- A key with a digest that is still a text. -/
def parse (kind : Kind) (digest : String) : Except NameError Key :=
  (Digest.parse digest).map fun digest => { kind, digest }

/-- A key as its label and its digest, with a slash between them. -/
def render (key : Key) : String :=
  key.kind.label ++ "/" ++ key.digest.text

/-- Keys are ordered by kind and then by digest. -/
def precedes (first second : Key) : Bool :=
  first.kind.rank < second.kind.rank ||
    (first.kind.rank == second.kind.rank && first.digest.text ≤ second.digest.text)

/-- The given keys in order, each once. -/
def sorted (keys : List Key) : List Key :=
  (keys.mergeSort precedes).eraseDups

end Key

end ArtifactCache
