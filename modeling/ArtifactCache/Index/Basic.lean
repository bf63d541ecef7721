import ArtifactCache.Entry.StoredFile

/-! # The recency index

The index keeps the entries of the cache in the order of their last use, from the
least to the most recently used, and counts the bytes that their files occupy on
disk.  An insertion makes the new entry the most recent one and then sheds entries
from the other end until the bytes fit the budget again.

The files of entries that leave the index have to be removed from the disk.  An
insertion therefore tells which entries it released.  An entry that is replaced by
one with the same file name is not released, because its file lives on.
-/

namespace ArtifactCache

/-- A key with the file that stores its entry. -/
abbrev Entry := Key × StoredFile

def Entry.fileName (entry : Entry) : String :=
  entry.2.fileName entry.1

/-- Entries in the order of their last use, under a budget of bytes. -/
structure Index where
  budget : UInt64
  entries : List Entry
  used : UInt64
  deriving DecidableEq, Repr

/-- What an insertion did. -/
structure Insertion where
  index : Index
  admitted : Bool
  released : List Entry
  deriving DecidableEq, Repr

namespace Index

def empty (budget : UInt64) : Index :=
  { budget, entries := [], used := 0 }

def find? (entries : List Entry) (key : Key) : Option Entry :=
  entries.find? fun entry => entry.1 = key

/-- The entries of all other keys. -/
def without (entries : List Entry) (key : Key) : List Entry :=
  entries.filter fun entry => entry.1 ≠ key

/-- Shed entries from the front until the bytes in use fit the budget.  The result
holds what was shed, what is left, and the bytes that are still in use. -/
def shed (budget used : UInt64) : List Entry → List Entry × List Entry × UInt64
  | [] => ([], [], used)
  | oldest :: rest =>
    if budget < used then
      let (gone, kept, used) := shed budget (used - oldest.2.diskSize) rest
      (oldest :: gone, kept, used)
    else ([], oldest :: rest, used)

/-- Insert an entry as the most recently used one.  A file that is larger than the
whole budget is refused, and then nothing changes. -/
def insert (index : Index) (key : Key) (file : StoredFile) : Insertion :=
  if index.budget < file.diskSize then { index, admitted := false, released := [] }
  else
    let grown := index.used + file.diskSize
    let (used, replaced) := match find? index.entries key with
      | none => (grown, [])
      | some old =>
        (grown - old.2.diskSize, if old.fileName = Entry.fileName (key, file) then [] else [old])
    let (gone, kept, used) := shed index.budget used (without index.entries key ++ [(key, file)])
    { index := { index with entries := kept, used }
      admitted := true
      released := replaced ++ gone }

def peek (index : Index) (key : Key) : Option StoredFile :=
  (find? index.entries key).map Prod.snd

/-- The file of a key, whose entry becomes the most recently used one. -/
def touch (index : Index) (key : Key) : Option StoredFile × Index :=
  match find? index.entries key with
  | none => (none, index)
  | some entry =>
    (some entry.2, { index with entries := without index.entries key ++ [entry] })

def contains (index : Index) (key : Key) : Bool :=
  (find? index.entries key).isSome

/-- Forget the entry of a key.  Nothing is released. -/
def remove (index : Index) (key : Key) : Option StoredFile × Index :=
  match find? index.entries key with
  | none => (none, index)
  | some entry =>
    (some entry.2,
      { index with entries := without index.entries key, used := index.used - entry.2.diskSize })

/-- The least recently used entry. -/
def oldest (index : Index) : Option Entry :=
  index.entries.head?

def size (index : Index) : Nat :=
  index.entries.length

/-- The index as logs show it. -/
def summary (index : Index) : String :=
  "SizedLru \x7b entries: " ++ toString index.size ++
    ", current_size: " ++ Decimal.render index.used ++
    ", max_size: " ++ Decimal.render index.budget ++ " \x7d"

end Index

end ArtifactCache
