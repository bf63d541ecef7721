/-! # Kinds of entries

The cache keeps three kinds of entries, and each kind owns one directory under
the root.  The directory name carries the generation of the layout; two older
layouts used the bare label instead.
-/

namespace ArtifactCache

/-- What an entry holds: the result of an action, a blob addressed by its
content, or an uninterpreted blob. -/
inductive Kind where
  | action
  | content
  | raw
  deriving DecidableEq, Repr

namespace Kind

/-- The generation of the layout that is read and written. -/
def layoutGeneration : String := "v2"

/-- All kinds, in the order in which they are listed and upgraded. -/
def all : List Kind := [.action, .content, .raw]

def label : Kind → String
  | .action => "ac"
  | .content => "cas"
  | .raw => "raw"

/-- The directory of a kind in the current layout. -/
def directory (kind : Kind) : String :=
  kind.label ++ "." ++ layoutGeneration

/-- The directory of a kind in the two older layouts. -/
def formerDirectory (kind : Kind) : String :=
  kind.label

def ofDirectory? (name : String) : Option Kind :=
  all.find? fun kind => kind.directory == name

def ofLabel? (label : String) : Option Kind :=
  all.find? fun kind => kind.label == label

/-- Whether the file names of a kind record the logical size. -/
def recordsSize : Kind → Bool
  | .content => true
  | .action | .raw => false

def rank : Kind → Nat
  | .action => 0
  | .content => 1
  | .raw => 2

theorem mem_all (kind : Kind) : kind ∈ all := by
  cases kind <;> decide

theorem ofDirectory?_directory (kind : Kind) : ofDirectory? kind.directory = some kind := by
  cases kind <;> decide

theorem directory_of_ofDirectory? {name : String} {kind : Kind}
    (found : ofDirectory? name = some kind) : kind.directory = name := by
  simpa using List.find?_some found

end Kind

end ArtifactCache
