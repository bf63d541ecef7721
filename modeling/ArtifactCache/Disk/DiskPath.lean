import ArtifactCache.Text.Utf8

/-! # Paths

A path is a byte string whose names are separated by slashes.  It is kept as it
was written, since messages show it that way, and taken apart in two manners.
Its *components* forget repeated slashes and dots that change nothing, and they
are what decides which entry a path stands for.  Its *steps* are what the disk
follows, one directory after the other.
-/

namespace ArtifactCache

/-- The name of a node inside its directory. -/
abbrev Name := List UInt8

/-- A path as it was written. -/
structure DiskPath where
  bytes : List UInt8
  deriving DecidableEq, Repr

namespace DiskPath

def slash : UInt8 := 0x2F

/-- The name that stands for the directory itself. -/
def dot : Name := [0x2E]

/-- The name that stands for the directory above. -/
def dotDot : Name := [0x2E, 0x2E]

def longestName : Nat := 255

def longestPath : Nat := 4095

/-- Whether a name can be that of a node: it separates nothing, stands for no other
directory, and is not too long. -/
def isPlainName (name : Name) : Bool :=
  name ≠ [] && name ≠ dot && name ≠ dotDot && !name.contains slash && !name.contains 0 &&
    name.length ≤ longestName

def nameOf (text : String) : Name :=
  Utf8.encode text.toList

def textOf? (name : Name) : Option String :=
  (Utf8.decode? name).map String.ofList

def ofString (text : String) : DiskPath :=
  ⟨nameOf text⟩

/-- The path as messages show it. -/
def display (path : DiskPath) : String :=
  Utf8.display path.bytes

def isAbsolute (path : DiskPath) : Bool :=
  path.bytes.head? == some slash

/-- Whether a path asks for a directory by a slash at its end. -/
def endsInSlash (path : DiskPath) : Bool :=
  path.bytes.getLast? == some slash

/-- A path below another one.  A path that starts at the top replaces it, and a
slash is put between the two only where one is needed. -/
def join (base below : DiskPath) : DiskPath :=
  if below.isAbsolute then below
  else if base.bytes.isEmpty || base.endsInSlash then ⟨base.bytes ++ below.bytes⟩
  else ⟨base.bytes ++ slash :: below.bytes⟩

def child (base : DiskPath) (name : Name) : DiskPath :=
  base.join ⟨name⟩

/-- The runs of bytes between the slashes, empty runs included. -/
def segments : List UInt8 → List Name
  | [] => [[]]
  | byte :: rest =>
    if byte = slash then [] :: segments rest
    else match segments rest with
      | [] => [[byte]]
      | first :: others => (byte :: first) :: others

/-- A part of a path after everything that changes nothing has been dropped. -/
inductive Component where
  | top
  | here
  | above
  | named (name : Name)
  deriving DecidableEq, Repr

/-- The component that a run of bytes stands for.  An empty run stands for none,
and neither does a single dot. -/
def component? (segment : Name) : Option Component :=
  if segment = [] ∨ segment = dot then none
  else if segment = dotDot then some .above
  else some (.named segment)

/-- The components of a path.  A dot counts only at the very front. -/
def components (path : DiskPath) : List Component :=
  let body := (segments path.bytes).filterMap component?
  if path.isAbsolute then .top :: body
  else if (segments path.bytes).head? = some dot then .here :: body
  else body

/-- Drop the runs of bytes at the front that stand for no component. -/
def dropIdle (segments : List Name) : List Name :=
  segments.dropWhile fun segment => component? segment = none

/-- The path without its last component, and without anything idle before that. -/
def parent (path : DiskPath) : DiskPath :=
  match dropIdle (dropIdle (segments path.bytes).reverse).tail with
  | [] => if path.isAbsolute then ⟨[slash]⟩ else ⟨[]⟩
  | kept => ⟨List.intercalate [slash] kept.reverse⟩

/-- One step on the way that a path describes. -/
inductive Step where
  | here
  | above
  | into (name : Name)
  deriving DecidableEq, Repr

def step? (segment : Name) : Option Step :=
  if segment = [] then none
  else if segment = dot then some .here
  else if segment = dotDot then some .above
  else some (.into segment)

/-- The steps of a path, without regard to a slash at its end. -/
def steps (path : DiskPath) : List Step :=
  (segments path.bytes).filterMap step?

end DiskPath

end ArtifactCache
