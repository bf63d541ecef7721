import ArtifactCache.Entry.StoredFile
import ArtifactCache.Json.Record
import ArtifactCache.Json.Report
import ArtifactCache.Json.Written

/-! # Entries in JSON

The kinds, digests, keys and stored files in their JSON form.  A digest is checked
when it is read.  The token of a stored file is taken as it stands.
-/

namespace ArtifactCache

open Json

namespace Kind

def reader : Reader Kind :=
  Reader.variant (all.map fun kind => (kind.label, kind))

def toJson (kind : Kind) : String :=
  writtenText kind.label

end Kind

namespace Digest

def reader : Reader Digest := do
  match Digest.parse (← Reader.text "a string") with
  | .ok digest => return digest
  | .error error => Reader.failUnplaced (.refused error.message)

def toJson (digest : Digest) : String :=
  writtenText digest.text

end Digest

namespace Key

structure Parts where
  kind : Option Kind
  digest : Option Digest

def fields : List (FieldReader Parts) :=
  [.needed "kind" Kind.reader fun kind parts => { parts with kind := some kind },
   .needed "hash" Digest.reader fun digest parts => { parts with digest := some digest }]

/-- Read a key.  Both fields are needed, so a record that was read has both parts. -/
def reader : Reader Key := do
  match ← Reader.record "Key" fields { kind := none, digest := none } with
  | { kind := some kind, digest := some digest } => return { kind, digest }
  | _ => Reader.failUnplaced (.missingField "kind")

def toJson (key : Key) : String :=
  writtenObject [("kind", key.kind.toJson), ("hash", key.digest.toJson)]

end Key

namespace StoredFile

def fields : List (FieldReader StoredFile) :=
  [.needed "logical_size" (Reader.unsigned "u64") fun logicalSize file =>
     { file with logicalSize },
   .needed "size_on_disk" (Reader.unsigned "u64") fun diskSize file => { file with diskSize },
   .needed "legacy" Reader.boolean fun legacy file => { file with legacy },
   .needed "random" (Reader.text "a string") fun token file => { file with token },
   .needed "sized_name" Reader.boolean fun sizedName file => { file with sizedName }]

def reader : Reader StoredFile :=
  Reader.record "Record" fields
    { logicalSize := 0, diskSize := 0, legacy := false, token := "", sizedName := false }

def toJson (file : StoredFile) : String :=
  writtenObject
    [("logical_size", Decimal.render file.logicalSize),
     ("size_on_disk", Decimal.render file.diskSize),
     ("legacy", writtenBoolean file.legacy),
     ("random", writtenText file.token),
     ("sized_name", writtenBoolean file.sizedName)]

end StoredFile

end ArtifactCache
