import ArtifactCache.Proofs.Entry.Reading

/-! # The location of an entry

Below the root of a cache an entry lies at a location of three names: the directory of the
kind, the shard, and the file name.  A file whose place can be read lies exactly where the
entry belongs that was read, because a name that is read is written again.
-/

namespace ArtifactCache

open DiskPath

/-- The location of the file of an entry, below the root of the cache. -/
def Entry.location (entry : Entry) : Location :=
  [entry.1.kind.directoryName, nameOf entry.1.digest.shard, nameOf entry.fileName]

theorem Entry.location_ne_nil (entry : Entry) : entry.location ≠ [] :=
  List.cons_ne_nil _ _

theorem Entry.place_eq_ofNames (entry : Entry) : entry.place = ofNames entry.location := rfl

theorem Entry.location_eq_location_iff {entry other : Entry} :
    entry.location = other.location ↔ entry.1 = other.1 ∧ entry.fileName = other.fileName := by
  rw [← place_eq_place_iff]
  constructor
  · intro same
    rw [place_eq_ofNames, place_eq_ofNames, same]
  · intro same
    obtain ⟨keys, names⟩ := place_eq_place_iff.mp same
    rw [location, location, keys, names]

theorem location_of_readPlace {kindName shardName fileName : Name} {size : UInt64} {key : Key}
    {file : StoredFile} (plain : ∀ name ∈ [kindName, shardName, fileName], IsPlain name)
    (read : readPlace (ofNames [kindName, shardName, fileName]) size = .ok (key, file)) :
    Entry.location (key, file) = [kindName, shardName, fileName] ∧ file.diskSize = size := by
  obtain ⟨components, -, occupied⟩ := components_of_readPlace read
  rw [components_ofNames plain (List.cons_ne_nil _ _)] at components
  have names : [kindName, shardName, fileName] = Entry.location (key, file) :=
    (List.map_inj_right fun _ _ => Component.named.inj).mp components
  exact ⟨names.symm, occupied⟩

end ArtifactCache
