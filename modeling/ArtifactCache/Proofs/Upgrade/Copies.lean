import ArtifactCache.Proofs.Entry.Location
import ArtifactCache.Proofs.Upgrade.Complete

/-! # Copies of entries in older layouts

For a key there may be a copy in each of the two older layouts.  The current layout has room for
both, because the token in the new name tells which layout a file came from.  Nothing else gets
lost on the way: the name is read back as the key of the copy, and the size as that of the file.
-/

namespace ArtifactCache.Upgrade

open DiskPath

/-- A file of an older layout, with what the current layout makes of its place. -/
structure OldCopy where
  key : Key
  /-- Whether the file lies in a directory of its own inside the former directory. -/
  sharded : Bool
  size : UInt64
  accessed : Instant
  deriving DecidableEq, Repr

/-- Whether there is a copy in one of the older layouts. -/
inductive IsOldCopy (disk : Disk) (top : Location) : OldCopy → Prop
  | flat {kind digest size accessed}
      (found : disk.node? (oldPlace top kind ++ [nameOf digest.text]) =
        some (.file size accessed)) :
    IsOldCopy disk top { key := { kind, digest }, sharded := false, size, accessed }
  | sharded {kind directory digest size accessed}
      (found : disk.node? (oldPlace top kind ++ [directory, nameOf digest.text]) =
        some (.file size accessed)) :
    IsOldCopy disk top { key := { kind, digest }, sharded := true, size, accessed }

namespace OldCopy

def token (copy : OldCopy) : String :=
  if copy.sharded then tokenInShard copy.key.kind else flatToken

/-- The stored file that a copy becomes. -/
def file (copy : OldCopy) : StoredFile :=
  { logicalSize := copy.size
    diskSize := copy.size
    legacy := isMarked copy.key.kind
    token := copy.token
    sizedName := false }

def entry (copy : OldCopy) : Entry :=
  (copy.key, copy.file)

theorem isToken_token (copy : OldCopy) : isToken copy.token = true := by
  rw [token]
  split
  · cases copy.key.kind <;> decide
  · decide

theorem location_entry (copy : OldCopy) :
    copy.entry.location = newNames copy.key.kind copy.key.digest copy.token := by
  have unsized : copy.file.name copy.key =
      { digest := copy.key.digest, logicalSize := none, token := copy.token
        legacy := isMarked copy.key.kind } := by
    simp [StoredFile.name, file]
  simp [Entry.location, Entry.fileName, StoredFile.fileName, entry, unsized, newNames,
    EntryName.render, isMarked, legacySuffix, Kind.directoryName]

/-- The place of a copy in the current layout tells its key and its former layout. -/
theorem eq_of_location {copy other : OldCopy} (place : copy.entry.location = other.entry.location)
    (size : copy.size = other.size) (accessed : copy.accessed = other.accessed) :
    copy = other := by
  obtain ⟨same, -⟩ := Entry.location_eq_location_iff.mp place
  obtain ⟨key, sharded, _, _⟩ := copy
  obtain ⟨key', sharded', _, _⟩ := other
  obtain rfl : key = key' := same
  subst size accessed
  rw [location_entry, location_entry] at place
  have tokens := (newNames_injective place).2
  have apart : flatToken ≠ tokenInShard key.kind := by cases key.kind <;> decide
  cases sharded <;> cases sharded'
  · rfl
  · exact absurd tokens apart
  · exact absurd tokens apart.symm
  · rfl

theorem readPlace_entry (copy : OldCopy) :
    readPlace copy.entry.place copy.size = .ok copy.entry := by
  have read := @readPlace_placeOf copy.key copy.file copy.isToken_token
    (by simp [StoredFile.NamesZero, file])
  rw [if_neg (by simp [file])] at read
  exact read

end OldCopy

variable {disk : Disk} {top : Location}

/-- An old file is a copy, and the copy belongs where the file does. -/
theorem MovesTo.exists_copy {kind : Kind} {source target : List Name}
    (moves : MovesTo kind source target) (disk : Disk) (top : Location) (size : UInt64)
    (accessed : Instant) :
    ∃ copy : OldCopy, copy.entry.location = target ∧ copy.size = size ∧
      copy.accessed = accessed ∧ (disk.node? (top ++ source) = some (.file size accessed) →
        IsOldCopy disk top copy) := by
  cases moves with
  | flat digest =>
    refine ⟨{ key := { kind, digest }, sharded := false, size, accessed },
      OldCopy.location_entry _, rfl, rfl, fun held => ?_⟩
    rw [← oldPlace_append] at held
    exact .flat held
  | sharded directory digest =>
    refine ⟨{ key := { kind, digest }, sharded := true, size, accessed }, ?_, rfl, rfl,
      fun held => ?_⟩
    · rw [OldCopy.location_entry, OldCopy.token, if_pos rfl, tokenInShard_eq]
    · rw [← oldPlace_append] at held
      exact .sharded held

theorem IsOldCopy.exists_moves {copy : OldCopy} (old : IsOldCopy disk top copy) :
    ∃ source, MovesTo copy.key.kind source copy.entry.location ∧
      disk.node? (top ++ source) = some (.file copy.size copy.accessed) := by
  rw [OldCopy.location_entry]
  cases old with
  | flat found =>
    obtain ⟨moves, -⟩ := isOldFile_flat found
    rw [oldPlace_append] at found
    exact ⟨_, moves, found⟩
  | sharded found =>
    obtain ⟨moves, -⟩ := isOldFile_sharded found
    rw [oldPlace_append] at found
    exact ⟨_, moves, found⟩

end ArtifactCache.Upgrade
