import ArtifactCache.Proofs.Store.Acceptance
import ArtifactCache.Proofs.Store.Restart

/-! # Below the root of an open cache

While a cache is open, files are written to their places and the sweeper removes some.  Neither
changes the layout: a file goes to a place where the layout has files, and a removal takes no
directory away, whatever its path is.  If all files could be read, they still can.
-/

namespace ArtifactCache

open DiskPath

variable {disk middle after : Disk} {top location : Location} {node : Node}

/-! ## Removals -/

namespace Disk

/-- Whether a disk came from another one by the loss of some nodes that are no directories. -/
def Loses (disk after : Disk) : Prop :=
  ∀ location, after.node? location = disk.node? location ∨
    after.node? location = none ∧ disk.node? location ≠ some .directory

theorem Loses.refl (disk : Disk) : disk.Loses disk :=
  fun _ => .inl rfl

theorem Loses.found (loses : disk.Loses after) (found : after.node? location = some node) :
    disk.node? location = some node := by
  rcases loses location with same | ⟨missing, -⟩
  · exact same ▸ found
  · rw [missing] at found
    cases found

theorem Loses.directory (loses : disk.Loses after) (held : disk.node? location = some .directory) :
    after.node? location = some .directory := by
  rcases loses location with same | ⟨-, plain⟩
  · exact same.trans held
  · exact absurd held plain

theorem Loses.trans (loses : disk.Loses middle) (loses' : middle.Loses after) :
    disk.Loses after := by
  intro location
  rcases loses' location with same | ⟨missing, plain⟩
  · rw [same]
    exact loses location
  · exact .inr ⟨missing, fun held => plain (loses.directory held)⟩

theorem loses_erase (plain : disk.node? location ≠ some .directory) :
    disk.Loses (disk.erase location plain) := by
  intro other
  rw [node?_erase]
  split
  · rename_i same
    exact .inr ⟨rfl, same ▸ plain⟩
  · exact .inl rfl

end Disk

namespace Sweeper

/-- An attempt to remove a file erases what the last step of its path names, unless it changes
nothing. -/
theorem attempt_cases (disk : Disk) (path : DiskPath) :
    (attempt disk path).1 = disk ∨
      ∃ location, ∃ plain : disk.node? location ≠ some .directory,
        disk.slotOf path.steps = .ok location ∧
          (attempt disk path).1 = disk.erase location plain := by
  rw [attempt]
  cases removal : disk.removeFile path with
  | error fault => exact .inl rfl
  | ok changed =>
    obtain ⟨location, plain, slot, erased⟩ := Disk.exists_of_removeFile removal
    exact .inr ⟨location, plain, slot, erased⟩

theorem loses_attempt (disk : Disk) (path : DiskPath) : disk.Loses (attempt disk path).1 := by
  rcases attempt_cases disk path with same | ⟨location, plain, -, erased⟩
  · rw [same]
    exact .refl disk
  · rw [erased]
    exact Disk.loses_erase plain

theorem loses_attemptAll (order : List DiskPath) (disk : Disk) :
    disk.Loses (attemptAll order disk).1 := by
  induction order generalizing disk with
  | nil => exact .refl disk
  | cons path rest ih => exact (loses_attempt disk path).trans (ih _)

end Sweeper

/-! ## The layout -/

namespace Disk

/-- Whether a location is a directory with the layout of a cache. -/
structure HasCache (disk : Disk) (top : Location) : Prop where
  held : disk.node? top = some .directory
  layout : Inventory.IsLayout disk top

/-- Whether all files in the layout can be read. -/
def IsReadable (disk : Disk) (top : Location) : Prop :=
  ∀ found ∈ Inventory.filesBelow disk top, ∃ reading, Replay.decode found = .ok reading

section Changes

variable {key : Key} {file : StoredFile} {accessed : Instant}

theorem HasCache.loses (cache : disk.HasCache top) (loses : disk.Loses after) :
    after.HasCache top where
  held := loses.directory cache.held
  layout := cache.layout.mono fun found => loses.found found

theorem HasCache.written (cache : disk.HasCache top)
    (written : disk.HasWritten (top ++ Entry.location (key, file))
      (.file file.diskSize accessed) after) : after.HasCache top where
  held := by
    rw [written, if_neg, cache.held]
    intro same
    exact Entry.location_ne_nil (key, file) (List.append_right_eq_self.mp same.symm)
  layout := cache.layout.written written

theorem IsReadable.of_same (readable : disk.IsReadable top)
    (same : ∀ kindName shardName name, after.node? (top ++ [kindName, shardName, name]) =
      disk.node? (top ++ [kindName, shardName, name])) : after.IsReadable top := by
  intro found member
  obtain ⟨kindName, shardName, name, lies, path⟩ := Inventory.mem_filesBelow.mp member
  exact readable found (Inventory.mem_filesBelow.mpr ⟨_, _, _, same _ _ _ ▸ lies, path⟩)

theorem IsReadable.loses (readable : disk.IsReadable top) (loses : disk.Loses after) :
    after.IsReadable top := by
  intro found member
  obtain ⟨kindName, shardName, name, lies, path⟩ := Inventory.mem_filesBelow.mp member
  exact readable found (Inventory.mem_filesBelow.mpr ⟨_, _, _, loses.found lies, path⟩)

theorem HasWritten.mem_filesBelow {found : FoundFile}
    (written : disk.HasWritten (top ++ Entry.location (key, file))
      (.file file.diskSize accessed) after)
    (member : found ∈ Inventory.filesBelow after top) :
    found ∈ Inventory.filesBelow disk top ∨
      found.path = placeOf key file ∧ found.size = file.diskSize := by
  obtain ⟨kindName, shardName, name, lies, path⟩ := Inventory.mem_filesBelow.mp member
  rw [written] at lies
  split at lies
  · rename_i same
    obtain ⟨size, -⟩ := Node.file.inj (Option.some.inj lies)
    rw [List.append_cancel_left same] at path
    exact .inr ⟨path, size.symm⟩
  · exact .inl (Inventory.mem_filesBelow.mpr ⟨_, _, _, lies, path⟩)

theorem IsReadable.written (readable : disk.IsReadable top) (valid : isToken file.token = true)
    (positive : ¬ file.NamesZero key)
    (written : disk.HasWritten (top ++ Entry.location (key, file))
      (.file file.diskSize accessed) after) : after.IsReadable top := by
  intro found member
  rcases written.mem_filesBelow member with old | ⟨path, size⟩
  · exact readable found old
  · rw [Replay.decode, path, size, readPlace_placeOf valid positive]
    exact ⟨_, rfl⟩

end Changes

end Disk

/-! ## An opened cache -/

namespace Store

/-- When a cache has been opened, its root has the layout, all files can be read, and what the
replay has released is queued. -/
theorem exists_isReplayed_of_start {host : Host} {settings : Settings} {store : Store}
    (opened : (start host settings disk).outcome = .ok store) :
    ∃ top released, store.root = ofLocation top ∧
      store.sweeper.queue = released.map (fun entry => store.pathFor entry.1 entry.2) ∧
      (∀ location ∈ shardLocations top, (ofLocation location).bytes.length ≤ longestPath) ∧
      IsReplayed top settings.maxSize released store.index (start host settings disk).disk ∧
      (start host settings disk).disk.HasCache top ∧
      (start host settings disk).disk.IsReadable top := by
  obtain ⟨root, ready, scene, files, account, index, last, released, passes, replayed⟩ :=
    exists_passes opened
  have whole := passes.start_eq replayed
  rw [whole] at opened ⊢
  obtain rfl := Except.ok.inj opened
  obtain ⟨top, rfl, held, layout, listed, short⟩ := passes.exists_layout
  have left := isReplayed_of_replay held layout listed replayed
  -- The replay has read all files before it removed some.
  obtain ⟨gone, erased⟩ := hasErased_of_replay listed replayed
  obtain ⟨readings, -, decoded, -⟩ :=
    Replay.exists_of_replay (congrArg ReplayResult.outcome replayed)
  have readable := (exists_decoded_iff listed).mp ⟨readings, decoded⟩
  refine ⟨top, released, rfl, ?_, short, left, ⟨left.holds.root, left.layout⟩,
    fun found member => ?_⟩
  · rw [queue_queueReleased]
    rfl
  · obtain ⟨kindName, shardName, name, lies, path⟩ := Inventory.mem_filesBelow.mp member
    have before := (erased.node?_eq_some_iff.mp lies).1
    exact readable found (Inventory.mem_filesBelow.mpr ⟨_, _, _, before, path⟩)

end Store

end ArtifactCache
