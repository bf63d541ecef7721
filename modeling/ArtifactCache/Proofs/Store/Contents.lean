import ArtifactCache.Proofs.Disk.Writes
import ArtifactCache.Proofs.Entry.Location
import ArtifactCache.Proofs.Replay.LongestEnd
import ArtifactCache.Proofs.Store.Inventory
import ArtifactCache.Sweeper.Basic

/-! # What the disk of a cache holds

A replay reads every file of the layout as that of an entry, and each file lies exactly
where its entry belongs.  So to remove the files of some of these entries, at once or
later by the sweeper, leaves exactly the files of the others, and a file that is written
to the place of an entry replaces the one that lies there.
-/

namespace ArtifactCache

open DiskPath

variable {disk after : Disk} {top : Location}

/-! ## Files and entries -/

/-- Whether the directories of the kinds below a root hold the files of certain entries
and no others. -/
structure Disk.Holds (disk : Disk) (top : Location) (entries : List Entry) : Prop where
  root : disk.node? top = some .directory
  /-- There are only directories and regular files. -/
  regular : ∀ {kind : Kind} {below node},
    disk.node? (top ++ kind.directoryName :: below) = some node →
      node = .directory ∨ node.isFile = true
  /-- There is a file of some size exactly where an entry of this size belongs. -/
  mem_iff : ∀ {kind : Kind} {below size},
    (∃ accessed, disk.node? (top ++ kind.directoryName :: below) = some (.file size accessed)) ↔
      ∃ entry ∈ entries, entry.location = kind.directoryName :: below ∧ entry.2.diskSize = size
  /-- No two entries share a file. -/
  distinct : (entries.map Entry.location).Nodup

theorem Disk.Holds.file {entries : List Entry} (holds : disk.Holds top entries) {entry : Entry}
    (member : entry ∈ entries) :
    ∃ accessed, disk.node? (top ++ entry.location) = some (.file entry.2.diskSize accessed) :=
  holds.mem_iff.mpr ⟨entry, member, rfl, rfl⟩

theorem Disk.Holds.distinct_right {kept gone : List Entry} (holds : disk.Holds top (kept ++ gone)) :
    (gone.map Entry.location).Nodup := by
  have distinct := holds.distinct
  rw [List.map_append] at distinct
  exact (List.nodup_append.mp distinct).2.1

theorem Disk.Holds.perm {entries others : List Entry} (holds : disk.Holds top entries)
    (same : entries.Perm others) : disk.Holds top others where
  root := holds.root
  regular := holds.regular
  mem_iff := by
    intro kind below size
    rw [holds.mem_iff]
    simp only [same.mem_iff]
  distinct := (same.map _).nodup_iff.mp holds.distinct

/-- Whether readings are those of all files of a layout. -/
structure Disk.HasReadings (disk : Disk) (top : Location) (readings : List Replay.Decoded) :
    Prop where
  located : ∀ reading ∈ readings, reading.path = ofNames reading.entry.location ∧
    ∃ accessed, disk.node? (top ++ reading.entry.location) =
      some (.file reading.file.diskSize accessed)
  all : ∀ {kindName shardName name size accessed},
    disk.node? (top ++ [kindName, shardName, name]) = some (.file size accessed) →
      ∃ reading ∈ readings, reading.entry.location = [kindName, shardName, name]
  distinct : (readings.map fun reading => reading.entry.location).Nodup

/-- The reading of a file in the layout is that of an entry which belongs there. -/
theorem Replay.location_of_decode {found : FoundFile} {reading : Decoded} {names : Location}
    (held : disk.node? (top ++ names) = some (.file found.size found.accessed))
    (three : ∃ kindName shardName name, names = [kindName, shardName, name])
    (path : found.path = ofNames names) (read : decode found = .ok reading) :
    reading.entry.location = names ∧ reading.file.diskSize = found.size := by
  obtain ⟨kindName, shardName, name, rfl⟩ := three
  have place := readPlace_found read
  rw [path] at place
  exact location_of_readPlace (Disk.isPlain_below held) place

theorem Replay.readPlace_of_decode {found : FoundFile} {reading : Decoded} {names : Location}
    (held : disk.node? (top ++ names) = some (.file found.size found.accessed))
    (three : ∃ kindName shardName name, names = [kindName, shardName, name])
    (path : found.path = ofNames names) (read : decode found = .ok reading) :
    readPlace reading.entry.place reading.file.diskSize = .ok reading.entry := by
  obtain ⟨location, size⟩ := location_of_decode held three path read
  rw [Entry.place_eq_ofNames, location, size, ← path]
  exact readPlace_found read

/-- The readings of an inventory are those of all files of the layout. -/
theorem hasReadings_of_inventory {files : List FoundFile} {readings : List Replay.Decoded}
    (listed : files.Perm (Inventory.filesBelow disk top))
    (decoded : (Replay.byAccess files).mapM Replay.decode = .ok readings) :
    disk.HasReadings top readings := by
  have whole : (Replay.byAccess files).Perm (Inventory.filesBelow disk top) :=
    Replay.perm_byAccess listed
  have located : ∀ reading ∈ readings, reading.path = ofNames reading.entry.location ∧
      ∃ accessed, disk.node? (top ++ reading.entry.location) =
        some (.file reading.file.diskSize accessed) := by
    intro reading member
    obtain ⟨found, among, read⟩ := exists_item_of_mapM_eq_ok decoded member
    obtain ⟨kindName, shardName, name, held, path⟩ :=
      Inventory.mem_filesBelow.mp (whole.mem_iff.mp among)
    obtain ⟨location, size⟩ := Replay.location_of_decode held ⟨_, _, _, rfl⟩ path read
    rw [location, size, Replay.path_of_decode read]
    exact ⟨path, _, held⟩
  refine ⟨located, ?_, ?_⟩
  · intro kindName shardName name size accessed held
    have member : { path := ofNames [kindName, shardName, name], size, accessed } ∈
        Replay.byAccess files :=
      whole.mem_iff.mpr (Inventory.mem_filesBelow.mpr ⟨_, _, _, held, rfl⟩)
    obtain ⟨reading, among, read⟩ := exists_of_mapM_eq_ok decoded member
    exact ⟨reading, among, (Replay.location_of_decode held ⟨_, _, _, rfl⟩ rfl read).1⟩
  · have paths : (readings.map Replay.Decoded.path).Nodup := by
      rw [map_eq_map_of_mapM decoded fun _ _ => Replay.path_of_decode]
      exact (whole.map _).nodup_iff.mpr (Inventory.nodup_filesBelow disk top)
    have same : readings.map Replay.Decoded.path =
        (readings.map fun reading => reading.entry.location).map ofNames := by
      rw [List.map_map]
      apply List.map_congr_left
      intro reading member
      rw [Function.comp_apply]
      exact (located reading member).1
    rw [same] at paths
    exact List.Nodup.of_map ofNames paths

theorem Disk.HasReadings.holds {readings : List Replay.Decoded}
    (read : disk.HasReadings top readings) (root : disk.node? top = some .directory)
    (layout : Inventory.IsLayout disk top) :
    disk.Holds top (readings.map Replay.Decoded.entry) where
  root := root
  regular := by
    intro kind below node found
    rcases layout.directory_or_file found with directory | ⟨file, -⟩
    · exact .inl directory
    · exact .inr file
  mem_iff := by
    intro kind below size
    constructor
    · rintro ⟨accessed, found⟩
      rcases layout.directory_or_file found with directory | ⟨-, shardName, name, rfl⟩
      · cases directory
      · obtain ⟨reading, among, location⟩ := read.all found
        obtain ⟨accessed', found'⟩ := (read.located reading among).2
        refine ⟨reading.entry, List.mem_map_of_mem among, location, ?_⟩
        rw [location, found] at found'
        exact (Node.file.inj (Option.some.inj found')).1.symm
    · rintro ⟨entry, member, location, rfl⟩
      obtain ⟨reading, among, rfl⟩ := List.mem_map.mp member
      obtain ⟨accessed, found⟩ := (read.located reading among).2
      exact ⟨accessed, location ▸ found⟩
  distinct := by
    rw [List.map_map]
    exact read.distinct

/-! ## Files that are removed or written -/

theorem Disk.Holds.erased {kept gone : List Entry} (holds : disk.Holds top (kept ++ gone))
    (erased : disk.HasErased (gone.map fun entry => top ++ entry.location) after) :
    after.Holds top kept := by
  have distinct := holds.distinct
  rw [List.map_append, List.nodup_append] at distinct
  obtain ⟨distinctKept, -, apart⟩ := distinct
  -- The file of an entry that is kept was there and still is.
  have held : ∀ {names node}, after.node? (top ++ names) = some node →
      disk.node? (top ++ names) = some node ∧ ∀ entry ∈ gone, entry.location ≠ names := by
    intro names node found
    obtain ⟨found, still⟩ := erased.node?_eq_some_iff.mp found
    refine ⟨found, ?_⟩
    rintro entry member rfl
    exact still (List.mem_map_of_mem member)
  refine ⟨?_, fun {kind below node} found => holds.regular (held found).1,
    fun {kind below size} => ⟨?_, ?_⟩, distinctKept⟩
  · rw [erased, if_neg, holds.root]
    intro removed
    obtain ⟨entry, -, same⟩ := List.mem_map.mp removed
    exact entry.location_ne_nil (List.append_right_eq_self.mp same)
  · rintro ⟨accessed, found⟩
    obtain ⟨found, still⟩ := held found
    obtain ⟨entry, member, location, size_eq⟩ := holds.mem_iff.mp ⟨accessed, found⟩
    refine ⟨entry, ?_, location, size_eq⟩
    rcases List.mem_append.mp member with isKept | isGone
    · exact isKept
    · exact absurd location (still entry isGone)
  · rintro ⟨entry, member, location, rfl⟩
    obtain ⟨accessed, found⟩ := holds.file (List.mem_append_left gone member)
    refine ⟨accessed, ?_⟩
    rw [← location, erased, if_neg, found]
    intro removed
    obtain ⟨other, isGone, same⟩ := List.mem_map.mp removed
    exact apart _ (List.mem_map_of_mem member) _ (List.mem_map_of_mem isGone)
      (List.append_cancel_left same).symm

/-- A file that is written to the place of an entry replaces what lay there. -/
theorem Disk.Holds.written {entries : List Entry} {entry : Entry} {accessed : Instant}
    (holds : disk.Holds top entries)
    (written : disk.HasWritten (top ++ entry.location) (.file entry.2.diskSize accessed) after) :
    after.Holds top (entries.filter (fun other => other.location ≠ entry.location) ++ [entry]) := by
  have mem_filtered : ∀ other,
      other ∈ entries.filter (fun other => other.location ≠ entry.location) ↔
        other ∈ entries ∧ other.location ≠ entry.location := by
    intro other
    rw [List.mem_filter, decide_eq_true_eq]
  refine ⟨?_, fun {kind below node} found => ?_, fun {kind below size} => ⟨?_, ?_⟩, ?_⟩
  · rw [written, if_neg, holds.root]
    intro same
    exact entry.location_ne_nil (List.append_right_eq_self.mp same.symm)
  · rw [written] at found
    split at found
    · obtain rfl := Option.some.inj found
      exact .inr rfl
    · exact holds.regular found
  · rintro ⟨accessed', found⟩
    rw [written] at found
    split at found
    · rename_i same
      obtain ⟨rfl, -⟩ := Node.file.inj (Option.some.inj found)
      exact ⟨entry, by simp, (List.append_cancel_left same).symm, rfl⟩
    · rename_i elsewhere
      obtain ⟨other, member, location, size_eq⟩ := holds.mem_iff.mp ⟨accessed', found⟩
      refine ⟨other, List.mem_append_left _ ((mem_filtered other).mpr ⟨member, ?_⟩), location,
        size_eq⟩
      intro same
      exact elsewhere (by rw [← location, same])
  · rintro ⟨other, member, location, rfl⟩
    rw [← location]
    rcases List.mem_append.mp member with isOther | isNew
    · obtain ⟨among, apart⟩ := (mem_filtered other).mp isOther
      obtain ⟨accessed', found⟩ := holds.file among
      refine ⟨accessed', ?_⟩
      rw [written, if_neg, found]
      exact fun same => apart (List.append_cancel_left same)
    · obtain rfl := List.mem_singleton.mp isNew
      exact ⟨accessed, by rw [written, if_pos rfl]⟩
  · rw [List.map_append, List.map_singleton, List.nodup_append']
    refine ⟨holds.distinct.sublist (List.filter_sublist.map _), List.nodup_singleton _, ?_⟩
    rw [List.disjoint_singleton]
    intro member
    obtain ⟨other, isOther, same⟩ := List.mem_map.mp member
    exact ((mem_filtered other).mp isOther).2 same

theorem Inventory.IsLayout.erased {gone : List Location} (layout : IsLayout disk top)
    (erased : disk.HasErased gone after) : IsLayout after top :=
  layout.mono fun found => (erased.node?_eq_some_iff.mp found).1

/-- A layout with a file more at the place of an entry is a layout. -/
theorem Inventory.IsLayout.written {entry : Entry} {size : UInt64} {accessed : Instant}
    (layout : IsLayout disk top)
    (written : disk.HasWritten (top ++ entry.location) (.file size accessed) after) :
    IsLayout after top := by
  have elsewhere : ∀ names : Location, names.length < 3 →
      after.node? (top ++ names) = disk.node? (top ++ names) := by
    intro names few
    rw [written, if_neg]
    intro same
    rw [List.append_cancel_left same] at few
    exact absurd few (Nat.lt_irrefl 3)
  refine ⟨fun {name node} found => ?_, fun {kindName name node} found => ?_,
    fun {kindName shardName name node} found => ?_⟩
  · exact layout.kinds (elsewhere [name] (Nat.lt_succ_of_lt (Nat.lt_succ_self 1)) ▸ found)
  · exact layout.shards (elsewhere [kindName, name] (Nat.lt_succ_self 2) ▸ found)
  · rw [written] at found
    split at found
    · obtain rfl := Option.some.inj found
      rfl
    · exact layout.files found

theorem Entry.isPlain_location {entry : Entry} (plain : IsPlain (nameOf entry.fileName)) :
    ∀ name ∈ entry.location, IsPlain name := by
  simpa [location] using ⟨entry.1.kind.isPlain_directoryName,
    Shard.isPlain_nameOf (Shard.shard_mem_names entry.1.digest), plain⟩

theorem Store.pathUnder_ofLocation {entry : Entry} (plain : ∀ name ∈ entry.location, IsPlain name) :
    pathUnder (ofLocation top) entry.1 entry.2 = ofLocation (top ++ entry.location) := by
  have place : placeOf entry.1 entry.2 = ofNames entry.location := entry.place_eq_ofNames
  rw [pathUnder, place, join_ofNames top plain entry.location_ne_nil]

/-- A file in the layout is discarded by its path, unless the path is too long. -/
theorem Replay.discard_eq {reading : Decoded} {size : UInt64} {accessed : Instant}
    (path : reading.path = ofNames reading.entry.location)
    (found : disk.node? (top ++ reading.entry.location) = some (.file size accessed)) :
    discard (ofLocation top) reading.path disk =
      if longestPath < ((ofLocation top).join reading.path).bytes.length then
        .error (.disk ((ofLocation top).join reading.path) "remove rejected file" .nameTooLong)
      else .ok (disk.erase (top ++ reading.entry.location) (by simp [found])) := by
  have plain : Node.file size accessed ≠ .directory := by simp
  rw [discard, path, join_ofNames top (Disk.isPlain_below found) reading.entry.location_ne_nil,
    Disk.removeFile_ofLocation found plain]
  by_cases long : longestPath < (ofLocation (top ++ reading.entry.location)).bytes.length
  · simp only [if_pos long, if_neg (show Fault.nameTooLong ≠ Fault.notFound by decide)]
  · simp only [if_neg long]

/-- Whether a disk has the files of readings, each at a place of its own. -/
structure Disk.HasFilesOf (disk : Disk) (top : Location) (readings : List Replay.Decoded) :
    Prop where
  located : ∀ reading ∈ readings, reading.path = ofNames reading.entry.location ∧
    ∃ accessed, disk.node? (top ++ reading.entry.location) =
      some (.file reading.file.diskSize accessed)
  distinct : (readings.map fun reading => reading.entry.location).Nodup

namespace Disk.HasFilesOf

variable {reading : Replay.Decoded} {readings : List Replay.Decoded}

theorem head (has : disk.HasFilesOf top (reading :: readings)) :
    reading.path = ofNames reading.entry.location ∧ ∃ accessed,
      disk.node? (top ++ reading.entry.location) =
        some (.file reading.file.diskSize accessed) :=
  has.located reading List.mem_cons_self

theorem erase_head (has : disk.HasFilesOf top (reading :: readings))
    (plain : disk.node? (top ++ reading.entry.location) ≠ some .directory) :
    (disk.erase (top ++ reading.entry.location) plain).HasFilesOf top readings := by
  obtain ⟨fresh, distinct⟩ := List.nodup_cons.mp has.distinct
  refine ⟨fun other member => ?_, distinct⟩
  obtain ⟨path, accessed, found⟩ := has.located other (List.mem_cons_of_mem _ member)
  refine ⟨path, accessed, ?_⟩
  rw [Disk.node?_erase, if_neg, found]
  intro same
  exact fresh (List.mem_map.mpr ⟨other, member, List.append_cancel_left same⟩)

theorem hasErased (has : disk.HasFilesOf top readings)
    (done : Replay.discardAll (ofLocation top) readings disk = .ok after) :
    disk.HasErased (readings.map fun reading => top ++ reading.entry.location) after := by
  induction readings generalizing disk with
  | nil =>
    obtain rfl := Except.ok.inj done
    exact disk.hasErased_nil
  | cons reading rest ih =>
    obtain ⟨path, accessed, found⟩ := has.head
    obtain ⟨middle, first, done⟩ := bind_eq_ok_iff.mp done
    rw [Replay.discard_eq path found] at first
    split at first
    · cases first
    · obtain rfl := Except.ok.inj first
      exact (ih (has.erase_head _) done).cons

/-- Files in the layout can only fail to be discarded because of the length of a path. -/
theorem exists_long (has : disk.HasFilesOf top readings) {failure : Failure}
    (stopped : Replay.discardAll (ofLocation top) readings disk = .error failure) :
    ∃ reading ∈ readings,
      longestPath < ((ofLocation top).join reading.path).bytes.length ∧
        failure = .disk ((ofLocation top).join reading.path) "remove rejected file"
          .nameTooLong := by
  induction readings generalizing disk with
  | nil => cases stopped
  | cons reading rest ih =>
    obtain ⟨path, accessed, found⟩ := has.head
    rw [Replay.discardAll, Replay.discard_eq path found] at stopped
    split at stopped
    · rename_i long
      exact ⟨reading, List.mem_cons_self, long, (Except.error.inj stopped).symm⟩
    · obtain ⟨other, member, refused⟩ := ih (has.erase_head _) stopped
      exact ⟨other, List.mem_cons_of_mem _ member, refused⟩

end Disk.HasFilesOf

theorem Disk.HasReadings.discarded {readings : List Replay.Decoded}
    (read : disk.HasReadings top readings) (budget : UInt64) :
    disk.HasFilesOf top (Replay.discarded budget readings) := by
  have division := Replay.perm_accepted_discarded budget readings
  have distinct := (division.map fun reading => reading.entry.location).nodup_iff.mpr read.distinct
  rw [List.map_append] at distinct
  exact ⟨fun reading member =>
    read.located reading (division.mem_iff.mp (List.mem_append_right _ member)),
    List.Nodup.of_append_right distinct⟩

/-- The sweeper erases the files whose paths are not too long and reports the others. -/
theorem attemptAll_files {locations : List Location}
    (held : ∀ location ∈ locations, ∃ size accessed,
      disk.node? location = some (.file size accessed))
    (distinct : locations.Nodup) :
    disk.HasErased
        (locations.filter fun location => (ofLocation location).bytes.length ≤ longestPath)
        (Sweeper.attemptAll (locations.map ofLocation) disk).1 ∧
      (Sweeper.attemptAll (locations.map ofLocation) disk).2 =
        ((locations.map ofLocation).filter fun path => longestPath < path.bytes.length).map
          fun path => .notRemoved path .nameTooLong := by
  induction locations generalizing disk with
  | nil => exact ⟨disk.hasErased_nil, rfl⟩
  | cons location rest ih =>
    obtain ⟨⟨size, accessed, found⟩, others⟩ := List.forall_mem_cons.mp held
    obtain ⟨fresh, distinct⟩ := List.nodup_cons.mp distinct
    have plain : Node.file size accessed ≠ .directory := by simp
    have removal := Disk.removeFile_ofLocation found plain
    rw [List.map_cons, Sweeper.attemptAll]
    split at removal
    · rename_i long
      obtain ⟨erased, reported⟩ := ih others distinct
      have first : Sweeper.attempt disk (ofLocation location) =
          (disk, [.notRemoved (ofLocation location) .nameTooLong]) := by
        rw [Sweeper.attempt, removal]
        rfl
      rw [List.filter_cons_of_neg (by simpa using long), List.filter_cons_of_pos (by simpa using long),
        first]
      exact ⟨erased, congrArg _ reported⟩
    · rename_i short
      have still : ∀ other ∈ rest, ∃ size accessed,
          (disk.erase location (by simp [found])).node? other = some (.file size accessed) := by
        intro other member
        obtain ⟨size', accessed', otherFound⟩ := others other member
        refine ⟨size', accessed', ?_⟩
        rw [Disk.node?_erase, if_neg, otherFound]
        rintro rfl
        exact fresh member
      obtain ⟨erased, reported⟩ := ih still distinct
      rw [List.filter_cons_of_pos (by simpa using short),
        List.filter_cons_of_neg (by simpa using short), Sweeper.attempt, removal]
      exact ⟨erased.cons, reported⟩

end ArtifactCache
