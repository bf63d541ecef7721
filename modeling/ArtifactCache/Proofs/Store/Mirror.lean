import ArtifactCache.Proofs.Store.LaidOut

/-! # The index mirrors the disk

When a cache has been opened and the queued removals have finished, in whatever order, the
files below the root are those of the entries in the index.  A removal that could not be
finished is reported, and this happens to nothing but a path that is longer than a disk
accepts: the inventory has found the file, because it follows names inside directories.
-/

namespace ArtifactCache.Store

open DiskPath Index

/-- Whether the path of the file of an entry is longer than a disk accepts. -/
def isStuck (root : DiskPath) (entry : Entry) : Bool :=
  longestPath < (pathUnder root entry.1 entry.2).bytes.length

/-- Whether the files below the root of a cache are those of its index and of some entries
that are stuck, and its account is right. -/
structure Mirrors (store : Store) (budget : UInt64) (stuck : List Entry) (disk : Disk) : Prop where
  holds : ∃ top, store.root = ofLocation top ∧ disk.Holds top (store.index.entries ++ stuck)
  keys : ((store.index.entries ++ stuck).map Prod.fst).Nodup
  used_eq : weight store.index.entries < UInt64.size →
    store.index.used.toNat = weight store.index.entries
  used_le : store.index.used ≤ budget

variable {disk : Disk} {top : Location}

section Swept

variable {released : List Entry} {order : List DiskPath}
  (held : ∀ entry ∈ released, ∃ size accessed,
    disk.node? (top ++ entry.location) = some (.file size accessed))
  (distinct : (released.map Entry.location).Nodup)
  (swept : order.Perm (released.map fun entry => pathUnder (ofLocation top) entry.1 entry.2))

include held

theorem pathUnder_of_held {entry : Entry} (member : entry ∈ released) :
    pathUnder (ofLocation top) entry.1 entry.2 = ofLocation (top ++ entry.location) := by
  obtain ⟨size, accessed, found⟩ := held entry member
  exact pathUnder_ofLocation (Disk.isPlain_below found)

include swept

theorem exists_locations : ∃ locations : List Location, order = locations.map ofLocation ∧
    locations.Perm (released.map fun entry => top ++ entry.location) := by
  have paths : (released.map fun entry => pathUnder (ofLocation top) entry.1 entry.2) =
      (released.map fun entry => top ++ entry.location).map ofLocation := by
    rw [List.map_map]
    exact List.map_congr_left fun entry => pathUnder_of_held held
  rw [paths] at swept
  have split := congrFun (congrFun (List.eq_map_comp_perm ofLocation) order)
    (released.map fun entry => top ++ entry.location)
  exact split.mpr swept

include distinct

/-- The sweeper erases the files of released entries, except those that are stuck, and reports
what it has not erased. -/
theorem hasErased_swept :
    disk.HasErased ((released.filter fun entry => !isStuck (ofLocation top) entry).map
        fun entry => top ++ entry.location)
      (Sweeper.attemptAll order disk).1 ∧
    (Sweeper.attemptAll order disk).2 =
      (order.filter fun path => longestPath < path.bytes.length).map
        fun path => .notRemoved path .nameTooLong := by
  obtain ⟨locations, rfl, perm⟩ := exists_locations held swept
  have files : ∀ location ∈ locations, ∃ size accessed,
      disk.node? location = some (.file size accessed) := by
    intro location member
    obtain ⟨entry, isReleased, rfl⟩ := List.mem_map.mp (perm.mem_iff.mp member)
    exact held entry isReleased
  have apart : locations.Nodup := by
    rw [perm.nodup_iff]
    have below := distinct.map (List.append_right_injective top)
    rwa [List.map_map] at below
  obtain ⟨erased, reported⟩ := attemptAll_files files apart
  refine ⟨erased.congr fun other => ?_, reported⟩
  rw [List.mem_filter, perm.mem_iff]
  simp only [List.mem_map, List.mem_filter, decide_eq_true_eq]
  constructor
  · rintro ⟨⟨entry, member, rfl⟩, short⟩
    refine ⟨entry, ⟨member, ?_⟩, rfl⟩
    rw [isStuck, pathUnder_of_held held member]
    simpa using short
  · rintro ⟨entry, ⟨member, free⟩, rfl⟩
    refine ⟨⟨entry, member, rfl⟩, ?_⟩
    rw [isStuck, pathUnder_of_held held member] at free
    simpa using free

end Swept

theorem hasErased_of_holds {kept released : List Entry} {order : List DiskPath}
    (holds : disk.Holds top (kept ++ released))
    (swept : order.Perm (released.map fun entry => pathUnder (ofLocation top) entry.1 entry.2)) :
    disk.HasErased ((released.filter fun entry => !isStuck (ofLocation top) entry).map
        fun entry => top ++ entry.location)
      (Sweeper.attemptAll order disk).1 ∧
    (Sweeper.attemptAll order disk).2 =
      (order.filter fun path => longestPath < path.bytes.length).map
        fun path => .notRemoved path .nameTooLong :=
  hasErased_swept (fun _ member => ⟨_, holds.file (List.mem_append_right kept member)⟩)
    holds.distinct_right swept

/-- What a replay leaves behind before anything is swept: the files of the entries in the index
and of the released ones, each of which fits the budget alone and can be read again. -/
structure IsReplayed (top : Location) (budget : UInt64) (released : List Entry) (index : Index)
    (disk : Disk) : Prop where
  holds : disk.Holds top (index.entries ++ released)
  layout : Inventory.IsLayout disk top
  keys : ((index.entries ++ released).map Prod.fst).Nodup
  sound : index.Sound
  budget_eq : index.budget = budget
  fits : index.used ≤ budget
  each : ∀ entry ∈ index.entries,
    entry.2.diskSize ≤ budget ∧ readPlace entry.place entry.2.diskSize = .ok entry

theorem hasErased_of_replay {files : List FoundFile} {budget : UInt64} {account : ReplaySummary}
    {index : Index} {last : Disk} {released : List Entry}
    (listed : files.Perm (Inventory.filesBelow disk top))
    (replayed : replay (ofLocation top) files (.empty budget) disk =
      { outcome := .ok account, index, disk := last, released }) :
    ∃ gone : List Entry, disk.HasErased (gone.map fun entry => top ++ entry.location) last := by
  obtain ⟨readings, progress, decoded, removed, -, same⟩ :=
    Replay.exists_of_replay (congrArg ReplayResult.outcome replayed)
  rw [replayed] at same
  simp only [ReplayResult.mk.injEq, true_and] at same
  obtain ⟨-, rfl, -⟩ := same
  have erased := ((hasReadings_of_inventory listed decoded).discarded budget).hasErased removed
  exact ⟨(Replay.discarded budget readings).map Replay.Decoded.entry, by rwa [List.map_map]⟩

theorem isReplayed_of_replay {files : List FoundFile} {budget : UInt64} {account : ReplaySummary}
    {index : Index} {last : Disk} {released : List Entry}
    (root : disk.node? top = some .directory) (layout : Inventory.IsLayout disk top)
    (listed : files.Perm (Inventory.filesBelow disk top))
    (replayed : replay (ofLocation top) files (.empty budget) disk =
      { outcome := .ok account, index, disk := last, released }) :
    IsReplayed top budget released index last := by
  have ended : (replay (ofLocation top) files (.empty budget) disk).outcome = .ok account := by
    rw [replayed]
  obtain ⟨readings, progress, decoded, removed, accepts, same⟩ := Replay.exists_of_replay ended
  rw [replayed] at same
  simp only [ReplayResult.mk.injEq, true_and] at same
  obtain ⟨rfl, rfl, rfl⟩ := same
  have read := hasReadings_of_inventory listed decoded
  have division := Replay.perm_accepted_discarded budget readings
  have accepted : ((Replay.accepted budget readings).map Replay.Decoded.entry).Perm
      (progress.index.entries ++ progress.released) := by
    rw [← accepts.split]
    exact List.perm_append_comm
  -- Before the replay the disk holds the files of all readings.
  have parts : (readings.map Replay.Decoded.entry).Perm
      (progress.index.entries ++ progress.released ++
        (Replay.discarded budget readings).map Replay.Decoded.entry) := by
    refine (division.symm.map _).trans ?_
    rw [List.map_append]
    exact accepted.append_right _
  have whole := (read.holds root layout).perm parts
  have erased := (read.discarded budget).hasErased removed
  refine ⟨whole.erased (erased.congr fun other => ?_), layout.erased erased, ?_, accepts.sound,
    accepts.budget_eq, accepts.fits, fun entry member => ?_⟩
  · rw [List.map_map]
    rfl
  · rw [← (accepted.map _).nodup_iff, List.map_map]
    exact Replay.nodup_accepted budget readings
  · have among := accepted.mem_iff.mpr (List.mem_append_left _ member)
    obtain ⟨reading, isAccepted, rfl⟩ := List.mem_map.mp among
    have small := (List.mem_filter.mp isAccepted).2
    obtain ⟨found, isFound, decodes⟩ := exists_item_of_mapM_eq_ok decoded
      (division.mem_iff.mp (List.mem_append_left _ isAccepted))
    obtain ⟨kindName, shardName, name, held, path⟩ := Inventory.mem_filesBelow.mp
      ((Replay.perm_byAccess listed).mem_iff.mp isFound)
    exact ⟨of_decide_eq_true small, Replay.readPlace_of_decode held ⟨_, _, _, rfl⟩ path decodes⟩

/-- After a replay and the removals that it has queued, the disk holds the files of the
index and those that are stuck, and the latter are reported. -/
theorem holds_of_replay {files : List FoundFile} {budget : UInt64} {account : ReplaySummary}
    {index : Index} {last : Disk} {released : List Entry} {order : List DiskPath}
    (root : disk.node? top = some .directory) (layout : Inventory.IsLayout disk top)
    (listed : files.Perm (Inventory.filesBelow disk top))
    (replayed : replay (ofLocation top) files (.empty budget) disk =
      { outcome := .ok account, index, disk := last, released })
    (swept : order.Perm
      (released.map fun entry => pathUnder (ofLocation top) entry.1 entry.2)) :
    (Sweeper.attemptAll order last).1.Holds top
        (index.entries ++ released.filter (isStuck (ofLocation top))) ∧
      ((index.entries ++ released.filter (isStuck (ofLocation top))).map Prod.fst).Nodup ∧
      index.Sound ∧ index.used ≤ budget ∧
      (Sweeper.attemptAll order last).2 =
        (order.filter fun path => longestPath < path.bytes.length).map
          fun path => .notRemoved path .nameTooLong := by
  obtain ⟨holds, -, keys, sound, -, fits, -⟩ := isReplayed_of_replay root layout listed replayed
  obtain ⟨erased, reported⟩ := hasErased_of_holds holds swept
  have halves : released.Perm (released.filter (isStuck (ofLocation top)) ++
      released.filter fun entry => !isStuck (ofLocation top) entry) :=
    (List.filter_append_perm _ _).symm
  refine ⟨Disk.Holds.erased (holds.perm ?_) erased, ?_, sound, fits, reported⟩
  · rw [List.append_assoc]
    exact halves.append_left _
  · have part : (index.entries ++ released.filter (isStuck (ofLocation top))).Sublist
        (index.entries ++ released) := List.filter_sublist.append_left _
    exact keys.sublist (part.map _)

/-- When a cache has been opened and all queued removals have been tried, its index mirrors
the disk, but for released files that are stuck. -/
theorem settled_mirrors_index {host : Host} {settings : Settings} {store : Store}
    {order : List DiskPath} (opened : (start host settings disk).outcome = .ok store)
    (swept : order.Perm store.sweeper.queue) :
    store.Mirrors settings.maxSize
        ((start host settings disk).released.filter (isStuck store.root))
        (Sweeper.attemptAll order (start host settings disk).disk).1 ∧
      store.sweeper.queue = (start host settings disk).released.map
        (fun entry => pathUnder store.root entry.1 entry.2) ∧
      (Sweeper.attemptAll order (start host settings disk).disk).2 =
        (order.filter fun path => longestPath < path.bytes.length).map
          fun path => .notRemoved path .nameTooLong := by
  obtain ⟨root, ready, scene, files, account, index, last, released, passes, replayed⟩ :=
    exists_passes opened
  have whole := passes.start_eq replayed
  rw [whole] at opened ⊢
  obtain rfl := Except.ok.inj opened
  obtain ⟨top, rfl, ⟨node, found, noLink⟩, -⟩ := exists_of_prepareRoot passes.prepared
  obtain ⟨summary, upgraded⟩ := passes.upgraded
  have held := Upgrade.node?_of_upgrade found noLink upgraded
  obtain ⟨layout, -, listed⟩ :=
    Inventory.layout_of_inventory (Disk.leadsTo_ofLocation held) passes.inventoried
  have queue := queue_queueReleased (ofLocation top) (.create settings.maxRemovals) released
  rw [Sweeper.create, List.nil_append] at queue
  dsimp only at swept ⊢
  rw [Sweeper.create, queue] at swept
  obtain ⟨holds, keys, sound, fits, reported⟩ := holds_of_replay held layout listed replayed swept
  refine ⟨⟨⟨top, rfl, holds⟩, keys, fun small => ?_, fits⟩, queue, reported⟩
  rw [sound.used_eq, toNat_tally small]

end ArtifactCache.Store
