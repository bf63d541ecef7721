import ArtifactCache.Proofs.Store.Restart
import ArtifactCache.Proofs.Upgrade.Untouched

/-! # Rebuilding a cache

A cache that is opened again right after all queued removals have been tried is the same cache,
with the same entries in the same order, and nothing happens to the disk.  For this no assumption
on the root is needed: whatever an opening has found there, the shards are directories once it has
succeeded, and all files that remain are those of the index, in the order of their last access.
-/

namespace ArtifactCache.Store

open DiskPath Upgrade

variable {host : Host} {settings again : Settings} {budget : UInt64} {disk ready before : Disk}
  {settled : Disk} {top : Location} {scene : Scene} {files : List FoundFile} {store : Store}
  {order : List DiskPath}

/-! ## Shards -/

/-- Once the stages in front of the replay have succeeded, all shards are directories. -/
theorem Passes.directory_of_shard
    (passes : Passes host settings disk (ofLocation top) ready scene files)
    (held : scene.disk.node? top = some .directory) (layout : Inventory.IsLayout scene.disk top) :
    ∀ location ∈ shardLocations top, scene.disk.node? location = some .directory := by
  obtain ⟨middle, other, same, prepared⟩ := exists_isPrepared passes.prepared
  obtain rfl := ofLocation_injective (Disk.isPlain_of_node? held) prepared.plain same
  have directory := prepared.grows.node? prepared.held
  obtain ⟨summary, upgraded⟩ := passes.upgraded
  -- The names of kinds and shards are too short to be touched by the upgrade.
  have untouched : ∀ (place : Location) (name : Name), name.length < digestLength →
      (∀ kind, ¬ oldPlace top kind <+: place ++ [name]) →
        scene.disk.node? (place ++ [name]) = ready.node? (place ++ [name]) := by
    intro place name short apart
    have same := node?_upgrade_of_short host (settings.effectiveUpgradeWorkers host.width)
      directory short apart
    rwa [upgraded] at same
  intro location member
  have plain := isPlain_of_mem_shardLocations prepared.plain member
  obtain ⟨arrived, leads⟩ := prepared.leadsTo_shard location member
  have apart := not_oldPlace_prefix_shard member
  obtain ⟨kind, shard, isShard, rfl⟩ := mem_shardLocations.mp member
  have sameKind : scene.disk.node? (top ++ [kind.directoryName]) =
      ready.node? (top ++ [kind.directoryName]) := by
    refine untouched top _ (by cases kind <;> decide +kernel) fun other above => ?_
    exact apart other (above.trans ⟨[nameOf shard], by simp⟩)
  have sameShard : scene.disk.node? (top ++ [kind.directoryName, nameOf shard]) =
      ready.node? (top ++ [kind.directoryName, nameOf shard]) := by
    have short : ∀ shard ∈ Shard.names, (nameOf shard).length < digestLength := by decide +kernel
    have split : top ++ [kind.directoryName, nameOf shard] =
        top ++ [kind.directoryName] ++ [nameOf shard] := by simp
    rw [split] at apart ⊢
    exact untouched _ _ (short shard isShard) apart
  have noLinks : ready.NoLinks (top ++ [kind.directoryName, nameOf shard]) := by
    refine noLinks_shard directory (fun target link => ?_) fun target link => ?_
    · rw [← sameKind] at link
      cases (layout.kinds link).1
    · rw [← sameShard] at link
      cases (layout.shards link).1
  obtain rfl := leads.eq_of_noLinks plain noLinks
  exact sameShard.trans leads.held

theorem prepareRoot_of_shards (named : disk.canonical settings.baseDirectory = .ok (ofLocation top))
    (held : disk.node? top = some .directory)
    (short : ∀ location ∈ shardLocations top, (ofLocation location).bytes.length ≤ longestPath)
    (shards : ∀ location ∈ shardLocations top, disk.node? location = some .directory) :
    prepareRoot settings.baseDirectory disk = (.ok (ofLocation top), disk) ∧
      ∀ other, disk.node? other =
        if ∃ location ∈ shardLocations top, other <+: location then some .directory
        else disk.node? other := by
  have plain := Disk.isPlain_of_node? held
  have same : ∀ other, disk.node? other =
      if ∃ location ∈ shardLocations top, other <+: location then some .directory
      else disk.node? other := by
    intro other
    split
    · rename_i above
      obtain ⟨location, member, above⟩ := above
      by_cases shard : other = location
      · exact shard ▸ shards location member
      · exact Disk.directory_of_prefix (shards location member) above shard
    · rfl
  obtain ⟨leads, form⟩ := Disk.leadsTo_of_canonical plain held named
  obtain ⟨made, prepared, nodes⟩ := prepareRoot_of_canonical (leads.makeDirectories form) named
    plain short fun location member => Disk.clear_of_node? (shards location member)
  obtain rfl : made = disk := Disk.ext_node? fun other => (nodes other).trans (same other).symm
  exact ⟨prepared, same⟩

/-! ## Files that remain -/

/-- Whether a disk holds the files of an index and no others, and these files are some of those
that another disk had, listed in the order of their last access. -/
structure Remains (before : Disk) (top : Location) (index : Index) (kept : List FoundFile)
    (settled : Disk) : Prop where
  fewer : ∀ {location node}, settled.node? location = some node →
    before.node? location = some node
  layout : Inventory.IsLayout settled top
  holds : settled.Holds top index.entries
  ordered : kept.Pairwise fun first second => first.accessed ≤ second.accessed
  distinct : kept.Nodup
  listed : ∀ found ∈ kept, found ∈ Inventory.filesBelow before top
  readings : ∃ readings, kept.mapM Replay.decode = .ok readings ∧
    index.entries = readings.map Replay.Decoded.entry

theorem Remains.location_of_mem {index : Index} {kept : List FoundFile} {found : FoundFile}
    {reading : Replay.Decoded} (remains : Remains before top index kept settled)
    (member : found ∈ kept) (read : Replay.decode found = .ok reading) :
    found.path = ofNames reading.entry.location ∧
      before.node? (top ++ reading.entry.location) =
        some (.file found.size found.accessed) := by
  obtain ⟨kindName, shardName, name, lies, path⟩ :=
    Inventory.mem_filesBelow.mp (remains.listed found member)
  obtain ⟨location, -⟩ := Replay.location_of_decode lies ⟨_, _, _, rfl⟩ path read
  rw [location]
  exact ⟨path, lies⟩

theorem Remains.perm {index : Index} {kept : List FoundFile}
    (remains : Remains before top index kept settled) :
    (Inventory.filesBelow settled top).Perm kept := by
  obtain ⟨readings, decoded, entries⟩ := remains.readings
  refine (List.perm_ext_iff_of_nodup ?_ remains.distinct).mpr fun found => ⟨fun below => ?_,
    fun member => ?_⟩
  · exact List.Nodup.of_map _ (Inventory.nodup_filesBelow settled top)
  · obtain ⟨kindName, shardName, name, lies, path⟩ := Inventory.mem_filesBelow.mp below
    obtain ⟨-, kind, rfl⟩ := remains.layout.kinds (Disk.directory_of_prefix lies
      (show top ++ [kindName] <+: _ by simp) (by simp))
    obtain ⟨entry, indexed, location, -⟩ := remains.holds.mem_iff.mp ⟨_, lies⟩
    rw [entries] at indexed
    obtain ⟨reading, among, rfl⟩ := List.mem_map.mp indexed
    obtain ⟨other, member, read⟩ := exists_item_of_mapM_eq_ok decoded among
    obtain ⟨otherPath, otherLies⟩ := remains.location_of_mem member read
    rw [location, remains.fewer lies] at otherLies
    obtain ⟨size, accessed⟩ := Node.file.inj (Option.some.inj otherLies)
    have same : found = other := by
      cases found
      cases other
      simp_all
    exact same ▸ member
  · obtain ⟨reading, among, read⟩ := exists_of_mapM_eq_ok decoded member
    obtain ⟨path, lies⟩ := remains.location_of_mem member read
    have indexed : reading.entry ∈ index.entries := entries ▸ List.mem_map_of_mem among
    obtain ⟨accessed, held⟩ := remains.holds.file indexed
    have kept := remains.fewer held
    rw [lies] at kept
    rw [← kept] at held
    exact Inventory.mem_filesBelow.mpr ⟨_, _, _, held, path⟩

/-- A replay takes the files that remain in the order in which they have been taken before. -/
theorem Remains.byAccess_eq {index : Index} {kept : List FoundFile}
    (remains : Remains before top index kept settled) (distinct : HasDistinctAccesses settled top)
    (listed : files.Perm (Inventory.filesBelow settled top)) : Replay.byAccess files = kept := by
  have apart : (files.map FoundFile.accessed).Nodup := (listed.map _).nodup_iff.mpr distinct.nodup
  rw [Replay.byAccess_eq_of_perm (listed.trans remains.perm) apart]
  exact (Replay.isStablySorted_byAccess kept).unique ⟨remains.ordered, fun _ => rfl⟩

/-- Whether a cache has been opened, and all removals that it has queued have been tried. -/
structure Settles (host : Host) (settings : Settings) (disk : Disk) (store : Store)
    (order : List DiskPath) (settled : Disk) : Prop where
  opened : (start host settings disk).outcome = .ok store
  swept : order.Perm store.sweeper.queue
  last : (Sweeper.attemptAll order (start host settings disk).disk).1 = settled

theorem settles_of_opened (opened : (start host settings disk).outcome = .ok store)
    (nothing : store.sweeper.queue = []) :
    Settles host settings disk store store.sweeper.queue (start host settings disk).disk :=
  ⟨opened, .refl _, by rw [nothing, Sweeper.attemptAll]⟩

/-- What an opening has put in order remains, with all of its shards. -/
theorem Settles.exists_remains (settles : Settles host settings disk store order settled)
    (short : ∀ path ∈ order, path.bytes.length ≤ longestPath) :
    ∃ top before kept, store.idle.IsInOrder top settings.maxSize settled ∧
      Remains before top store.index kept settled ∧
      (∀ location ∈ shardLocations top, settled.node? location = some .directory) ∧
      store.replayed.bytesIndexed = store.index.used := by
  obtain ⟨opened, swept, rfl⟩ := settles
  obtain ⟨top, inOrder⟩ := exists_isInOrder_of_start opened swept short
  obtain ⟨root, ready, scene, files, account, index, last, released, passes, replayed⟩ :=
    exists_passes opened
  have whole := passes.start_eq replayed
  rw [whole] at opened inOrder ⊢
  obtain rfl := Except.ok.inj opened
  obtain ⟨other, rfl, held, layout, listed, -⟩ := passes.exists_layout
  obtain rfl := ofLocation_injective (Disk.isPlain_of_node? inOrder.holds.root)
    (Disk.isPlain_of_node? held) inOrder.root.symm
  dsimp only at swept inOrder ⊢
  rw [queue_queueReleased, Sweeper.create, List.nil_append] at swept
  have left := isReplayed_of_replay held layout listed replayed
  obtain ⟨gone, discarded⟩ := hasErased_of_replay listed replayed
  have erased := discarded.append (hasErased_of_short left.holds swept short)
  rw [← List.map_append] at erased
  obtain ⟨kept, readings, among, read, entries⟩ := Replay.exists_kept_of_replay replayed
  have sorted : (Replay.byAccess files).Perm (Inventory.filesBelow scene.disk top) :=
    Replay.perm_byAccess listed
  refine ⟨top, scene.disk, kept, inOrder, ?_, fun location member => ?_,
    (Replay.account_of_replay replayed).2.2⟩
  · exact
      { fewer := fun found => (erased.node?_eq_some_iff.mp found).1
        layout := inOrder.layout
        holds := inOrder.holds
        ordered := (Replay.isStablySorted_byAccess files).ordered.sublist among
        distinct := (sorted.nodup_iff.mpr
          (List.Nodup.of_map _ (Inventory.nodup_filesBelow scene.disk top))).sublist among
        listed := fun found member => sorted.mem_iff.mp (among.mem member)
        readings := ⟨readings, read, entries⟩ }
  · -- The places of files lie deeper than the shards.
    rw [erased, if_neg, passes.directory_of_shard held layout location member]
    intro removed
    obtain ⟨entry, -, same⟩ := List.mem_map.mp removed
    obtain ⟨kind, shard, -, rfl⟩ := mem_shardLocations.mp member
    have few := congrArg List.length (List.append_cancel_left same)
    simp [Entry.location] at few

/-! ## The second opening -/

/-- Whether no two of the files below the root of a cache have been accessed at the same time. -/
def TellsApart (store : Store) (settled : Disk) : Prop :=
  ∀ top, store.root = ofLocation top → settled.node? top = some .directory →
    HasDistinctAccesses settled top

/-- Whether an opening finds a cache on a disk as it was, and neither changes the disk nor gives
up anything. -/
structure Rebuilds (store : Store) (settled : Disk) (opening : Opening) (reopened : Store) :
    Prop where
  opened : opening.outcome = .ok reopened
  disk : opening.disk = settled
  released : opening.released = []
  idle : reopened.sweeper.queue = []
  root : reopened.root = store.root
  index : reopened.index = store.index
  replayed : reopened.replayed =
    { filesSeen := store.index.size
      indexed := store.index.size
      rejected := 0
      duplicates := 0
      displaced := 0
      bytesIndexed := store.replayed.bytesIndexed }

/-- To open a cache again after all queued removals, under any path that leads to its root, is to
have the same cache on the same disk, if the system takes the paths of these removals, no two of
the remaining files have been accessed at the same time, and a sweeper can be made. -/
theorem rebuild_is_idempotent (host host' : Host) (settings again : Settings) (disk settled : Disk)
    (store : Store) (order : List DiskPath)
    (settles : Settles host settings disk store order settled)
    (short : ∀ path ∈ order, path.bytes.length ≤ longestPath)
    (small : Index.weight store.index.entries < UInt64.size)
    (apart : store.TellsApart settled)
    (usable : again.fault? = none) (few : again.maxRemovals ≤ Sweeper.mostPermits)
    (size : again.maxSize = settings.maxSize)
    (named : settled.canonical again.baseDirectory = .ok store.root) :
    ∃ opening reopened, launch host' again settled = .finished opening ∧
      Rebuilds store settled opening reopened := by
  obtain ⟨top, before, kept, inOrder, remains, shards, bytes⟩ := settles.exists_remains short
  have root : store.root = ofLocation top := inOrder.root
  rw [root] at named
  have small : Index.weight store.idle.index.entries < UInt64.size := small
  have distinct : HasDistinctAccesses settled top := apart top root inOrder.holds.root
  obtain ⟨prepared, nodes⟩ :=
    prepareRoot_of_shards named inOrder.holds.root inOrder.short shards
  obtain ⟨files, passes, listed, -⟩ :=
    exists_passes_of_prepared host' usable inOrder.isReady prepared nodes
  have ordered := remains.byAccess_eq distinct listed
  obtain ⟨readings, decoded, entries⟩ := remains.readings
  rw [← ordered] at decoded
  have keys : (readings.map Replay.Decoded.key).Nodup := by
    have keys := inOrder.sound.distinct
    rw [show store.idle.index.entries = _ from entries, List.map_map] at keys
    exact keys
  have each : ∀ reading ∈ readings, reading.file.diskSize ≤ again.maxSize := by
    intro reading member
    rw [size]
    exact (inOrder.each reading.entry (entries ▸ List.mem_map_of_mem member)).1
  have fits : Index.weight (readings.map Replay.Decoded.entry) ≤ again.maxSize.toNat := by
    rw [← entries, size]
    exact inOrder.weight_le small
  obtain ⟨account, index, replayed, rejected, duplicates, displaced, found⟩ :=
    Replay.exists_replay_of_fits (ofLocation top) settled decoded keys each fits
  -- The sum of the sizes and the budget belong to the index as well.
  have left := isReplayed_of_replay inOrder.holds.root inOrder.layout listed replayed
  have index_eq : index = store.index :=
    left.sound.eq_of_entries inOrder.sound (left.budget_eq.trans (size.trans inOrder.budget_eq.symm))
      (found.trans entries.symm)
  subst index_eq
  obtain ⟨seen, indexed, bytes'⟩ := Replay.account_of_replay replayed
  have count : files.length = store.index.size := by
    rw [Index.size, entries, List.length_map, ← (mapM_eq_ok_iff.mp decoded).length_eq]
    exact (List.mergeSort_perm files _).length_eq.symm
  refine ⟨_, _, (launch_eq_finished_iff usable).mpr ⟨few, passes.start_eq replayed⟩, rfl, rfl, rfl,
    rfl, root.symm, rfl, ?_⟩
  cases account
  exact (ReplaySummary.mk.injEq ..).mpr
    ⟨seen.trans count, indexed, rejected, duplicates, displaced, bytes'.trans bytes.symm⟩

/-! ## Two entries, one of which is removed -/

theorem hasDistinctAccesses_of_laidOut {items : List (Entry × Instant)}
    (fits : CanBeLaidOut top items) (apart : (items.map Prod.snd).Nodup)
    (held : disk.node? top = some .directory) (layout : Inventory.IsLayout disk top)
    (same : ∀ kindName shardName name, disk.node? (top ++ [kindName, shardName, name]) =
      (laidOut top items).node? (top ++ [kindName, shardName, name])) :
    HasDistinctAccesses disk top := by
  have placed : ∀ {names size accessed},
      disk.node? (top ++ names) = some (.file size accessed) →
        ∃ item ∈ items, names = item.1.location ∧ item.2 = accessed := by
    intro names size accessed found
    match names with
    | [] =>
      rw [List.append_nil, held] at found
      cases found
    | kindName :: below =>
      rcases layout.directory_or_file found with directory | ⟨-, shardName, name, rfl⟩
      · cases directory
      · rw [same] at found
        rcases (node?_laidOut fits).mp found with ⟨directory, -⟩ | ⟨item, member, location, file⟩
        · cases directory
        · exact ⟨item, member, List.append_cancel_left location, (Node.file.inj file).2.symm⟩
  intro names names' size size' accessed found found'
  obtain ⟨item, member, rfl, access⟩ := placed found
  obtain ⟨item', member', rfl, access'⟩ := placed found'
  rw [List.inj_on_of_nodup_map apart member member' (access.trans access'.symm)]

/-- Both entries are found where they have been, and the file of the older one is queued for its
removal. -/
theorem exists_opened_twoItems (plain : ∀ name ∈ top, IsPlain name)
    (room : (ofLocation top).bytes.length + 10 ≤ longestPath) : ∃ store,
      (start .orderly (tenBytes top) (laidOut top twoItems)).outcome = .ok store ∧
      store.root = ofLocation top ∧ store.index.entries = [newerEntry] ∧
      store.sweeper.queue = [pathUnder (ofLocation top) olderEntry.1 olderEntry.2] ∧
      (start .orderly (tenBytes top) (laidOut top twoItems)).disk.node?
        (top ++ olderEntry.location) = some (.file olderEntry.2.diskSize 1) ∧
      (start .orderly (tenBytes top) (laidOut top twoItems)).disk.node? top = some .directory ∧
      HasDistinctAccesses (start .orderly (tenBytes top) (laidOut top twoItems)).disk top := by
  have fits := canBeLaidOut_twoItems plain room
  have nothing : Replay.discarded 10 (twoItems.map readingOf) = [] := by decide +kernel
  have removable : ∀ reading ∈ Replay.discarded 10 (twoItems.map readingOf),
      (ofLocation (top ++ reading.entry.location)).bytes.length ≤ longestPath := by simp [nothing]
  have accepts : (Replay.accepted 10 (twoItems.map readingOf)).map Replay.Decoded.entry =
      [olderEntry, newerEntry] := by decide +kernel
  obtain ⟨ready, scene, files, passes, listed, same⟩ :=
    exists_passes_of_isReady .orderly (fault?_tenBytes top) rfl (isReady_laidOut fits)
  obtain ⟨other, root, held, layout, -⟩ := passes.exists_layout
  obtain rfl := ofLocation_injective plain (Disk.isPlain_of_node? held) root
  obtain ⟨account, last, replayed, removals, accepted⟩ :=
    exists_replay_laidOut fits (by decide +kernel) (by decide +kernel) removable same listed
  rw [nothing] at removals
  have unchanged : last.disk = scene.disk := (Except.ok.inj removals).symm
  rw [accepts] at accepted
  obtain ⟨entries, released⟩ := keeps_newerEntry accepted
  have member : (olderEntry, 1) ∈ twoItems := List.mem_cons_self
  have found := node?_location fits same member
  rw [passes.start_eq replayed, unchanged, released]
  refine ⟨_, rfl, rfl, entries, ?_, found, held,
    hasDistinctAccesses_of_laidOut fits (by decide) held layout same⟩
  rw [queue_queueReleased]
  rfl

/-- Of two entries the older one is removed, and whoever opens the cache after that finds the newer
one and removes nothing. -/
theorem rebuild_is_idempotent_two_entries : ∃ store settled,
    Settles .orderly (tenBytes []) (laidOut [] twoItems) store store.sweeper.queue settled ∧
      store.sweeper.queue ≠ [] ∧
      ∃ opening reopened, launch .orderly (tenBytes []) settled = .finished opening ∧
        Rebuilds store settled opening reopened := by
  have plain : ∀ name ∈ ([] : Location), IsPlain name := by simp
  obtain ⟨store, opened, root, entries, queue, older, held, distinct⟩ :=
    exists_opened_twoItems plain (by decide)
  have short : ∀ path ∈ store.sweeper.queue, path.bytes.length ≤ longestPath := by
    rw [queue]
    decide +kernel
  have settles : Settles .orderly (tenBytes []) (laidOut [] twoItems) store store.sweeper.queue _ :=
    ⟨opened, .refl _, rfl⟩
  obtain ⟨top, before, kept, inOrder, -⟩ := settles.exists_remains short
  have held := inOrder.holds.root
  have same : top = [] := ofLocation_injective (Disk.isPlain_of_node? held) plain
    (inOrder.root.symm.trans root)
  subst same
  -- A part of the files has distinct accesses if all of them have.
  obtain ⟨erased, -⟩ := hasErased_swept (List.forall_mem_singleton.mpr ⟨_, _, older⟩)
    (List.nodup_singleton olderEntry.location) (.refl _)
  rw [List.map_singleton, ← queue] at erased
  refine ⟨store, _, settles, by simp [queue], rebuild_is_idempotent .orderly .orderly (tenBytes [])
    (tenBytes []) (laidOut [] twoItems) _ store _ settles short (by rw [entries]; decide +kernel)
    (fun other same held => ?_) (fault?_tenBytes []) (by decide) rfl ?_⟩
  · obtain rfl : other = [] := ofLocation_injective (Disk.isPlain_of_node? held) plain
      (same.symm.trans root)
    exact distinct.mono fun found => (erased.node?_eq_some_iff.mp found).1
  · rw [root]
    exact Disk.canonical_ofLocation held (short_root inOrder.short)

/-- Whoever opens a cache again with the same settings changes the disk if the path to the cache has
led through a former directory.  And no one can open it again with more removals at once than a
sweeper can be made for. -/
theorem rebuild_can_differ : ∃ store settled,
    Settles .orderly (tenBytes linkLocation) (furnished [] linkedBack) store store.sweeper.queue
        settled ∧
      (∀ path ∈ store.sweeper.queue, path.bytes.length ≤ longestPath) ∧
      Index.weight store.index.entries < UInt64.size ∧ store.TellsApart settled ∧
      (∀ host, ∃ opening, launch host (tenBytes linkLocation) settled = .finished opening ∧
        opening.disk ≠ settled) ∧
      manyRemovals.fault? = none ∧ manyRemovals.maxSize = (tenBytes linkLocation).maxSize ∧
      settled.canonical manyRemovals.baseDirectory = .ok store.root ∧
      ∀ host, ∃ message, launch host manyRemovals settled = .panicked message := by
  obtain ⟨store, opened, root, empty, queue, -, gone, noFiles⟩ := exists_start_linkedBack
  have settles := settles_of_opened opened queue
  generalize (start .orderly (tenBytes linkLocation) (furnished [] linkedBack)).disk = settled
    at settles gone noFiles
  refine ⟨store, settled, settles, by simp [queue], by rw [empty]; decide +kernel, ?_,
    fun host => ?_, by decide +kernel, rfl, ?_, fun host => panicked_manyRemovals host settled⟩
  · intro top _ _ names names' size size' accessed found
    exact absurd found (noFiles _ _ _)
  · obtain ⟨reopened, -, -, changed⟩ := exists_start_linkLocation host gone
    exact ⟨_, (launch_eq_finished_iff (fault?_tenBytes _)).mpr ⟨by decide, rfl⟩, changed⟩
  · rw [root]
    exact Disk.canonical_ofLocation settled.node?_nil (by decide)

end ArtifactCache.Store
