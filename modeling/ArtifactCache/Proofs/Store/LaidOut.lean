import ArtifactCache.Proofs.Store.Opening

/-! # Caches that are laid out already

A disk on which the files of given entries lie where they belong, and nothing else.  It is
put together from the operations of the disk, and what it holds follows from what they do.
-/

namespace ArtifactCache

open DiskPath

/-! ## Files in directories -/

namespace Disk

variable {disk : Disk} {directory : Location} {name : Name}

/-- The disk with a node in a directory, where there is a directory and room for it. -/
def addNode (disk : Disk) (directory : Location) (name : Name) (node : Node) : Disk :=
  if held : disk.node? directory = some .directory then
    match slotIn ⟨directory, held⟩ name with
    | .ok slot => (disk.putNew slot node).toOption.getD disk
    | .error _ => disk
  else disk

theorem node?_addNode (held : disk.node? directory = some .directory) (plain : IsPlain name)
    (missing : disk.node? (directory ++ [name]) = none) (node : Node) (other : Location) :
    (disk.addNode directory name node).node? other =
      if other = directory ++ [name] then some node else disk.node? other := by
  have fits : disk.Fits (directory ++ [name]) :=
    ⟨directory, name, rfl, isPlainName_iff.mpr plain, held⟩
  have slotted : slotIn ⟨directory, held⟩ name = .ok ⟨directory ++ [name], fits⟩ :=
    dif_pos (isPlainName_iff.mpr plain)
  rw [addNode, dif_pos held, slotted]
  dsimp only
  rw [putNew_of_missing ⟨directory ++ [name], fits⟩ node missing]
  exact node?_put disk _ node fits (by simp [missing]) other

theorem node?_addNode_makeDirectories (plainWay : ∀ name ∈ directory, IsPlain name)
    (clear : disk.Clear directory) (short : (ofLocation directory).bytes.length ≤ longestPath)
    (plain : IsPlain name) (missing : disk.node? (directory ++ [name]) = none) (node : Node)
    (other : Location) :
    ((disk.makeDirectories (ofLocation directory)).2.addNode directory name node).node? other =
      if other = directory ++ [name] then some node
      else if other <+: directory then some .directory
      else disk.node? other := by
  obtain ⟨made, done, hasMade⟩ := makeDirectories_ofLocation plainWay clear short
  have held : made.node? directory = some .directory := by
    rw [hasMade, if_pos List.prefix_rfl]
  have below : ¬ directory ++ [name] <+: directory := by
    intro beginning
    have length := beginning.length_le
    rw [List.length_append, List.length_singleton] at length
    omega
  have stillMissing : made.node? (directory ++ [name]) = none := by
    rw [hasMade, if_neg below, missing]
  rw [done, node?_addNode held plain stillMissing, hasMade]

end Disk

/-! ## The layout of given entries -/

/-- The location of the shard of an entry, below the root of the cache. -/
def Entry.shardLocation (entry : Entry) : Location :=
  [entry.1.kind.directoryName, nameOf entry.1.digest.shard]

theorem Entry.location_eq (entry : Entry) :
    entry.location = entry.shardLocation ++ [nameOf entry.fileName] := rfl

/-- A disk with a root, below which lie the files of entries with their last accesses. -/
def laidOut (top : Location) : List (Entry × Instant) → Disk
  | [] => (Disk.empty.makeDirectories (ofLocation top)).2
  | (entry, accessed) :: rest =>
    let shard := top ++ entry.shardLocation
    ((laidOut top rest).makeDirectories (ofLocation shard)).2.addNode shard
      (nameOf entry.fileName) (.file entry.2.diskSize accessed)

/-- Whether entries can be laid out below a root. -/
structure CanBeLaidOut (top : Location) (items : List (Entry × Instant)) : Prop where
  root : ∀ name ∈ top, IsPlain name
  short : ∀ location ∈ shardLocations top, (ofLocation location).bytes.length ≤ longestPath
  plain : ∀ item ∈ items, IsPlain (nameOf item.1.fileName)
  distinct : (items.map fun item => item.1.location).Nodup

section LaidOut

variable {top : Location} {items : List (Entry × Instant)}

theorem CanBeLaidOut.tail {item : Entry × Instant} (fits : CanBeLaidOut top (item :: items)) :
    CanBeLaidOut top items where
  root := fits.root
  short := fits.short
  plain := (List.forall_mem_cons.mp fits.plain).2
  distinct := (List.nodup_cons.mp fits.distinct).2

theorem short_of_room (room : (ofLocation top).bytes.length + 10 ≤ longestPath)
    {location : Location} (member : location ∈ shardLocations top) :
    (ofLocation location).bytes.length ≤ longestPath := by
  have shards : ∀ shard ∈ Shard.names, (nameOf shard).length = 2 := by decide +kernel
  have kinds : ∀ kind : Kind, kind.directoryName.length ≤ 6 := by
    intro kind
    cases kind <;> decide +kernel
  obtain ⟨kind, shard, isShard, rfl⟩ := mem_shardLocations.mp member
  have outer := length_child_le_add (ofLocation top) kind.isPlain_directoryName.single
  have inner := length_child_le_add ((ofLocation top).child kind.directoryName)
    (Shard.isPlain_nameOf isShard).single
  have two := shards shard isShard
  have six := kinds kind
  rw [List.append_cons, ofLocation_append, ofLocation_append]
  omega

theorem shardLocation_mem (top : Location) (entry : Entry) :
    top ++ entry.shardLocation ∈ shardLocations top :=
  mem_shardLocations.mpr ⟨_, _, Shard.shard_mem_names entry.1.digest, rfl⟩

theorem not_prefix_top {names : Location} (below : names ≠ []) : ¬ top ++ names <+: top := by
  intro beginning
  have length := beginning.length_le
  have positive := List.length_pos_iff.mpr below
  rw [List.length_append] at length
  omega

theorem not_prefix_shardLocation (entry other : Entry) :
    ¬ top ++ entry.location <+: top ++ other.shardLocation := by
  intro beginning
  have length := beginning.length_le
  simp [Entry.location, Entry.shardLocation] at length

/-- What a laid out disk holds: the directories on the way to the root and to the shards of
the entries, and the files of the entries. -/
theorem node?_laidOut (fits : CanBeLaidOut top items) {other : Location} {node : Node} :
    (laidOut top items).node? other = some node ↔
      node = .directory ∧
          (other <+: top ∨ ∃ item ∈ items, other <+: top ++ item.1.shardLocation) ∨
        ∃ item ∈ items, other = top ++ item.1.location ∧
          node = .file item.1.2.diskSize item.2 := by
  induction items generalizing other node with
  | nil =>
    have clear : Disk.empty.Clear top := by
      intro above _
      rw [Disk.node?_empty]
      split
      · exact .inr rfl
      · exact .inl rfl
    obtain ⟨made, done, hasMade⟩ :=
      Disk.makeDirectories_ofLocation fits.root clear (short_root fits.short)
    rw [laidOut, done, hasMade other, Disk.node?_empty]
    by_cases beginning : other <+: top
    · simp [beginning, eq_comm]
    · have below : other ≠ [] := by
        rintro rfl
        exact beginning List.nil_prefix
      simp [beginning, below]
  | cons item rest ih =>
    obtain ⟨entry, accessed⟩ := item
    have ih := @ih fits.tail
    have plain := fits.plain (entry, accessed) List.mem_cons_self
    have isShard := shardLocation_mem top entry
    have fresh : ∀ item ∈ rest, top ++ entry.location ≠ top ++ item.1.location := by
      intro item member same
      exact (List.nodup_cons.mp fits.distinct).1
        (List.mem_map.mpr ⟨item, member, (List.append_cancel_left same).symm⟩)
    -- Above a shard there are no files.
    have clear : (laidOut top rest).Clear (top ++ entry.shardLocation) := by
      intro above beginning
      cases found : (laidOut top rest).node? above with
      | none => exact .inl rfl
      | some node =>
        rcases ih.mp found with ⟨rfl, -⟩ | ⟨item, -, rfl, -⟩
        · exact .inr rfl
        · exact absurd beginning (not_prefix_shardLocation _ _)
    have missing : (laidOut top rest).node? (top ++ entry.location) = none := by
      cases found : (laidOut top rest).node? (top ++ entry.location) with
      | none => rfl
      | some node =>
        rcases ih.mp found with ⟨-, beginning | ⟨item, -, beginning⟩⟩ | ⟨item, member, same, -⟩
        · exact absurd beginning (not_prefix_top entry.location_ne_nil)
        · exact absurd beginning (not_prefix_shardLocation _ _)
        · exact absurd same (fresh item member)
    rw [Entry.location_eq, ← List.append_assoc] at missing
    rw [laidOut, Disk.node?_addNode_makeDirectories
      (isPlain_of_mem_shardLocations fits.root isShard) clear (fits.short _ isShard) plain missing,
      List.append_assoc, ← Entry.location_eq]
    simp only [List.exists_mem_cons_iff]
    by_cases own : other = top ++ entry.location
    · subst own
      rw [if_pos rfl, Option.some.injEq]
      constructor
      · rintro rfl
        exact .inr (.inl ⟨rfl, rfl⟩)
      · rintro (⟨-, beginning | beginning | ⟨item, -, beginning⟩⟩ | ⟨-, rfl⟩ |
          ⟨item, member, same, -⟩)
        · exact absurd beginning (not_prefix_top entry.location_ne_nil)
        · exact absurd beginning (not_prefix_shardLocation _ _)
        · exact absurd beginning (not_prefix_shardLocation _ _)
        · rfl
        · exact absurd same (fresh item member)
    · rw [if_neg own]
      by_cases beginning : other <+: top ++ entry.shardLocation
      · rw [if_pos beginning, Option.some.injEq]
        constructor
        · rintro rfl
          exact .inl ⟨rfl, .inr (.inl beginning)⟩
        · rintro (⟨rfl, -⟩ | ⟨same, -⟩ | ⟨item, -, rfl, -⟩)
          · rfl
          · exact absurd same own
          · exact absurd beginning (not_prefix_shardLocation _ _)
      · rw [if_neg beginning, ih]
        simp only [beginning, own, false_or, false_and]

theorem directory_of_laidOut (fits : CanBeLaidOut top items) {other : Location} {node : Node}
    (found : (laidOut top items).node? other = some node) (few : other.length < top.length + 3) :
    node = .directory ∧
      (other <+: top ∨ ∃ item ∈ items, other <+: top ++ item.1.shardLocation) := by
  rcases (node?_laidOut fits).mp found with above | ⟨item, -, rfl, -⟩
  · exact above
  · simp [Entry.location] at few

theorem isReady_laidOut (fits : CanBeLaidOut top items) :
    Store.IsReady (laidOut top items) top where
  plain := fits.root
  short := fits.short
  clear location member above beginning := by
    cases found : (laidOut top items).node? above with
    | none => exact .inl rfl
    | some node =>
      refine .inr (congrArg some (directory_of_laidOut fits found ?_).1)
      obtain ⟨kind, shard, -, rfl⟩ := mem_shardLocations.mp member
      have length := beginning.length_le
      simp only [List.length_append, List.length_cons, List.length_nil] at length
      omega
  layout := by
    refine ⟨fun {name node} found => ?_, fun {kindName name node} found => ?_,
      fun {kindName shardName name node} found => ?_⟩
    · obtain ⟨directory, beginning | ⟨item, -, beginning⟩⟩ :=
        directory_of_laidOut fits found (by simp)
      · exact absurd beginning (not_prefix_top (List.cons_ne_nil _ _))
      · rw [List.prefix_append_right_inj, Entry.shardLocation, List.cons_prefix_cons] at beginning
        exact ⟨directory, _, beginning.1.symm⟩
    · obtain ⟨directory, beginning | ⟨item, -, beginning⟩⟩ :=
        directory_of_laidOut fits found (by simp)
      · exact absurd beginning (not_prefix_top (List.cons_ne_nil _ _))
      · rw [List.prefix_append_right_inj, Entry.shardLocation, List.cons_prefix_cons,
          List.cons_prefix_cons] at beginning
        exact ⟨directory, Shard.isNodeName_iff.mpr
          ⟨_, Shard.shard_mem_names item.1.1.digest, beginning.2.1.symm⟩⟩
    · rcases (node?_laidOut fits).mp found with
        ⟨-, beginning | ⟨item, -, beginning⟩⟩ | ⟨item, -, -, rfl⟩
      · exact absurd beginning (not_prefix_top (List.cons_ne_nil _ _))
      · have length := beginning.length_le
        simp [Entry.shardLocation] at length
      · rfl

/-! ## Opening a cache that is laid out -/

/-- The file of an entry as an inventory finds it. -/
def foundOf (item : Entry × Instant) : FoundFile :=
  { path := item.1.place, size := item.1.2.diskSize, accessed := item.2 }

/-- The file of an entry as a replay reads it. -/
def readingOf (item : Entry × Instant) : Replay.Decoded :=
  { path := item.1.place, key := item.1.1, file := item.1.2 }

theorem path_readingOf (item : Entry × Instant) :
    (readingOf item).path = ofNames item.1.location :=
  item.1.place_eq_ofNames

theorem entry_readingOf (item : Entry × Instant) : (readingOf item).entry = item.1 := rfl

theorem isPlain_location (fits : CanBeLaidOut top items) {item : Entry × Instant}
    (member : item ∈ items) : ∀ name ∈ item.1.location, IsPlain name :=
  Entry.isPlain_location (fits.plain item member)

theorem perm_filesBelow (fits : CanBeLaidOut top items) {disk : Disk}
    (same : ∀ kindName shardName name, disk.node? (top ++ [kindName, shardName, name]) =
      (laidOut top items).node? (top ++ [kindName, shardName, name])) :
    (Inventory.filesBelow disk top).Perm (items.map foundOf) := by
  refine (List.perm_ext_iff_of_nodup (Inventory.nodup_filesBelow disk top).of_map ?_).mpr ?_
  · have parts : (items.map foundOf).map (fun found => segments found.path.bytes) =
        items.map fun item => item.1.location := by
      rw [List.map_map]
      apply List.map_congr_left
      intro item member
      rw [Function.comp_apply, foundOf, Entry.place_eq_ofNames]
      exact segments_ofNames (isPlain_location fits member) item.1.location_ne_nil
    exact List.Nodup.of_map _ (parts ▸ fits.distinct)
  · intro found
    rw [Inventory.mem_filesBelow, List.mem_map]
    constructor
    · rintro ⟨kindName, shardName, name, held, path⟩
      rw [same, node?_laidOut fits] at held
      rcases held with ⟨impossible, -⟩ | ⟨item, member, location, file⟩
      · cases impossible
      · refine ⟨item, member, ?_⟩
        obtain ⟨foundPath, size, accessed⟩ := found
        obtain ⟨rfl, rfl⟩ := Node.file.inj file
        rw [List.append_cancel_left location] at path
        cases path
        rfl
    · rintro ⟨item, member, rfl⟩
      refine ⟨item.1.1.kind.directoryName, nameOf item.1.1.digest.shard, nameOf item.1.fileName,
        ?_, item.1.place_eq_ofNames⟩
      rw [same, node?_laidOut fits]
      exact .inr ⟨item, member, rfl, rfl⟩

theorem node?_location (fits : CanBeLaidOut top items) {disk : Disk}
    (same : ∀ kindName shardName name, disk.node? (top ++ [kindName, shardName, name]) =
      (laidOut top items).node? (top ++ [kindName, shardName, name]))
    {item : Entry × Instant} (member : item ∈ items) :
    disk.node? (top ++ item.1.location) = some (.file item.1.2.diskSize item.2) := by
  rw [Entry.location, same, node?_laidOut fits]
  exact .inr ⟨item, member, rfl, rfl⟩

theorem decode_foundOf {item : Entry × Instant}
    (readable : readPlace item.1.place item.1.2.diskSize = .ok item.1) :
    Replay.decode (foundOf item) = .ok (readingOf item) := by
  rw [Replay.decode, foundOf, readable]
  rfl

/-- A replay of entries that are laid out, and read as such, in the order of their accesses
comes to its end if the files that it discards have paths that are not too long. -/
theorem exists_replay_laidOut (fits : CanBeLaidOut top items)
    (readable : ∀ item ∈ items, readPlace item.1.place item.1.2.diskSize = .ok item.1)
    (increasing : items.Pairwise fun first second => first.2 < second.2) {budget : UInt64}
    (removable : ∀ reading ∈ Replay.discarded budget (items.map readingOf),
      (ofLocation (top ++ reading.entry.location)).bytes.length ≤ longestPath)
    {disk : Disk} {files : List FoundFile}
    (same : ∀ kindName shardName name, disk.node? (top ++ [kindName, shardName, name]) =
      (laidOut top items).node? (top ++ [kindName, shardName, name]))
    (listed : files.Perm (Inventory.filesBelow disk top)) :
    ∃ (account : ReplaySummary) (last : Replay.Progress),
      replay (ofLocation top) files (.empty budget) disk =
        { outcome := .ok account, index := last.index, disk := last.disk
          released := last.released } ∧
      Replay.discardAll (ofLocation top) (Replay.discarded budget (items.map readingOf)) disk =
        .ok last.disk ∧
      last.HasAccepted budget
        ((Replay.accepted budget (items.map readingOf)).map Replay.Decoded.entry) := by
  have isSorted : Replay.IsStablySorted files (items.map foundOf) :=
    Replay.isStablySorted_of_perm (listed.trans (perm_filesBelow fits same))
      (List.pairwise_map.mpr increasing)
  have decodes : List.Forall₂ (fun file reading => Replay.decode file = .ok reading)
      (items.map foundOf) (items.map readingOf) := by
    rw [List.forall₂_map_left_iff, List.forall₂_map_right_iff, List.forall₂_same]
    exact fun item member => decode_foundOf (readable item member)
  have canRemove : ∀ reading ∈ Replay.discarded budget (items.map readingOf),
      disk.Removable ((ofLocation top).join reading.path) := by
    intro reading member
    have among : reading ∈ items.map readingOf :=
      (Replay.perm_accepted_discarded budget _).mem_iff.mp (List.mem_append_right _ member)
    obtain ⟨item, isItem, rfl⟩ := List.mem_map.mp among
    have found := node?_location fits same isItem
    have short := removable _ member
    rw [entry_readingOf] at short
    rw [path_readingOf, join_ofNames top (isPlain_location fits isItem) item.1.location_ne_nil,
      Disk.Removable, Disk.removeFile_ofLocation found (by simp), if_neg (Nat.not_lt.mpr short)]
    trivial
  obtain ⟨cleared, removals⟩ := Replay.exists_discardAll canRemove
  have run := Replay.handleAll_eq (ofLocation top) (items.map readingOf) (by simp)
    (Replay.hasAccepted_start budget disk)
  rw [Replay.Progress.disk_start, removals] at run
  obtain ⟨last, handled, rfl, accepts⟩ := run
  refine ⟨Replay.summary files.length last, last, ?_, removals, accepts⟩
  rw [Replay.replay_eq (ofLocation top) budget disk isSorted decodes, handled]
  rfl

theorem exists_start_laidOut (host : Host) {settings : Settings} (usable : settings.fault? = none)
    (base : settings.baseDirectory = ofLocation top) (fits : CanBeLaidOut top items)
    (readable : ∀ item ∈ items, readPlace item.1.place item.1.2.diskSize = .ok item.1)
    (increasing : items.Pairwise fun first second => first.2 < second.2)
    (removable : ∀ reading ∈ Replay.discarded settings.maxSize (items.map readingOf),
      (ofLocation (top ++ reading.entry.location)).bytes.length ≤ longestPath) :
    ∃ (account : ReplaySummary) (last : Replay.Progress) (notices : List Notice) (disk : Disk),
      Store.start host settings (laidOut top items) =
        { outcome := .ok
            { root := ofLocation top, index := last.index, replayed := account
              sweeper := Store.queueReleased (ofLocation top) (.create settings.maxRemovals)
                last.released }
          disk := last.disk
          notices
          released := last.released
          orphaned := .create settings.maxRemovals } ∧
      (∀ item ∈ items, disk.node? (top ++ item.1.location) =
        some (.file item.1.2.diskSize item.2)) ∧
      Replay.discardAll (ofLocation top)
        (Replay.discarded settings.maxSize (items.map readingOf)) disk = .ok last.disk ∧
      last.HasAccepted settings.maxSize
        ((Replay.accepted settings.maxSize (items.map readingOf)).map Replay.Decoded.entry) := by
  obtain ⟨ready, scene, files, passes, listed, same⟩ :=
    Store.exists_passes_of_isReady host usable base (isReady_laidOut fits)
  obtain ⟨account, last, replayed, removals, accepts⟩ :=
    exists_replay_laidOut fits readable increasing removable same listed
  exact ⟨account, last, scene.notices, scene.disk, passes.start_eq replayed,
    fun item member => node?_location fits same member, removals, accepts⟩

end LaidOut

/-! ## Two entries, one of which is kept -/

namespace Store

/-- An entry of four bytes. -/
def olderEntry : Entry :=
  (Replay.sample 'a' rfl "1" 4).entry

/-- An entry of eight bytes. -/
def newerEntry : Entry :=
  (Replay.sample 'b' rfl "1" 8).entry

def twoItems : List (Entry × Instant) :=
  [(olderEntry, 1), (newerEntry, 2)]

/-- Settings with a budget of ten bytes. -/
def tenBytes (top : Location) : Settings :=
  { baseDirectory := ofLocation top
    maxSize := 10
    maxRemovals := 1
    upgradeWorkers := none
    inventoryWorkers := none }

theorem fault?_tenBytes (top : Location) : (tenBytes top).fault? = none := by
  rw [Settings.fault?, tenBytes, if_neg (bytes_ofLocation_ne_nil top)]
  rfl

theorem canBeLaidOut_twoItems {top : Location} (plain : ∀ name ∈ top, IsPlain name)
    (room : (ofLocation top).bytes.length + 10 ≤ longestPath) : CanBeLaidOut top twoItems := by
  have names : ∀ item ∈ twoItems, isPlainName (nameOf item.1.fileName) = true := by
    decide +kernel
  exact
    { root := plain
      short := fun location => short_of_room room
      plain := fun item member => isPlainName_iff.mp (names item member)
      distinct := by decide +kernel }

/-- Of two entries of twelve bytes a budget of ten keeps the one that was accessed last. -/
theorem keeps_newerEntry {progress : Replay.Progress}
    (accepts : progress.HasAccepted 10 [olderEntry, newerEntry]) :
    progress.index.entries = [newerEntry] ∧ progress.released = [olderEntry] := by
  obtain ⟨rest, released, others⟩ := accepts.exists_released (by decide +kernel)
  have longest := accepts.longest (by decide +kernel)
  have one := longest.longest [newerEntry] (by decide +kernel) (by decide +kernel)
  rcases List.append_eq_singleton_iff.mp others with ⟨rfl, entries⟩ | ⟨-, entries⟩
  · exact ⟨entries, released⟩
  · rw [entries] at one
    simp at one

/-- A cache of both entries is opened wherever there is room for the paths of the shards, and
its replay has discarded neither of them. -/
theorem exists_start_twoItems {top : Location} (plain : ∀ name ∈ top, IsPlain name)
    (room : (ofLocation top).bytes.length + 10 ≤ longestPath) :
    ∃ (account : ReplaySummary) (last : Replay.Progress) (notices : List Notice),
      start .orderly (tenBytes top) (laidOut top twoItems) =
        { outcome := .ok
            { root := ofLocation top, index := last.index, replayed := account
              sweeper := queueReleased (ofLocation top) (.create 1) last.released }
          disk := last.disk
          notices
          released := last.released
          orphaned := .create 1 } ∧
      (∀ entry ∈ [olderEntry, newerEntry], ∃ accessed, last.disk.node? (top ++ entry.location) =
        some (.file entry.2.diskSize accessed)) ∧
      last.HasAccepted 10 [olderEntry, newerEntry] := by
  have accepts : (Replay.accepted 10 (twoItems.map readingOf)).map Replay.Decoded.entry =
      [olderEntry, newerEntry] := by decide +kernel
  have nothing : Replay.discarded 10 (twoItems.map readingOf) = [] := by decide +kernel
  obtain ⟨account, last, notices, disk, started, held, removals, accepted⟩ :=
    exists_start_laidOut .orderly (fault?_tenBytes top) rfl (canBeLaidOut_twoItems plain room)
      (by decide +kernel)
      (by decide +kernel) (by
        intro reading member
        rw [tenBytes, nothing] at member
        cases member)
  rw [tenBytes, nothing] at removals
  obtain rfl := Except.ok.inj removals
  rw [tenBytes, accepts] at accepted
  refine ⟨account, last, notices, started, fun entry member => ?_, accepted⟩
  have among : entry ∈ twoItems.map Prod.fst := member
  obtain ⟨item, isItem, rfl⟩ := List.mem_map.mp among
  exact ⟨item.2, held item isItem⟩

end Store

end ArtifactCache
