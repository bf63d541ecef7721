import ArtifactCache.Proofs.Store.Upkeep

/-! # Files whose removal waits

A removal is queued by path, and nothing ties the queue to the index.  When a file has been
displaced, and it is written and registered again under the same name before its removal has been
carried out, the index has an entry whose file is about to go.

There is no other way for an entry to lose its file.  As long as no path is registered while its
removal waits, every entry keeps its file at any moment, in whatever order files are written,
registered and removed.
-/

namespace ArtifactCache

open DiskPath

namespace Store

/-! ## Filling a cache -/

/-- Whether the path of an entry is the one of a file. -/
def HasFile (store : Store) (disk : Disk) (entry : Entry) : Prop :=
  ∃ location size accessed, store.pathFor entry.1 entry.2 = ofLocation location ∧
    disk.node? location = some (.file size accessed)

/-- Whether the file of an entry is there and no removal waits for its path. -/
structure IsSecure (store : Store) (disk : Disk) (entry : Entry) : Prop where
  waits : store.pathFor entry.1 entry.2 ∉ store.sweeper.queue
  hasFile : store.HasFile disk entry

/-- Whether all entries of the index are secure. -/
def KeepsFiles (store : Store) (disk : Disk) : Prop :=
  ∀ entry ∈ store.index.entries, store.IsSecure disk entry

/-- Whether a cache and its disk can come to a state by writing and registering files, all of which
are admitted, while queued removals are carried out at any moment and in any order.  Each file meets
a condition when it is registered. -/
inductive Filled (host : Host) (settings : Settings) (disk : Disk)
    (condition : Store → Disk → Entry → Prop) : Store × Disk → Prop
  | opened {store} (opened : (start host settings disk).outcome = .ok store) :
    Filled host settings disk condition (store, (start host settings disk).disk)
  | written {store now key file accessed changed}
      (filled : Filled host settings disk condition (store, now))
      (valid : isToken file.token = true)
      (done : now.write (store.pathFor key file) file.diskSize accessed = .ok changed) :
    Filled host settings disk condition (store, changed)
  | registered {store now key file} (filled : Filled host settings disk condition (store, now))
      (valid : isToken file.token = true) (admitted : (store.insert key file).1 = .ok true)
      (meets : condition store now (key, file)) :
    Filled host settings disk condition ((store.insert key file).2, now)
  | swept {store now path} (filled : Filled host settings disk condition (store, now))
      (queued : path ∈ store.sweeper.queue) :
    Filled host settings disk condition
      ({ store with sweeper := store.sweeper.complete path }, (Sweeper.attempt now path).1)

end Store

variable {host : Host} {settings : Settings} {disk now changed : Disk} {top location : Location}
  {node : Node} {store : Store} {key : Key} {file : StoredFile} {path : DiskPath}
  {order : List DiskPath} {condition condition' : Store → Disk → Entry → Prop}

/-! ## Removals at the places of entries -/

theorem Index.mem_of_mem_released {index : Index} (sound : index.Sound) {entry : Entry}
    (released : entry ∈ (index.insert key file).released) : entry ∈ index.entries := by
  by_cases small : file.diskSize ≤ index.budget
  · obtain ⟨gone, between, others, whole, -⟩ := exists_split_insert sound small
    rw [whole, List.mem_append] at released
    rcases released with fromReplaced | fromGone
    · exact ((mem_replaced_iff sound.distinct).mp fromReplaced).1
    · have among : entry ∈ without index.entries key := others ▸ List.mem_append_left _ fromGone
      exact (mem_without.mp among).1
  · rw [insert_of_lt (UInt64.not_le.mp small)] at released
    cases released

namespace Disk.HasCache

open Store

variable (cache : disk.HasCache top)

include cache

theorem eq_of_pathUnder (single : slash ∉ nameOf (file.fileName key))
    (found : disk.node? location = some node)
    (same : pathUnder (ofLocation top) key file = ofLocation location) :
    location = top ++ Entry.location (key, file) := by
  have steps := congrArg DiskPath.steps same
  rw [steps_pathUnder cache.held single, steps_ofLocation (Disk.isPlain_of_node? found),
    ← append_location] at steps
  exact (List.map_injective_iff.mpr (fun _ _ => Step.into.inj) steps).symm

theorem hasFile_iff (root : store.root = ofLocation top)
    (single : slash ∉ nameOf (file.fileName key)) :
    store.HasFile disk (key, file) ↔ ∃ size accessed,
      disk.node? (top ++ Entry.location (key, file)) = some (.file size accessed) := by
  rw [HasFile, pathFor, root]
  constructor
  · rintro ⟨location, size, accessed, same, found⟩
    exact ⟨size, accessed, cache.eq_of_pathUnder single found same ▸ found⟩
  · rintro ⟨size, accessed, found⟩
    exact ⟨_, size, accessed, @pathUnder_ofLocation top (key, file) (Disk.isPlain_below found),
      found⟩

theorem node?_attempt (single : slash ∉ nameOf (file.fileName key))
    (elsewhere : location ≠ top ++ Entry.location (key, file)) :
    (Sweeper.attempt disk (pathUnder (ofLocation top) key file)).1.node? location =
      disk.node? location := by
  rcases Sweeper.attempt_cases disk (pathUnder (ofLocation top) key file) with
    same | ⟨place, plain, slot, erased⟩
  · rw [same]
  · have noLinks := noLinks_of_isLayout cache.held cache.layout (key, file)
    rw [append_location] at noLinks elsewhere
    obtain rfl := Disk.slotOf_noLinks (steps_pathUnder cache.held single) noLinks.above slot
    rw [erased, Disk.node?_erase, if_neg elsewhere]

/-- When a removal has been tried, nothing lies at the place of its entry, unless the system does
not take the path. -/
theorem node?_attempt_self
    (short : (pathUnder (ofLocation top) key file).bytes.length ≤ longestPath) :
    (Sweeper.attempt disk (pathUnder (ofLocation top) key file)).1.node?
      (top ++ Entry.location (key, file)) = none := by
  cases found : disk.node? (top ++ Entry.location (key, file)) with
  | none =>
    rcases Sweeper.loses_attempt disk (pathUnder (ofLocation top) key file)
      (top ++ Entry.location (key, file)) with same | ⟨missing, -⟩
    · exact same.trans found
    · exact missing
  | some node =>
    have isFile : node ≠ .directory := by
      rintro rfl
      cases cache.layout.files found
    have path := @pathUnder_ofLocation top (key, file) (Disk.isPlain_below found)
    rw [path] at short ⊢
    have removed := Disk.removeFile_ofLocation found isFile
    rw [if_neg (Nat.not_lt.mpr short)] at removed
    rw [Sweeper.attempt, removed]
    dsimp only
    rw [Disk.node?_erase, if_pos rfl]

theorem node?_attemptAll
    (short : (pathUnder (ofLocation top) key file).bytes.length ≤ longestPath)
    (member : pathUnder (ofLocation top) key file ∈ order) :
    (Sweeper.attemptAll order disk).1.node? (top ++ Entry.location (key, file)) = none := by
  induction order generalizing disk with
  | nil => cases member
  | cons first rest ih =>
    rw [Sweeper.attemptAll]
    rcases List.mem_cons.mp member with rfl | later
    · have gone := cache.node?_attempt_self short
      rcases Sweeper.loses_attemptAll rest
        (Sweeper.attempt disk (pathUnder (ofLocation top) key file)).1
        (top ++ Entry.location (key, file)) with same | ⟨missing, -⟩
      · exact same.trans gone
      · exact missing
    · exact ih (cache.loses (Sweeper.loses_attempt disk first)) later

/-- A removal that waits for a path takes the file away, whichever one lies there by then. -/
theorem not_hasFile (root : store.root = ofLocation top)
    (single : slash ∉ nameOf (file.fileName key))
    (short : (store.pathFor key file).bytes.length ≤ longestPath)
    (waits : store.pathFor key file ∈ order) :
    ¬ store.HasFile (Sweeper.attemptAll order disk).1 (key, file) := by
  rw [pathFor, root] at short waits
  rw [(cache.loses (Sweeper.loses_attemptAll order disk)).hasFile_iff root single,
    cache.node?_attemptAll short waits]
  rintro ⟨size, accessed, found⟩
  cases found

end Disk.HasCache

namespace Store

/-! ## Admitted registrations -/

theorem positive_of_insert {admitted : Bool} (inserted : (store.insert key file).1 = .ok admitted) :
    ¬ file.NamesZero key := by
  intro zero
  rw [insert_of_namesZero store zero] at inserted
  cases inserted

theorem admitted_of_insert {admitted : Bool} (inserted : (store.insert key file).1 = .ok admitted) :
    (store.index.insert key file).admitted = admitted := by
  rw [insert_of_positive store (positive_of_insert inserted)] at inserted
  exact Except.ok.inj inserted

theorem abandoned_of_insert (inserted : (store.insert key file).1 = .ok true) :
    store.index.abandoned key file = (store.index.insert key file).released := by
  rw [Index.abandoned, if_pos (admitted_of_insert inserted), List.append_nil]

theorem mem_entries_insert (sound : store.index.Sound)
    (inserted : (store.insert key file).1 = .ok true) :
    (key, file) ∈ (store.insert key file).2.index.entries := by
  have small := Index.admitted_insert.mp (admitted_of_insert inserted)
  obtain ⟨gone, between, -, -, entries⟩ := Index.exists_split_insert sound small
  rw [index_insert store (positive_of_insert inserted), entries]
  exact List.mem_append_right _ (List.mem_singleton_self _)

/-- An admitted registration endangers no entry that stays in the index: what it releases lies
elsewhere. -/
theorem isSecure_insert_iff (sound : store.index.Sound)
    (inserted : (store.insert key file).1 = .ok true) {entry : Entry}
    (live : entry ∈ (store.insert key file).2.index.entries) :
    (store.insert key file).2.IsSecure disk entry ↔ store.IsSecure disk entry := by
  have positive := positive_of_insert inserted
  have path : (store.insert key file).2.pathFor entry.1 entry.2 =
      store.pathFor entry.1 entry.2 := by
    rw [pathFor, root_insert, pathFor]
  have free : store.pathFor entry.1 entry.2 ∉
      (store.index.abandoned key file).map fun other => store.pathFor other.1 other.2 := by
    intro abandoned
    rw [index_insert store positive] at live
    have refused := (Index.mem_abandoned_iff sound live).mp (mem_map_pathUnder_iff.mp abandoned)
    rw [admitted_of_insert inserted] at refused
    cases refused.1
  have waits : store.pathFor entry.1 entry.2 ∈ (store.insert key file).2.sweeper.queue ↔
      store.pathFor entry.1 entry.2 ∈ store.sweeper.queue := by
    rw [queue_insert positive, List.mem_append, or_iff_left free]
  have hasFile : (store.insert key file).2.HasFile disk entry ↔ store.HasFile disk entry := by
    rw [HasFile, HasFile, path]
  constructor
  · intro secure
    exact ⟨fun queued => secure.waits (path ▸ waits.mpr queued), hasFile.mp secure.hasFile⟩
  · intro secure
    exact ⟨fun queued => secure.waits (waits.mp (path ▸ queued)), hasFile.mpr secure.hasFile⟩

/-! ## The invariant -/

/-- What remains true while a cache is filled, if only secure files are registered. -/
structure IsKept (top : Location) (store : Store) (disk : Disk) : Prop where
  root : store.root = ofLocation top
  cache : disk.HasCache top
  sound : store.index.Sound
  single : ∀ entry ∈ store.index.entries, slash ∉ nameOf entry.fileName
  /-- Only paths of entries are queued. -/
  queued : ∀ path ∈ store.sweeper.queue, ∃ entry : Entry, slash ∉ nameOf entry.fileName ∧
    path = pathUnder (ofLocation top) entry.1 entry.2
  keeps : store.KeepsFiles disk

theorem exists_isKept_of_start (opened : (start host settings disk).outcome = .ok store) :
    ∃ top, store.IsKept top (start host settings disk).disk := by
  obtain ⟨top, released, root, queue, -, left, cache, -⟩ := exists_isReplayed_of_start opened
  have found : ∀ entry ∈ store.index.entries ++ released, ∃ accessed,
      (start host settings disk).disk.node? (top ++ entry.location) =
        some (.file entry.2.diskSize accessed) := fun entry member => left.holds.file member
  have single : ∀ entry ∈ store.index.entries ++ released, slash ∉ nameOf entry.fileName := by
    intro entry member
    obtain ⟨accessed, lies⟩ := found entry member
    exact (Disk.isPlain_below lies (nameOf entry.fileName) (by simp [Entry.location])).single
  have path : ∀ entry : Entry,
      store.pathFor entry.1 entry.2 = pathUnder (ofLocation top) entry.1 entry.2 :=
    fun entry => by rw [pathFor, root]
  refine ⟨top, root, cache, left.sound, fun entry member => single entry ?_, ?_, ?_⟩
  · exact List.mem_append_left _ member
  · rw [queue]
    intro path' member
    obtain ⟨entry, isReleased, rfl⟩ := List.mem_map.mp member
    exact ⟨entry, single entry (List.mem_append_right _ isReleased), path entry⟩
  · intro entry indexed
    have member := List.mem_append_left released indexed
    obtain ⟨accessed, lies⟩ := found entry member
    refine ⟨?_, (cache.hasFile_iff root (single entry member)).mpr ⟨_, _, lies⟩⟩
    -- No two entries that have been replayed share their key.
    rw [queue]
    intro shared
    obtain ⟨other, isReleased, same⟩ := List.mem_map.mp (mem_map_pathUnder_iff.mp shared)
    have keys := left.keys
    rw [List.map_append] at keys
    refine (List.nodup_append'.mp keys).2.2 (List.mem_map_of_mem indexed) ?_
    rw [← (Entry.place_eq_place_iff.mp same).1]
    exact List.mem_map_of_mem isReleased

namespace IsKept

theorem written (kept : store.IsKept top now) (valid : isToken file.token = true)
    {accessed : Instant}
    (done : now.write (store.pathFor key file) file.diskSize accessed = .ok changed) :
    store.IsKept top changed := by
  have path := done
  rw [pathFor, kept.root] at path
  have written := hasWritten_of_isLayout kept.cache.held kept.cache.layout valid path
  have cache := kept.cache.written written
  refine ⟨kept.root, cache, kept.sound, kept.single, kept.queued, fun entry indexed => ?_⟩
  have secure := kept.keeps entry indexed
  have single := kept.single entry indexed
  refine ⟨secure.waits, (cache.hasFile_iff kept.root single).mpr ?_⟩
  obtain ⟨size, since, found⟩ := (kept.cache.hasFile_iff kept.root single).mp secure.hasFile
  -- Where the new file lies at the place of an entry, it replaces one.
  by_cases own : top ++ Entry.location entry = top ++ Entry.location (key, file)
  · exact ⟨_, _, (written _).trans (if_pos own)⟩
  · exact ⟨size, since, ((written _).trans (if_neg own)).trans found⟩

theorem registered (kept : store.IsKept top now) (valid : isToken file.token = true)
    (admitted : (store.insert key file).1 = .ok true) (secure : store.IsSecure now (key, file)) :
    (store.insert key file).2.IsKept top now := by
  have positive := positive_of_insert admitted
  have index := store.index_insert positive
  have old : ∀ entry ∈ (store.insert key file).2.index.entries,
      entry ∈ store.index.entries ∨ entry = (key, file) := by
    intro entry live
    rw [index] at live
    exact (Index.mem_insert kept.sound live).imp_right And.left
  refine ⟨(root_insert store key file).trans kept.root, kept.cache,
    sound_insert kept.sound key file, fun entry live => ?_, fun path waiting => ?_,
    fun entry live => ?_⟩
  · rcases old entry live with before | rfl
    · exact kept.single entry before
    · exact StoredFile.slash_notMem_fileName valid
  · rw [queue_insert positive, abandoned_of_insert admitted] at waiting
    rcases List.mem_append.mp waiting with before | new
    · exact kept.queued path before
    · obtain ⟨entry, isReleased, rfl⟩ := List.mem_map.mp new
      exact ⟨entry, kept.single entry (Index.mem_of_mem_released kept.sound isReleased),
        by rw [pathFor, kept.root]⟩
  · rw [isSecure_insert_iff kept.sound admitted live]
    rcases old entry live with before | rfl
    · exact kept.keeps entry before
    · exact secure

theorem swept (kept : store.IsKept top now) (queued : path ∈ store.sweeper.queue) :
    ({ store with sweeper := store.sweeper.complete path } : Store).IsKept top
      (Sweeper.attempt now path).1 := by
  have fewer : ∀ {other}, other ∈ (store.sweeper.complete path).queue →
      other ∈ store.sweeper.queue := fun member => List.mem_of_mem_erase member
  have cache := kept.cache.loses (Sweeper.loses_attempt now path)
  refine ⟨kept.root, cache, kept.sound, kept.single, fun other member =>
    kept.queued other (fewer member), fun entry live => ?_⟩
  have secure := kept.keeps entry live
  have single := kept.single entry live
  refine ⟨fun member => secure.waits (fewer member), (cache.hasFile_iff kept.root single).mpr ?_⟩
  obtain ⟨size, accessed, found⟩ := (kept.cache.hasFile_iff kept.root single).mp secure.hasFile
  obtain ⟨⟨otherKey, otherFile⟩, otherSingle, rfl⟩ := kept.queued path queued
  refine ⟨size, accessed, (kept.cache.node?_attempt otherSingle fun same => ?_).trans found⟩
  -- An entry at the place of the removed file would wait for its own removal.
  have places : Entry.location entry = Entry.location (otherKey, otherFile) :=
    List.append_cancel_left same
  have paths : store.pathFor entry.1 entry.2 = pathUnder (ofLocation top) otherKey otherFile := by
    rw [pathFor, kept.root]
    exact congrArg (fun names => (ofLocation top).join (ofNames names)) places
  exact secure.waits (paths ▸ queued)

end IsKept

/-! ## Runs -/

namespace Filled

theorem mono {state : Store × Disk} (filled : Filled host settings disk condition state)
    (weaker : ∀ store disk entry, condition store disk entry → condition' store disk entry) :
    Filled host settings disk condition' state := by
  induction filled with
  | opened opened => exact .opened opened
  | written _ valid done ih => exact .written ih valid done
  | registered _ valid admitted meets ih =>
    exact .registered ih valid admitted (weaker _ _ _ meets)
  | swept _ queued ih => exact .swept ih queued

/-- To carry out all removals that wait, in any order, is part of a run. -/
theorem idle (filled : Filled host settings disk condition (store, now))
    (swept : order.Perm store.sweeper.queue) :
    Filled host settings disk condition (store.idle, (Sweeper.attemptAll order now).1) := by
  induction order generalizing store now with
  | nil =>
    obtain ⟨root, index, ⟨limit, queue⟩, replayed⟩ := store
    obtain rfl : queue = [] := swept.nil_eq.symm
    exact filled
  | cons path rest ih =>
    obtain ⟨queued, others⟩ := List.cons_perm_iff_perm_erase.mp swept
    have next := ih (filled.swept queued) others
    exact next

theorem exists_isKept {state : Store × Disk} (filled : Filled host settings disk IsSecure state) :
    ∃ top, state.1.IsKept top state.2 := by
  induction filled with
  | opened opened => exact exists_isKept_of_start opened
  | written _ valid done ih =>
    obtain ⟨top, kept⟩ := ih
    exact ⟨top, kept.written valid done⟩
  | registered _ valid admitted secure ih =>
    obtain ⟨top, kept⟩ := ih
    exact ⟨top, kept.registered valid admitted secure⟩
  | swept _ queued ih =>
    obtain ⟨top, kept⟩ := ih
    exact ⟨top, kept.swept queued⟩

end Filled

theorem IsKept.keepsFiles_iff (kept : store.IsKept top now) (valid : isToken file.token = true)
    (admitted : (store.insert key file).1 = .ok true) :
    (store.insert key file).2.KeepsFiles now ↔ store.IsSecure now (key, file) := by
  constructor
  · intro keeps
    have member := mem_entries_insert kept.sound admitted
    exact (isSecure_insert_iff kept.sound admitted member).mp (keeps _ member)
  · intro secure
    exact (kept.registered valid admitted secure).keeps

/-- Whether a cache with a certain index has all its shards. -/
structure IsFurnished (top : Location) (index : Index) (store : Store) (disk : Disk) : Prop where
  root : store.root = ofLocation top
  index_eq : store.index = index
  cache : disk.HasCache top
  shards : ∀ location ∈ shardLocations top, disk.node? location = some .directory

theorem Filled.exists_registered {index : Index} (key : Key) (file : StoredFile) (index' : Index)
    (released : List Entry) (filled : Filled host settings disk condition (store, now))
    (furnished : store.IsFurnished top index now) (valid : isToken file.token = true)
    (positive : ¬ file.NamesZero key) (plain : IsPlain (nameOf (file.fileName key)))
    (short : (ofLocation (top ++ Entry.location (key, file))).bytes.length ≤ longestPath)
    (inserted : index.insert key file = { index := index', admitted := true, released })
    (meets : ∀ changed, store.HasFile changed (key, file) →
      condition store changed (key, file)) :
    ∃ store' written, Filled host settings disk condition (store', written) ∧
      store'.IsFurnished top index' written ∧
      store'.sweeper.queue = store.sweeper.queue ++
        released.map fun entry => pathUnder (ofLocation top) entry.1 entry.2 := by
  obtain ⟨root, rfl, cache, shards⟩ := furnished
  have shard := shards _ (shardLocation_mem top (key, file))
  obtain ⟨written, done⟩ := exists_write_of_isLayout cache.layout shard plain short 1
  have hasWritten := hasWritten_of_isLayout cache.held cache.layout valid done
  rw [← root] at done
  have after := cache.written hasWritten
  have hasFile := (after.hasFile_iff root (StoredFile.slash_notMem_fileName valid)).mpr
    ⟨_, _, (hasWritten _).trans (if_pos rfl)⟩
  have admitted : (store.insert key file).1 = .ok true := by
    rw [insert_of_positive store positive, inserted]
  refine ⟨_, written, .registered (filled.written valid done) valid admitted (meets _ hasFile),
    ⟨(root_insert store key file).trans root, ?_, after, fun location member => ?_⟩, ?_⟩
  · rw [index_insert store positive, inserted]
  · rw [hasWritten, if_neg, shards location member]
    -- Shards lie one level above files.
    rintro rfl
    obtain ⟨kind, shardName, -, same⟩ := mem_shardLocations.mp member
    have lengths := congrArg List.length same
    simp [Entry.location] at lengths
  · rw [queue_insert positive, abandoned_of_insert admitted, inserted, ← root]
    rfl

/-- A key besides the one of the action. -/
def neighborKey : Key :=
  { kind := .action, digest := newerEntry.1.digest }

/-- In an empty cache for ten bytes, six bytes and then six bytes of another key are registered, and
the removal of the first file waits. -/
theorem exists_filled_two (opened : (start host settings disk).outcome = .ok store)
    (root : store.root = ofLocation []) (index : store.index = .empty 10)
    (queue : store.sweeper.queue = [])
    (shards : ∀ location ∈ shardLocations [],
      (start host settings disk).disk.node? location = some .directory) :
    ∃ last now, Filled host settings disk IsSecure (last, now) ∧
      last.IsFurnished []
        { budget := 10, entries := [(neighborKey, actionFile 6)], used := 6 } now ∧
      last.sweeper.queue = [last.pathFor actionKey (actionFile 6)] := by
  obtain ⟨top, kept⟩ := exists_isKept_of_start opened
  obtain rfl : top = [] := ofLocation_injective (Disk.isPlain_of_node? kept.cache.held) (by simp)
    (kept.root.symm.trans root)
  obtain ⟨middle, between, filled, furnished, queue'⟩ :=
    (Filled.opened opened).exists_registered actionKey (actionFile 6)
      { budget := 10, entries := [(actionKey, actionFile 6)], used := 6 } []
      ⟨root, index, kept.cache, shards⟩ (by decide) (by decide)
      (isPlainName_iff.mp (by decide +kernel)) (by decide +kernel) (by decide +kernel)
      fun changed hasFile => IsSecure.mk (by simp [queue]) hasFile
  rw [queue, List.map_nil, List.append_nil] at queue'
  obtain ⟨last, now, filled, furnished, queue''⟩ :=
    filled.exists_registered neighborKey (actionFile 6)
      { budget := 10, entries := [(neighborKey, actionFile 6)], used := 6 }
      [(actionKey, actionFile 6)] furnished (by decide) (by decide)
      (isPlainName_iff.mp (by decide +kernel)) (by decide +kernel) (by decide +kernel)
      fun changed hasFile => IsSecure.mk (by simp [queue']) hasFile
  refine ⟨last, now, filled, furnished, ?_⟩
  rw [queue'', queue', pathFor, furnished.root]
  rfl

end Store

end ArtifactCache
