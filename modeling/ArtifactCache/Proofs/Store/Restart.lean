import ArtifactCache.Proofs.Disk.Bases
import ArtifactCache.Proofs.Store.Acceptance
import ArtifactCache.Proofs.Store.Session
import Mathlib.Algebra.GroupWithZero.Nat

/-! # Opening a cache again

A cache that is in order finds all its files again when it is opened once more: their names are
read as they were written, no key has two files, and together they fit the budget.  So the replay
discards nothing and releases nothing, whatever order the files were last accessed in.  But the
path by which the cache was opened need not lead to its root any more, because an upgrade removes
the former directories with all links in them.
-/

namespace ArtifactCache

open DiskPath Upgrade

/-! ## What is found again -/

/-- What the disk tells of an entry: its key, its file name, and the size of its file. -/
def Entry.imprint (entry : Entry) : Key × String × UInt64 :=
  (entry.1, entry.fileName, entry.2.diskSize)

theorem Entry.imprint_eq_iff {entry other : Entry} :
    entry.imprint = other.imprint ↔
      entry.location = other.location ∧ entry.2.diskSize = other.2.diskSize := by
  rw [location_eq_location_iff, imprint, imprint, Prod.mk.injEq, Prod.mk.injEq, and_assoc]

theorem Index.weight_eq_sum (entries : List Entry) :
    weight entries = ((entries.map Entry.imprint).map fun imprint => imprint.2.2.toNat).sum := by
  induction entries with
  | nil => rfl
  | cons entry rest ih =>
    rw [weight, ih]
    rfl

namespace Disk

variable {disk other : Disk} {top : Location} {entries others : List Entry}

theorem Holds.nodup_imprint (holds : disk.Holds top entries) :
    (entries.map Entry.imprint).Nodup := by
  have pairs := List.pairwise_map.mp holds.distinct
  refine List.pairwise_map.mpr (pairs.imp fun apart same => ?_)
  exact apart (Entry.imprint_eq_iff.mp same).1

theorem Holds.imprint_mem (holds : disk.Holds top entries) (holds' : other.Holds top others)
    (same : ∀ kindName shardName name, disk.node? (top ++ [kindName, shardName, name]) =
      other.node? (top ++ [kindName, shardName, name])) {entry : Entry} (member : entry ∈ entries) :
    entry.imprint ∈ others.map Entry.imprint := by
  obtain ⟨accessed, found⟩ := holds.file member
  rw [Entry.location, same] at found
  obtain ⟨twin, among, location, size⟩ := holds'.mem_iff.mp ⟨accessed, found⟩
  exact List.mem_map.mpr ⟨twin, among, Entry.imprint_eq_iff.mpr ⟨location, size⟩⟩

theorem Holds.perm_imprint (holds : disk.Holds top entries) (holds' : other.Holds top others)
    (same : ∀ kindName shardName name, disk.node? (top ++ [kindName, shardName, name]) =
      other.node? (top ++ [kindName, shardName, name])) :
    (entries.map Entry.imprint).Perm (others.map Entry.imprint) := by
  refine (List.perm_ext_iff_of_nodup holds.nodup_imprint holds'.nodup_imprint).mpr ?_
  intro imprint
  constructor
  · intro present
    obtain ⟨entry, member, rfl⟩ := List.mem_map.mp present
    exact holds.imprint_mem holds' same member
  · intro present
    obtain ⟨entry, member, rfl⟩ := List.mem_map.mp present
    exact holds'.imprint_mem holds (fun _ _ _ => (same _ _ _).symm) member

end Disk

/-- A replay of files with distinct keys that fit the budget together keeps all of them. -/
theorem Replay.exists_replay_of_fits {files : List FoundFile} {readings : List Decoded}
    (root : DiskPath) {budget : UInt64} (disk : Disk)
    (decoded : (byAccess files).mapM decode = .ok readings)
    (distinct : (readings.map Decoded.key).Nodup)
    (small : ∀ reading ∈ readings, reading.file.diskSize ≤ budget)
    (fits : Index.weight (readings.map Decoded.entry) ≤ budget.toNat) :
    ∃ account index, replay root files (.empty budget) disk =
        { outcome := .ok account, index, disk, released := [] } ∧
      account.rejected = 0 ∧ account.duplicates = 0 ∧ account.displaced = 0 ∧
      index.entries = readings.map Decoded.entry := by
  have nothing : discarded budget readings = [] := discarded_eq_nil distinct small
  have all : accepted budget readings = readings := by
    have whole := perm_accepted_discarded budget readings
    rw [nothing, List.append_nil] at whole
    exact (List.filter_sublist.trans (sublist_latest readings)).eq_of_length whole.length_eq
  have removed : discardAll root (discarded budget readings) disk = .ok disk := by
    rw [nothing]
    rfl
  rw [← all] at fits
  obtain ⟨account, index, replayed, rejected, duplicates, displaced, entries⟩ :=
    exists_replay_of_discardAll root decoded small fits removed
  rw [nothing] at duplicates
  rw [all] at entries
  exact ⟨account, index, replayed, rejected, duplicates, displaced, entries⟩

namespace Store

variable {host : Host} {settings again : Settings} {budget : UInt64} {store : Store}
  {disk last : Disk} {top : Location} {key : Key} {file former : StoredFile}

/-! ## The way to the replay -/

theorem clear_of_isLayout (held : disk.node? top = some .directory)
    (layout : Inventory.IsLayout disk top) :
    ∀ location ∈ shardLocations top, disk.Clear location := by
  intro location member above beginning
  obtain ⟨kind, shard, -, rfl⟩ := mem_shardLocations.mp member
  cases found : disk.node? above with
  | none => exact .inl rfl
  | some node =>
    refine .inr (congrArg some ?_)
    rcases List.prefix_or_prefix_of_prefix beginning (List.prefix_append top _) with
      outside | ⟨names, rfl⟩
    · have upper := Disk.clear_of_node? held above outside
      rw [found] at upper
      rcases upper with missing | directory
      · cases missing
      · exact Option.some.inj directory
    · have few := beginning.length_le
      rw [List.length_append, List.length_append] at few
      match names with
      | [] =>
        rw [List.append_nil, held] at found
        exact (Option.some.inj found).symm
      | [_] => exact (layout.kinds found).1
      | [_, _] => exact (layout.shards found).1
      | _ :: _ :: _ :: _ => simp at few

theorem IsInOrder.isReady (inOrder : store.IsInOrder top budget disk) : IsReady disk top where
  plain := Disk.isPlain_of_node? inOrder.holds.root
  clear := clear_of_isLayout inOrder.holds.root inOrder.layout
  short := inOrder.short
  layout := inOrder.layout

theorem IsReady.exists_passes (isReady : IsReady disk top) (host : Host)
    (held : disk.node? top = some .directory) (usable : again.fault? = none)
    (named : disk.canonical again.baseDirectory = .ok (ofLocation top)) :
    ∃ ready files,
      Passes host again disk (ofLocation top) ready { disk := ready, notices := [] } files ∧
      files.Perm (Inventory.filesBelow ready top) ∧
      ∀ kindName shardName name, ready.node? (top ++ [kindName, shardName, name]) =
        disk.node? (top ++ [kindName, shardName, name]) := by
  obtain ⟨leads, form⟩ := Disk.leadsTo_of_canonical isReady.plain held named
  obtain ⟨ready, prepared, nodes⟩ := prepareRoot_of_canonical (leads.makeDirectories form) named
    isReady.plain isReady.short isReady.clear
  exact ⟨ready, exists_passes_of_prepared host usable isReady prepared nodes⟩

theorem IsInOrder.exists_passes (inOrder : store.IsInOrder top budget disk) (host : Host)
    (usable : again.fault? = none)
    (named : disk.canonical again.baseDirectory = .ok (ofLocation top)) :
    ∃ ready files,
      Passes host again disk (ofLocation top) ready { disk := ready, notices := [] } files ∧
      ∀ kindName shardName name, ready.node? (top ++ [kindName, shardName, name]) =
        disk.node? (top ++ [kindName, shardName, name]) := by
  obtain ⟨ready, files, passes, -, same⟩ :=
    inOrder.isReady.exists_passes host inOrder.holds.root usable named
  exact ⟨ready, files, passes, same⟩

theorem IsInOrder.exists_readings (inOrder : store.IsInOrder top budget disk) {after : Disk}
    {files : List FoundFile} (held : after.node? top = some .directory)
    (layout : Inventory.IsLayout after top)
    (listed : files.Perm (Inventory.filesBelow after top))
    (same : ∀ kindName shardName name, after.node? (top ++ [kindName, shardName, name]) =
      disk.node? (top ++ [kindName, shardName, name])) :
    ∃ readings, (Replay.byAccess files).mapM Replay.decode = .ok readings ∧
      ((readings.map Replay.Decoded.entry).map Entry.imprint).Perm
        (store.index.entries.map Entry.imprint) := by
  have decodes : ∀ found ∈ Replay.byAccess files, ∃ reading,
      Replay.decode found = .ok reading := by
    intro found member
    obtain ⟨kindName, shardName, name, lies, path⟩ := Inventory.mem_filesBelow.mp
      ((Replay.perm_byAccess listed).mem_iff.mp member)
    rw [same] at lies
    have above : disk.node? (top ++ [kindName]) = some .directory :=
      Disk.directory_of_prefix lies (by simp) (by simp)
    obtain ⟨-, kind, rfl⟩ := inOrder.layout.kinds above
    obtain ⟨entry, indexed, location, size⟩ := inOrder.holds.mem_iff.mp ⟨_, lies⟩
    obtain ⟨-, ⟨key, file⟩, reads⟩ := inOrder.each entry indexed
    rw [Entry.place_eq_ofNames, location, size, ← path] at reads
    exact ⟨_, by rw [Replay.decode, reads]⟩
  obtain ⟨readings, decoded⟩ := exists_mapM_eq_ok decodes
  have read := hasReadings_of_inventory listed decoded
  exact ⟨readings, decoded, (read.holds held layout).perm_imprint inOrder.holds same⟩

/-! ## Restarts -/

/-- Whether a cache that has been opened again has all entries of the former one, and has removed
nothing. -/
structure Restores (reopened store : Store) : Prop where
  root : reopened.root = store.root
  rejected : reopened.replayed.rejected = 0
  duplicates : reopened.replayed.duplicates = 0
  displaced : reopened.replayed.displaced = 0
  imprints : (reopened.index.entries.map Entry.imprint).Perm
    (store.index.entries.map Entry.imprint)

theorem IsInOrder.weight_le (inOrder : store.IsInOrder top budget disk)
    (small : Index.weight store.index.entries < UInt64.size) :
    Index.weight store.index.entries ≤ budget.toNat := by
  have used := inOrder.fits
  rwa [inOrder.sound.used_eq, UInt64.le_iff_toNat_le, Index.toNat_tally small] at used

theorem IsInOrder.exists_restores (inOrder : store.IsInOrder top budget disk)
    (small : Index.weight store.index.entries < UInt64.size) (host : Host)
    (usable : again.fault? = none) (size : again.maxSize = budget)
    (named : disk.canonical again.baseDirectory = .ok store.root) :
    ∃ reopened, (start host again disk).outcome = .ok reopened ∧ reopened.Restores store := by
  rw [inOrder.root] at named
  obtain ⟨ready, files, passes, same⟩ := inOrder.exists_passes host usable named
  obtain ⟨other, root, held, layout, listed, -⟩ := passes.exists_layout
  obtain rfl := ofLocation_injective (Disk.isPlain_of_node? inOrder.holds.root)
    (Disk.isPlain_of_node? held) root
  obtain ⟨readings, decoded, imprints⟩ := inOrder.exists_readings held layout listed same
  have distinct : (readings.map Replay.Decoded.key).Nodup := by
    have keys := (imprints.map Prod.fst).nodup_iff
    rw [List.map_map, List.map_map, List.map_map] at keys
    exact keys.mpr inOrder.sound.distinct
  have each : ∀ reading ∈ readings, reading.file.diskSize ≤ budget := by
    intro reading member
    have present := imprints.mem_iff.mp
      (List.mem_map_of_mem (List.mem_map_of_mem (f := Replay.Decoded.entry) member))
    obtain ⟨entry, indexed, twin⟩ := List.mem_map.mp present
    obtain ⟨-, size⟩ := Entry.imprint_eq_iff.mp twin
    exact size ▸ (inOrder.each entry indexed).1
  have fits : Index.weight (readings.map Replay.Decoded.entry) ≤ budget.toNat := by
    rw [Index.weight_eq_sum, (imprints.map _).sum_nat, ← Index.weight_eq_sum]
    exact inOrder.weight_le small
  obtain ⟨account, index, replayed, rejected, duplicates, displaced, entries⟩ :=
    Replay.exists_replay_of_fits (ofLocation top) ready decoded distinct each fits
  rw [← size] at replayed
  rw [passes.start_eq replayed]
  exact ⟨_, rfl, inOrder.root.symm, rejected, duplicates, displaced, entries ▸ imprints⟩

/-- Whether the files in the directories of the kinds are those at the paths of the indexed
entries, with the sizes that the entries record, and no others. -/
def MatchesDisk (store : Store) (disk : Disk) : Prop :=
  ∃ top, store.root = ofLocation top ∧ disk.Holds top store.index.entries ∧
    ∀ entry ∈ store.index.entries,
      store.pathFor entry.1 entry.2 = ofLocation (top ++ entry.location)

theorem IsInOrder.matchesDisk (inOrder : store.IsInOrder top budget disk) :
    store.MatchesDisk disk := by
  refine ⟨top, inOrder.root, inOrder.holds, fun entry member => ?_⟩
  obtain ⟨accessed, found⟩ := inOrder.holds.file member
  rw [pathFor, inOrder.root, pathUnder_ofLocation (Disk.isPlain_below found)]

theorem IsInOrder.canonical_root (inOrder : store.IsInOrder top budget disk) :
    disk.canonical store.root = .ok store.root := by
  rw [inOrder.root]
  exact Disk.canonical_ofLocation inOrder.holds.root (short_root inOrder.short)

/-! ## Turns that can be taken -/

theorem IsInOrder.shard (inOrder : store.IsInOrder top budget disk)
    (member : (key, former) ∈ store.index.entries) (file : StoredFile) :
    disk.node? (top ++ Entry.shardLocation (key, file)) = some .directory := by
  obtain ⟨accessed, found⟩ := inOrder.holds.file member
  rw [Entry.location_eq, ← List.append_assoc] at found
  exact Disk.directory_of_node? found (List.cons_ne_nil _ _)

theorem queue_insert (positive : ¬ file.NamesZero key) :
    (store.insert key file).2.sweeper.queue = store.sweeper.queue ++
      (store.index.abandoned key file).map fun entry => store.pathFor entry.1 entry.2 := by
  rw [insert_of_positive store positive]
  exact queue_queueReleased _ _ _

/-- A file can be registered wherever its shard is there, and what it displaces is swept. -/
theorem IsInOrder.exists_turn (inOrder : store.IsInOrder top budget disk)
    (may : store.MayRegister key file)
    (shard : disk.node? (top ++ Entry.shardLocation (key, file)) = some .directory)
    (plain : IsPlain (nameOf (file.fileName key)))
    (short : (ofLocation (top ++ Entry.location (key, file))).bytes.length ≤ longestPath)
    {gone : List Entry} (abandons : store.index.abandoned key file = gone) (accessed : Instant) :
    ∃ written, disk.HasWritten (top ++ Entry.location (key, file)) (.file file.diskSize accessed)
        written ∧
      Turn (gone.map fun entry => store.pathFor entry.1 entry.2) (store, disk)
        ((store.insert key file).2.idle, (Sweeper.attemptAll
          (gone.map fun entry => store.pathFor entry.1 entry.2) written).1) := by
  obtain ⟨written, done⟩ := exists_write_of_isLayout inOrder.layout shard plain short accessed
  rw [← inOrder.root] at done
  refine ⟨written, inOrder.hasWritten may done, .registered may done ?_⟩
  rw [queue_insert may.positive, inOrder.idle, abandons, List.nil_append]

theorem index_idle_insert (positive : ¬ file.NamesZero key) :
    (store.insert key file).2.idle.index = (store.index.insert key file).index :=
  index_insert store positive

theorem session_of_opened (opened : (start host settings disk).outcome = .ok store)
    (nothing : store.sweeper.queue = []) :
    Session host settings disk [] (store.idle, (start host settings disk).disk) :=
  .opened opened (nothing ▸ List.Perm.refl [])

/-! ## Roots without files -/

theorem replay_nil (root : DiskPath) (budget : UInt64) (disk : Disk) :
    replay root [] (.empty budget) disk =
      { outcome := .ok (Replay.summary 0 (.start budget disk)), index := .empty budget, disk
        released := [] } := by
  rw [replay, Replay.byAccess, List.mergeSort_nil]
  rfl

/-- A cache that is opened at a location without files is empty, and all its shards are there. -/
theorem IsReady.exists_start (isReady : IsReady disk top) (host : Host)
    (usable : settings.fault? = none) (base : settings.baseDirectory = ofLocation top)
    (noFiles : ∀ kindName shardName name, disk.node? (top ++ [kindName, shardName, name]) = none) :
    ∃ store, (start host settings disk).outcome = .ok store ∧
      store.root = ofLocation top ∧ store.index = .empty settings.maxSize ∧
      store.sweeper.queue = [] ∧
      ∀ location ∈ shardLocations top,
        (start host settings disk).disk.node? location = some .directory := by
  obtain ⟨ready, prepared, nodes⟩ := prepareRoot_ofLocation isReady.plain isReady.short
    (short_root isReady.short) isReady.clear isReady.clearRoot
  obtain ⟨files, passes, listed, same⟩ :=
    exists_passes_of_prepared host usable isReady (base ▸ prepared) nodes
  have nothing : Inventory.filesBelow ready top = [] := by
    refine Inventory.filesBelow_eq_nil fun kindName shardName name size accessed held => ?_
    rw [same, noFiles] at held
    cases held
  obtain rfl : files = [] := (nothing ▸ listed).eq_nil
  rw [passes.start_eq (replay_nil _ _ _)]
  refine ⟨_, rfl, rfl, rfl, rfl, fun location member => ?_⟩
  have made : ready.node? location = some .directory := by
    rw [nodes, if_pos ⟨location, member, List.prefix_rfl⟩]
  exact made

/-- A cache for ten bytes that is opened at the top of an empty disk is empty, and all its shards
are there. -/
theorem exists_start_empty : ∃ store,
    (start .orderly (tenBytes []) (laidOut [] [])).outcome = .ok store ∧
      store.root = ofLocation [] ∧ store.index = .empty 10 ∧ store.sweeper.queue = [] ∧
      ∀ location ∈ shardLocations [],
        (start .orderly (tenBytes []) (laidOut [] [])).disk.node? location = some .directory := by
  have fits : CanBeLaidOut [] [] :=
    { root := by simp
      short := fun location => short_of_room (by decide)
      plain := by simp
      distinct := by simp }
  refine (isReady_laidOut fits).exists_start .orderly (fault?_tenBytes []) rfl fun _ _ _ => ?_
  refine Option.eq_none_iff_forall_ne_some.mpr fun node found => ?_
  rcases (node?_laidOut fits).mp found with ⟨-, above⟩ | ⟨item, member, -⟩
  · simp at above
  · cases member

/-! ## A root behind a link -/

theorem locate_of_link {location : Location}
    (found : disk.node? location = some (.link (ofLocation [])))
    (short : (ofLocation location).bytes.length ≤ longestPath) :
    disk.locate (ofLocation location) = .ok [] := by
  have plain := Disk.isPlain_of_node? found
  rcases List.eq_nil_or_concat location with rfl | ⟨place, name, rfl⟩
  · rw [Disk.node?_nil] at found
    cases found
  · rw [List.concat_eq_append] at found plain short ⊢
    obtain ⟨single, held⟩ := Disk.parent_of_node? found
    rw [Disk.locate_ofLocation plain, checkForm_ofLocation plain, if_neg (Nat.not_lt.mpr short),
      List.map_append, List.map_singleton, Disk.walk_names held, Disk.walkFrom,
      if_neg (Nat.not_lt.mpr single.short)]
    simp only [found]
    rfl

/-- A link back to the top of the disk in the former directory of actions. -/
def linkedBack : List OldNode :=
  [{ directory := [nameOf Kind.action.formerDirectory], name := [0x6c]
     node := .link (ofLocation []) },
   { directory := [], name := nameOf Kind.action.formerDirectory, node := .directory }]

/-- Where this link is. -/
def linkLocation : Location :=
  [nameOf Kind.action.formerDirectory, [0x6c]]

theorem isPlain_linkLocation : ∀ name ∈ linkLocation, IsPlain name := by
  have names : ∀ name ∈ linkLocation, isPlainName name = true := by decide +kernel
  exact fun name member => isPlainName_iff.mp (names name member)

/-- An opening under the path of the link removes the link. -/
theorem exists_start_linkedBack : ∃ store,
    (start .orderly (tenBytes linkLocation) (furnished [] linkedBack)).outcome = .ok store ∧
      store.root = ofLocation [] ∧ store.index = .empty 10 ∧ store.sweeper.queue = [] ∧
      (∀ location ∈ shardLocations [],
        (start .orderly (tenBytes linkLocation) (furnished [] linkedBack)).disk.node? location =
          some .directory) ∧
      (start .orderly (tenBytes linkLocation) (furnished [] linkedBack)).disk.node?
        [nameOf Kind.action.formerDirectory] = none ∧
      ∀ location size accessed,
        (start .orderly (tenBytes linkLocation) (furnished [] linkedBack)).disk.node? location ≠
          some (.file size accessed) := by
  have fits : HasShards [] := ⟨by simp, by decide⟩
  have furniture : isFurniture linkedBack = true := by decide +kernel
  obtain ⟨-, held, ordinary, -, shards⟩ := isOrdinary_furnished fits furniture
    (by decide +kernel) (by decide +kernel)
  have link : (furnished [] linkedBack).node? linkLocation = some (.link (ofLocation [])) :=
    (node?_furnished_old fits furniture .action [[0x6c]]).mpr ⟨_, List.mem_cons_self, rfl, rfl⟩
  have short : (ofLocation linkLocation).bytes.length ≤ longestPath := by decide +kernel
  have lies : LiesAt (tenBytes linkLocation).baseDirectory (furnished [] linkedBack)
      (furnished [] linkedBack) [] := liesAt_of_locate (locate_of_link link short) held
  have usable : Admits (tenBytes linkLocation).baseDirectory (furnished [] linkedBack) []
      .upgrade := fun kind =>
    ⟨isClean_furnished fits furniture kind (by cases kind <;> decide +kernel),
      acceptsPaths_of_room (by decide) (by decide)⟩
  have admits := admits_furnished fits furniture ⟨lies.form, shards⟩ usable
  obtain ⟨ready, scene, files, passes⟩ := exists_passes_of_admits lies ordinary .orderly
    (fault?_tenBytes linkLocation) fun stage _ => admits stage
  obtain ⟨-, prepared⟩ := lies.isPrepared passes.prepared
  obtain ⟨-, upgraded, -, -, listed⟩ := ordinary.of_passes prepared passes
  have noFiles : ∀ location size accessed,
      scene.disk.node? location ≠ some (.file size accessed) := by
    intro location size accessed found
    rcases (ordinary.node?_eq_file_iff prepared upgraded).mp found with
      kept | ⟨kind, source, target, -, -, old⟩
    · cases ((node?_withoutOld_furnished fits furniture).mp kept).1
    · rcases (node?_furnished fits furniture).mp old with ⟨directory, -⟩ | ⟨item, member, -, file⟩
      · cases directory
      · have others : ∀ item ∈ linkedBack, item.node.isFile = false := by decide +kernel
        have odd := others item member
        rw [← file] at odd
        cases odd
  rw [Inventory.filesBelow_eq_nil fun _ _ _ => noFiles _] at listed
  obtain rfl : files = [] := listed.eq_nil
  rw [passes.start_eq (replay_nil _ _ _)]
  refine ⟨_, rfl, rfl, rfl, rfl, fun location member => ?_,
    upgraded.gone .action Kind.action.mem_all [], noFiles⟩
  exact upgraded.node?_of_apart (fun kind _ => ordinary.hasRoom prepared kind)
    ((ordinary.isUpgradable prepared).stands.shards location member)
    fun kind _ => not_oldPlace_prefix_shard member kind

/-- Once the link has gone, an opening under its path makes another root in its place, without
files. -/
theorem exists_start_linkLocation (host : Host)
    (gone : disk.node? [nameOf Kind.action.formerDirectory] = none) :
    ∃ store, (start host (tenBytes linkLocation) disk).outcome = .ok store ∧
      store.index = .empty 10 ∧ (start host (tenBytes linkLocation) disk).disk ≠ disk := by
  have missing : ∀ names, disk.node? (linkLocation ++ names) = none := fun names =>
    Disk.node?_append_of_missing gone ([0x6c] :: names)
  have isReady : IsReady disk linkLocation :=
    { plain := isPlain_linkLocation
      clear := by
        intro location member
        obtain ⟨kind, shard, -, rfl⟩ := mem_shardLocations.mp member
        exact Disk.clear_of_missing disk.node?_nil gone _
      short := fun location => short_of_room (by decide +kernel)
      layout := ⟨fun found => by simp [missing] at found, fun found => by simp [missing] at found,
        fun found => by simp [missing] at found⟩ }
  obtain ⟨store, opened, -, index, -, shards⟩ := isReady.exists_start host
    (fault?_tenBytes linkLocation) rfl fun _ _ _ => missing _
  refine ⟨store, opened, index, fun same => ?_⟩
  have made := shards _ (firstShard_mem linkLocation .action)
  rw [same, missing] at made
  cases made

/-! ## Two registrations -/

theorem Session.exists_registered (session : Session host settings disk [] (store, last))
    (root : store.root = ofLocation []) (index : store.index = .empty 10)
    (shards : ∀ location ∈ shardLocations [], last.node? location = some .directory) :
    ∃ store' written, Session host settings disk [] (store', written) ∧
      store'.root = ofLocation [] ∧
      store'.index = { budget := 10, entries := [(actionKey, actionFile 4)], used := 4 } ∧
      last.HasWritten (Entry.location (actionKey, actionFile 4)) (.file 4 1) written := by
  obtain ⟨top, inOrder⟩ := session.isInOrder (by simp)
  obtain rfl : top = [] := ofLocation_injective (Disk.isPlain_of_node? inOrder.holds.root)
    (by simp) (inOrder.root.symm.trans root)
  have may : store.MayRegister actionKey (actionFile 4) :=
    { valid := by decide
      positive := by decide
      fits := by simp [index, Index.empty] }
  have nothing : store.index.abandoned actionKey (actionFile 4) = [] := by
    rw [index]
    decide +kernel
  obtain ⟨written, hasWritten, turn⟩ := inOrder.exists_turn may (shards _ (shardLocation_mem [] _))
    (isPlainName_iff.mp (by decide +kernel)) (by decide +kernel) nothing 1
  refine ⟨_, written, session.next turn, ?_, ?_, hasWritten⟩
  · rw [insert_of_positive store may.positive]
    exact root
  · rw [index_idle_insert may.positive, index]
    decide +kernel

/-- A file of eleven bytes, whose name differs from that of smaller files. -/
def largeFile : StoredFile :=
  { actionFile 11 with token := "new" }

theorem exists_session_refused : ∃ removed store last,
    Session .orderly (tenBytes []) (laidOut [] []) removed (store, last) ∧ removed ≠ [] ∧
      (∀ path ∈ removed, path.bytes.length ≤ longestPath) ∧ store.root = ofLocation [] ∧
      store.index = { budget := 10, entries := [(actionKey, actionFile 4)], used := 4 } := by
  obtain ⟨begun, opened, rootEmpty, empty, queue, shards⟩ := exists_start_empty
  obtain ⟨store, last, session, root, index, -⟩ :=
    (session_of_opened opened queue).exists_registered rootEmpty empty shards
  obtain ⟨top, inOrder⟩ := session.isInOrder (by simp)
  obtain rfl : top = [] := ofLocation_injective (Disk.isPlain_of_node? inOrder.holds.root)
    (by simp) (inOrder.root.symm.trans root)
  -- The second file is larger than the whole budget.
  have only : ∀ other ∈ store.index.entries, other = (actionKey, actionFile 4) := by
    simp [index]
  have may : store.MayRegister actionKey largeFile :=
    { valid := by decide
      positive := by decide
      fits := by
        intro other indexed same
        rw [only other indexed, pathFor, pathFor, root] at same
        exact absurd same (by decide +kernel) }
  have refused : store.index.abandoned actionKey largeFile = [(actionKey, largeFile)] := by
    rw [index]
    decide +kernel
  have short : (store.pathFor actionKey largeFile).bytes.length ≤ longestPath := by
    rw [pathFor, root]
    decide +kernel
  have shard := inOrder.shard (show (actionKey, actionFile 4) ∈ _ by simp [index]) largeFile
  obtain ⟨written, -, turn⟩ := inOrder.exists_turn may shard
    (isPlainName_iff.mp (by decide +kernel)) (by decide +kernel) refused 2
  refine ⟨_, _, _, session.next turn, by simp, by simpa using short, ?_, ?_⟩
  · rw [insert_of_positive store may.positive]
    exact root
  · rw [index_idle_insert may.positive, index]
    decide +kernel

/-! ## Sessions and restarts -/

/-- After every call of a session the files below the root are those of the index, and whoever
opens the directory again, by its root or by any path that leads there, finds the same entries
and removes nothing.  This needs that the system takes the paths of all removals, and a sweeper
that can be made. -/
theorem session_survives_restart (host : Host) (settings : Settings) (disk : Disk)
    (removed : List DiskPath) (store : Store) (last : Disk)
    (session : Session host settings disk removed (store, last))
    (short : ∀ path ∈ removed, path.bytes.length ≤ longestPath) :
    store.MatchesDisk last ∧ last.canonical store.root = .ok store.root ∧
      (Index.weight store.index.entries < UInt64.size →
        ∀ (host' : Host) (again : Settings), again.fault? = none →
          again.maxRemovals ≤ Sweeper.mostPermits → again.maxSize = settings.maxSize →
            last.canonical again.baseDirectory = .ok store.root →
              ∃ opening reopened, launch host' again last = .finished opening ∧
                opening.outcome = .ok reopened ∧ reopened.Restores store) := by
  obtain ⟨top, inOrder⟩ := session.isInOrder short
  refine ⟨inOrder.matchesDisk, inOrder.canonical_root, ?_⟩
  intro small host' again usable few size named
  obtain ⟨reopened, opened, restores⟩ := inOrder.exists_restores small host' usable size named
  exact ⟨_, reopened, (launch_eq_finished_iff usable).mpr ⟨few, rfl⟩, opened, restores⟩

/-- The four bytes are found again when the cache is opened once more with the same settings. -/
theorem session_survives_restart_four_bytes : ∃ removed store last,
    Session .orderly (tenBytes []) (laidOut [] []) removed (store, last) ∧ removed ≠ [] ∧
      (∀ path ∈ removed, path.bytes.length ≤ longestPath) ∧ store.MatchesDisk last ∧
      store.index.entries = [(actionKey, actionFile 4)] ∧
      ∃ opening reopened, launch .orderly (tenBytes []) last = .finished opening ∧
        opening.outcome = .ok reopened ∧ reopened.Restores store := by
  obtain ⟨removed, store, last, session, nonempty, short, root, index⟩ := exists_session_refused
  obtain ⟨files, direct, restart⟩ := session_survives_restart .orderly (tenBytes [])
    (laidOut [] []) removed store last session short
  have small : Index.weight store.index.entries < UInt64.size := by
    rw [index]
    decide +kernel
  have named : last.canonical (tenBytes []).baseDirectory = .ok store.root := by
    rw [root] at direct ⊢
    exact direct
  exact ⟨removed, store, last, session, nonempty, short, files, by rw [index],
    restart small .orderly (tenBytes []) (fault?_tenBytes []) (by decide) rfl named⟩

/-- Whoever opens a directory again with the same settings may get to another one, where nothing is
found, if the path to it has led through a former directory.  And no one can open it again with
more removals at once than a sweeper can be made for. -/
theorem session_may_not_restart : ∃ removed store last,
    Session .orderly (tenBytes linkLocation) (furnished [] linkedBack) removed (store, last) ∧
      (∀ path ∈ removed, path.bytes.length ≤ longestPath) ∧
      store.index.entries = [(actionKey, actionFile 4)] ∧ store.MatchesDisk last ∧
      (∀ host, ∃ opening reopened, launch host (tenBytes linkLocation) last = .finished opening ∧
        opening.outcome = .ok reopened ∧ reopened.index.entries = []) ∧
      manyRemovals.fault? = none ∧ manyRemovals.maxSize = (tenBytes linkLocation).maxSize ∧
      last.canonical manyRemovals.baseDirectory = .ok store.root ∧
      ∀ host, ∃ message, launch host manyRemovals last = .panicked message := by
  obtain ⟨begun, opened, rootEmpty, empty, queue, shards, gone, -⟩ := exists_start_linkedBack
  obtain ⟨store, last, session, root, index, written⟩ :=
    (session_of_opened opened queue).exists_registered rootEmpty empty shards
  obtain ⟨top, inOrder⟩ := session.isInOrder (by simp)
  have still : last.node? [nameOf Kind.action.formerDirectory] = none := by
    rw [written, if_neg (by decide +kernel), gone]
  have named := inOrder.canonical_root
  rw [root] at named
  refine ⟨[], store, last, session, by simp, by rw [index], inOrder.matchesDisk, fun host => ?_,
    by decide +kernel, rfl, root ▸ named, fun host => panicked_manyRemovals host last⟩
  obtain ⟨reopened, opened, empty, -⟩ := exists_start_linkLocation host still
  exact ⟨_, reopened, (launch_eq_finished_iff (fault?_tenBytes _)).mpr ⟨by decide, rfl⟩, opened,
    by rw [empty]; rfl⟩

end Store

end ArtifactCache
