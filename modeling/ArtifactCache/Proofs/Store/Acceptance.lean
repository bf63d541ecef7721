import ArtifactCache.Proofs.Store.Ordinary
import ArtifactCache.Proofs.Upgrade.Resume

/-! # Which trees an opening accepts

Each stage of an opening asks something of the tree below the root, and asks it of the disk that
the stages before it have left.  On an ordinary root these questions can be put to the tree as it
was at first: the earlier stages add what the later ones accept, and take away what they do not
look at.  So an opening succeeds only if the tree is well formed from the start, and a failure
belongs to the first stage that misses something.

The one failure that no tree foretells is that of the removal of a superseded file, when the
system does not take its path.
-/

namespace ArtifactCache

open DiskPath Upgrade

def Stage.earlier : Stage → List Stage
  | .directories => []
  | .upgrade => [.directories]
  | .inventory => [.directories, .upgrade]
  | .replay => [.directories, .upgrade, .inventory]

namespace Store

variable {host : Host} {settings : Settings} {base : DiskPath} {disk middle ready : Disk}
  {top : Location} {scene : Scene} {files : List FoundFile}

/-- What a stage of an opening asks of the tree below a root: that the ways to all shards meet
nothing but directories, that old shards hold nothing but old files, that there is nothing foreign
beside the former directories, and that all files of the current layout can be read.  The system
must take the path of the base directory, those of the shards, and those that the upgrade uses. -/
def Admits (base : DiskPath) (disk : Disk) (top : Location) : Stage → Prop
  | .directories => base.checkForm = .ok () ∧ ∀ location ∈ shardLocations top,
      disk.Clear location ∧ (ofLocation location).bytes.length ≤ longestPath
  | .upgrade => ∀ kind, IsClean disk top kind ∧ AcceptsPaths disk (ofLocation top) top kind
  | .inventory => Inventory.IsLayout (withoutOld disk top) top
  | .replay => ∀ found ∈ Inventory.filesBelow (withoutOld disk top) top, ∃ reading,
      Replay.decode found = .ok reading

/-- Whether a failure says that a file of the current layout could not be removed, because its
path is too long. -/
def RefusesRemoval (disk : Disk) (top : Location) (cause : Failure) : Prop :=
  ∃ found ∈ Inventory.filesBelow (withoutOld disk top) top,
    longestPath < ((ofLocation top).join found.path).bytes.length ∧
      cause = .disk ((ofLocation top).join found.path) "remove rejected file" .nameTooLong

/-! ## What the stages find -/

section Stages

variable (ordinary : IsOrdinary middle top) (prepared : IsPrepared base disk middle top ready)

include ordinary prepared

theorem admits_directories : Admits base middle top .directories :=
  ⟨prepared.form, fun location member =>
    ⟨prepared.clear (ordinary.noLinks prepared.held) location member, prepared.short _ member⟩⟩

/-- The inventory of an upgraded root is taken exactly if the tree admits it. -/
theorem exists_inventory_iff (workers : Nat)
    (upgraded : IsUpgraded ready top Kind.all scene.disk) :
    (∃ files, (inventory host workers (ofLocation top) scene.disk).outcome = .ok files) ↔
      Admits base middle top .inventory := by
  have directory : scene.disk.node? top = some .directory := by
    apply upgraded.node?_of_apart (fun kind _ => ordinary.hasRoom prepared kind)
      (prepared.grows.node? prepared.held)
    exact fun kind _ above => absurd above.length_le (by simp [oldPlace])
  rw [Admits, ← ordinary.isLayout_iff prepared upgraded]
  constructor
  · rintro ⟨files, taken⟩
    exact (Inventory.layout_of_inventory (Disk.leadsTo_ofLocation directory) taken).1
  · intro layout
    exact Inventory.exists_inventory host workers (Disk.leadsTo_ofLocation directory) layout
      (layout.takesPaths prepared.short)

/-- A file that cannot be removed is one of those that were there beside the former directories,
because the system has taken the paths of all others. -/
theorem refusesRemoval_of_discardAll {readings : List Replay.Decoded} {budget : UInt64}
    {cause : Failure} (upgraded : IsUpgraded ready top Kind.all scene.disk)
    (accepts : ∀ kind, AcceptsPaths middle (ofLocation top) top kind)
    (listed : files.Perm (Inventory.filesBelow scene.disk top))
    (decoded : (Replay.byAccess files).mapM Replay.decode = .ok readings)
    (stopped : Replay.discardAll (ofLocation top) (Replay.discarded budget readings) scene.disk =
      .error cause) : RefusesRemoval middle top cause := by
  have read := hasReadings_of_inventory listed decoded
  have division := Replay.perm_accepted_discarded budget readings
  obtain ⟨reading, member, long, rfl⟩ := (read.discarded budget).exists_long stopped
  obtain ⟨found, among, decodes⟩ := exists_item_of_mapM_eq_ok decoded
    (division.mem_iff.mp (List.mem_append_right _ member))
  rw [Replay.path_of_decode decodes] at long ⊢
  obtain ⟨kindName, shardName, name, lies, path⟩ := Inventory.mem_filesBelow.mp
    ((Replay.perm_byAccess listed).mem_iff.mp among)
  -- The upgrade has used the path of a file that it has moved, so this path is not too long.
  rcases (ordinary.node?_eq_file_iff prepared upgraded).mp lies with
    kept | ⟨kind, source, target, moves, same, held⟩
  · exact ⟨found, Inventory.mem_filesBelow.mpr ⟨_, _, _, kept, path⟩, long, rfl⟩
  · have form := ((accepts kind).files ⟨moves, _, _, held⟩).2
    have plain : ∀ other ∈ [kindName, shardName, name], IsPlain other := Disk.isPlain_below lies
    rw [← List.append_cancel_left same] at form
    rw [path, join_ofNames top plain (List.cons_ne_nil _ _), ofLocation, List.foldl_append]
      at long
    exact absurd (length_le_of_checkForm form) (Nat.not_le.mpr long)

end Stages

theorem exists_decoded_iff (listed : files.Perm (Inventory.filesBelow disk top)) :
    (∃ readings, (Replay.byAccess files).mapM Replay.decode = .ok readings) ↔
      ∀ found ∈ Inventory.filesBelow disk top, ∃ reading, Replay.decode found = .ok reading := by
  have whole : (Replay.byAccess files).Perm (Inventory.filesBelow disk top) :=
    Replay.perm_byAccess listed
  constructor
  · rintro ⟨readings, decoded⟩ found member
    obtain ⟨reading, -, reads⟩ := exists_of_mapM_eq_ok decoded (whole.mem_iff.mpr member)
    exact ⟨reading, reads⟩
  · exact fun reads => exists_mapM_eq_ok fun found member => reads found (whole.mem_iff.mp member)

/-! ## Verdicts -/

/-- Whether a failure names the first stage that does not admit the tree, or tells of a file that
could not be removed from a tree that all stages before the replay admit. -/
def Blames (base : DiskPath) (disk : Disk) (top : Location) (failure : Failure) : Prop :=
  ∃ stage cause, failure = .startup stage cause ∧
    (∀ earlier ∈ stage.earlier, Admits base disk top earlier) ∧
      (¬ Admits base disk top stage ∨ stage = .replay ∧ RefusesRemoval disk top cause)

section Verdicts

variable (lies : LiesAt settings.baseDirectory disk middle top) (ordinary : IsOrdinary middle top)

include lies ordinary

theorem exists_passes_of_admits (host : Host) (usable : settings.fault? = none)
    (admits : ∀ earlier ∈ Stage.replay.earlier, Admits settings.baseDirectory middle top earlier) :
    ∃ ready scene files, Passes host settings disk (ofLocation top) ready scene files := by
  have directories := admits .directories (by simp [Stage.earlier])
  obtain ⟨ready, prepared⟩ := lies.exists_prepareRoot
    (fun _ member => (directories.2 _ member).2) fun _ member => (directories.2 _ member).1
  obtain ⟨-, isPrepared⟩ := lies.isPrepared prepared
  cases upgraded : upgrade host (settings.effectiveUpgradeWorkers host.width) (ofLocation top)
      ready with
  | mk outcome scene =>
    cases outcome with
    | error failure =>
      exact absurd (admits .upgrade (by simp [Stage.earlier]))
        (ordinary.of_stopped_upgrade isPrepared upgraded).1
    | ok summary =>
      obtain ⟨files, taken⟩ := (exists_inventory_iff ordinary isPrepared
        (settings.effectiveInventoryWorkers host.width)
        (ordinary.of_upgrade isPrepared upgraded).2).mpr
        (admits .inventory (by simp [Stage.earlier]))
      exact ⟨ready, scene, files, usable, prepared, ⟨summary, upgraded⟩, taken⟩

theorem Passes.admits {root : DiskPath} (passes : Passes host settings disk root ready scene files) :
    ∀ earlier ∈ Stage.replay.earlier, Admits settings.baseDirectory middle top earlier := by
  obtain ⟨rfl, prepared⟩ := lies.isPrepared passes.prepared
  obtain ⟨usable, upgraded, -, layout, -⟩ := ordinary.of_passes prepared passes
  simpa [Stage.earlier] using ⟨admits_directories ordinary prepared, usable,
    (ordinary.isLayout_iff prepared upgraded).mp layout⟩

/-- A cache has been opened only if every stage admits the tree as it was at first. -/
theorem admits_of_opened {store : Store}
    (opened : (start host settings disk).outcome = .ok store) (stage : Stage) :
    Admits settings.baseDirectory middle top stage := by
  obtain ⟨root, ready, scene, files, account, index, last, released, passes, ended⟩ :=
    exists_passes opened
  have admits := passes.admits lies ordinary
  obtain ⟨rfl, prepared⟩ := lies.isPrepared passes.prepared
  obtain ⟨-, upgraded, -, -, listed⟩ := ordinary.of_passes prepared passes
  cases stage with
  | directories => exact admits .directories (by simp [Stage.earlier])
  | upgrade => exact admits .upgrade (by simp [Stage.earlier])
  | inventory => exact admits .inventory (by simp [Stage.earlier])
  | replay =>
    obtain ⟨readings, -, decoded, -⟩ := Replay.exists_of_replay (congrArg ReplayResult.outcome ended)
    exact (ordinary.forall_decode_iff prepared upgraded).mp
      ((exists_decoded_iff listed).mp ⟨readings, decoded⟩)

/-- An opening that has failed blames the right stage. -/
theorem blames_of_failed {failure : Failure} (usable : settings.fault? = none)
    (failed : (start host settings disk).outcome = .error failure) :
    Blames settings.baseDirectory middle top failure := by
  have course := course_start host settings disk
  generalize start host settings disk = opening at course failed
  cases course with
  | opened _ _ => cases failed
  | unusable refused =>
    rw [usable] at refused
    cases refused
  | @unprepared cause _ _ ended =>
    obtain rfl := Except.error.inj failed
    refine ⟨.directories, cause, rfl, by simp [Stage.earlier], .inl fun admits => ?_⟩
    obtain ⟨ready, prepared⟩ := lies.exists_prepareRoot (fun _ member => (admits.2 _ member).2)
      fun _ member => (admits.2 _ member).1
    rw [prepared] at ended
    cases ended
  | @notUpgraded _ _ cause _ _ done ended =>
    obtain rfl := Except.error.inj failed
    obtain ⟨rfl, prepared⟩ := lies.isPrepared done
    refine ⟨.upgrade, cause, rfl, ?_, .inl (ordinary.of_stopped_upgrade prepared ended).1⟩
    simpa [Stage.earlier] using admits_directories ordinary prepared
  | @notInventoried _ _ _ _ cause _ done upgraded ended =>
    obtain rfl := Except.error.inj failed
    obtain ⟨rfl, prepared⟩ := lies.isPrepared done
    obtain ⟨admits, upgraded⟩ := ordinary.of_upgrade prepared upgraded
    refine ⟨.inventory, cause, rfl, ?_, .inl fun layout => ?_⟩
    · simpa [Stage.earlier] using ⟨admits_directories ordinary prepared, admits⟩
    · obtain ⟨files, taken⟩ := (exists_inventory_iff ordinary prepared _ upgraded).mpr layout
      rw [taken] at ended
      cases ended
  | @interrupted _ _ _ _ cause passes ended =>
    obtain rfl := Except.error.inj failed
    have admits := passes.admits lies ordinary
    obtain ⟨rfl, prepared⟩ := lies.isPrepared passes.prepared
    obtain ⟨usable, upgraded, -, -, listed⟩ := ordinary.of_passes prepared passes
    refine ⟨.replay, cause, rfl, admits, ?_⟩
    -- The replay reads all files before it removes the first one.
    rcases Replay.error_of_replay ended with ⟨unread, -⟩ | ⟨readings, decoded, stopped⟩
    · refine .inl fun reads => ?_
      obtain ⟨readings, decoded⟩ := (exists_decoded_iff listed).mpr
        ((ordinary.forall_decode_iff prepared upgraded).mpr reads)
      rw [decoded] at unread
      cases unread
    · exact .inr ⟨rfl, refusesRemoval_of_discardAll ordinary prepared upgraded
        (fun kind => (usable kind).2) listed decoded stopped⟩

/-- A cache can be opened where every stage admits the tree and all paths are short. -/
theorem exists_opened (host : Host) (usable : settings.fault? = none)
    (admits : ∀ stage, Admits settings.baseDirectory middle top stage)
    (short : ∀ found ∈ Inventory.filesBelow (withoutOld middle top) top,
      ((ofLocation top).join found.path).bytes.length ≤ longestPath) :
    ∃ store, (start host settings disk).outcome = .ok store := by
  cases ended : (start host settings disk).outcome with
  | ok store => exact ⟨store, rfl⟩
  | error failure =>
    obtain ⟨stage, cause, -, -, missed | ⟨-, found, member, long, -⟩⟩ :=
      blames_of_failed lies ordinary usable ended
    · exact absurd (admits stage) missed
    · exact absurd (short found member) (Nat.not_le.mpr long)

/-- Where old files cannot be upgraded, an opening fails before it gets to the replay. -/
theorem exists_failure_of_missing (host : Host) (usable : settings.fault? = none)
    (missing : ¬ Admits settings.baseDirectory middle top .upgrade) :
    ∃ failure, (start host settings disk).outcome = .error failure ∧
      ∀ cause, failure ≠ .startup .replay cause := by
  cases ended : (start host settings disk).outcome with
  | ok store => exact absurd (admits_of_opened lies ordinary ended .upgrade) missing
  | error failure =>
    obtain ⟨stage, cause, rfl, earlier, -⟩ := blames_of_failed lies ordinary usable ended
    refine ⟨_, rfl, fun other same => ?_⟩
    obtain ⟨rfl, -⟩ := Failure.startup.inj same
    exact missing (earlier .upgrade (by simp [Stage.earlier]))

end Verdicts

/-! ## Furnished roots -/

section Furnished

variable {items : List OldNode}

theorem node?_withoutOld_furnished (fits : HasShards top) (furniture : isFurniture items = true)
    {location : Location} {node : Node} :
    (withoutOld (furnished top items) top).node? location = some node ↔
      node = .directory ∧ ∃ shard ∈ shardLocations top, location <+: shard := by
  rw [node?_withoutOld_eq_some_iff, node?_furnished fits furniture]
  constructor
  · rintro ⟨furnishing | ⟨item, member, rfl, -⟩, apart⟩
    · exact furnishing
    · obtain ⟨kind, names, former⟩ := exists_former_of_mem furniture member
      rw [former, ← oldPlace_append] at apart
      exact absurd (List.prefix_append _ _) (apart kind)
  · rintro ⟨rfl, shard, member, above⟩
    refine ⟨.inl ⟨rfl, shard, member, above⟩, fun kind below => ?_⟩
    exact not_oldPlace_prefix_shard member kind (below.trans above)

theorem isLayout_furnished (fits : HasShards top) (furniture : isFurniture items = true) :
    Inventory.IsLayout (withoutOld (furnished top items) top) top ∧
      Inventory.filesBelow (withoutOld (furnished top items) top) top = [] := by
  have found : ∀ {names node},
      (withoutOld (furnished top items) top).node? (top ++ names) = some node →
        node = .directory ∧ ∃ kind : Kind, ∃ shard ∈ Shard.names,
          names <+: [kind.directoryName, nameOf shard] := by
    intro names node held
    obtain ⟨directory, location, member, above⟩ :=
      (node?_withoutOld_furnished fits furniture).mp held
    obtain ⟨kind, shard, isShard, rfl⟩ := mem_shardLocations.mp member
    exact ⟨directory, kind, shard, isShard, (List.prefix_append_right_inj _).mp above⟩
  refine ⟨⟨fun held => ?_, fun held => ?_, fun held => ?_⟩, ?_⟩
  · obtain ⟨directory, kind, shard, -, above⟩ := found held
    exact ⟨directory, kind, (List.cons_prefix_cons.mp above).1.symm⟩
  · obtain ⟨directory, kind, shard, isShard, above⟩ := found held
    obtain ⟨-, last⟩ := List.cons_prefix_cons.mp above
    exact ⟨directory,
      Shard.isNodeName_iff.mpr ⟨shard, isShard, (List.cons_prefix_cons.mp last).1.symm⟩⟩
  · obtain ⟨-, kind, shard, -, above⟩ := found held
    exact absurd above.length_le (by simp)
  · refine Inventory.filesBelow_eq_nil fun kindName shardName name size accessed held => ?_
    cases (found held).1

theorem isOrdinary_furnished (fits : HasShards top) (furniture : isFurniture items = true)
    (directories : ∀ item ∈ items, item.directory = [] → item.node = .directory)
    (single : ((items.filter fun item => item.node.isFile).map fun item =>
      item.names.head?).Nodup) :
    (furnished top items).locate (tenBytes top).baseDirectory = .ok top ∧
      (furnished top items).node? top = some .directory ∧ IsOrdinary (furnished top items) top ∧
        Admits (tenBytes top).baseDirectory (furnished top items) top .directories := by
  have held : (furnished top items).node? top = some .directory :=
    (node?_furnished fits furniture).mpr (.inl ⟨rfl, exists_prefix_shardLocation top⟩)
  have upgradable := isUpgradable_furnished fits furniture (Disk.leadsTo_ofLocation held)
    directories single
  have shards := upgradable.stands.shards
  have located := Disk.locate_of_directory held (Nat.le_trans (Nat.le_add_right _ _) fits.room)
  have kinds : ∀ kind : Kind,
      (furnished top items).node? (top ++ [kind.directoryName]) = some .directory := fun kind =>
    Disk.directory_of_prefix (shards _ (firstShard_mem top kind)) (by simp) (by simp)
  refine ⟨located, held, ⟨upgradable.former, ?_, ?_, upgradable.room⟩,
    (liesAt_of_locate located held).form, fun location member =>
      ⟨Disk.clear_of_node? (shards location member), short_of_room fits.room member⟩⟩
  · intro kind target link
    rw [kinds kind] at link
    cases link
  · intro location member target link
    rw [shards location member] at link
    cases link

theorem admits_furnished (fits : HasShards top) (furniture : isFurniture items = true)
    (directories : Admits base (furnished top items) top .directories)
    (usable : Admits base (furnished top items) top .upgrade) (stage : Stage) :
    Admits base (furnished top items) top stage := by
  obtain ⟨layout, nothing⟩ := isLayout_furnished fits furniture
  cases stage with
  | directories => exact directories
  | upgrade => exact usable
  | inventory => exact layout
  | replay => simp [Admits, nothing]

theorem isOrdinary_oddShard :
    (furnished [] oddShard).locate (tenBytes []).baseDirectory = .ok [] ∧
      (furnished [] oddShard).node? [] = some .directory ∧
      IsOrdinary (furnished [] oddShard) [] ∧
      Admits (tenBytes []).baseDirectory (furnished [] oddShard) [] .directories ∧
      ¬ Admits (tenBytes []).baseDirectory (furnished [] oddShard) [] .upgrade := by
  have fits : HasShards [] := ⟨by simp, by decide⟩
  have furniture : isFurniture oddShard = true := by decide +kernel
  obtain ⟨located, held, ordinary, admits⟩ := isOrdinary_furnished fits furniture
    (by decide +kernel) (by decide +kernel)
  refine ⟨located, held, ordinary, admits, fun usable => ?_⟩
  have found := (node?_furnished_old fits furniture .content [[0x78], [0x21]]).mpr
    ⟨_, List.mem_cons_self, rfl, rfl⟩
  exact absurd ((usable .content).1 found).2 (by decide)

end Furnished

/-! ## The first stage that misses something -/

/-- Whether the tree below a root is well formed, whatever paths the system takes. -/
structure IsSound (disk : Disk) (top : Location) : Prop where
  ordinary : IsOrdinary disk top
  clear : ∀ location ∈ shardLocations top, disk.Clear location
  clean : ∀ kind, IsClean disk top kind
  layout : Inventory.IsLayout (withoutOld disk top) top
  readable : ∀ found ∈ Inventory.filesBelow (withoutOld disk top) top, ∃ reading,
    Replay.decode found = .ok reading

theorem isSound_flatContent (fits : HasShards top) :
    LiesAt (tenBytes top).baseDirectory (furnished top flatContent) (furnished top flatContent)
        top ∧
      (furnished top flatContent).LeadsTo (tenBytes top).baseDirectory top ∧
      IsSound (furnished top flatContent) top := by
  obtain ⟨located, held, ordinary, admits⟩ := isOrdinary_furnished fits isFurniture_flatContent
    (by decide +kernel) (by decide +kernel)
  obtain ⟨layout, nothing⟩ := isLayout_furnished fits isFurniture_flatContent
  refine ⟨liesAt_of_locate located held, (Disk.leadsTo_of_locate held located).1, ordinary,
    fun location member => (admits.2 location member).1, isClean_flatContent fits, layout, ?_⟩
  rw [nothing]
  simp

/-- Where a root is so deep that no file below it has a path the system takes. -/
def deepLocation : Location := List.replicate 16 (List.replicate 251 0x61)

theorem hasShards_deepLocation : HasShards deepLocation := by
  refine ⟨fun name member => ?_, by decide +kernel⟩
  obtain rfl := List.eq_of_mem_replicate member
  exact isPlainName_iff.mp (by decide +kernel)

theorem not_acceptsPaths_deep {kind : Kind} {target : List Name}
    (old : IsOldFile disk deepLocation kind
      [nameOf kind.formerDirectory, nameOf firstDigest.text] target) :
    ¬ AcceptsPaths disk (ofLocation deepLocation) deepLocation kind := by
  intro accepts
  have short := length_le_of_checkForm (accepts.files old).1
  have long : longestPath < (DiskPath.below (ofLocation deepLocation)
      [nameOf kind.formerDirectory, nameOf firstDigest.text]).bytes.length := by
    cases kind <;> decide +kernel
  omega

/-- Settings with more removals at once than a semaphore has permits. -/
def manyRemovals : Settings :=
  { tenBytes [] with maxRemovals := 2305843009213693952 }

/-- Settings that spell the top of the disk with more slashes than the system takes. -/
def slashedTop : Settings :=
  { tenBytes [] with baseDirectory := (ofLocation []).padded longestPath }

theorem panicked_manyRemovals (host : Host) (disk : Disk) :
    ∃ message, launch host manyRemovals disk = .panicked message :=
  (exists_panicked_iff (by decide +kernel)).mpr (by decide +kernel)

theorem start_slashedTop (host : Host) (disk : Disk) (store : Store) :
    (start host slashedTop disk).outcome ≠ .ok store := by
  have form : slashedTop.baseDirectory.checkForm = .error .nameTooLong := by decide +kernel
  rw [start_of_refused host disk (by decide +kernel) form]
  intro opened
  cases opened

theorem start_deep_flatContent (host : Host) (store : Store) :
    (start host (tenBytes deepLocation) (furnished deepLocation flatContent)).outcome ≠
      .ok store := by
  intro opened
  have fits := hasShards_deepLocation
  obtain ⟨lies, -, sound⟩ := isSound_flatContent fits
  have admits := admits_of_opened lies sound.ordinary opened .upgrade
  exact not_acceptsPaths_deep (isOldFile_flatContent fits) (admits .content).2

end Store

end ArtifactCache
