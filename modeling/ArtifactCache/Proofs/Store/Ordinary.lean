import ArtifactCache.Proofs.Store.Opening
import ArtifactCache.Proofs.Upgrade.Copies

/-! # Ordinary roots

A root is ordinary if nothing odd stands where an opening is going to put files: no link takes
the place of a kind or of a shard, former directories are directories, and all old files have
room.  Then an opening that has prepared the root can upgrade it, and what the disk holds after
that can be told from what it held before: the current layout of before, the missing shards, and
the old files at their new places.
-/

namespace ArtifactCache

open DiskPath Upgrade

/-- Whether nothing odd stands where an opening of the cache at a location puts files. -/
structure IsOrdinary (disk : Disk) (top : Location) : Prop where
  former : ∀ kind, disk.node? (oldPlace top kind) = none ∨
    disk.node? (oldPlace top kind) = some .directory
  kinds : ∀ (kind : Kind) target, disk.node? (top ++ [kind.directoryName]) ≠ some (.link target)
  shards : ∀ location ∈ shardLocations top, ∀ target, disk.node? location ≠ some (.link target)
  room : ∀ kind, HasRoom disk top kind

/-- Whether no two files below a location have been accessed at the same time. -/
def HasDistinctAccesses (disk : Disk) (top : Location) : Prop :=
  ∀ {names names' : Location} {size size' : UInt64} {accessed : Instant},
    disk.node? (top ++ names) = some (.file size accessed) →
      disk.node? (top ++ names') = some (.file size' accessed) → names = names'

variable {base : DiskPath} {disk middle ready after : Disk} {top location : Location} {kind : Kind}
  {source target : List Name} {node : Node}

theorem hasDistinctAccesses_of_place (place : Instant → Location)
    (placed : ∀ {names size accessed},
      disk.node? (top ++ names) = some (.file size accessed) → names = place accessed) :
    HasDistinctAccesses disk top := by
  intro names names' size size' accessed held held'
  rw [placed held, placed held']

theorem HasDistinctAccesses.mono {part : Disk} (distinct : HasDistinctAccesses disk top)
    (sub : ∀ {location node}, part.node? location = some node →
      disk.node? location = some node) : HasDistinctAccesses part top :=
  fun held held' => distinct (sub held) (sub held')

theorem HasDistinctAccesses.nodup (distinct : HasDistinctAccesses disk top) :
    ((Inventory.filesBelow disk top).map FoundFile.accessed).Nodup := by
  refine List.Nodup.map_on ?_ (List.Nodup.of_map _ (Inventory.nodup_filesBelow disk top))
  intro found member found' member' same
  obtain ⟨kindName, shardName, name, held, path⟩ := Inventory.mem_filesBelow.mp member
  obtain ⟨kindName', shardName', name', held', path'⟩ := Inventory.mem_filesBelow.mp member'
  rw [← same] at held'
  have names := distinct held held'
  rw [← names] at held' path'
  obtain ⟨size, -⟩ := Node.file.inj (Option.some.inj (held.symm.trans held'))
  cases found
  cases found'
  simp_all

/-! ## Without the former directories -/

theorem node?_withoutOld_eq_some_iff : (withoutOld disk top).node? location = some node ↔
    disk.node? location = some node ∧ ∀ kind, ¬ oldPlace top kind <+: location := by
  by_cases below : ∃ kind, oldPlace top kind <+: location
  · obtain ⟨kind, names, rfl⟩ := below
    rw [node?_withoutOld_of_old]
    constructor
    · intro absent
      cases absent
    · exact fun ⟨_, apart⟩ => absurd (List.prefix_append _ _) (apart kind)
  · have apart := not_exists.mp below
    rw [node?_withoutOld_of_other apart]
    exact ⟨fun found => ⟨found, apart⟩, And.left⟩

/-- After an upgrade there is what has not been in the former directories, and each old file at
its new place. -/
theorem Upgrade.IsUpgraded.node?_eq_some_iff (upgraded : IsUpgraded disk top Kind.all after)
    (room : ∀ kind, HasRoom disk top kind) : after.node? location = some node ↔
      (withoutOld disk top).node? location = some node ∨
        ∃ kind source target, IsOldFile disk top kind source target ∧
          location = top ++ target ∧ disk.node? (top ++ source) = some node := by
  constructor
  · intro found
    by_cases isTarget : ∃ kind source target, IsOldFile disk top kind source target ∧
        location = top ++ target
    · obtain ⟨kind, source, target, old, rfl⟩ := isTarget
      rw [upgraded.moved kind kind.mem_all old] at found
      exact .inr ⟨kind, source, target, old, rfl, found⟩
    · have apart : ∀ kind, ¬ oldPlace top kind <+: location := by
        rintro kind ⟨names, rfl⟩
        rw [upgraded.gone kind kind.mem_all] at found
        cases found
      refine .inl (node?_withoutOld_eq_some_iff.mpr ⟨?_, apart⟩)
      rwa [upgraded.kept] at found
      intro kind _
      refine ⟨apart kind, fun source target old same => ?_⟩
      exact isTarget ⟨kind, source, target, old, same⟩
  · rintro (kept | ⟨kind, source, target, old, rfl, held⟩)
    · obtain ⟨found, apart⟩ := node?_withoutOld_eq_some_iff.mp kept
      exact upgraded.node?_of_apart (fun kind _ => room kind) found fun kind _ => apart kind
    · exact (upgraded.moved kind kind.mem_all old).trans held

theorem Upgrade.IsOldFile.isFile (old : IsOldFile disk top kind source target)
    (found : disk.node? (top ++ source) = some node) : node.isFile = true := by
  obtain ⟨size, accessed, held⟩ := old.held
  rw [held] at found
  obtain rfl := Option.some.inj found
  rfl

/-! ## Layouts -/

/-- What an upgrade moves into the current layout belongs there. -/
theorem Upgrade.IsUpgraded.isLayout_iff (upgraded : IsUpgraded disk top Kind.all after)
    (room : ∀ kind, HasRoom disk top kind) :
    Inventory.IsLayout after top ↔ Inventory.IsLayout (withoutOld disk top) top := by
  constructor
  · intro layout
    exact layout.mono fun found => (upgraded.node?_eq_some_iff room).mpr (.inl found)
  · intro layout
    -- The targets of the moves are three names long.
    have upper : ∀ {names : Location} {node}, names.length < 3 →
        after.node? (top ++ names) = some node →
          (withoutOld disk top).node? (top ++ names) = some node := by
      intro names node few found
      rcases (upgraded.node?_eq_some_iff room).mp found with
        kept | ⟨kind, source, target, old, same, -⟩
      · exact kept
      · obtain ⟨digest, name, -, rfl⟩ := old.moves.exists_target
        rw [List.append_cancel_left same] at few
        exact absurd few (Nat.lt_irrefl 3)
    refine ⟨fun found => layout.kinds (upper (by simp) found),
      fun found => layout.shards (upper (by simp) found), fun found => ?_⟩
    rcases (upgraded.node?_eq_some_iff room).mp found with
      kept | ⟨kind, source, target, old, -, held⟩
    · exact layout.files kept
    · exact old.isFile held

/-! ## Readings of moved files -/

/-- A file that has been moved into the current layout can be read there. -/
theorem Upgrade.MovesTo.exists_decode (moves : MovesTo kind source target) {found : FoundFile}
    (path : found.path = ofNames target) : ∃ reading, Replay.decode found = .ok reading := by
  obtain ⟨copy, location, size, -⟩ := moves.exists_copy Disk.empty [] found.size found.accessed
  have read := copy.readPlace_entry
  rw [Entry.place_eq_ofNames, location, size, ← path] at read
  exact ⟨_, by rw [Replay.decode, read]⟩

/-! ## Prepared roots -/

theorem IsOrdinary.noLinks (ordinary : IsOrdinary disk top)
    (held : disk.node? top = some .directory) :
    ∀ location ∈ shardLocations top, disk.NoLinks location := by
  intro location member
  have shard := ordinary.shards location member
  obtain ⟨kind, name, -, rfl⟩ := mem_shardLocations.mp member
  exact noLinks_shard held (ordinary.kinds kind) shard

section Prepared

variable (ordinary : IsOrdinary middle top) (prepared : Store.IsPrepared base disk middle top ready)

include ordinary prepared

theorem IsOrdinary.node?_ready (other : Location) : ready.node? other =
    if ∃ location ∈ shardLocations top, other <+: location then some .directory
    else middle.node? other :=
  prepared.nodes (prepared.clear (ordinary.noLinks prepared.held)) other

theorem IsOrdinary.sameOld (kind : Kind) : SameOld middle ready top kind := by
  intro names
  rw [ordinary.node?_ready prepared, if_neg]
  rintro ⟨location, member, below⟩
  exact not_oldPlace_prefix_shard member kind ((List.prefix_append _ _).trans below)

theorem IsOrdinary.hasRoom (kind : Kind) : HasRoom ready top kind := by
  have same := ordinary.sameOld prepared kind
  have room := ordinary.room kind
  refine ⟨fun {source target} old => ?_, fun {source source' target} old old' =>
    room.distinct (same.isOldFile_iff.mp old) (same.isOldFile_iff.mp old')⟩
  rw [ordinary.node?_ready prepared, if_neg, room.free (same.isOldFile_iff.mp old)]
  -- The place of a file lies deeper than the shards.
  obtain ⟨digest, name, -, rfl⟩ := old.moves.exists_target
  rintro ⟨location, member, below⟩
  obtain ⟨other, shard, -, rfl⟩ := mem_shardLocations.mp member
  simpa using below.length_le

theorem IsOrdinary.isUpgradable : IsUpgradable ready (ofLocation top) top where
  stands :=
    { leads := Disk.leadsTo_ofLocation (prepared.grows.node? prepared.held)
      shards := fun location member => by
        rw [ordinary.node?_ready prepared, if_pos ⟨location, member, List.prefix_rfl⟩] }
  former kind := by
    have same := ordinary.sameOld prepared kind []
    rw [List.append_nil] at same
    rw [same]
    exact ordinary.former kind
  room := ordinary.hasRoom prepared

theorem IsOrdinary.standsApart :
    StandsApart (withoutOld ready top) ready (ofLocation top) top := by
  apply (ordinary.isUpgradable prepared).standsApart
  apply Disk.leadsTo_ofLocation
  rw [node?_withoutOld_eq_some_iff]
  refine ⟨prepared.grows.node? prepared.held, fun kind above => ?_⟩
  exact absurd above.length_le (by simp [oldPlace])

/-! ## The upgrade of a prepared root -/

variable {host : Host} {workers : Nat} {scene : Scene}

/-- An upgrade that succeeds has found what it needs on the disk as it was. -/
theorem IsOrdinary.of_upgrade {summary : UpgradeSummary}
    (upgraded : upgrade host workers (ofLocation top) ready = (.ok summary, scene)) :
    (∀ kind, IsClean middle top kind ∧ AcceptsPaths middle (ofLocation top) top kind) ∧
      IsUpgraded ready top Kind.all scene.disk := by
  obtain ⟨outcome, last, result, verdict⟩ := exists_upgrade host workers
    (ordinary.isUpgradable prepared) (ordinary.standsApart prepared)
  obtain ⟨rfl, rfl⟩ := Prod.mk.inj (result.symm.trans upgraded)
  refine ⟨fun kind => ?_, verdict.upgraded⟩
  obtain ⟨clean, accepts⟩ := verdict.usable kind kind.mem_all
  have same := (ordinary.sameOld prepared kind).symm
  exact ⟨same.isClean clean, same.acceptsPaths accepts⟩

/-- An upgrade that fails has missed something on the disk as it was. -/
theorem IsOrdinary.of_stopped_upgrade {failure : Failure}
    (stopped : upgrade host workers (ofLocation top) ready = (.error failure, scene)) :
    ¬ (∀ kind, IsClean middle top kind ∧ AcceptsPaths middle (ofLocation top) top kind) ∧
      OneFails ready (ofLocation top) top Kind.all failure scene.disk := by
  obtain ⟨outcome, last, result, verdict⟩ := exists_upgrade host workers
    (ordinary.isUpgradable prepared) (ordinary.standsApart prepared)
  obtain ⟨rfl, rfl⟩ := Prod.mk.inj (result.symm.trans stopped)
  refine ⟨fun usable => verdict.not_usable (by decide) fun kind _ => ?_, verdict⟩
  obtain ⟨clean, accepts⟩ := usable kind
  have same := ordinary.sameOld prepared kind
  exact ⟨same.isClean clean, same.acceptsPaths accepts⟩

/-- The stages in front of the replay leave the upgraded root, and list its files. -/
theorem IsOrdinary.of_passes {settings : Settings} {files : List FoundFile}
    (passes : Store.Passes host settings disk (ofLocation top) ready scene files) :
    (∀ kind, IsClean middle top kind ∧ AcceptsPaths middle (ofLocation top) top kind) ∧
      IsUpgraded ready top Kind.all scene.disk ∧ scene.disk.node? top = some .directory ∧
        Inventory.IsLayout scene.disk top ∧
          files.Perm (Inventory.filesBelow scene.disk top) := by
  obtain ⟨summary, upgraded⟩ := passes.upgraded
  obtain ⟨usable, upgraded⟩ := ordinary.of_upgrade prepared upgraded
  obtain ⟨other, same, held, layout, listed, -⟩ := passes.exists_layout
  obtain rfl := ofLocation_injective prepared.plain (Disk.isPlain_of_node? held) same
  exact ⟨usable, upgraded, held, layout, listed⟩

/-! ## What the inventory finds -/

theorem IsOrdinary.node?_withoutOld_ready (other : Location) :
    (withoutOld ready top).node? other =
      if ∃ location ∈ shardLocations top, other <+: location then some .directory
      else (withoutOld middle top).node? other := by
  by_cases below : ∃ kind, oldPlace top kind <+: other
  · obtain ⟨kind, names, rfl⟩ := below
    rw [node?_withoutOld_of_old, node?_withoutOld_of_old, if_neg]
    rintro ⟨location, member, above⟩
    exact not_oldPlace_prefix_shard member kind ((List.prefix_append _ _).trans above)
  · rw [node?_withoutOld_of_other (not_exists.mp below),
      node?_withoutOld_of_other (not_exists.mp below), ordinary.node?_ready prepared]

/-- The upgraded root has the layout of a cache exactly if nothing foreign was there beside the
former directories. -/
theorem IsOrdinary.isLayout_iff (upgraded : IsUpgraded ready top Kind.all after) :
    Inventory.IsLayout after top ↔ Inventory.IsLayout (withoutOld middle top) top := by
  rw [upgraded.isLayout_iff (ordinary.hasRoom prepared)]
  constructor
  · intro layout
    refine layout.mono fun found => ?_
    rw [node?_withoutOld_eq_some_iff] at found ⊢
    exact ⟨prepared.grows.node? found.1, found.2⟩
  · intro layout
    exact (Store.isLayout_prepared layout (ordinary.node?_withoutOld_ready prepared)).1

/-- The files below an upgraded root are those that were there beside the former directories, and
the old files at their new places. -/
theorem IsOrdinary.node?_eq_file_iff (upgraded : IsUpgraded ready top Kind.all after)
    {size : UInt64} {accessed : Instant} : after.node? location = some (.file size accessed) ↔
      (withoutOld middle top).node? location = some (.file size accessed) ∨
        ∃ kind source target, MovesTo kind source target ∧ location = top ++ target ∧
          middle.node? (top ++ source) = some (.file size accessed) := by
  rw [upgraded.node?_eq_some_iff (ordinary.hasRoom prepared)]
  have files : ∀ {location}, ready.node? location = some (.file size accessed) ↔
      middle.node? location = some (.file size accessed) :=
    ⟨prepared.grows.of_file rfl, prepared.grows.node?⟩
  simp only [node?_withoutOld_eq_some_iff, files]
  refine or_congr_right ?_
  constructor
  · rintro ⟨kind, source, target, old, rfl, held⟩
    exact ⟨kind, source, target, old.moves, rfl, held⟩
  · rintro ⟨kind, source, target, moves, rfl, held⟩
    exact ⟨kind, source, target, ⟨moves, size, accessed, files.mpr held⟩, rfl, held⟩

/-- All files of the upgraded root can be read exactly if those beside the former directories can
be read. -/
theorem IsOrdinary.forall_decode_iff (upgraded : IsUpgraded ready top Kind.all after) :
    (∀ found ∈ Inventory.filesBelow after top, ∃ reading, Replay.decode found = .ok reading) ↔
      ∀ found ∈ Inventory.filesBelow (withoutOld middle top) top, ∃ reading,
        Replay.decode found = .ok reading := by
  simp only [Inventory.mem_filesBelow, ordinary.node?_eq_file_iff prepared upgraded]
  constructor
  · rintro reads found ⟨kindName, shardName, name, held, path⟩
    exact reads found ⟨kindName, shardName, name, .inl held, path⟩
  · rintro reads found ⟨kindName, shardName, name, held | ⟨kind, source, target, moves, same, -⟩,
      path⟩
    · exact reads found ⟨kindName, shardName, name, held, path⟩
    · rw [← List.append_cancel_left same] at moves
      exact moves.exists_decode path

/-- An upgrade does not bring about that two files have been accessed at the same time. -/
theorem IsOrdinary.hasDistinctAccesses (upgraded : IsUpgraded ready top Kind.all after)
    (distinct : HasDistinctAccesses middle top) : HasDistinctAccesses after top := by
  intro names names' size size' accessed found found'
  rw [ordinary.node?_eq_file_iff prepared upgraded] at found found'
  -- A file of the current layout and an old file have been two files from the start.
  have apart : ∀ {kind source target names size size'}, MovesTo kind source target →
      (withoutOld middle top).node? (top ++ names) = some (.file size accessed) →
        middle.node? (top ++ source) ≠ some (.file size' accessed) := by
    intro kind source target names size size' moves kept moved
    obtain ⟨held, outside⟩ := node?_withoutOld_eq_some_iff.mp kept
    obtain rfl := distinct held moved
    exact outside kind (moves.oldPlace_prefix top)
  rcases found with kept | ⟨kind, source, target, moves, same, moved⟩
  · rcases found' with kept' | ⟨kind, source, target, moves, -, moved⟩
    · exact distinct (node?_withoutOld_eq_some_iff.mp kept).1
        (node?_withoutOld_eq_some_iff.mp kept').1
    · exact absurd moved (apart moves kept)
  · rcases found' with kept | ⟨kind', source', target', moves', same', moved'⟩
    · exact absurd moved (apart moves kept)
    · obtain rfl := distinct moved moved'
      obtain rfl := kind_eq_of_above (moves.oldPlace_prefix top) (moves'.oldPlace_prefix top)
      obtain rfl := moves.target_eq moves'
      exact List.append_cancel_left (same.trans same'.symm)

end Prepared

end ArtifactCache
