import ArtifactCache.Proofs.Settings.Precedence
import ArtifactCache.Proofs.Store.Contents
import ArtifactCache.Proofs.Store.Upgrade

/-! # The stages of opening a cache

A cache is open exactly if all stages have succeeded, each on the disk that the stage
before it has left.  What the replay releases is then queued for the sweeper.
-/

namespace ArtifactCache.Store

open DiskPath

variable {host : Host} {settings : Settings} {disk ready : Disk} {root : DiskPath}
  {scene : Upgrade.Scene} {files : List FoundFile}

/-- Whether the stages in front of the replay succeed, with the root that they find, what
the upgrade leaves, and the files of the inventory. -/
structure Passes (host : Host) (settings : Settings) (disk : Disk) (root : DiskPath)
    (ready : Disk) (scene : Upgrade.Scene) (files : List FoundFile) : Prop where
  usable : settings.fault? = none
  prepared : prepareRoot settings.baseDirectory disk = (.ok root, ready)
  upgraded : ∃ summary, upgrade host (settings.effectiveUpgradeWorkers host.width) root ready =
    (.ok summary, scene)
  inventoried : (inventory host (settings.effectiveInventoryWorkers host.width) root
    scene.disk).outcome = .ok files

theorem queue_queueReleased (root : DiskPath) (sweeper : Sweeper) (released : List Entry) :
    (queueReleased root sweeper released).queue =
      sweeper.queue ++ released.map fun entry => pathUnder root entry.1 entry.2 := by
  induction released generalizing sweeper with
  | nil => rw [List.map_nil, List.append_nil]; rfl
  | cons entry rest ih =>
    rw [queueReleased, List.foldl_cons, ← queueReleased, ih, Sweeper.request, List.map_cons,
      List.append_assoc, List.singleton_append]

/-- The opening that a failed stage leaves behind, if it has not queued any removals. -/
def failed (settings : Settings) (stage : Stage) (cause : Failure) (disk : Disk)
    (notices : List Notice) : Opening where
  outcome := .error (.startup stage cause)
  disk := disk
  notices := notices
  released := []
  orphaned := .create settings.maxRemovals

def ended (settings : Settings) (root : DiskPath) (notices : List Notice)
    (result : ReplayResult) : Opening :=
  let queued := queueReleased root (.create settings.maxRemovals) result.released
  match result.outcome with
  | .error failure =>
    { failed settings .replay failure result.disk notices with
      released := result.released, orphaned := queued }
  | .ok account =>
    { outcome := .ok { root, index := result.index, replayed := account, sweeper := queued }
      disk := result.disk
      notices
      released := result.released
      orphaned := .create settings.maxRemovals }

theorem Passes.start_eq_ended (passes : Passes host settings disk root ready scene files) :
    start host settings disk = ended settings root scene.notices
      (replay root files (.empty settings.maxSize) scene.disk) := by
  obtain ⟨usable, prepared, ⟨summary, upgraded⟩, inventoried⟩ := passes
  have same := Inventory.state_inventory host (settings.effectiveInventoryWorkers host.width) root
    scene.disk
  unfold start
  simp only [usable, prepared, upgraded]
  cases report : inventory host (settings.effectiveInventoryWorkers host.width) root scene.disk with
  | mk outcome state =>
    rw [report] at inventoried same
    dsimp only at inventoried same
    subst inventoried same
    rfl

theorem Passes.start_eq (passes : Passes host settings disk root ready scene files)
    {account : ReplaySummary} {index : Index} {last : Disk} {released : List Entry}
    (replayed : replay root files (.empty settings.maxSize) scene.disk =
      { outcome := .ok account, index, disk := last, released }) :
    start host settings disk =
      { outcome := .ok
          { root, index, replayed := account
            sweeper := queueReleased root (.create settings.maxRemovals) released }
        disk := last
        notices := scene.notices
        released
        orphaned := .create settings.maxRemovals } := by
  rw [passes.start_eq_ended, replayed]
  rfl

/-- Where the system does not take the path of the base directory, an opening ends at once. -/
theorem start_of_refused (host : Host) (disk : Disk) {fault : Fault}
    (usable : settings.fault? = none)
    (refused : settings.baseDirectory.checkForm = .error fault) :
    start host settings disk = failed settings .directories
      (.disk settings.baseDirectory "create cache directory" fault) disk [] := by
  have nonempty := (Settings.fault?_eq_none_iff.mp usable).baseDirectory
  have prepared : prepareRoot settings.baseDirectory disk = _ :=
    prepareRoot_of_refused nonempty refused
  simp only [start, usable, prepared]
  rfl

/-- How an opening can go.  The first stage that fails ends it. -/
inductive Course (host : Host) (settings : Settings) (disk : Disk) : Opening → Prop
  | unusable {fault} (refused : settings.fault? = some fault) :
    Course host settings disk
      { outcome := .error (.ofSettings fault), disk, notices := [], released := []
        orphaned := .create settings.maxRemovals }
  | unprepared {cause ready} (usable : settings.fault? = none)
      (ended : prepareRoot settings.baseDirectory disk = (.error cause, ready)) :
    Course host settings disk (failed settings .directories cause ready [])
  | notUpgraded {root ready cause scene} (usable : settings.fault? = none)
      (prepared : prepareRoot settings.baseDirectory disk = (.ok root, ready))
      (ended : upgrade host (settings.effectiveUpgradeWorkers host.width) root ready =
        (.error cause, scene)) :
    Course host settings disk (failed settings .upgrade cause scene.disk scene.notices)
  | notInventoried {root ready summary scene cause} (usable : settings.fault? = none)
      (prepared : prepareRoot settings.baseDirectory disk = (.ok root, ready))
      (upgraded : upgrade host (settings.effectiveUpgradeWorkers host.width) root ready =
        (.ok summary, scene))
      (ended : (inventory host (settings.effectiveInventoryWorkers host.width) root
        scene.disk).outcome = .error cause) :
    Course host settings disk (failed settings .inventory cause scene.disk scene.notices)
  | interrupted {root ready scene files cause}
      (passes : Passes host settings disk root ready scene files)
      (ended : (replay root files (.empty settings.maxSize) scene.disk).outcome = .error cause) :
    Course host settings disk
      { failed settings .replay cause
          (replay root files (.empty settings.maxSize) scene.disk).disk scene.notices with
        released := (replay root files (.empty settings.maxSize) scene.disk).released
        orphaned := queueReleased root (.create settings.maxRemovals)
          (replay root files (.empty settings.maxSize) scene.disk).released }
  | opened {root ready scene files account index last released}
      (passes : Passes host settings disk root ready scene files)
      (ended : replay root files (.empty settings.maxSize) scene.disk =
        { outcome := .ok account, index, disk := last, released }) :
    Course host settings disk
      { outcome := .ok
          { root, index, replayed := account
            sweeper := queueReleased root (.create settings.maxRemovals) released }
        disk := last
        notices := scene.notices
        released
        orphaned := .create settings.maxRemovals }

theorem course_start (host : Host) (settings : Settings) (disk : Disk) :
    Course host settings disk (start host settings disk) := by
  unfold start
  cases usable : settings.fault? with
  | some fault => exact .unusable usable
  | none =>
    dsimp only
    cases prepared : prepareRoot settings.baseDirectory disk with
    | mk outcome ready =>
      cases outcome with
      | error cause => exact .unprepared usable prepared
      | ok root =>
        dsimp only
        cases upgraded : upgrade host (settings.effectiveUpgradeWorkers host.width) root ready with
        | mk outcome scene =>
          cases outcome with
          | error cause => exact .notUpgraded usable prepared upgraded
          | ok summary =>
            have same := Inventory.state_inventory host
              (settings.effectiveInventoryWorkers host.width) root scene.disk
            dsimp only
            cases report : inventory host (settings.effectiveInventoryWorkers host.width) root
                scene.disk with
            | mk outcome state =>
              rw [report] at same
              dsimp only at same
              subst same
              cases outcome with
              | error cause => exact .notInventoried usable prepared upgraded (by rw [report])
              | ok files =>
                have passes : Passes host settings disk root ready scene files :=
                  ⟨usable, prepared, ⟨summary, upgraded⟩, by rw [report]⟩
                dsimp only
                cases ended : (replay root files (.empty settings.maxSize) scene.disk).outcome with
                | error cause => exact .interrupted passes ended
                | ok account => exact .opened passes (by rw [← ended])

theorem exists_passes {store : Store} (opened : (start host settings disk).outcome = .ok store) :
    ∃ root ready scene files account index last released,
      Passes host settings disk root ready scene files ∧
        replay root files (.empty settings.maxSize) scene.disk =
          { outcome := .ok account, index, disk := last, released } := by
  have course := course_start host settings disk
  generalize start host settings disk = opening at opened course
  cases course with
  | opened passes ended => exact ⟨_, _, _, _, _, _, _, _, passes, ended⟩
  | _ => cases opened

/-- In front of the replay the root is a directory with the layout of a cache, all files have been
listed, and the paths of the shards are not too long. -/
theorem Passes.exists_layout (passes : Passes host settings disk root ready scene files) :
    ∃ top, root = ofLocation top ∧ scene.disk.node? top = some .directory ∧
      Inventory.IsLayout scene.disk top ∧ files.Perm (Inventory.filesBelow scene.disk top) ∧
      ∀ location ∈ shardLocations top, (ofLocation location).bytes.length ≤ longestPath := by
  obtain ⟨top, rfl, ⟨node, found, noLink⟩, -, short⟩ := exists_of_prepareRoot passes.prepared
  obtain ⟨summary, upgraded⟩ := passes.upgraded
  have held := Upgrade.node?_of_upgrade found noLink upgraded
  obtain ⟨layout, -, listed⟩ :=
    Inventory.layout_of_inventory (Disk.leadsTo_ofLocation held) passes.inventoried
  exact ⟨top, rfl, held, layout, listed, short⟩

/-! ## Roots where all stages succeed -/

section Layout

variable {top : Location}

/-- Whether a cache can be opened at a location: the ways to all shards are free and not too
long, and what lies below has the layout. -/
structure IsReady (disk : Disk) (top : Location) : Prop where
  plain : ∀ name ∈ top, IsPlain name
  clear : ∀ location ∈ shardLocations top, disk.Clear location
  short : ∀ location ∈ shardLocations top, (ofLocation location).bytes.length ≤ longestPath
  layout : Inventory.IsLayout disk top

theorem IsReady.clearRoot (isReady : IsReady disk top) : disk.Clear top :=
  (isReady.clear _ (firstShard_mem top .action)).above

theorem IsReady.short_former (isReady : IsReady disk top) (kind : Kind) :
    (ofLocation (top ++ [nameOf kind.formerDirectory])).bytes.length ≤ longestPath := by
  have short := short_kind isReady.short kind
  rw [ofLocation_append] at short ⊢
  refine Nat.le_trans (length_child_le (Upgrade.isPlain_formerName kind).single
    kind.isPlain_directoryName.single ?_) short
  cases kind <;> decide +kernel

theorem isLayout_prepared (layout : Inventory.IsLayout disk top)
    (nodes : ∀ other, ready.node? other =
      if ∃ location ∈ shardLocations top, other <+: location then some .directory
      else disk.node? other) :
    Inventory.IsLayout ready top ∧ ∀ kindName shardName name,
      ready.node? (top ++ [kindName, shardName, name]) =
        disk.node? (top ++ [kindName, shardName, name]) := by
  have files : ∀ kindName shardName name,
      ready.node? (top ++ [kindName, shardName, name]) =
        disk.node? (top ++ [kindName, shardName, name]) := by
    intro kindName shardName name
    rw [nodes, if_neg]
    rintro ⟨location, member, beginning⟩
    obtain ⟨kind, shard, -, rfl⟩ := mem_shardLocations.mp member
    have length := beginning.length_le
    simp at length
  refine ⟨⟨fun {name node} found => ?_, fun {kindName name node} found => ?_,
    fun found => layout.files (files _ _ _ ▸ found)⟩, files⟩
  · rw [nodes] at found
    split at found
    · rename_i above
      obtain ⟨location, member, beginning⟩ := above
      obtain ⟨kind, shard, -, rfl⟩ := mem_shardLocations.mp member
      rw [List.prefix_append_right_inj, List.cons_prefix_cons] at beginning
      exact ⟨(Option.some.inj found).symm, kind, beginning.1.symm⟩
    · exact layout.kinds found
  · rw [nodes] at found
    split at found
    · rename_i above
      obtain ⟨location, member, beginning⟩ := above
      obtain ⟨kind, shard, isShard, rfl⟩ := mem_shardLocations.mp member
      rw [List.prefix_append_right_inj, List.cons_prefix_cons, List.cons_prefix_cons] at beginning
      exact ⟨(Option.some.inj found).symm,
        Shard.isNodeName_iff.mpr ⟨shard, isShard, beginning.2.1.symm⟩⟩
    · exact layout.shards found

/-- Once a root has been prepared that is ready, the other stages in front of the replay succeed
too, and the inventory lists the files that were there. -/
theorem exists_passes_of_prepared (host : Host) (usable : settings.fault? = none)
    (isReady : IsReady disk top)
    (prepared : prepareRoot settings.baseDirectory disk = (.ok (ofLocation top), ready))
    (nodes : ∀ other, ready.node? other =
      if ∃ location ∈ shardLocations top, other <+: location then some .directory
      else disk.node? other) :
    ∃ files,
      Passes host settings disk (ofLocation top) ready { disk := ready, notices := [] } files ∧
      files.Perm (Inventory.filesBelow ready top) ∧
      ∀ kindName shardName name, ready.node? (top ++ [kindName, shardName, name]) =
        disk.node? (top ++ [kindName, shardName, name]) := by
  obtain ⟨layout, files⟩ := isLayout_prepared isReady.layout nodes
  have held : ready.node? top = some .directory := by
    rw [nodes, if_pos]
    exact ⟨_, firstShard_mem top .action, List.prefix_append _ _⟩
  have missing : ∀ kind : Kind, ready.node? (top ++ [nameOf kind.formerDirectory]) = none := by
    intro kind
    cases found : ready.node? (top ++ [nameOf kind.formerDirectory]) with
    | none => rfl
    | some node =>
      obtain ⟨-, other, same⟩ := layout.kinds found
      exact absurd same (ne_formerName other kind)
  have scene : Upgrade.HasDirectory top { disk := ready, notices := [] } := held
  have upgraded := Upgrade.upgradeKinds_of_missing host
    (settings.effectiveUpgradeWorkers host.width) Kind.all
    { directories := 0, moved := 0, skipped := 0 } scene missing isReady.short_former
  have leads := Disk.leadsTo_ofLocation held
  obtain ⟨files', inventoried⟩ := Inventory.exists_inventory host
    (settings.effectiveInventoryWorkers host.width) leads layout (layout.takesPaths isReady.short)
  have listed := (Inventory.layout_of_inventory leads inventoried).2.2
  exact ⟨files', ⟨usable, prepared, ⟨_, upgraded⟩, inventoried⟩, listed, files⟩

theorem exists_passes_of_isReady (host : Host) (usable : settings.fault? = none)
    (base : settings.baseDirectory = ofLocation top) (isReady : IsReady disk top) :
    ∃ ready scene files, Passes host settings disk (ofLocation top) ready scene files ∧
      files.Perm (Inventory.filesBelow scene.disk top) ∧
      ∀ kindName shardName name, scene.disk.node? (top ++ [kindName, shardName, name]) =
        disk.node? (top ++ [kindName, shardName, name]) := by
  obtain ⟨ready, prepared, nodes⟩ := prepareRoot_ofLocation isReady.plain isReady.short
    (short_root isReady.short) isReady.clear isReady.clearRoot
  exact ⟨ready, _, exists_passes_of_prepared host usable isReady (base ▸ prepared) nodes⟩

end Layout

/-! ## Panics -/

theorem exists_panic_iff {limit : UInt64} :
    (∃ message, Sweeper.panic? limit = some message) ↔ Sweeper.mostPermits < limit := by
  have raised : Sweeper.mostPermits < max 1 limit ↔ Sweeper.mostPermits < limit := by
    change Sweeper.mostPermits < (if 1 ≤ limit then limit else 1) ↔ _
    split
    · rfl
    · rename_i zero
      have less := UInt64.lt_trans (UInt64.not_le.mp zero) (by decide : 1 < Sweeper.mostPermits)
      exact ⟨fun high => absurd high (by decide), fun high => absurd high (UInt64.lt_asymm less)⟩
  rw [Sweeper.panic?, ← raised]
  split
  · rename_i many
    exact ⟨fun _ => many, fun _ => ⟨_, rfl⟩⟩
  · rename_i few
    simp only [reduceCtorEq, exists_false, few]

/-- With settings that can be used, an opening panics exactly if the sweeper cannot be made. -/
theorem exists_panicked_iff (usable : settings.fault? = none) :
    (∃ message, launch host settings disk = .panicked message) ↔
      Sweeper.mostPermits < settings.maxRemovals := by
  rw [← exists_panic_iff, launch, usable]
  cases Sweeper.panic? settings.maxRemovals <;> simp

theorem launch_eq_finished_iff {opening : Opening} (usable : settings.fault? = none) :
    launch host settings disk = .finished opening ↔
      settings.maxRemovals ≤ Sweeper.mostPermits ∧ start host settings disk = opening := by
  rw [← UInt64.not_lt, ← exists_panic_iff, launch, usable]
  cases Sweeper.panic? settings.maxRemovals <;> simp

end ArtifactCache.Store
