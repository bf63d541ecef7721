import ArtifactCache.Proofs.Upgrade.Tasks

/-! # The upgrade of one kind

The upgrade of a kind either moves all of its old files and takes the former directory away,
or it fails and has moved some of them.  It succeeds exactly if the system takes all paths
and there is nothing but old files inside the directories in the former directory.
-/

namespace ArtifactCache.Upgrade

open DiskPath

/-! ## What an upgrade depends on -/

/-- Whether the directories inside the former directory of a kind hold nothing but files that
are named by a digest. -/
def IsClean (disk : Disk) (top : Location) (kind : Kind) : Prop :=
  ∀ {directory name node}, disk.node? (oldPlace top kind ++ [directory, name]) = some node →
    (∃ digest : Digest, name = nameOf digest.text) ∧ node.isFile = true

/-- Whether the system takes all paths that the upgrade of a kind uses. -/
structure AcceptsPaths (disk : Disk) (root : DiskPath) (top : Location) (kind : Kind) : Prop where
  former : (oldDirectory root kind).checkForm = .ok ()
  shards : ∀ {name}, disk.node? (oldPlace top kind ++ [name]) = some .directory →
    ((oldDirectory root kind).child name).checkForm = .ok ()
  files : ∀ {source target}, IsOldFile disk top kind source target →
    (root.below source).checkForm = .ok () ∧ (root.below target).checkForm = .ok ()

/-- Whether a node directly inside the former directory is left behind. -/
def isLeft : Name × Node → Bool
  | (_, .directory) => false
  | (name, .file _ _) => (digest? name).isNone
  | (_, .link _) | (_, .pipe) => true

def oldMoves (disk : Disk) (top : Location) (kind : Kind) : List Move :=
  (disk.entries (oldPlace top kind)).flatMap (movesOf disk top kind)

/-- The nodes directly inside the former directory that are left behind. -/
def leftNodes (disk : Disk) (top : Location) (kind : Kind) : List Location :=
  ((disk.entries (oldPlace top kind)).filter isLeft).map fun entry => oldPlace top kind ++ [entry.1]

section Kinds

variable {disk after : Disk} {root : DiskPath} {top : Location} {kind : Kind} {name : Name}
  {node : Node} {move : Move} {failure : Failure}

theorem mem_oldMoves : move ∈ oldMoves disk top kind ↔ ∃ source target,
    IsOldFile disk top kind source target ∧
      move = { source := top ++ source, target := top ++ target } :=
  mem_flatMap_movesOf (.refl _)

theorem checkPaths_eq_ok_iff {source target : DiskPath} :
    checkPaths source target = .ok () ↔ source.checkForm = .ok () ∧ target.checkForm = .ok () := by
  rw [checkPaths]
  cases source.checkForm with
  | error fault => simp [bind, Except.bind]
  | ok _ => simp [bind, Except.bind]

theorem forall_not_refusesMove_iff {source target : DiskPath} :
    (∀ failure, ¬ RefusesMove source target failure) ↔ checkPaths source target = .ok () := by
  cases form : checkPaths source target with
  | error fault =>
    simp only [reduceCtorEq, iff_false, not_forall, not_not]
    exact ⟨_, fault, form, rfl⟩
  | ok _ =>
    simp only [iff_true]
    rintro failure ⟨fault, refused, -⟩
    rw [form] at refused
    cases refused

theorem refusesEntry_of_odd {directory : DiskPath}
    (odd : ¬ ((∃ digest : Digest, name = nameOf digest.text) ∧ node.isFile = true)) :
    RefusesEntry root kind directory (name, node)
      (.upgrade (directory.child name) "unexpected entry in legacy shard" none) := by
  unfold RefusesEntry
  dsimp only
  split
  · rename_i digest size accessed named
    exact absurd ⟨⟨digest, digest?_eq_some_iff.mp named⟩, rfl⟩ odd
  · rfl

/-- A node in an old shard is not refused exactly if it is an old file with paths that the
system takes. -/
theorem forall_not_refusesEntry_iff {directory : DiskPath} :
    (∀ failure, ¬ RefusesEntry root kind directory (name, node) failure) ↔
      ∃ digest : Digest, name = nameOf digest.text ∧ node.isFile = true ∧
        checkPaths (directory.child name) (target root kind digest (tokenInShard kind)) =
          .ok () := by
  by_cases expected : (∃ digest : Digest, name = nameOf digest.text) ∧ node.isFile = true
  · obtain ⟨⟨digest, rfl⟩, isFile⟩ := expected
    cases node with
    | file size accessed =>
      simp only [RefusesEntry, digest?_eq_some_iff.mpr rfl, forall_not_refusesMove_iff]
      constructor
      · exact fun taken => ⟨digest, rfl, rfl, taken⟩
      · rintro ⟨other, same, -, taken⟩
        rw [nameOf_text_injective same] at taken ⊢
        exact taken
    | _ => cases isFile
  · constructor
    · intro well
      exact absurd (refusesEntry_of_odd expected) (well _)
    · rintro ⟨digest, named, isFile, -⟩
      exact absurd ⟨⟨digest, named⟩, isFile⟩ expected

/-- Where no task fails, the nodes in old shards are old files with paths that the system takes. -/
theorem exists_digest_of_not_fails
    (well : ∀ entry ∈ disk.entries (oldPlace top kind), ∀ failure,
      ¬ (planOf disk root top kind entry).fails failure) {shard : Name}
    (found : disk.node? (oldPlace top kind ++ [shard, name]) = some node) :
    ∃ digest : Digest, name = nameOf digest.text ∧ node.isFile = true ∧
      checkPaths (root.below [nameOf kind.formerDirectory, shard, name])
        (root.below (newNames kind digest (tokenInShard kind))) = .ok () := by
  have above : disk.node? (oldPlace top kind ++ [shard]) = some .directory :=
    Disk.directory_of_prefix found (by simp) (by simp)
  have planned := well (shard, .directory) (Disk.mem_entries.mpr above)
  rw [List.append_cons] at found
  have fine := forall_not_refusesEntry_iff.mp fun failure refusal =>
    planned failure (.inr ⟨(name, node), Disk.mem_entries.mpr found, refusal⟩)
  simp only [target_eq_below] at fine
  exact fine

/-- No task of a kind fails exactly if its former directory is clean and the system takes all
paths. -/
theorem forall_not_fails_iff (former : (oldDirectory root kind).checkForm = .ok ()) :
    (∀ entry ∈ disk.entries (oldPlace top kind), ∀ failure,
      ¬ (planOf disk root top kind entry).fails failure) ↔
        IsClean disk top kind ∧ AcceptsPaths disk root top kind := by
  constructor
  · intro well
    refine ⟨fun {directory name node} found => ?_, former, fun {name} held => ?_,
      fun {source target} old => ?_⟩
    · obtain ⟨digest, named, isFile, -⟩ := exists_digest_of_not_fails well found
      exact ⟨⟨digest, named⟩, isFile⟩
    · cases form : ((oldDirectory root kind).child name).checkForm with
      | ok _ => rfl
      | error fault =>
        have planned := well (name, .directory) (Disk.mem_entries.mpr held)
        exact absurd (.inl ⟨fault, form, rfl⟩) (planned _)
    · rw [← checkPaths_eq_ok_iff]
      obtain ⟨moves, size, accessed, found⟩ := old
      cases moves with
      | flat digest =>
        have fine := well (nameOf digest.text, .file size accessed)
          (Disk.mem_entries.mpr (oldPlace_append top kind _ ▸ found))
        simp only [planOf, digest?_eq_some_iff.mpr rfl, forall_not_refusesMove_iff,
          target_eq_below] at fine
        exact fine
      | sharded directory digest =>
        rw [← oldPlace_append] at found
        obtain ⟨other, same, -, taken⟩ := exists_digest_of_not_fails well found
        rwa [← nameOf_text_injective same, tokenInShard_eq] at taken
  · rintro ⟨clean, accepts⟩ ⟨name, node⟩ member
    have held := Disk.mem_entries.mp member
    cases node with
    | directory =>
      rintro failure (⟨fault, refused, -⟩ | ⟨⟨other, node⟩, entry, refusal⟩)
      · rw [accepts.shards held] at refused
        cases refused
      · have found := Disk.mem_entries.mp entry
        rw [List.append_assoc, List.singleton_append] at found
        obtain ⟨⟨digest, rfl⟩, isFile⟩ := clean found
        have old : IsOldFile disk top kind [nameOf kind.formerDirectory, name, nameOf digest.text]
            (newNames kind digest (tokenInShard kind)) := by
          cases node with
          | file size accessed => exact isOldFile_sharded found
          | _ => cases isFile
        refine forall_not_refusesEntry_iff.mpr ⟨digest, rfl, isFile, ?_⟩ failure refusal
        rw [target_eq_below]
        exact checkPaths_eq_ok_iff.mpr (accepts.files old)
    | file size accessed =>
      simp only [planOf]
      split
      · rename_i digest named
        obtain rfl := digest?_eq_some_iff.mp named
        rw [forall_not_refusesMove_iff, target_eq_below]
        exact checkPaths_eq_ok_iff.mpr (accepts.files (isOldFile_flat held))
      · exact fun failure fails => fails
    | link target => exact fun failure fails => fails
    | pipe => exact fun failure fails => fails

/-! ## What is planned for a kind -/

theorem effects_planOf (disk : Disk) (root : DiskPath) (top : Location) (kind : Kind)
    (entry : Name × Node) :
    effects (planOf disk root top kind entry).deeds = movesOf disk top kind entry := by
  obtain ⟨name, node⟩ := entry
  cases node with
  | directory => exact effects_deedsOf _
  | file size accessed =>
    simp only [planOf]
    cases named : digest? name with
    | some digest => exact effects_deedsOf _
    | none =>
      rw [movesOf_of_plain (by simp), moveIn, named]
      rfl
  | link target => rfl
  | pipe => rfl

theorem outputs_planOf (disk : Disk) (root : DiskPath) (top : Location) (kind : Kind)
    (entry : Name × Node) : outputs (planOf disk root top kind entry).deeds =
      List.replicate (movesOf disk top kind entry).length .moved ++
        if isLeft entry then [.skipped] else [] := by
  obtain ⟨name, node⟩ := entry
  cases node with
  | directory => simp [planOf, outputs_deedsOf, isLeft]
  | file size accessed =>
    cases named : digest? name with
    | some digest => simp [planOf, named, outputs_deedsOf, isLeft]
    | none =>
      rw [movesOf_of_plain (by simp), moveIn, named]
      simp [planOf, named, skipPlan, isLeft]
  | link target => rfl
  | pipe => rfl

theorem effects_flatMap_planOf (nodes : List (Name × Node)) :
    effects (nodes.flatMap fun entry => (planOf disk root top kind entry).deeds) =
      nodes.flatMap (movesOf disk top kind) := by
  induction nodes with
  | nil => rfl
  | cons entry nodes ih =>
    rw [List.flatMap_cons, effects_append, effects_planOf, ih, List.flatMap_cons]

theorem count_outputs_planOf (nodes : List (Name × Node)) (fate : Fate) :
    (outputs (nodes.flatMap fun entry => (planOf disk root top kind entry).deeds)).count fate =
      match fate with
      | .moved => (nodes.flatMap (movesOf disk top kind)).length
      | .skipped => (nodes.filter isLeft).length := by
  induction nodes with
  | nil => cases fate <;> rfl
  | cons entry nodes ih =>
    rw [List.flatMap_cons, outputs_append, outputs_planOf, List.count_append, ih,
      List.flatMap_cons]
    cases left : isLeft entry <;> cases fate <;> simp [left, List.count_replicate]
    omega

/-! ## The stages of the upgrade of a kind -/

/-- Whether the root leads to the top and the shards of the current layout are there. -/
structure Stands (disk : Disk) (root : DiskPath) (top : Location) : Prop where
  leads : disk.LeadsTo root top
  shards : ∀ location ∈ shardLocations top, disk.node? location = some .directory

variable {host : Host} {workers : Nat} {scene : Scene}

theorem examineKeeping_oldDirectory (leads : disk.LeadsTo root top) (kind : Kind) :
    disk.examineKeeping (oldDirectory root kind) = (do
      (oldDirectory root kind).checkForm
      disk.nodeAt (oldPlace top kind)) :=
  leads.examineKeeping_child (isPlain_formerName kind)

theorem upgradeKind_of_refused (leads : scene.disk.LeadsTo root top) {fault : Fault}
    (form : (oldDirectory root kind).checkForm = .error fault) :
    upgradeKind host workers root kind scene =
      (.error (.upgrade (oldDirectory root kind) "stat legacy directory" (some fault)), scene) := by
  have examined : scene.disk.examineKeeping (oldDirectory root kind) = .error fault := by
    rw [examineKeeping_oldDirectory leads, form]
    rfl
  have other : fault ≠ .notFound := by
    rintro rfl
    exact checkForm_below_ne_notFound root (List.forall_mem_singleton.mpr (isPlain_formerName kind))
      (List.cons_ne_nil _ _) form
  rw [upgradeKind]
  simp only [examined, if_neg other]

theorem upgradeKind_of_notFound
    (missing : scene.disk.examineKeeping (oldDirectory root kind) = .error .notFound) :
    upgradeKind host workers root kind scene = (.ok none, scene) := by
  rw [upgradeKind]
  simp only [missing, if_true]

/-- A root that leads through a node that is missing has no former directories. -/
theorem upgradeKind_of_lost {place : Location} {rest : List Step}
    (steps : root.steps = place.map .into ++ .into name :: rest) (plain : IsPlain name)
    (held : scene.disk.node? place = some .directory)
    (missing : scene.disk.node? (place ++ [name]) = none)
    (form : (oldDirectory root kind).checkForm = .ok ()) :
    upgradeKind host workers root kind scene = (.ok none, scene) := by
  apply upgradeKind_of_notFound
  have walk : (oldDirectory root kind).walkSteps =
      place.map .into ++ .into name :: (rest ++ [.into (nameOf kind.formerDirectory)]) := by
    have below : oldDirectory root kind = root.below [nameOf kind.formerDirectory] := rfl
    rw [below, walkSteps_below _ (List.forall_mem_singleton.mpr (isPlain_formerName kind))
      (List.cons_ne_nil _ _), steps]
    simp
  rw [Disk.examineKeeping, Disk.locateKeeping, form, walk, Disk.walk_of_missing held plain missing]
  rfl

theorem upgradeKind_of_absent (leads : scene.disk.LeadsTo root top)
    (form : (oldDirectory root kind).checkForm = .ok ())
    (missing : scene.disk.node? (oldPlace top kind) = none) :
    upgradeKind host workers root kind scene = (.ok none, scene) := by
  apply upgradeKind_of_notFound
  rw [examineKeeping_oldDirectory leads, form]
  simp [bind, Except.bind, Disk.nodeAt, missing]

/-- What the crew of a kind can rely on. -/
theorem Stands.grounds (stands : Stands disk root top) (room : HasRoom disk top kind)
    {nodes : List (Name × Node)} (listed : nodes.Perm (disk.entries (oldPlace top kind))) :
    Grounds disk root top kind
      (nodes.flatMap fun entry => (planOf disk root top kind entry).deeds) where
  leads := stands.leads
  shards := stands.shards
  can := by
    rw [effects_flatMap_planOf]
    exact canMove_movesOf room listed
  known move member := by
    rw [effects_flatMap_planOf] at member
    exact (mem_flatMap_movesOf listed).mp member

/-- Whether a disk came from another one by the upgrade of some kinds: their old files are where
they belong today, their former directories are gone, and nothing else has changed. -/
structure IsUpgraded (disk : Disk) (top : Location) (kinds : List Kind) (after : Disk) : Prop where
  moved : ∀ kind ∈ kinds, ∀ {source target}, IsOldFile disk top kind source target →
    after.node? (top ++ target) = disk.node? (top ++ source)
  gone : ∀ kind ∈ kinds, ∀ names, after.node? (oldPlace top kind ++ names) = none
  kept : ∀ location, (∀ kind ∈ kinds, ¬ oldPlace top kind <+: location ∧
      ∀ source target, IsOldFile disk top kind source target → location ≠ top ++ target) →
    after.node? location = disk.node? location

/-- Whether the upgrade of a kind has done all that it should. -/
structure Succeeds (disk : Disk) (root : DiskPath) (top : Location) (kind : Kind)
    (fates : Option (List Fate)) (after : Disk) : Prop where
  clean : IsClean disk top kind
  accepts : AcceptsPaths disk root top kind
  upgraded : IsUpgraded disk top [kind] after
  found : fates.isSome = (disk.node? (oldPlace top kind)).isSome
  countMoved : (fates.getD []).count .moved = (oldMoves disk top kind).length
  countSkipped : (fates.getD []).count .skipped = (leftNodes disk top kind).length

/-- Whether the upgrade of a kind was stopped by a failure, perhaps after some of the moves. -/
structure Fails (disk : Disk) (root : DiskPath) (top : Location) (kind : Kind)
    (failure : Failure) (after : Disk) : Prop where
  reason : (∃ fault, (oldDirectory root kind).checkForm = .error fault ∧
      failure = .upgrade (oldDirectory root kind) "stat legacy directory" (some fault)) ∨
    ∃ entry ∈ disk.entries (oldPlace top kind), (planOf disk root top kind entry).fails failure
  moved : ∃ moves, moves.Subperm (oldMoves disk top kind) ∧ disk.HasMoved moves after

theorem isUpgraded_prune {middle : Disk} (moved : disk.HasMoved (oldMoves disk top kind) middle) :
    IsUpgraded disk top [kind] (middle.prune (oldPlace top kind)) := by
  have outside : ∀ {location}, ¬ oldPlace top kind <+: location →
      (middle.prune (oldPlace top kind)).node? location = middle.node? location := by
    intro location apart
    rw [Disk.node?_prune, if_neg fun below => apart below.2]
  refine ⟨fun other member source target old => ?_, fun other member names => ?_,
    fun location apart => ?_⟩
  · obtain rfl := List.mem_singleton.mp member
    rw [outside (old.moves.not_prefix top other)]
    exact moved.arrived _ (mem_oldMoves.mpr ⟨source, target, old, rfl⟩)
  · obtain rfl := List.mem_singleton.mp member
    rw [Disk.node?_prune, if_pos]
    exact ⟨by simp [oldPlace], List.prefix_append _ _⟩
  · obtain ⟨notBelow, notTarget⟩ := apart kind List.mem_cons_self
    rw [outside notBelow]
    apply moved.kept
    intro move member
    obtain ⟨source, target, old, rfl⟩ := mem_oldMoves.mp member
    refine ⟨?_, notTarget source target old⟩
    rintro rfl
    exact notBelow (old.moves.oldPlace_prefix top)

theorem node?_of_absent (missing : disk.node? (oldPlace top kind) = none) (names : List Name) :
    disk.node? (oldPlace top kind ++ names) = none := by
  by_cases empty : names = []
  · rw [empty, List.append_nil, missing]
  · cases found : disk.node? (oldPlace top kind ++ names) with
    | none => rfl
    | some node =>
      rw [Disk.directory_of_node? found empty] at missing
      cases missing

theorem succeeds_of_absent (form : (oldDirectory root kind).checkForm = .ok ())
    (missing : disk.node? (oldPlace top kind) = none) :
    Succeeds disk root top kind none disk := by
  have nothing := node?_of_absent missing
  have noFile : ∀ {source target}, ¬ IsOldFile disk top kind source target := by
    rintro source target ⟨moves, size, accessed, found⟩
    obtain ⟨rest, split⟩ := moves.oldPlace_prefix top
    rw [← split, nothing] at found
    cases found
  have noEntries : disk.entries (oldPlace top kind) = [] := by
    rw [List.eq_nil_iff_forall_not_mem]
    rintro ⟨name, node⟩ member
    rw [Disk.mem_entries, nothing] at member
    cases member
  refine ⟨fun {directory name node} found => ?_, ⟨form, fun {name} held => ?_,
    fun {source target} old => absurd old noFile⟩, ⟨?_, ?_, fun _ _ => rfl⟩,
    by rw [missing]; rfl, ?_, ?_⟩
  · rw [nothing] at found
    cases found
  · rw [nothing] at held
    cases held
  · intro other member source target old
    obtain rfl := List.mem_singleton.mp member
    exact absurd old noFile
  · intro other member names
    obtain rfl := List.mem_singleton.mp member
    exact nothing names
  · rw [oldMoves, noEntries]
    rfl
  · rw [leftNodes, noEntries]
    rfl

theorem Stands.list_old (host : Host) (stands : Stands disk root top)
    (form : (oldDirectory root kind).checkForm = .ok ())
    (held : disk.node? (oldPlace top kind) = some .directory) :
    host.list disk (oldDirectory root kind) = .ok
      (host.arrange (oldDirectory root kind) (disk.entries (oldPlace top kind))) := by
  have entries := stands.leads.list_below held
  rw [show root.below [nameOf kind.formerDirectory] = oldDirectory root kind from rfl,
    form] at entries
  rw [Host.list, entries]
  rfl

/-- The upgrade of a kind whose former directory is there goes by the plans for all nodes in
it. -/
theorem upgradeKind_of_directory (stands : Stands scene.disk root top)
    (form : (oldDirectory root kind).checkForm = .ok ())
    (held : scene.disk.node? (oldPlace top kind) = some .directory)
    (room : HasRoom scene.disk top kind) : ∃ outcome last,
      upgradeKind host workers root kind scene = (outcome, last) ∧
        match outcome with
        | .ok fates => Succeeds scene.disk root top kind fates last.disk
        | .error failure => Fails scene.disk root top kind failure last.disk := by
  have below : root.below [nameOf kind.formerDirectory] = oldDirectory root kind := rfl
  have examined : scene.disk.examineKeeping (oldDirectory root kind) = .ok .directory := by
    rw [examineKeeping_oldDirectory stands.leads, form]
    simp [bind, Except.bind, Disk.nodeAt, held]
  have listing := stands.list_old host form held
  have listed := host.perm_arrange (oldDirectory root kind)
    (scene.disk.entries (oldPlace top kind))
  generalize host.arrange (oldDirectory root kind)
    (scene.disk.entries (oldPlace top kind)) = nodes at listing listed
  have grounds := stands.grounds room listed
  have possible := host.crew.possible workers (task host root kind (oldDirectory root kind)) nodes
    scene
  have start : Reached scene.disk [] scene := Disk.hasMoved_nil scene.disk
  obtain ⟨done, reached, part, verdict⟩ := possible.planned start
    fun entry member => follows_task host grounds (Disk.mem_entries.mp (listed.mem_iff.mp member))
  have whole : (nodes.flatMap (movesOf scene.disk top kind)).Perm (oldMoves scene.disk top kind) :=
    listed.flatMap_right _
  rw [upgradeKind]
  simp only [examined, listing]
  cases report : host.crew.run workers (task host root kind (oldDirectory root kind)) nodes
      scene with
  | mk outcome last =>
    rw [report] at verdict reached
    cases outcome with
    | error failure =>
      obtain ⟨entry, member, fails⟩ := verdict
      refine ⟨_, _, rfl, .inr ⟨entry, listed.mem_iff.mp member, fails⟩, effects done, ?_, reached⟩
      have among := effects_subperm part
      rw [effects_flatMap_planOf] at among
      exact among.trans whole.subperm
    | ok fates =>
      obtain ⟨well, all, given⟩ := verdict
      have moved : scene.disk.HasMoved (oldMoves scene.disk top kind) last.disk := by
        apply reached.congr
        intro move
        have same : (effects done).Perm (oldMoves scene.disk top kind) := by
          have total := all.filterMap Deed.effect?
          rw [← effects, ← effects, effects_flatMap_planOf] at total
          exact total.trans whole
        exact same.symm.mem_iff
      have frames := moved.frames (canMove_movesOf room (.refl _))
      have removed := (stands.leads.of_frames frames).removeTree_below (List.cons_ne_nil _ _)
        (frames _ _ held rfl)
      rw [below, form] at removed
      have counts : ∀ fate, fates.count fate =
          match fate with
          | .moved => (nodes.flatMap (movesOf scene.disk top kind)).length
          | .skipped => (nodes.filter isLeft).length := by
        intro fate
        have total : (outputs done).Perm (outputs (nodes.flatMap fun entry =>
            (planOf scene.disk root top kind entry).deeds)) := all.filterMap _
        rw [given.count_eq, total.count_eq, count_outputs_planOf]
      obtain ⟨clean, accepts⟩ := (forall_not_fails_iff form).mp
        fun entry member => well entry (listed.mem_iff.mpr member)
      refine ⟨.ok (some fates), { last with disk := last.disk.prune (oldPlace top kind) }, ?_,
        clean, accepts, isUpgraded_prune moved, by rw [held]; rfl, ?_, ?_⟩
      · simp only [removed]
        rfl
      · rw [Option.getD_some, counts, whole.length_eq]
      · rw [Option.getD_some, counts, leftNodes, List.length_map,
          (listed.filter isLeft).length_eq]

/-- The upgrade of a kind does all that it should, or it is stopped. -/
theorem exists_upgradeKind (host : Host) (workers : Nat) (stands : Stands scene.disk root top)
    (former : scene.disk.node? (oldPlace top kind) = none ∨
      scene.disk.node? (oldPlace top kind) = some .directory)
    (room : HasRoom scene.disk top kind) : ∃ outcome last,
      upgradeKind host workers root kind scene = (outcome, last) ∧
        match outcome with
        | .ok fates => Succeeds scene.disk root top kind fates last.disk
        | .error failure => Fails scene.disk root top kind failure last.disk := by
  cases form : (oldDirectory root kind).checkForm with
  | error fault =>
    exact ⟨_, _, upgradeKind_of_refused stands.leads form, .inl ⟨fault, form, rfl⟩, [],
      List.nil_subperm, Disk.hasMoved_nil _⟩
  | ok _ =>
    rcases former with missing | held
    · exact ⟨_, _, upgradeKind_of_absent stands.leads form missing,
        succeeds_of_absent form missing⟩
    · exact upgradeKind_of_directory stands form held room

end Kinds

end ArtifactCache.Upgrade
