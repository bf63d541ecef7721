import ArtifactCache.Proofs.Upgrade.Kinds

/-! # An upgrade is complete and exact

The kinds are upgraded one after the other, and no kind sees what happened to another one:
their former directories lie apart, and no two kinds share a place in the current layout.  So
what holds of each kind adds up.
-/

namespace ArtifactCache.Upgrade

open DiskPath

variable {disk middle after frame : Disk} {root : DiskPath} {top : Location} {kind : Kind}
  {kinds before later : List Kind} {source target : List Name} {scene : Scene}

/-! ## Kinds do not see each other -/

/-- Whether the former directory of a kind is the same on two disks. -/
def SameOld (disk after : Disk) (top : Location) (kind : Kind) : Prop :=
  ∀ names, after.node? (oldPlace top kind ++ names) = disk.node? (oldPlace top kind ++ names)

namespace SameOld

theorem node?_source (same : SameOld disk after top kind) (moves : MovesTo kind source target) :
    after.node? (top ++ source) = disk.node? (top ++ source) := by
  obtain ⟨rest, split⟩ := moves.oldPlace_prefix top
  rw [← split, same]

theorem isOldFile_iff (same : SameOld disk after top kind) :
    IsOldFile after top kind source target ↔ IsOldFile disk top kind source target := by
  constructor
  · rintro ⟨moves, size, accessed, found⟩
    exact ⟨moves, size, accessed, same.node?_source moves ▸ found⟩
  · rintro ⟨moves, size, accessed, found⟩
    exact ⟨moves, size, accessed, (same.node?_source moves).trans found⟩

theorem isClean (same : SameOld disk after top kind) (clean : IsClean disk top kind) :
    IsClean after top kind := by
  intro directory name node found
  rw [same] at found
  exact clean found

theorem acceptsPaths (same : SameOld disk after top kind)
    (accepts : AcceptsPaths disk root top kind) : AcceptsPaths after root top kind where
  former := accepts.former
  shards held := accepts.shards (same _ ▸ held)
  files old := accepts.files (same.isOldFile_iff.mp old)

theorem symm (same : SameOld disk after top kind) : SameOld after disk top kind :=
  fun names => (same names).symm

theorem perm_entries (same : SameOld disk after top kind) (names : List Name) :
    (after.entries (oldPlace top kind ++ names)).Perm
      (disk.entries (oldPlace top kind ++ names)) := by
  apply Disk.perm_entries
  intro name
  rw [List.append_assoc, same]

theorem length_oldMoves (same : SameOld disk after top kind) :
    (oldMoves after top kind).length = (oldMoves disk top kind).length := by
  have nodup : ∀ disk : Disk, (oldMoves disk top kind).Nodup := by
    intro disk
    refine (pairwise_movesOf (.refl _)).imp ?_
    rintro first second differ rfl
    exact differ rfl
  apply List.Perm.length_eq
  apply (List.perm_ext_iff_of_nodup (nodup after) (nodup disk)).mpr
  intro move
  simp only [mem_oldMoves, same.isOldFile_iff]

theorem length_leftNodes (same : SameOld disk after top kind) :
    (leftNodes after top kind).length = (leftNodes disk top kind).length := by
  have entries := same.perm_entries []
  rw [List.append_nil] at entries
  rw [leftNodes, leftNodes, List.length_map, List.length_map, (entries.filter isLeft).length_eq]

end SameOld

theorem IsUpgraded.sameOld (upgraded : IsUpgraded disk top kinds after) (fresh : kind ∉ kinds) :
    SameOld disk after top kind := by
  intro names
  apply upgraded.kept
  intro other member
  constructor
  · intro above
    exact fresh (kind_eq_of_above (List.prefix_append _ _) above ▸ member)
  · rintro source target old same
    exact old.moves.not_prefix top kind (same ▸ List.prefix_append _ _)

/-- A place in the current layout that belongs to another kind is left alone. -/
theorem IsUpgraded.node?_target (upgraded : IsUpgraded disk top kinds after) (fresh : kind ∉ kinds)
    (moves : MovesTo kind source target) :
    after.node? (top ++ target) = disk.node? (top ++ target) := by
  apply upgraded.kept
  intro other member
  refine ⟨moves.not_prefix top other, ?_⟩
  intro source' target' old same
  rw [List.append_cancel_left same] at moves
  exact fresh (moves.kind_eq old.moves ▸ member)

theorem IsUpgraded.node?_of_apart (upgraded : IsUpgraded disk top kinds after)
    (room : ∀ kind ∈ kinds, HasRoom disk top kind) {location : Location} {node : Node}
    (found : disk.node? location = some node)
    (apart : ∀ kind ∈ kinds, ¬ oldPlace top kind <+: location) :
    after.node? location = some node := by
  rw [upgraded.kept, found]
  intro kind member
  refine ⟨apart kind member, ?_⟩
  rintro source target old rfl
  rw [(room kind member).free old] at found
  cases found

theorem IsUpgraded.hasRoom (upgraded : IsUpgraded disk top kinds after) (fresh : kind ∉ kinds)
    (room : HasRoom disk top kind) : HasRoom after top kind := by
  have same := upgraded.sameOld fresh
  constructor
  · intro source target old
    rw [upgraded.node?_target fresh old.moves]
    exact room.free (same.isOldFile_iff.mp old)
  · intro source source' target old old'
    exact room.distinct (same.isOldFile_iff.mp old) (same.isOldFile_iff.mp old')

/-- Whether the former directories of all kinds are apart from what holds up the root and its
shards: another disk, the frame, has none of them but all the rest that is needed. -/
structure StandsApart (frame disk : Disk) (root : DiskPath) (top : Location) : Prop where
  stands : Stands frame root top
  apart : ∀ kind names, frame.node? (oldPlace top kind ++ names) = none
  frames : frame.Frames disk

theorem StandsApart.now (stands : StandsApart frame disk root top) : Stands disk root top where
  leads := stands.stands.leads.of_frames stands.frames
  shards location member := stands.frames _ _ (stands.stands.shards location member) rfl

theorem IsUpgraded.standsApart (upgraded : IsUpgraded disk top kinds after)
    (stands : StandsApart frame disk root top) (room : ∀ kind ∈ kinds, HasRoom disk top kind) :
    StandsApart frame after root top where
  stands := stands.stands
  apart := stands.apart
  frames location node framed plain := by
    apply upgraded.node?_of_apart room (stands.frames location node framed plain)
    rintro kind _ ⟨names, rfl⟩
    rw [stands.apart] at framed
    cases framed

theorem isUpgraded_nil (disk : Disk) (top : Location) : IsUpgraded disk top [] disk where
  moved _ member := by cases member
  gone _ member := by cases member
  kept _ _ := rfl

theorem IsUpgraded.append (first : IsUpgraded disk top before middle)
    (second : IsUpgraded middle top kinds after) (apart : ∀ kind ∈ before, kind ∉ kinds) :
    IsUpgraded disk top (before ++ kinds) after := by
  have fresh : ∀ {kind}, kind ∈ kinds → kind ∉ before :=
    fun member earlier => apart _ earlier member
  refine ⟨?_, ?_, ?_⟩
  · intro kind member source target old
    rcases List.mem_append.mp member with earlier | later
    · rw [second.node?_target (apart kind earlier) old.moves]
      exact first.moved kind earlier old
    · have same := first.sameOld (fresh later)
      rw [second.moved kind later (same.isOldFile_iff.mpr old), same.node?_source old.moves]
  · intro kind member names
    rcases List.mem_append.mp member with earlier | later
    · rw [second.sameOld (apart kind earlier), first.gone kind earlier]
    · exact second.gone kind later names
  · intro location elsewhere
    rw [second.kept, first.kept]
    · intro kind member
      exact elsewhere kind (List.mem_append_left _ member)
    · intro kind member
      obtain ⟨notBelow, notTarget⟩ := elsewhere kind (List.mem_append_right _ member)
      refine ⟨notBelow, fun source target old => notTarget source target ?_⟩
      exact (first.sameOld (fresh member)).isOldFile_iff.mp old

/-! ## All kinds -/

/-- What an upgrade of some kinds amounts to. -/
def amount (disk : Disk) (top : Location) (kinds : List Kind) : UpgradeSummary where
  directories := (kinds.filter fun kind => (disk.node? (oldPlace top kind)).isSome).length
  moved := (kinds.flatMap (oldMoves disk top)).length
  skipped := (kinds.flatMap (leftNodes disk top)).length

/-- Whether the upgrades of some kinds have done all that they should. -/
structure AllSucceed (disk : Disk) (root : DiskPath) (top : Location) (kinds : List Kind)
    (summary total : UpgradeSummary) (after : Disk) : Prop where
  usable : ∀ kind ∈ kinds, IsClean disk top kind ∧ AcceptsPaths disk root top kind
  upgraded : IsUpgraded disk top kinds after
  directories : total.directories = summary.directories + (amount disk top kinds).directories
  moved : total.moved = summary.moved + (amount disk top kinds).moved
  skipped : total.skipped = summary.skipped + (amount disk top kinds).skipped

/-- Whether the upgrade of one of several kinds was stopped, after the kinds before it. -/
def OneFails (disk : Disk) (root : DiskPath) (top : Location) (kinds : List Kind)
    (failure : Failure) (after : Disk) : Prop :=
  ∃ before kind later middle, kinds = before ++ kind :: later ∧
    (∀ earlier ∈ before, IsClean disk top earlier ∧ AcceptsPaths disk root top earlier) ∧
      IsUpgraded disk top before middle ∧ Fails middle root top kind failure after

theorem counted_eq (summary : UpgradeSummary) (fates : Option (List Fate)) :
    counted summary fates =
      { directories := summary.directories + if fates.isSome then 1 else 0
        moved := summary.moved + (fates.getD []).count .moved
        skipped := summary.skipped + (fates.getD []).count .skipped } := by
  cases fates <;> rfl

theorem length_flatMap_congr {α β : Type} {items : List α} {f g : α → List β}
    (same : ∀ item ∈ items, (f item).length = (g item).length) :
    (items.flatMap f).length = (items.flatMap g).length := by
  rw [List.length_flatMap, List.length_flatMap, List.map_congr_left same]

theorem amount_congr (same : ∀ kind ∈ kinds, SameOld disk middle top kind) :
    amount middle top kinds = amount disk top kinds := by
  have found : kinds.filter (fun kind => (middle.node? (oldPlace top kind)).isSome) =
      kinds.filter fun kind => (disk.node? (oldPlace top kind)).isSome := by
    apply List.filter_congr
    intro kind member
    have here := same kind member []
    rw [List.append_nil] at here
    rw [here]
  rw [amount, amount, found,
    length_flatMap_congr fun kind member => (same kind member).length_oldMoves,
    length_flatMap_congr fun kind member => (same kind member).length_leftNodes]

theorem AllSucceed.cons {summary total : UpgradeSummary} {fates : Option (List Fate)}
    (first : Succeeds disk root top kind fates middle)
    (rest : AllSucceed middle root top kinds (counted summary fates) total after)
    (fresh : kind ∉ kinds) : AllSucceed disk root top (kind :: kinds) summary total after := by
  have same : ∀ other ∈ kinds, SameOld disk middle top other := by
    intro other member
    apply first.upgraded.sameOld
    rintro single
    exact fresh (List.mem_singleton.mp single ▸ member)
  refine ⟨List.forall_mem_cons.mpr ⟨⟨first.clean, first.accepts⟩, fun other member => ?_⟩,
    first.upgraded.append rest.upgraded ?_, ?_, ?_, ?_⟩
  · obtain ⟨clean, accepts⟩ := rest.usable other member
    have back := (same other member).symm
    exact ⟨back.isClean clean, back.acceptsPaths accepts⟩
  · intro other member
    rwa [List.mem_singleton.mp member]
  · rw [rest.directories, amount_congr same, counted_eq, amount, amount, List.filter_cons,
      first.found]
    split <;> simp [Nat.add_assoc, Nat.add_comm]
  · rw [rest.moved, amount_congr same, counted_eq, first.countMoved]
    dsimp only [amount]
    rw [List.flatMap_cons, List.length_append]
    omega
  · rw [rest.skipped, amount_congr same, counted_eq, first.countSkipped]
    dsimp only [amount]
    rw [List.flatMap_cons, List.length_append]
    omega

/-- The upgrade of several kinds does all that it should, or one of them is stopped. -/
theorem exists_upgradeKinds (host : Host) (workers : Nat) (kinds : List Kind)
    (summary : UpgradeSummary) (nodup : kinds.Nodup)
    (stands : StandsApart frame scene.disk root top)
    (former : ∀ kind ∈ kinds, scene.disk.node? (oldPlace top kind) = none ∨
      scene.disk.node? (oldPlace top kind) = some .directory)
    (room : ∀ kind ∈ kinds, HasRoom scene.disk top kind) : ∃ outcome last,
      upgradeKinds host workers root kinds summary scene = (outcome, last) ∧
        match outcome with
        | .ok total => AllSucceed scene.disk root top kinds summary total last.disk
        | .error failure => OneFails scene.disk root top kinds failure last.disk := by
  induction kinds generalizing summary scene with
  | nil =>
    have nothing : AllSucceed scene.disk root top [] summary summary scene.disk :=
      ⟨fun _ member => absurd member List.not_mem_nil, isUpgraded_nil _ _, rfl, rfl, rfl⟩
    exact ⟨_, _, rfl, nothing⟩
  | cons kind kinds ih =>
    obtain ⟨fresh, nodup⟩ := List.nodup_cons.mp nodup
    obtain ⟨formerFirst, formerOthers⟩ := List.forall_mem_cons.mp former
    obtain ⟨roomFirst, roomOthers⟩ := List.forall_mem_cons.mp room
    obtain ⟨outcome, reached, result, verdict⟩ :=
      exists_upgradeKind host workers stands.now formerFirst roomFirst
    rw [upgradeKinds, result]
    cases outcome with
    | error failure =>
      have none : ∀ earlier ∈ ([] : List Kind), IsClean scene.disk top earlier ∧
          AcceptsPaths scene.disk root top earlier := fun _ member => absurd member List.not_mem_nil
      exact ⟨_, _, rfl, [], kind, kinds, scene.disk, rfl, none, isUpgraded_nil _ _, verdict⟩
    | ok fates =>
      have apart : ∀ other ∈ kinds, other ∉ [kind] := by
        intro other member single
        exact fresh (List.mem_singleton.mp single ▸ member)
      have upgraded := verdict.upgraded
      have room' : ∀ other ∈ [kind], HasRoom scene.disk top other :=
        List.forall_mem_singleton.mpr roomFirst
      have former' : ∀ other ∈ kinds, reached.disk.node? (oldPlace top other) = none ∨
          reached.disk.node? (oldPlace top other) = some .directory := by
        intro other member
        have here := upgraded.sameOld (apart other member) []
        rw [List.append_nil] at here
        rw [here]
        exact formerOthers other member
      obtain ⟨outcome, last, result', verdict'⟩ := ih (counted summary fates) nodup
        (upgraded.standsApart stands room') former'
        fun other member => upgraded.hasRoom (apart other member) (roomOthers other member)
      refine ⟨outcome, last, result', ?_⟩
      cases outcome with
      | ok total => exact .cons verdict verdict' fresh
      | error failure =>
        obtain ⟨before, stopped, later, middle, rfl, usable, earlier, fails⟩ := verdict'
        have freshBefore : kind ∉ before := fun among => fresh (List.mem_append_left _ among)
        refine ⟨kind :: before, stopped, later, middle, rfl, ?_, ?_, fails⟩
        · refine List.forall_mem_cons.mpr ⟨⟨verdict.clean, verdict.accepts⟩, ?_⟩
          intro other member
          obtain ⟨clean, accepts⟩ := usable other member
          have back := (upgraded.sameOld (apart other (List.mem_append_left _ member))).symm
          exact ⟨back.isClean clean, back.acceptsPaths accepts⟩
        · apply upgraded.append earlier
          intro other member
          rwa [List.mem_singleton.mp member]

/-! ## What an upgrade needs -/

/-- The disk without the former directories of all kinds. -/
def withoutOld (disk : Disk) (top : Location) : Disk :=
  disk.without (Kind.all.map (oldPlace top))

theorem node?_withoutOld_of_old (kind : Kind) (names : List Name) :
    (withoutOld disk top).node? (oldPlace top kind ++ names) = none := by
  rw [withoutOld, Disk.node?_without, if_pos]
  exact ⟨by simp [oldPlace], _, List.mem_map_of_mem kind.mem_all, List.prefix_append _ _⟩

theorem node?_withoutOld_of_other {other : Location}
    (apart : ∀ kind, ¬ oldPlace top kind <+: other) :
    (withoutOld disk top).node? other = disk.node? other := by
  rw [withoutOld, Disk.node?_without, if_neg]
  rintro ⟨-, location, member, above⟩
  obtain ⟨kind, -, rfl⟩ := List.mem_map.mp member
  exact apart kind above

/-- Whether an upgrade can start: the root leads to a directory with all shards, the former
directories are directories or missing, and all old files have room. -/
structure IsUpgradable (disk : Disk) (root : DiskPath) (top : Location) : Prop where
  stands : Stands disk root top
  former : ∀ kind, disk.node? (oldPlace top kind) = none ∨
    disk.node? (oldPlace top kind) = some .directory
  room : ∀ kind, HasRoom disk top kind

theorem not_oldPlace_prefix_shard {location : Location} (isShard : location ∈ shardLocations top)
    (kind : Kind) : ¬ oldPlace top kind <+: location := by
  intro above
  obtain ⟨other, shard, -, rfl⟩ := mem_shardLocations.mp isShard
  rw [oldPlace, List.prefix_append_right_inj, List.cons_prefix_cons] at above
  exact ne_formerName other kind above.1.symm

/-- A root that does not lead through a former directory will still be there without them. -/
theorem IsUpgradable.standsApart (upgradable : IsUpgradable disk root top)
    (leads : (withoutOld disk top).LeadsTo root top) :
    StandsApart (withoutOld disk top) disk root top where
  stands := by
    refine ⟨leads, fun location member => ?_⟩
    rw [node?_withoutOld_of_other (not_oldPlace_prefix_shard member)]
    exact upgradable.stands.shards location member
  apart := node?_withoutOld_of_old
  frames := Disk.frames_without _ _

/-- Below a root that is not too deep the system takes all paths of an upgrade. -/
theorem acceptsPaths_of_room (noNull : 0 ∉ root.bytes)
    (room : root.bytes.length + 3 * (longestName + 1) ≤ longestPath) :
    AcceptsPaths disk root top kind := by
  have takes : ∀ {names : List Name}, (∀ name ∈ names, IsPlain name) → names ≠ [] →
      names.length ≤ 3 → (root.below names).checkForm = .ok () := by
    intro names plain nonempty few
    apply checkForm_below_of_room noNull plain nonempty
    have most := Nat.mul_le_mul_left (longestName + 1) few
    omega
  refine ⟨?_, fun {name} held => ?_, fun {source target} old => ?_⟩
  · exact takes (List.forall_mem_singleton.mpr (isPlain_formerName kind)) (List.cons_ne_nil _ _)
      (by simp)
  · have place : oldPlace top kind ++ [name] = top ++ [nameOf kind.formerDirectory, name] := by
      simp [oldPlace]
    rw [place] at held
    exact takes (Disk.isPlain_below held) (List.cons_ne_nil _ _) (by simp)
  · obtain ⟨moves, size, accessed, found⟩ := old
    refine ⟨takes (Disk.isPlain_below found) moves.source_ne_nil (by cases moves <;> simp), ?_⟩
    obtain ⟨digest, name, plainName, rfl⟩ := moves.exists_target
    apply takes
    · simpa using ⟨kind.isPlain_directoryName,
        Shard.isPlain_nameOf (Shard.shard_mem_names digest), plainName⟩
    · exact List.cons_ne_nil _ _
    · simp

/-- An upgrade either does all that it should, or one of the kinds is stopped. -/
theorem exists_upgrade (host : Host) (workers : Nat) (upgradable : IsUpgradable disk root top)
    (stands : StandsApart frame disk root top) :
    ∃ outcome last, upgrade host workers root disk = (outcome, last) ∧
      match outcome with
      | .ok summary => AllSucceed disk root top Kind.all ⟨0, 0, 0⟩ summary last.disk
      | .error failure => OneFails disk root top Kind.all failure last.disk :=
  exists_upgradeKinds host workers Kind.all ⟨0, 0, 0⟩ (by decide) stands
    (fun kind _ => upgradable.former kind) fun kind _ => upgradable.room kind

theorem Fails.not_usable {failure : Failure} (fails : Fails disk root top kind failure after)
    (clean : IsClean disk top kind) (accepts : AcceptsPaths disk root top kind) : False := by
  rcases fails.reason with ⟨fault, refused, -⟩ | ⟨entry, member, refusal⟩
  · rw [accepts.former] at refused
    cases refused
  · exact (forall_not_fails_iff accepts.former).mpr ⟨clean, accepts⟩ entry member _ refusal

theorem OneFails.not_usable {failure : Failure} (fails : OneFails disk root top kinds failure after)
    (nodup : kinds.Nodup)
    (usable : ∀ kind ∈ kinds, IsClean disk top kind ∧ AcceptsPaths disk root top kind) : False := by
  obtain ⟨before, kind, later, middle, rfl, -, upgraded, stopped⟩ := fails
  have fresh : kind ∉ before :=
    fun earlier => (List.nodup_append.mp nodup).2.2 _ earlier _ List.mem_cons_self rfl
  obtain ⟨clean, accepts⟩ := usable kind (by simp)
  have same := upgraded.sameOld fresh
  exact stopped.not_usable (same.isClean clean) (same.acceptsPaths accepts)

theorem exists_upgrade_of_usable (host : Host) (workers : Nat)
    (upgradable : IsUpgradable disk root top) (stands : StandsApart frame disk root top)
    (usable : ∀ kind, IsClean disk top kind ∧ AcceptsPaths disk root top kind) :
    ∃ summary last, upgrade host workers root disk = (.ok summary, last) ∧
      IsUpgraded disk top Kind.all last.disk := by
  obtain ⟨outcome, last, result, verdict⟩ := exists_upgrade host workers upgradable stands
  cases outcome with
  | error failure => exact (verdict.not_usable (by decide) fun kind _ => usable kind).elim
  | ok summary => exact ⟨summary, last, result, verdict.upgraded⟩

end ArtifactCache.Upgrade
