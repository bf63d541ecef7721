import ArtifactCache.Proofs.Upgrade.Exact

/-! # Upgrades that were stopped

An unexpected node in an old shard stops the upgrade.  Some files of that kind have been moved
by then, and which ones these are depends on the schedule.  The rest is as it was.
-/

namespace ArtifactCache.Upgrade

open DiskPath

variable {disk after : Disk} {top : Location} {kind other : Kind} {before : List Kind}
  {source target : List Name}

/-! ## Taking away what is not expected -/

/-- Whether a node belongs into an old shard. -/
def isExpected : Name × Node → Bool
  | (name, .file _ _) => (digest? name).isSome
  | _ => false

theorem isExpected_iff {name : Name} {node : Node} : isExpected (name, node) = true ↔
    (∃ digest : Digest, name = nameOf digest.text) ∧ node.isFile = true := by
  cases node with
  | file size accessed =>
    simp [isExpected, Option.isSome_iff_exists, digest?_eq_some_iff, Node.isFile]
  | _ => simp [isExpected, Node.isFile]

/-- Where nodes are that do not belong into the old shards of any kind. -/
def unexpected (disk : Disk) (top : Location) : List Location :=
  Kind.all.flatMap fun kind => (disk.entries (oldPlace top kind)).flatMap fun shard =>
    ((disk.entries (oldPlace top kind ++ [shard.1])).filter fun entry => !isExpected entry).map
      fun entry => oldPlace top kind ++ [shard.1, entry.1]

theorem mem_unexpected {location : Location} : location ∈ unexpected disk top ↔
    ∃ kind shard name node, location = oldPlace top kind ++ [shard, name] ∧
      disk.node? location = some node ∧ isExpected (name, node) = false := by
  simp only [unexpected, List.mem_flatMap, Kind.mem_all, true_and, List.mem_map, List.mem_filter,
    Prod.exists, Disk.mem_entries, Bool.not_eq_true', List.append_assoc, List.singleton_append]
  constructor
  · rintro ⟨kind, shard, _, -, name, node, ⟨found, odd⟩, rfl⟩
    exact ⟨kind, shard, name, node, rfl, found, odd⟩
  · rintro ⟨kind, shard, name, node, rfl, found, odd⟩
    have held : disk.node? (oldPlace top kind ++ [shard]) = some .directory :=
      Disk.directory_of_prefix found (by simp) (by simp)
    exact ⟨kind, shard, _, held, name, node, ⟨found, odd⟩, rfl⟩

/-- The disk after all nodes have been removed that do not belong into old shards. -/
def cleared (disk : Disk) (top : Location) : Disk :=
  disk.without (unexpected disk top)

theorem node?_cleared_of_other {location : Location}
    (apart : ∀ kind, ¬ oldPlace top kind <+: location) :
    (cleared disk top).node? location = disk.node? location := by
  rw [cleared, Disk.node?_without, if_neg]
  rintro ⟨-, _, member, below⟩
  obtain ⟨kind, shard, name, node, rfl, -⟩ := mem_unexpected.mp member
  exact apart kind ((List.prefix_append _ _).trans below)

/-- A node is kept unless it lies at or below an unexpected one. -/
theorem node?_cleared_old (names : List Name)
    (kept : ∀ shard name node, [shard, name] <+: names →
      disk.node? (oldPlace top kind ++ [shard, name]) = some node →
        isExpected (name, node) = true) :
    (cleared disk top).node? (oldPlace top kind ++ names) =
      disk.node? (oldPlace top kind ++ names) := by
  rw [cleared, Disk.node?_without, if_neg]
  rintro ⟨-, _, member, below⟩
  obtain ⟨other, shard, name, node, rfl, found, odd⟩ := mem_unexpected.mp member
  obtain rfl := kind_eq_of_above ((List.prefix_append _ _).trans below) (List.prefix_append _ _)
  rw [List.prefix_append_right_inj] at below
  rw [kept shard name node below found] at odd
  cases odd

theorem node?_cleared_short {names : List Name} (few : names.length < 2) :
    (cleared disk top).node? (oldPlace top kind ++ names) =
      disk.node? (oldPlace top kind ++ names) := by
  apply node?_cleared_old
  intro shard name node above
  exact absurd above.length_le (Nat.not_le.mpr few)

theorem node?_of_cleared {location : Location} {node : Node}
    (found : (cleared disk top).node? location = some node) :
    disk.node? location = some node := by
  rw [cleared, Disk.node?_without] at found
  split at found
  · cases found
  · exact found

theorem isOldFile_cleared_iff : IsOldFile (cleared disk top) top kind source target ↔
    IsOldFile disk top kind source target := by
  constructor
  · rintro ⟨moves, size, accessed, found⟩
    exact ⟨moves, size, accessed, node?_of_cleared found⟩
  · rintro ⟨moves, size, accessed, found⟩
    refine ⟨moves, size, accessed, ?_⟩
    obtain ⟨rest, rfl, -⟩ := moves.exists_source
    rw [← oldPlace_append] at found ⊢
    rw [node?_cleared_old, found]
    intro shard name node above held
    -- What lies below an expected node is the node itself.
    have whole : [shard, name] = rest := by
      apply above.eq_of_length_le
      cases moves <;> simp
    subst whole
    rw [found] at held
    obtain rfl := Option.some.inj held
    cases moves with
    | sharded directory digest => exact isExpected_iff.mpr ⟨⟨digest, rfl⟩, rfl⟩

theorem node?_cleared_of_unexpected {shard name : Name} {node : Node}
    (found : disk.node? (oldPlace top kind ++ [shard, name]) = some node)
    (odd : isExpected (name, node) = false) :
    (cleared disk top).node? (oldPlace top kind ++ [shard, name]) = none := by
  rw [cleared, Disk.node?_without, if_pos]
  refine ⟨by simp, _, mem_unexpected.mpr ?_, List.prefix_rfl⟩
  exact ⟨kind, shard, name, node, rfl, found, odd⟩

theorem isClean_cleared (disk : Disk) (top : Location) (kind : Kind) :
    IsClean (cleared disk top) top kind := by
  intro shard name node found
  apply isExpected_iff.mp
  rw [← Bool.not_eq_false]
  intro odd
  rw [node?_cleared_of_unexpected (node?_of_cleared found) odd] at found
  cases found

/-! ## What a stopped upgrade leaves -/

/-- What a disk looks like after an upgrade that was stopped at a kind: the kinds before it have
been upgraded, each of its own old files has been moved or not, and nothing else has changed. -/
structure IsStopped (disk : Disk) (top : Location) (before : List Kind) (kind : Kind)
    (after : Disk) : Prop where
  moved : ∀ earlier ∈ before, ∀ {source target}, IsOldFile disk top earlier source target →
    after.node? (top ++ target) = disk.node? (top ++ source)
  gone : ∀ earlier ∈ before, ∀ names, after.node? (oldPlace top earlier ++ names) = none
  partly : ∀ {source target}, IsOldFile disk top kind source target →
    (after.node? (top ++ source) = disk.node? (top ++ source) ∧
        after.node? (top ++ target) = none) ∨
      (after.node? (top ++ source) = none ∧
        after.node? (top ++ target) = disk.node? (top ++ source))
  kept : ∀ location,
    (∀ earlier ∈ before, ¬ oldPlace top earlier <+: location ∧
      ∀ source target, IsOldFile disk top earlier source target → location ≠ top ++ target) →
    (∀ source target, IsOldFile disk top kind source target →
      location ≠ top ++ source ∧ location ≠ top ++ target) →
    after.node? location = disk.node? location

theorem isStopped_self (room : HasRoom disk top kind) : IsStopped disk top [] kind disk where
  moved _ member := by cases member
  gone _ member := by cases member
  partly old := .inl ⟨rfl, room.free old⟩
  kept _ _ _ := rfl

theorem IsUpgraded.stopped {middle : Disk} (upgraded : IsUpgraded disk top before middle)
    (fresh : kind ∉ before) (room : HasRoom disk top kind) {moves : List Move}
    (part : moves.Subperm (oldMoves middle top kind)) (reached : middle.HasMoved moves after) :
    IsStopped disk top before kind after := by
  have same := upgraded.sameOld fresh
  have known : ∀ move ∈ moves, ∃ source target, IsOldFile disk top kind source target ∧
      move = { source := top ++ source, target := top ++ target } := by
    intro move member
    obtain ⟨source, target, old, rfl⟩ := mem_oldMoves.mp (part.subset member)
    exact ⟨source, target, same.isOldFile_iff.mp old, rfl⟩
  -- Only sources and targets of the kind itself are touched by the moves.
  have untouched : ∀ location, (∀ source target, IsOldFile disk top kind source target →
      location ≠ top ++ source ∧ location ≠ top ++ target) →
        after.node? location = middle.node? location := by
    intro location apart
    apply reached.kept
    intro move member
    obtain ⟨source, target, old, rfl⟩ := known move member
    exact apart source target old
  refine ⟨?_, ?_, ?_, ?_⟩
  · intro earlier member source target old
    rw [untouched, upgraded.moved earlier member old]
    intro source' target' old'
    constructor
    · exact old.moves.target_ne_source old'.moves top
    · intro same
      have moves := old.moves
      rw [List.append_cancel_left same] at moves
      exact fresh (old'.moves.kind_eq moves ▸ member)
  · intro earlier member names
    rw [untouched, upgraded.gone earlier member]
    intro source target old
    constructor
    · intro same
      have above := old.moves.oldPlace_prefix top
      rw [← same] at above
      exact fresh (kind_eq_of_above above (List.prefix_append _ _) ▸ member)
    · intro same
      exact old.moves.not_prefix top earlier (same ▸ List.prefix_append _ _)
  · intro source target old
    by_cases done : ({ source := top ++ source, target := top ++ target } : Move) ∈ moves
    · refine .inr ⟨reached.left _ done, ?_⟩
      rw [reached.arrived _ done, same.node?_source old.moves]
    · left
      constructor
      · rw [reached.kept, same.node?_source old.moves]
        intro move member
        obtain ⟨source', target', old', rfl⟩ := known move member
        constructor
        · intro equal
          obtain rfl := List.append_cancel_left equal
          exact done (old.moves.target_eq old'.moves ▸ member)
        · exact (old'.moves.target_ne_source old.moves top).symm
      · rw [reached.kept, upgraded.node?_target fresh old.moves, room.free old]
        intro move member
        obtain ⟨source', target', old', rfl⟩ := known move member
        constructor
        · exact old.moves.target_ne_source old'.moves top
        · intro equal
          obtain rfl := List.append_cancel_left equal
          exact done (room.distinct old old' ▸ member)
  · intro location apart apart'
    rw [untouched location apart', upgraded.kept location apart]

section Stopped

variable (stopped : IsStopped disk top before kind after)

include stopped

/-- What is left of the kind itself and of later ones are old files that are still to be moved,
and whatever else there was. -/
theorem IsStopped.node?_old (notEarlier : other ∉ before) {names : List Name} {node : Node}
    (found : after.node? (oldPlace top other ++ names) = some node) :
    disk.node? (oldPlace top other ++ names) = some node := by
  by_cases source : ∃ source target, IsOldFile disk top kind source target ∧
      oldPlace top other ++ names = top ++ source
  · obtain ⟨source, target, old, same⟩ := source
    rw [same] at found ⊢
    rcases stopped.partly old with ⟨stays, -⟩ | ⟨left, -⟩
    · rwa [stays] at found
    · rw [left] at found
      cases found
  · rwa [stopped.kept] at found
    · intro earlier member
      constructor
      · intro above
        exact notEarlier (kind_eq_of_above (List.prefix_append _ _) above ▸ member)
      · intro source' target' old same
        exact old.moves.not_prefix top other (same ▸ List.prefix_append _ _)
    · intro source' target' old
      constructor
      · intro same
        exact source ⟨source', target', old, same⟩
      · intro same
        exact old.moves.not_prefix top other (same ▸ List.prefix_append _ _)

theorem IsStopped.of_isOldFile (room : ∀ kind, HasRoom disk top kind)
    (old : IsOldFile after top other source target) :
    IsOldFile disk top other source target ∧
      after.node? (top ++ source) = disk.node? (top ++ source) ∧
        after.node? (top ++ target) = none := by
  obtain ⟨moves, size, accessed, found⟩ := old
  obtain ⟨rest, split⟩ := moves.oldPlace_prefix top
  have notEarlier : other ∉ before := by
    intro member
    rw [← split, stopped.gone other member] at found
    cases found
  have held := found
  rw [← split] at held
  have first := stopped.node?_old notEarlier held
  rw [split] at first
  have old : IsOldFile disk top other source target := ⟨moves, size, accessed, first⟩
  refine ⟨old, found.trans first.symm, ?_⟩
  by_cases own : other = kind
  · subst own
    rcases stopped.partly old with ⟨-, free⟩ | ⟨left, -⟩
    · exact free
    · rw [left] at found
      cases found
  · rw [stopped.kept, (room other).free old]
    · intro earlier member
      refine ⟨moves.not_prefix top earlier, fun source' target' old' same => ?_⟩
      rw [List.append_cancel_left same] at moves
      exact notEarlier (moves.kind_eq old'.moves ▸ member)
    · intro source' target' old'
      constructor
      · exact moves.target_ne_source old'.moves top
      · intro same
        rw [List.append_cancel_left same] at moves
        exact own (moves.kind_eq old'.moves)

theorem IsStopped.of_missing (old : IsOldFile disk top other source target)
    (missing : ¬ IsOldFile after top other source target) :
    after.node? (top ++ target) = disk.node? (top ++ source) := by
  by_cases earlier : other ∈ before
  · exact stopped.moved other earlier old
  · by_cases own : other = kind
    · subst own
      rcases stopped.partly old with ⟨stays, -⟩ | ⟨-, arrived⟩
      · obtain ⟨size, accessed, found⟩ := old.held
        exact absurd ⟨old.moves, size, accessed, stays.trans found⟩ missing
      · exact arrived
    · obtain ⟨size, accessed, found⟩ := old.held
      refine absurd ⟨old.moves, size, accessed, ?_⟩ missing
      rw [stopped.kept, found]
      · intro before' member
        constructor
        · intro above
          exact earlier (kind_eq_of_above (old.moves.oldPlace_prefix top) above ▸ member)
        · intro source' target' old'
          exact (old'.moves.target_ne_source old.moves top).symm
      · intro source' target' old'
        constructor
        · intro same
          have above := old'.moves.oldPlace_prefix top
          rw [← same] at above
          exact own (kind_eq_of_above (old.moves.oldPlace_prefix top) above)
        · exact (old'.moves.target_ne_source old.moves top).symm

theorem IsStopped.source_or_target (room : ∀ kind, HasRoom disk top kind)
    (old : IsOldFile disk top other source target) :
    after.node? (top ++ source) = disk.node? (top ++ source) ∨
      after.node? (top ++ target) = disk.node? (top ++ source) := by
  by_cases still : IsOldFile after top other source target
  · exact .inl (stopped.of_isOldFile room still).2.1
  · exact .inr (stopped.of_missing old still)

theorem IsStopped.node?_of_apart (room : ∀ kind, HasRoom disk top kind) {location : Location}
    {node : Node} (found : disk.node? location = some node)
    (apart : ∀ kind, ¬ oldPlace top kind <+: location) : after.node? location = some node := by
  -- The targets of all moves are free.
  have notTarget : ∀ {kind source target}, IsOldFile disk top kind source target →
      location ≠ top ++ target := by
    rintro kind source target old rfl
    rw [(room kind).free old] at found
    cases found
  rw [stopped.kept, found]
  · exact fun earlier _ => ⟨apart earlier, fun _ _ old => notTarget old⟩
  · refine fun source target old => ⟨?_, notTarget old⟩
    rintro rfl
    exact apart kind (old.moves.oldPlace_prefix top)

/-- Resumed without the unexpected nodes, a stopped upgrade leads where it would have led. -/
theorem IsStopped.upgraded {last : Disk}
    (room : ∀ kind, HasRoom disk top kind)
    (upgraded : IsUpgraded (cleared after top) top Kind.all last) :
    IsUpgraded disk top Kind.all last := by
  refine ⟨?_, upgraded.gone, ?_⟩
  · intro other member source target old
    by_cases still : IsOldFile after top other source target
    · obtain ⟨size, accessed, held⟩ := (isOldFile_cleared_iff.mpr still).held
      rw [upgraded.moved other member (isOldFile_cleared_iff.mpr still), held,
        ← (stopped.of_isOldFile room still).2.1, node?_of_cleared held]
    · rw [upgraded.kept, node?_cleared_of_other fun kind => old.moves.not_prefix top kind,
        stopped.of_missing old still]
      intro other' _
      refine ⟨old.moves.not_prefix top other', fun source' target' old' same => ?_⟩
      -- Another old file for this place would be the same one.
      have stays := isOldFile_cleared_iff.mp old'
      have first := (stopped.of_isOldFile room stays).1
      rw [← List.append_cancel_left same] at first stays
      obtain rfl := first.moves.kind_eq old.moves
      exact still ((room other').distinct first old ▸ stays)
  · intro location apart
    rw [upgraded.kept, node?_cleared_of_other fun kind => (apart kind kind.mem_all).1,
      stopped.kept]
    · intro earlier member
      exact apart earlier earlier.mem_all
    · intro source target old
      refine ⟨?_, (apart kind kind.mem_all).2 source target old⟩
      rintro rfl
      exact (apart kind kind.mem_all).1 (old.moves.oldPlace_prefix top)
    · intro other member
      refine ⟨(apart other member).1, fun source target old => ?_⟩
      exact (apart other member).2 source target
        (stopped.of_isOldFile room (isOldFile_cleared_iff.mp old)).1

end Stopped

end ArtifactCache.Upgrade
