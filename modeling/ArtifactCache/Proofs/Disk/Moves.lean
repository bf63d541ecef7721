import ArtifactCache.Proofs.Disk.Roots
import Mathlib.Data.List.Nodup
import Mathlib.Data.List.Perm.Subperm

/-! # Moving several files

Where no two of several files go to the same place and all these places are free, the moves
do not get in each other's way.  What the disk looks like after some of them only depends on
which these are, and the others can still be made.
-/

namespace ArtifactCache

/-- The location of a file and the one that it is moved to. -/
structure Move where
  source : Location
  target : Location

namespace Disk

/-- Whether several files can be moved to places that are free and differ from each other. -/
structure CanMove (disk : Disk) (moves : List Move) : Prop where
  files : ∀ move ∈ moves, ∃ size accessed, disk.node? move.source = some (.file size accessed)
  free : ∀ move ∈ moves, disk.node? move.target = none
  sources : (moves.map Move.source).Nodup
  targets : (moves.map Move.target).Nodup

/-- Whether a disk came from another one by some moves. -/
structure HasMoved (disk : Disk) (moves : List Move) (after : Disk) : Prop where
  arrived : ∀ move ∈ moves, after.node? move.target = disk.node? move.source
  left : ∀ move ∈ moves, after.node? move.source = none
  kept : ∀ other, (∀ move ∈ moves, other ≠ move.source ∧ other ≠ move.target) →
    after.node? other = disk.node? other

variable {disk middle after : Disk} {move : Move} {moves some all : List Move}

theorem hasMoved_nil (disk : Disk) : disk.HasMoved [] disk where
  arrived _ member := by cases member
  left _ member := by cases member
  kept _ _ := rfl

/-- Which moves were made decides where the nodes are, and their order does not. -/
theorem HasMoved.congr (moved : disk.HasMoved moves after)
    (same : ∀ move, move ∈ some ↔ move ∈ moves) : disk.HasMoved some after where
  arrived move member := moved.arrived move ((same move).mp member)
  left move member := moved.left move ((same move).mp member)
  kept other apart := moved.kept other fun move member => apart move ((same move).mpr member)

theorem CanMove.subperm (can : disk.CanMove all) (part : some.Subperm all) :
    disk.CanMove some := by
  obtain ⟨chosen, same, among⟩ := part
  have member : ∀ move ∈ some, move ∈ all :=
    fun move member => among.subset (same.symm.mem_iff.mp member)
  refine ⟨fun move present => can.files move (member move present),
    fun move present => can.free move (member move present), ?_, ?_⟩
  · apply (same.map Move.source).nodup_iff.mp
    exact can.sources.sublist (among.map _)
  · apply (same.map Move.target).nodup_iff.mp
    exact can.targets.sublist (among.map _)

theorem CanMove.source_ne_target (can : disk.CanMove moves) {first second : Move}
    (member : first ∈ moves) (member' : second ∈ moves) : first.source ≠ second.target := by
  intro same
  obtain ⟨size, accessed, file⟩ := can.files first member
  have free := can.free second member'
  rw [← same, file] at free
  cases free

theorem HasMoved.frames (moved : disk.HasMoved moves after) (can : disk.CanMove moves) :
    disk.Frames after := by
  intro location node found plain
  rw [moved.kept location ?_, found]
  intro move member
  constructor
  · rintro rfl
    obtain ⟨size, accessed, file⟩ := can.files move member
    rw [found] at file
    obtain rfl := Option.some.inj file
    cases plain
  · rintro rfl
    rw [can.free move member] at found
    cases found

/-- A directory in which everything stays is listed as before. -/
theorem perm_entries {place : Location}
    (same : ∀ name, after.node? (place ++ [name]) = disk.node? (place ++ [name])) :
    (after.entries place).Perm (disk.entries place) := by
  have nodup : ∀ disk : Disk, (disk.entries place).Nodup := by
    intro disk
    refine (disk.pairwise_entries place).imp ?_
    rintro first second differ rfl
    exact differ rfl
  apply (List.perm_ext_iff_of_nodup (nodup after) (nodup disk)).mpr
  rintro ⟨name, node⟩
  rw [mem_entries, mem_entries, same]

/-- After some moves, another one finds its file and its place as they were. -/
theorem HasMoved.next (moved : disk.HasMoved moves middle) (can : disk.CanMove (move :: moves)) :
    middle.node? move.source = disk.node? move.source ∧ middle.node? move.target = none := by
  have own : move ∈ move :: moves := List.mem_cons_self
  have freshSource := (List.nodup_cons.mp can.sources).1
  have freshTarget := (List.nodup_cons.mp can.targets).1
  constructor
  · apply moved.kept
    intro other member
    refine ⟨?_, can.source_ne_target own (List.mem_cons_of_mem _ member)⟩
    intro same
    exact freshSource (same ▸ List.mem_map_of_mem member)
  · rw [moved.kept, can.free move own]
    intro other member
    refine ⟨(can.source_ne_target (List.mem_cons_of_mem _ member) own).symm, ?_⟩
    intro same
    exact freshTarget (same ▸ List.mem_map_of_mem member)

theorem HasMoved.cons (moved : disk.HasMoved moves middle) (can : disk.CanMove (move :: moves))
    (last : ∀ other, after.node? other =
      if other = move.target then disk.node? move.source else if other = move.source then none
      else middle.node? other) : disk.HasMoved (move :: moves) after := by
  have own : move ∈ move :: moves := List.mem_cons_self
  have freshSource := (List.nodup_cons.mp can.sources).1
  have freshTarget := (List.nodup_cons.mp can.targets).1
  refine ⟨?_, ?_, ?_⟩
  · intro other member
    rcases List.mem_cons.mp member with rfl | earlier
    · rw [last, if_pos rfl]
    · rw [last, if_neg, if_neg, moved.arrived other earlier]
      · exact (can.source_ne_target own member).symm
      · intro same
        exact freshTarget (same ▸ List.mem_map_of_mem earlier)
  · intro other member
    rw [last, if_neg (can.source_ne_target member own)]
    rcases List.mem_cons.mp member with rfl | earlier
    · rw [if_pos rfl]
    · rw [moved.left other earlier, ite_self]
  · intro other apart
    obtain ⟨notSource, notTarget⟩ := apart move own
    rw [last, if_neg notTarget, if_neg notSource]
    apply moved.kept
    intro earlier member
    exact apart earlier (List.mem_cons_of_mem _ member)

end Disk

end ArtifactCache
