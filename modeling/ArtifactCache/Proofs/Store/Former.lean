import ArtifactCache.Proofs.Store.Acceptance
import ArtifactCache.Proofs.Upgrade.Stocked

/-! # Roots that are as an older version left them

Below such a root there is nothing but former directories.  No file of the current layout can stand
in the way of an upgrade, so an opening admits the root as soon as the system takes the paths.
-/

namespace ArtifactCache

open DiskPath Upgrade

/-- Whether nothing lies at a location but former directories, with files that are named by a
digest and directories of such files. -/
structure IsFormer (disk : Disk) (top : Location) : Prop where
  held : disk.node? top = some .directory
  directories : ∀ {name node}, disk.node? (top ++ [name]) = some node →
    node = .directory ∧ ∃ kind : Kind, nameOf kind.formerDirectory = name
  flat : ∀ {kind name node}, disk.node? (oldPlace top kind ++ [name]) = some node →
    node = .directory ∨ node.isFile = true ∧ ∃ digest : Digest, name = nameOf digest.text
  clean : ∀ kind, IsClean disk top kind
  /-- No digest occurs twice in the sharded layout of a kind. -/
  single : ∀ {kind directory directory'} {digest : Digest} {node node'},
    disk.node? (oldPlace top kind ++ [directory, nameOf digest.text]) = some node →
      disk.node? (oldPlace top kind ++ [directory', nameOf digest.text]) = some node' →
        directory = directory'

/-- Whether the copies in older layouts, taken together, do not exceed a number of bytes. -/
def CopiesFit (disk : Disk) (top : Location) (limit : Nat) : Prop :=
  ∀ copies : List OldCopy, copies.Nodup → (∀ copy ∈ copies, IsOldCopy disk top copy) →
    Index.weight (copies.map OldCopy.entry) ≤ limit

/-- Whether the system takes all paths that an opening with old files uses. -/
structure TakesPaths (base : DiskPath) (disk : Disk) (top : Location) : Prop where
  base : base.checkForm = .ok ()
  shards : ∀ location ∈ shardLocations top, (ofLocation location).bytes.length ≤ longestPath
  old : ∀ kind, AcceptsPaths disk (ofLocation top) top kind

variable {disk : Disk} {top : Location} {names : List Name} {node : Node}

namespace IsFormer

variable (former : IsFormer disk top)

include former

theorem exists_oldPlace (found : disk.node? (top ++ names) = some node) (below : names ≠ []) :
    ∃ kind rest, names = nameOf (Kind.formerDirectory kind) :: rest := by
  obtain ⟨name, rest, rfl⟩ := List.exists_cons_of_ne_nil below
  have directory : ∃ node, disk.node? (top ++ [name]) = some node := by
    by_cases last : rest = []
    · exact ⟨node, last ▸ found⟩
    · exact ⟨_, Disk.directory_of_prefix found (by simp) (by simpa using Ne.symm last)⟩
  obtain ⟨other, held⟩ := directory
  obtain ⟨-, kind, rfl⟩ := former.directories held
  exact ⟨kind, rest, rfl⟩

theorem node?_current (kind : Kind) (rest : List Name) :
    disk.node? (top ++ kind.directoryName :: rest) = none := by
  cases found : disk.node? (top ++ kind.directoryName :: rest) with
  | none => rfl
  | some node =>
    obtain ⟨other, others, same⟩ := former.exists_oldPlace found (List.cons_ne_nil _ _)
    exact absurd (List.cons.inj same).1 (ne_formerName kind other)

theorem hasRoom (kind : Kind) : HasRoom disk top kind where
  free := by
    intro source target old
    obtain ⟨digest, name, -, rfl⟩ := old.moves.exists_target
    exact former.node?_current kind _
  distinct := by
    rintro source source' target ⟨moves, size, accessed, lies⟩ ⟨moves', size', accessed', lies'⟩
    -- The token tells the layouts apart, and in one layout the digest tells the file.
    have apart : "222444666" ≠ (if kind = .content then "556677" else "112233") := by
      split <;> decide
    cases moves with
    | flat digest =>
      generalize place : newNames kind digest "222444666" = target at moves'
      cases moves' with
      | flat other => rw [(newNames_injective place).1]
      | sharded directory other => exact absurd (newNames_injective place).2 apart
    | sharded directory digest =>
      generalize place : newNames kind digest _ = target at moves'
      cases moves' with
      | flat other => exact absurd (newNames_injective place).2.symm apart
      | sharded directory' other =>
        obtain rfl := (newNames_injective place).1
        rw [← oldPlace_append] at lies lies'
        rw [former.single lies lies']

theorem isOrdinary : IsOrdinary disk top where
  former := by
    intro kind
    cases found : disk.node? (oldPlace top kind) with
    | none => exact .inl rfl
    | some node => exact .inr (congrArg some (former.directories found).1)
  kinds := by
    intro kind target found
    rw [former.node?_current kind []] at found
    cases found
  shards := by
    intro location member target found
    obtain ⟨kind, shard, -, rfl⟩ := mem_shardLocations.mp member
    rw [former.node?_current kind] at found
    cases found
  room := former.hasRoom

theorem node?_withoutOld (below : names ≠ []) :
    (withoutOld disk top).node? (top ++ names) = none := by
  cases found : (withoutOld disk top).node? (top ++ names) with
  | none => rfl
  | some node =>
    obtain ⟨held, apart⟩ := node?_withoutOld_eq_some_iff.mp found
    obtain ⟨kind, rest, rfl⟩ := former.exists_oldPlace held below
    rw [← oldPlace_append] at apart
    exact absurd (List.prefix_append _ _) (apart kind)

theorem filesBelow_withoutOld : Inventory.filesBelow (withoutOld disk top) top = [] := by
  refine Inventory.filesBelow_eq_nil fun kindName shardName name size accessed held => ?_
  rw [former.node?_withoutOld (List.cons_ne_nil _ _)] at held
  cases held

theorem admits {base : DiskPath} (takes : TakesPaths base disk top) (stage : Stage) :
    Store.Admits base disk top stage := by
  cases stage with
  | directories =>
    refine ⟨takes.base, fun location member =>
      ⟨fun above beginning => ?_, takes.shards location member⟩⟩
    obtain ⟨kind, shard, -, rfl⟩ := mem_shardLocations.mp member
    -- The way to a shard leads to the root, and from there on nothing is in the way.
    rcases List.prefix_or_prefix_of_prefix beginning (List.prefix_append top _) with
      outside | ⟨names, rfl⟩
    · exact Disk.clear_of_node? former.held above outside
    · cases names with
      | nil => exact .inr ((List.append_nil top).symm ▸ former.held)
      | cons name rest =>
        have same := (List.cons_prefix_cons.mp ((List.prefix_append_right_inj _).mp beginning)).1
        subst same
        exact .inl (former.node?_current kind rest)
  | upgrade => exact fun kind => ⟨former.clean kind, takes.old kind⟩
  | inventory =>
    constructor
    · intro name node found
      rw [former.node?_withoutOld (List.cons_ne_nil _ _)] at found
      cases found
    · intro kindName name node found
      rw [former.node?_withoutOld (List.cons_ne_nil _ _)] at found
      cases found
    · intro kindName shardName name node found
      rw [former.node?_withoutOld (List.cons_ne_nil _ _)] at found
      cases found
  | replay =>
    rw [Store.Admits, former.filesBelow_withoutOld]
    simp

end IsFormer

/-! ## Roots with given copies -/

section Stocked

variable {copies : List OldCopy} (fits : HasShards top)
  (furniture : isFurniture (stock copies) = true)

include fits furniture

/-- In the directories of a former directory there are only copies. -/
theorem exists_copy_of_inner {kind : Kind} {directory name : Name}
    (found : (stocked top copies).node? (oldPlace top kind ++ [directory, name]) = some node) :
    ∃ copy ∈ copies, [nameOf kind.formerDirectory, directory, name] = copy.oldNames ∧
      node = .file copy.size copy.accessed := by
  rw [oldPlace_append, node?_stocked fits furniture] at found
  rcases found with ⟨-, short⟩ | isCopy
  · simp at short
  · exact isCopy

theorem isFormer_stocked : IsFormer (stocked top copies) top where
  held := by
    have found := (@node?_stocked top copies [] .directory fits furniture).mpr
      (.inl ⟨rfl, .inl rfl⟩)
    rwa [List.append_nil] at found
  directories := by
    intro name node found
    rcases (node?_stocked fits furniture).mp found with ⟨rfl, same⟩ | ⟨copy, -, place, -⟩
    · obtain ⟨kind, same⟩ : ∃ kind : Kind, name = nameOf kind.formerDirectory := by
        simpa using same
      exact ⟨rfl, kind, same.symm⟩
    · rcases copy.oldNames_flat_or_sharded with long | long <;> simp [long] at place
  flat := by
    intro kind name node found
    rw [oldPlace_append, node?_stocked fits furniture] at found
    rcases found with ⟨rfl, -⟩ | ⟨copy, -, place, rfl⟩
    · exact .inl rfl
    · rcases copy.oldNames_flat_or_sharded with same | long
      · rw [same] at place
        exact .inr ⟨rfl, copy.key.digest, (List.cons.inj (List.cons.inj place).2).1⟩
      · simp [long] at place
  clean := by
    intro kind directory name node found
    obtain ⟨copy, -, place, rfl⟩ := exists_copy_of_inner fits furniture found
    rcases copy.oldNames_flat_or_sharded with short | same
    · simp [short] at place
    · rw [same] at place
      have names := (List.cons.inj (List.cons.inj place).2).2
      exact ⟨⟨copy.key.digest, (List.cons.inj names).1⟩, rfl⟩
  single := by
    intro kind directory directory' digest node node' found found'
    obtain ⟨copy, -, place, -⟩ := exists_copy_of_inner fits furniture found
    obtain ⟨copy', -, place', -⟩ := exists_copy_of_inner fits furniture found'
    obtain ⟨-, -, inner⟩ := OldCopy.oldNames_eq_sharded_iff.mp place.symm
    obtain ⟨-, -, inner'⟩ := OldCopy.oldNames_eq_sharded_iff.mp place'.symm
    rw [inner, inner']

theorem locate_stocked :
    (stocked top copies).locate (Store.tenBytes top).baseDirectory = .ok top :=
  Disk.locate_of_directory (isFormer_stocked fits furniture).held
    (Nat.le_trans (Nat.le_add_right _ _) fits.room)

theorem hasDistinctAccesses_stocked (distinct : (copies.map OldCopy.accessed).Nodup) :
    HasDistinctAccesses (stocked top copies) top := by
  intro names names' size size' accessed found found'
  obtain ⟨copy, member, rfl, -, rfl⟩ := (node?_stocked_file fits furniture).mp found
  obtain ⟨other, member', rfl, -, same⟩ := (node?_stocked_file fits furniture).mp found'
  rw [List.inj_on_of_nodup_map distinct member' member same]

theorem copiesFit_stocked {limit : Nat}
    (fit : Index.weight (copies.map OldCopy.entry) ≤ limit) :
    CopiesFit (stocked top copies) top limit := by
  intro chosen distinct old
  have among : chosen ⊆ copies := fun copy member =>
    (isOldCopy_stocked_iff fits furniture).mp (old copy member)
  obtain ⟨part, perm, sublist⟩ := distinct.subperm among
  calc Index.weight (chosen.map OldCopy.entry)
      = Index.weight (part.map OldCopy.entry) := Index.weight_perm (perm.symm.map _)
    _ ≤ Index.weight (copies.map OldCopy.entry) := Index.weight_le_of_sublist (sublist.map _)
    _ ≤ limit := fit

end Stocked

end ArtifactCache
