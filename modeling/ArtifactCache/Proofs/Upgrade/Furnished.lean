import ArtifactCache.Proofs.Store.LaidOut
import ArtifactCache.Proofs.Upgrade.Complete

/-! # Roots with older layouts

A disk with the shards of the current layout below a root, and with given nodes in the former
directories.  It is put together from the operations of the disk.
-/

namespace ArtifactCache.Upgrade

open DiskPath

/-- A node in a former directory, or such a directory itself, with its place below the root. -/
structure OldNode where
  directory : List Name
  name : Name
  node : Node

namespace OldNode

/-- Where a node is, below the root. -/
def names (item : OldNode) : List Name :=
  item.directory ++ [item.name]

end OldNode

/-- The disk with the shards of a root and with nodes of older layouts, the last of which was
made first. -/
def furnished (top : Location) : List OldNode → Disk
  | [] => (Store.prepareRoot (ofLocation top) Disk.empty).2
  | item :: rest => (furnished top rest).addNode (top ++ item.directory) item.name item.node

/-- Whether all nodes lie in former directories, each one in a directory that is made before,
and no two of them in the same place. -/
def isFurniture : List OldNode → Bool
  | [] => true
  | item :: rest =>
    isPlainName item.name &&
    (Kind.all.any fun kind => item.names.head? = some (nameOf kind.formerDirectory)) &&
    (item.directory = [] || rest.any fun other =>
      other.names = item.directory && other.node = .directory) &&
    !(rest.any fun other => other.names = item.names) &&
    isFurniture rest

section Furnished

variable {top : Location} {items : List OldNode} {kind : Kind} {names source target : List Name}

/-- Whether there is room for the shards of a root. -/
structure HasShards (top : Location) : Prop where
  plain : ∀ name ∈ top, IsPlain name
  room : (ofLocation top).bytes.length + 10 ≤ longestPath

theorem exists_prefix_shardLocation (top : Location) :
    ∃ location ∈ shardLocations top, top <+: location :=
  ⟨_, firstShard_mem top .action, List.prefix_append _ _⟩

theorem not_prefix_shard_of_old (kind : Kind) (names : List Name) :
    ¬ ∃ location ∈ shardLocations top,
      top ++ nameOf kind.formerDirectory :: names <+: location := by
  rintro ⟨location, member, below⟩
  obtain ⟨other, shard, -, rfl⟩ := mem_shardLocations.mp member
  rw [List.prefix_append_right_inj, List.cons_prefix_cons] at below
  exact ne_formerName other kind below.1.symm

theorem node?_prepared (fits : HasShards top) (other : Location) :
    (Store.prepareRoot (ofLocation top) Disk.empty).2.node? other =
      if ∃ location ∈ shardLocations top, other <+: location then some .directory else none := by
  have clear : ∀ location, Disk.empty.Clear location := by
    intro location above _
    rw [Disk.node?_empty]
    split
    · exact .inr rfl
    · exact .inl rfl
  obtain ⟨ready, prepared, nodes⟩ := Store.prepareRoot_ofLocation fits.plain
    (fun location => short_of_room fits.room) (Nat.le_trans (Nat.le_add_right _ _) fits.room)
    (fun location _ => clear location) (clear top)
  rw [prepared, nodes]
  split
  · rfl
  · rename_i apart
    rw [Disk.node?_empty, if_neg]
    rintro rfl
    exact apart ⟨_, firstShard_mem top .action, List.nil_prefix⟩

theorem isFurniture_cons {item : OldNode} (furniture : isFurniture (item :: items) = true) :
    isPlainName item.name = true ∧
    (item.directory = [] ∨
      ∃ other ∈ items, other.names = item.directory ∧ other.node = .directory) ∧
    (∀ other ∈ items, ¬ other.names = item.names) ∧ isFurniture items = true := by
  simp only [isFurniture, Bool.and_eq_true, Bool.or_eq_true, Bool.not_eq_true', List.any_eq_true,
    List.any_eq_false, decide_eq_true_eq] at furniture
  obtain ⟨⟨⟨⟨plain, -⟩, inside⟩, fresh⟩, furniture⟩ := furniture
  exact ⟨plain, inside, fresh, furniture⟩

theorem exists_former_of_mem {item : OldNode} (furniture : isFurniture items = true)
    (member : item ∈ items) : ∃ kind : Kind, ∃ names,
      item.names = nameOf kind.formerDirectory :: names := by
  induction items with
  | nil => cases member
  | cons first rest ih =>
    rcases List.mem_cons.mp member with rfl | later
    · simp only [isFurniture, Bool.and_eq_true, List.any_eq_true, decide_eq_true_eq] at furniture
      obtain ⟨⟨⟨⟨-, kind, -, former⟩, -⟩, -⟩, -⟩ := furniture
      obtain ⟨names, split⟩ := List.head?_eq_some_iff.mp former
      exact ⟨kind, names, split⟩
    · exact ih (isFurniture_cons furniture).2.2.2 later

theorem node?_furnished (fits : HasShards top) (furniture : isFurniture items = true)
    {other : Location} {node : Node} : (furnished top items).node? other = some node ↔
      (node = .directory ∧ ∃ location ∈ shardLocations top, other <+: location) ∨
        ∃ item ∈ items, other = top ++ item.names ∧ node = item.node := by
  induction items generalizing other node with
  | nil =>
    rw [furnished, node?_prepared fits]
    simp only [List.not_mem_nil, false_and, exists_false, or_false]
    split
    · rename_i isShard
      rw [Option.some.injEq]
      exact ⟨fun same => ⟨same.symm, isShard⟩, fun above => above.1.symm⟩
    · rename_i isShard
      constructor
      · intro same
        cases same
      · exact fun above => absurd above.2 isShard
  | cons item rest ih =>
    obtain ⟨kind, names, split⟩ := exists_former_of_mem furniture List.mem_cons_self
    obtain ⟨plain, inside, fresh, furniture⟩ := isFurniture_cons furniture
    have ih := @ih furniture
    have held : (furnished top rest).node? (top ++ item.directory) = some .directory := by
      rcases inside with empty | ⟨outer, member, same, directory⟩
      · rw [empty, List.append_nil]
        exact ih.mpr (.inl ⟨rfl, exists_prefix_shardLocation top⟩)
      · exact ih.mpr (.inr ⟨outer, member, by rw [same], directory.symm⟩)
    have missing : (furnished top rest).node? (top ++ item.names) = none := by
      cases found : (furnished top rest).node? (top ++ item.names) with
      | none => rfl
      | some node =>
        rcases ih.mp found with ⟨-, isShard⟩ | ⟨outer, member, same, -⟩
        · rw [split] at isShard
          exact absurd isShard (not_prefix_shard_of_old kind names)
        · exact absurd (List.append_cancel_left same).symm (fresh outer member)
    have place : top ++ item.directory ++ [item.name] = top ++ item.names :=
      List.append_assoc _ _ _
    rw [furnished, Disk.node?_addNode held (isPlainName_iff.mp plain) (place ▸ missing), place]
    simp only [List.exists_mem_cons_iff]
    by_cases own : other = top ++ item.names
    · subst own
      rw [if_pos rfl, Option.some.injEq]
      constructor
      · rintro rfl
        exact .inr (.inl ⟨rfl, rfl⟩)
      · rintro (⟨-, isShard⟩ | ⟨-, rfl⟩ | ⟨outer, member, same, -⟩)
        · rw [split] at isShard
          exact absurd isShard (not_prefix_shard_of_old kind names)
        · rfl
        · exact absurd (List.append_cancel_left same).symm (fresh outer member)
    · rw [if_neg own, ih]
      simp only [own, false_and, false_or]

theorem node?_furnished_old (fits : HasShards top) (furniture : isFurniture items = true)
    (kind : Kind) (names : List Name) {node : Node} :
    (furnished top items).node? (oldPlace top kind ++ names) = some node ↔
      ∃ item ∈ items, item.names = nameOf kind.formerDirectory :: names ∧ item.node = node := by
  have place : oldPlace top kind ++ names = top ++ nameOf kind.formerDirectory :: names := by
    simp [oldPlace]
  rw [place, node?_furnished fits furniture]
  constructor
  · rintro (⟨-, isShard⟩ | ⟨item, member, same, rfl⟩)
    · exact absurd isShard (not_prefix_shard_of_old kind names)
    · exact ⟨item, member, (List.append_cancel_left same).symm, rfl⟩
  · rintro ⟨item, member, same, rfl⟩
    exact .inr ⟨item, member, by rw [same], rfl⟩

theorem exists_item_of_isOldFile (fits : HasShards top) (furniture : isFurniture items = true)
    (old : IsOldFile (furnished top items) top kind source target) :
    ∃ item ∈ items, item.names = source ∧ item.node.isFile = true := by
  obtain ⟨moves, size, accessed, found⟩ := old
  obtain ⟨rest, rfl, -⟩ := moves.exists_source
  have place : top ++ nameOf kind.formerDirectory :: rest = oldPlace top kind ++ rest := by
    simp [oldPlace]
  rw [place] at found
  obtain ⟨item, member, same, file⟩ := (node?_furnished_old fits furniture kind rest).mp found
  exact ⟨item, member, same, by rw [file]; rfl⟩

theorem leadsTo_withoutOld_furnished (fits : HasShards top)
    (furniture : isFurniture items = true) :
    (withoutOld (furnished top items) top).LeadsTo (ofLocation top) top := by
  have held : (withoutOld (furnished top items) top).node? top = some .directory := by
    rw [node?_withoutOld_of_other, node?_furnished fits furniture]
    · exact .inl ⟨rfl, exists_prefix_shardLocation top⟩
    · intro kind above
      have length := above.length_le
      rw [oldPlace, List.length_append, List.length_singleton] at length
      omega
  exact Disk.leadsTo_ofLocation held

/-- An upgrade of a furnished disk can start, if former directories are directories and there is
at most one file for each kind. -/
theorem isUpgradable_furnished (fits : HasShards top) (furniture : isFurniture items = true)
    {root : DiskPath} (leads : (furnished top items).LeadsTo root top)
    (directories : ∀ item ∈ items, item.directory = [] → item.node = .directory)
    (single : ((items.filter fun item => item.node.isFile).map fun item =>
      item.names.head?).Nodup) :
    IsUpgradable (furnished top items) root top where
  stands := ⟨leads, fun location member =>
    (node?_furnished fits furniture).mpr (.inl ⟨rfl, location, member, List.prefix_rfl⟩)⟩
  former kind := by
    cases found : (furnished top items).node? (oldPlace top kind) with
    | none => exact .inl rfl
    | some node =>
      rw [← List.append_nil (oldPlace top kind)] at found
      obtain ⟨item, member, same, rfl⟩ := (node?_furnished_old fits furniture kind []).mp found
      have outer : item.directory = [] := by
        have length := congrArg List.length same
        rw [OldNode.names, List.length_append, List.length_singleton, List.length_singleton]
          at length
        exact List.length_eq_zero_iff.mp (by omega)
      exact .inr (congrArg some (directories item member outer))
  room kind := by
    constructor
    · intro source target old
      obtain ⟨digest, name, -, rfl⟩ := old.moves.exists_target
      cases found : (furnished top items).node?
          (top ++ ([kind.directoryName, nameOf digest.shard] ++ [name])) with
      | none => rfl
      | some node =>
        rcases (node?_furnished fits furniture).mp found with
          ⟨-, location, isShard, below⟩ | ⟨item, member, same, -⟩
        · obtain ⟨other, shard, -, rfl⟩ := mem_shardLocations.mp isShard
          have length := below.length_le
          simp at length
        · obtain ⟨other, names, former⟩ := exists_former_of_mem furniture member
          rw [List.append_cancel_left same.symm] at former
          exact absurd (List.cons.inj former).1 (ne_formerName kind other)
    · intro source source' target old old'
      obtain ⟨item, member, rfl, isFile⟩ := exists_item_of_isOldFile fits furniture old
      obtain ⟨item', member', rfl, isFile'⟩ := exists_item_of_isOldFile fits furniture old'
      have files : item ∈ items.filter fun item => item.node.isFile :=
        List.mem_filter.mpr ⟨member, isFile⟩
      have files' : item' ∈ items.filter fun item => item.node.isFile :=
        List.mem_filter.mpr ⟨member', isFile'⟩
      obtain ⟨rest, split, -⟩ := old.moves.exists_source
      obtain ⟨rest', split', -⟩ := old'.moves.exists_source
      rw [List.inj_on_of_nodup_map single files files' (by rw [split, split']; rfl)]

theorem isClean_furnished (fits : HasShards top) (furniture : isFurniture items = true)
    (kind : Kind) (named : ∀ item ∈ items,
      item.directory.head? = some (nameOf kind.formerDirectory) → item.directory.length = 2 →
        (digest? item.name).isSome = true ∧ item.node.isFile = true) :
    IsClean (furnished top items) top kind := by
  intro directory name node found
  obtain ⟨item, member, same, rfl⟩ := (node?_furnished_old fits furniture kind _).mp found
  have split : item.directory ++ [item.name] =
      [nameOf kind.formerDirectory, directory] ++ [name] := same
  obtain ⟨outer, last⟩ := List.append_inj' split rfl
  obtain rfl := List.head_eq_of_cons_eq last
  obtain ⟨digested, isFile⟩ := named item member (by rw [outer]; rfl) (by rw [outer]; rfl)
  obtain ⟨digest, named⟩ := Option.isSome_iff_exists.mp digested
  exact ⟨⟨digest, digest?_eq_some_iff.mp named⟩, isFile⟩

theorem acceptsPaths_furnished (fits : HasShards top) (furniture : isFurniture items = true)
    {root : DiskPath} (former : (oldDirectory root kind).checkForm = .ok ())
    (shards : ∀ item ∈ items, item.directory = [nameOf kind.formerDirectory] →
      ((oldDirectory root kind).child item.name).checkForm = .ok ())
    (noFile : ∀ item ∈ items, item.node.isFile = true →
      item.names.head? ≠ some (nameOf kind.formerDirectory)) :
    AcceptsPaths (furnished top items) root top kind where
  former := former
  shards {name} held := by
    obtain ⟨item, member, same, -⟩ := (node?_furnished_old fits furniture kind [name]).mp held
    have split : item.directory ++ [item.name] = [nameOf kind.formerDirectory] ++ [name] := same
    obtain ⟨outer, last⟩ := List.append_inj' split rfl
    obtain rfl := List.head_eq_of_cons_eq last
    exact shards item member outer
  files {source target} old := by
    obtain ⟨item, member, same, isFile⟩ := exists_item_of_isOldFile fits furniture old
    obtain ⟨rest, rfl, -⟩ := old.moves.exists_source
    exact absurd (by rw [same]; rfl) (noFile item member isFile)

end Furnished

end ArtifactCache.Upgrade
