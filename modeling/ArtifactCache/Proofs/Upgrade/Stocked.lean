import ArtifactCache.Proofs.Upgrade.Copies
import ArtifactCache.Proofs.Upgrade.Furnished

/-! # Roots with given copies

A disk as an older version may have left it: below the root there are the former directories, each
with one directory for sharded copies, and in them the files of given copies.
-/

namespace ArtifactCache.Upgrade

open DiskPath

/-- The name of the directories for sharded copies. -/
def innerName : Name := [0x78]

namespace OldCopy

def oldNode (copy : OldCopy) : OldNode where
  directory :=
    nameOf copy.key.kind.formerDirectory :: if copy.sharded then [innerName] else []
  name := nameOf copy.key.digest.text
  node := .file copy.size copy.accessed

/-- Where the file of a copy is, below the root. -/
def oldNames (copy : OldCopy) : List Name :=
  copy.oldNode.names

variable {copy : OldCopy} {kind : Kind} {directory : Name} {digest : Digest}

theorem oldNames_flat_or_sharded (copy : OldCopy) :
    copy.oldNames = [nameOf copy.key.kind.formerDirectory, nameOf copy.key.digest.text] ∨
      copy.oldNames =
        [nameOf copy.key.kind.formerDirectory, innerName, nameOf copy.key.digest.text] := by
  obtain ⟨key, _ | _, size, accessed⟩ := copy
  · exact .inl rfl
  · exact .inr rfl

theorem oldNames_eq_flat_iff :
    copy.oldNames = [nameOf kind.formerDirectory, nameOf digest.text] ↔
      copy.key = { kind, digest } ∧ copy.sharded = false := by
  obtain ⟨⟨kind', digest'⟩, _ | _, size, accessed⟩ := copy
  · rw [oldNames, OldNode.names, oldNode]
    constructor
    · intro same
      obtain ⟨kinds, names⟩ := List.cons.inj same
      obtain rfl := formerName_injective kinds
      obtain rfl := Digest.ext (nameOf_injective (List.cons.inj names).1)
      exact ⟨rfl, rfl⟩
    · rintro ⟨key, -⟩
      obtain ⟨rfl, rfl⟩ := Key.mk.inj key
      rfl
  · simp [oldNames, OldNode.names, oldNode]

theorem oldNames_eq_sharded_iff :
    copy.oldNames = [nameOf kind.formerDirectory, directory, nameOf digest.text] ↔
      copy.key = { kind, digest } ∧ copy.sharded = true ∧ directory = innerName := by
  obtain ⟨⟨kind', digest'⟩, _ | _, size, accessed⟩ := copy
  · simp [oldNames, OldNode.names, oldNode]
  · rw [oldNames, OldNode.names, oldNode]
    constructor
    · intro same
      obtain ⟨kinds, names⟩ := List.cons.inj same
      obtain ⟨inner, names⟩ := List.cons.inj names
      obtain rfl := formerName_injective kinds
      obtain rfl := Digest.ext (nameOf_injective (List.cons.inj names).1)
      exact ⟨rfl, rfl, inner.symm⟩
    · rintro ⟨key, -, rfl⟩
      obtain ⟨rfl, rfl⟩ := Key.mk.inj key
      rfl

end OldCopy

/-- The former directories, with one directory in each. -/
def formerFrame : List OldNode :=
  Kind.all.flatMap fun kind =>
    [{ directory := [nameOf kind.formerDirectory], name := innerName, node := .directory },
     { directory := [], name := nameOf kind.formerDirectory, node := .directory }]

def stock (copies : List OldCopy) : List OldNode :=
  copies.map OldCopy.oldNode ++ formerFrame

/-- The disk with given copies and without the current layout. -/
def stocked (top : Location) (copies : List OldCopy) : Disk :=
  (furnished top (stock copies)).without (Kind.all.map fun kind => top ++ [kind.directoryName])

section Stocked

variable {top : Location} {copies : List OldCopy} {copy : OldCopy} {names : List Name} {node : Node}

theorem node?_withoutCurrent {disk : Disk} :
    (disk.without (Kind.all.map fun kind => top ++ [kind.directoryName])).node? (top ++ names) =
        some node ↔
      disk.node? (top ++ names) = some node ∧
        ∀ (kind : Kind) rest, names ≠ kind.directoryName :: rest := by
  rw [Disk.node?_without]
  by_cases current : ∃ (kind : Kind) (rest : List Name), names = kind.directoryName :: rest
  · obtain ⟨kind, rest, rfl⟩ := current
    rw [if_pos]
    · simp
    · refine ⟨by simp, _, List.mem_map_of_mem kind.mem_all, ?_⟩
      simp
  · rw [if_neg]
    · exact ⟨fun found => ⟨found, fun kind rest same => current ⟨kind, rest, same⟩⟩, And.left⟩
    · rintro ⟨-, location, member, rest, same⟩
      obtain ⟨kind, -, rfl⟩ := List.mem_map.mp member
      rw [List.append_assoc] at same
      exact current ⟨kind, rest, (List.append_cancel_left same).symm⟩

theorem node?_stocked (fits : HasShards top) (furniture : isFurniture (stock copies) = true) :
    (stocked top copies).node? (top ++ names) = some node ↔
      node = .directory ∧ (names = [] ∨ ∃ kind : Kind, names = [nameOf kind.formerDirectory] ∨
        names = [nameOf kind.formerDirectory, innerName]) ∨
      ∃ copy ∈ copies, names = copy.oldNames ∧ node = .file copy.size copy.accessed := by
  rw [stocked, node?_withoutCurrent, node?_furnished fits furniture]
  constructor
  · rintro ⟨⟨rfl, location, member, above⟩ | ⟨item, member, same, rfl⟩, apart⟩
    · -- Of the way to a shard only what lies above the root has been left.
      obtain ⟨kind, shard, -, rfl⟩ := mem_shardLocations.mp member
      cases names with
      | nil => exact .inl ⟨rfl, .inl rfl⟩
      | cons name rest =>
        have same := (List.cons_prefix_cons.mp ((List.prefix_append_right_inj _).mp above)).1
        exact absurd (by rw [same]) (apart kind rest)
    · obtain rfl := List.append_cancel_left same
      rcases List.mem_append.mp member with isCopy | isDirectory
      · obtain ⟨copy, among, rfl⟩ := List.mem_map.mp isCopy
        exact .inr ⟨copy, among, rfl, rfl⟩
      · obtain ⟨kind, -, member⟩ := List.mem_flatMap.mp isDirectory
        rcases List.mem_pair.mp member with rfl | rfl
        · exact .inl ⟨rfl, .inr ⟨kind, .inr rfl⟩⟩
        · exact .inl ⟨rfl, .inr ⟨kind, .inl rfl⟩⟩
  · have inFrame : ∀ (kind : Kind) {item}, item ∈
        [(⟨[nameOf kind.formerDirectory], innerName, .directory⟩ : OldNode),
          ⟨[], nameOf kind.formerDirectory, .directory⟩] → item ∈ stock copies := by
      intro kind item member
      exact List.mem_append_right _ (List.mem_flatMap.mpr ⟨kind, kind.mem_all, member⟩)
    have apart : ∀ {former : Kind} {rest : List Name}, ∀ (kind : Kind) (rest' : List Name),
        nameOf former.formerDirectory :: rest ≠ kind.directoryName :: rest' :=
      fun kind rest' same => ne_formerName kind _ (List.cons.inj same).1.symm
    rintro (⟨rfl, rfl | ⟨kind, rfl | rfl⟩⟩ | ⟨copy, member, rfl, rfl⟩)
    · refine ⟨.inl ⟨rfl, ?_⟩, by simp⟩
      rw [List.append_nil]
      exact exists_prefix_shardLocation top
    · exact ⟨.inr ⟨_, inFrame kind (List.mem_pair.mpr (.inr rfl)), rfl, rfl⟩, apart⟩
    · exact ⟨.inr ⟨_, inFrame kind (List.mem_pair.mpr (.inl rfl)), rfl, rfl⟩, apart⟩
    · exact ⟨.inr ⟨_, List.mem_append_left _ (List.mem_map_of_mem member), rfl, rfl⟩, apart⟩

theorem node?_stocked_file (fits : HasShards top) (furniture : isFurniture (stock copies) = true)
    {size : UInt64} {accessed : Instant} :
    (stocked top copies).node? (top ++ names) = some (.file size accessed) ↔
      ∃ copy ∈ copies, copy.oldNames = names ∧ copy.size = size ∧ copy.accessed = accessed := by
  rw [node?_stocked fits furniture]
  constructor
  · rintro (⟨isDirectory, -⟩ | ⟨copy, member, place, same⟩)
    · cases isDirectory
    · obtain ⟨size, accessed⟩ := Node.file.inj same
      exact ⟨copy, member, place.symm, size.symm, accessed.symm⟩
  · rintro ⟨copy, member, place, rfl, rfl⟩
    exact .inr ⟨copy, member, place.symm, rfl⟩

theorem isOldCopy_stocked_iff (fits : HasShards top)
    (furniture : isFurniture (stock copies) = true) :
    IsOldCopy (stocked top copies) top copy ↔ copy ∈ copies := by
  have lies : ∀ {kind : Kind} {names size accessed},
      (stocked top copies).node? (oldPlace top kind ++ names) = some (.file size accessed) ↔
        ∃ copy ∈ copies, copy.oldNames = nameOf kind.formerDirectory :: names ∧ copy.size = size ∧
          copy.accessed = accessed := by
    intro kind names size accessed
    rw [oldPlace_append, node?_stocked_file fits furniture]
  constructor
  · intro old
    cases old with
    | flat found =>
      obtain ⟨⟨key, layout, size, accessed⟩, member, place, rfl, rfl⟩ := lies.mp found
      obtain ⟨rfl, rfl⟩ := OldCopy.oldNames_eq_flat_iff.mp place
      exact member
    | sharded found =>
      obtain ⟨⟨key, layout, size, accessed⟩, member, place, rfl, rfl⟩ := lies.mp found
      obtain ⟨rfl, rfl, -⟩ := OldCopy.oldNames_eq_sharded_iff.mp place
      exact member
  · intro member
    obtain ⟨⟨kind, digest⟩, layout, size, accessed⟩ := copy
    cases layout with
    | false =>
      exact .flat (lies.mpr ⟨_, member, OldCopy.oldNames_eq_flat_iff.mpr ⟨rfl, rfl⟩, rfl, rfl⟩)
    | true =>
      exact .sharded
        (lies.mpr ⟨_, member, OldCopy.oldNames_eq_sharded_iff.mpr ⟨rfl, rfl, rfl⟩, rfl, rfl⟩)

end Stocked

end ArtifactCache.Upgrade
