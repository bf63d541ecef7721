import ArtifactCache.Proofs.Store.LaidOut

/-! # The inventory is exact

Whatever path leads to the root, an inventory is taken exactly of the trees that have the
layout of a cache, as long as the system takes the paths of their directories, and it lists
each file once and nothing else.  A node that does not belong in the two upper levels is
reported before any worker has been given a shard, so what is in the shards plays no part in
that.
-/

namespace ArtifactCache

open DiskPath

namespace Inventory

variable {host : Host} {disk : Disk} {root : DiskPath} {top : Location}

/-! ## Foreign nodes in the upper levels -/

/-- The failures that report a node in the two upper levels that does not belong there. -/
inductive ReportsForeign (disk : Disk) (root : DiskPath) (top : Location) : Failure → Prop
  | besideKinds {name node} (found : disk.node? (top ++ [name]) = some node)
      (plain : node ≠ .directory) :
      ReportsForeign disk root top (.foreignEntry (root.child name) "unexpected file")
  | noKind {name} (found : disk.node? (top ++ [name]) = some .directory)
      (unknown : ∀ kind : Kind, kind.directoryName ≠ name) :
      ReportsForeign disk root top (.foreignEntry (root.child name) "unexpected directory")
  | besideShards {kind : Kind} {name node}
      (found : disk.node? (top ++ [kind.directoryName, name]) = some node)
      (plain : node ≠ .directory) :
      ReportsForeign disk root top
        (.foreignEntry ((root.child kind.directoryName).child name) "unexpected file")
  | noShard {kind : Kind} {name}
      (found : disk.node? (top ++ [kind.directoryName, name]) = some .directory)
      (unnamed : Shard.isNodeName name = false) :
      ReportsForeign disk root top
        (.foreignEntry ((root.child kind.directoryName).child name) "unexpected directory")

theorem ne_directory_of_isDirectory {node : Node} (plain : node.isDirectory = false) :
    node ≠ .directory := by
  rintro rfl
  cases plain

/-- Where the directory of a kind can be listed, a node in it that is no shard is reported. -/
theorem reportsForeign_of_shardsOfKind (leads : disk.LeadsTo root top) {name : Name} {node : Node}
    {failure : Failure} (found : disk.node? (top ++ [name]) = some node)
    (form : node = .directory → (root.below [name]).checkForm = .ok ())
    (refused : shardsOfKind host disk root name node = .error failure) :
    ReportsForeign disk root top failure := by
  rw [shardsOfKind_eq] at refused
  split at refused
  · rename_i plain
    obtain rfl := Except.error.inj refused
    exact .besideKinds found (ne_directory_of_isDirectory plain)
  · rename_i directory
    obtain rfl : node = .directory := by
      cases node <;> first | rfl | exact absurd rfl directory
    split at refused
    · rename_i unknown
      obtain rfl := Except.error.inj refused
      refine .noKind found ?_
      rintro kind rfl
      rw [textOf?_directoryName] at unknown
      cases unknown
    · rename_i known
      obtain ⟨kind, rfl⟩ := ofDirectory?_of_textOf? (Bool.not_eq_false _ ▸ known)
      obtain ⟨nodes, listed, all⟩ := exists_nodesOf host leads found (form rfl)
      have path : root.below [kind.directoryName] = root.child kind.directoryName := rfl
      rw [← path, listed] at refused
      obtain ⟨⟨shardName, node⟩, member, refused⟩ := exists_item_of_mapM_eq_error refused
      have inside := Disk.mem_entries.mp (all.mem_iff.mp member)
      rw [List.append_assoc] at inside
      dsimp only [shard] at refused
      split at refused
      · rename_i plain
        obtain rfl := Except.error.inj refused
        exact .besideShards inside (ne_directory_of_isDirectory (by simpa using plain))
      · rename_i directory
        obtain rfl : node = .directory := by
          cases node <;> first | rfl | exact absurd rfl directory
        split at refused
        · cases refused
        · rename_i unnamed
          obtain rfl := Except.error.inj refused
          exact .noShard inside (Bool.not_eq_true _ ▸ unnamed)

/-- A node that does not belong in the two upper levels is reported when these are checked. -/
theorem exists_error_of_foreign (host : Host) (leads : disk.LeadsTo root top)
    (takes : ∀ names : Location, names.length ≤ 1 → disk.node? (top ++ names) = some .directory →
      (root.below names).checkForm = .ok ())
    (foreign : ¬ HasUpperLevels disk top) :
    ∃ failure, shards host disk root = .error failure ∧ ReportsForeign disk root top failure := by
  cases accepted : shards host disk root with
  | ok paths => exact absurd (of_shards leads accepted).1 foreign
  | error failure =>
    refine ⟨failure, rfl, ?_⟩
    have held : disk.node? (top ++ []) = some .directory := by
      rw [List.append_nil]
      exact leads.held
    obtain ⟨nodes, listed, all⟩ := exists_nodesOf host leads held (takes [] (by simp) held)
    have path : root.below [] = root := rfl
    rw [List.append_nil] at all
    rw [path] at listed
    rw [shards, listed] at accepted
    simp only [bind, Except.bind] at accepted
    split at accepted
    next each =>
      obtain rfl := Except.error.inj accepted
      obtain ⟨⟨name, node⟩, member, refused⟩ := exists_item_of_mapM_eq_error each
      have found := Disk.mem_entries.mp (all.mem_iff.mp member)
      refine reportsForeign_of_shardsOfKind leads found ?_ refused
      rintro rfl
      exact takes [name] (by simp) found
    next => cases accepted

/-! ## All trees -/

/-- An inventory succeeds exactly for a tree that has the layout of a cache and whose
directories have paths that the system takes.  It lists each regular file of the lowest level
once, under its path from the root and with its size and its last access, and nothing else.
It changes nothing.  If the root and the directories of the kinds can be listed, a node that
does not belong in the two upper levels is reported, whoever would list the shards. -/
theorem inventory_is_exact (host : Host) (workers : Nat) (root : DiskPath) (disk : Disk)
    (top : Location) (leads : disk.LeadsTo root top) :
    (inventory host workers root disk).state = disk ∧
      ((∃ files, (inventory host workers root disk).outcome = .ok files) ↔
        IsLayout disk top ∧ TakesPaths disk root top) ∧
      (∀ files, (inventory host workers root disk).outcome = .ok files →
        (files.map FoundFile.path).Nodup ∧
          ∀ found, found ∈ files ↔ ∃ kindName shardName name,
            disk.node? (top ++ [kindName, shardName, name]) =
                some (.file found.size found.accessed) ∧
              found.path = ofNames [kindName, shardName, name]) ∧
      ((∀ names : Location, names.length ≤ 1 → disk.node? (top ++ names) = some .directory →
          (root.below names).checkForm = .ok ()) →
        ¬ HasUpperLevels disk top → ∃ failure, ReportsForeign disk root top failure ∧
          ∀ crew workers', inventory { host with crew } workers' root disk =
            { outcome := .error failure, state := disk }) := by
  refine ⟨state_inventory host workers root disk, ⟨?_, ?_⟩, ?_, ?_⟩
  · rintro ⟨files, taken⟩
    obtain ⟨layout, takes, -⟩ := layout_of_inventory leads taken
    exact ⟨layout, takes⟩
  · rintro ⟨layout, takes⟩
    exact exists_inventory host workers leads layout takes
  · intro files taken
    obtain ⟨-, -, listed⟩ := layout_of_inventory leads taken
    refine ⟨(listed.map _).nodup_iff.mpr (nodup_filesBelow disk top), fun found => ?_⟩
    rw [listed.mem_iff, mem_filesBelow]
  · intro takes foreign
    obtain ⟨failure, refused, reports⟩ := exists_error_of_foreign host leads takes foreign
    refine ⟨failure, reports, fun crew workers' => ?_⟩
    have same : shards { host with crew } disk root = shards host disk root := rfl
    rw [inventory, same, refused]

/-- An inventory of two entries is taken, and a file beside the directories of the kinds is
reported. -/
theorem inventory_is_exact_two_trees :
    let cache := laidOut [] Store.twoItems
    let odd := Replay.sampleDisk ((ofLocation []).child [120])
    (∃ files, (inventory .orderly 4 (ofLocation []) cache).outcome = .ok files ∧
      (inventory .orderly 4 (ofLocation []) cache).state = cache ∧
      (files.map FoundFile.path).Nodup) ∧
    ∃ failure, ReportsForeign odd (ofLocation []) [] failure ∧
      (inventory .orderly 4 (ofLocation []) odd).outcome = .error failure := by
  intro cache odd
  constructor
  · have isReady : Store.IsReady cache [] :=
      isReady_laidOut (Store.canBeLaidOut_twoItems (by simp) (by decide))
    obtain ⟨same, ⟨-, taken⟩, exact, -⟩ := inventory_is_exact .orderly 4 (ofLocation []) cache []
      (Disk.leadsTo_ofLocation cache.node?_nil)
    obtain ⟨files, listed⟩ := taken ⟨isReady.layout, isReady.layout.takesPaths isReady.short⟩
    exact ⟨files, listed, same, (exact files listed).1⟩
  · have found : odd.node? [[120]] = some (.file 4 1) := by decide +kernel
    obtain ⟨-, -, -, reported⟩ := inventory_is_exact .orderly 4 (ofLocation []) odd []
      (Disk.leadsTo_ofLocation odd.node?_nil)
    have takes : ∀ names : Location, names.length ≤ 1 →
        odd.node? ([] ++ names) = some .directory →
          ((ofLocation []).below names).checkForm = .ok () := by
      intro names few held
      by_cases here : names = []
      · subst here
        decide
      · refine checkForm_below_of_room (by decide) (Disk.isPlain_below held) here ?_
        have room : (ofLocation []).bytes.length + (longestName + 1) * 1 ≤ longestPath := by decide
        exact Nat.le_trans (Nat.add_le_add_left (Nat.mul_le_mul_left _ few) _) room
    have foreign : ¬ HasUpperLevels odd [] := by
      intro levels
      cases (levels.kinds found).1
    obtain ⟨failure, reports, outcome⟩ := reported takes foreign
    exact ⟨failure, reports, congrArg Report.outcome (outcome Host.orderly.crew 4)⟩

/-- Of a cache with two entries no inventory can be taken under a path of too many slashes. -/
theorem inventory_refused_under_slashes :
    let cache := laidOut [] Store.twoItems
    let root : DiskPath := ⟨List.replicate 4096 slash⟩
    cache.LeadsTo root [] ∧ IsLayout cache [] ∧ ∀ host workers,
      ¬ ∃ files, (inventory host workers root cache).outcome = .ok files := by
  intro cache root
  have leads : cache.LeadsTo root [] :=
    (Disk.leadsTo_ofLocation cache.node?_nil).padded 4095
  have isReady : Store.IsReady cache [] :=
    isReady_laidOut (Store.canBeLaidOut_twoItems (by simp) (by decide))
  refine ⟨leads, isReady.layout, ?_⟩
  rintro host workers ⟨files, taken⟩
  obtain ⟨-, takes, -⟩ := layout_of_inventory leads taken
  have length := length_le_of_checkForm (takes [] (by simp) cache.node?_nil)
  rw [below, List.foldl_nil, List.length_replicate] at length
  exact absurd length (by decide)

end Inventory

end ArtifactCache
