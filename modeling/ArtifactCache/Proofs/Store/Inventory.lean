import ArtifactCache.Proofs.Crew.Promise
import ArtifactCache.Proofs.Disk.Roots
import ArtifactCache.Proofs.Store.Preparation
import Mathlib.Data.List.Perm.Basic

/-! # What an inventory lists

An inventory exists only if the tree below the root has the three levels of the layout and
nothing else, and then it lists the files of the lowest level, each of them once.  How the
host orders directories and how the workers take turns decides only about the order.
-/

namespace ArtifactCache

open DiskPath

namespace Inventory

variable {host : Host} {disk : Disk} {root : DiskPath} {top : Location}

/-! ## The layout -/

/-- Whether the tree below a location has the layout of a cache. -/
structure IsLayout (disk : Disk) (top : Location) : Prop where
  kinds : ∀ {name node}, disk.node? (top ++ [name]) = some node →
    node = .directory ∧ ∃ kind : Kind, kind.directoryName = name
  shards : ∀ {kindName name node}, disk.node? (top ++ [kindName, name]) = some node →
    node = .directory ∧ Shard.isNodeName name = true
  files : ∀ {kindName shardName name node},
    disk.node? (top ++ [kindName, shardName, name]) = some node → node.isFile = true

/-- Whether the two upper levels below a location are those of a cache. -/
structure HasUpperLevels (disk : Disk) (top : Location) : Prop where
  kinds : ∀ {name node}, disk.node? (top ++ [name]) = some node →
    node = .directory ∧ ∃ kind : Kind, kind.directoryName = name
  shards : ∀ {kindName name node}, disk.node? (top ++ [kindName, name]) = some node →
    node = .directory ∧ Shard.isNodeName name = true

/-- In a layout there are regular files on the third level and directories above it. -/
theorem IsLayout.directory_or_file (layout : IsLayout disk top) {kindName : Name}
    {below : Location} {node : Node} (found : disk.node? (top ++ kindName :: below) = some node) :
    node = .directory ∨ node.isFile = true ∧ ∃ shardName name, below = [shardName, name] := by
  match below with
  | [] => exact .inl (layout.kinds found).1
  | [_] => exact .inl (layout.shards found).1
  | [shardName, name] => exact .inr ⟨layout.files found, shardName, name, rfl⟩
  | shardName :: name :: lower :: rest =>
    have above : disk.node? (top ++ [kindName, shardName, name]) = some .directory :=
      Disk.directory_of_prefix found (by simp) (by simp)
    cases layout.files above

theorem IsLayout.mono {part : Disk} (layout : IsLayout disk top)
    (sub : ∀ {location node}, part.node? location = some node →
      disk.node? location = some node) : IsLayout part top where
  kinds found := layout.kinds (sub found)
  shards found := layout.shards (sub found)
  files found := layout.files (sub found)

/-- Whether the system takes the paths of the root and of the directories in the first two
levels below it. -/
def TakesPaths (disk : Disk) (root : DiskPath) (top : Location) : Prop :=
  ∀ names : Location, names.length ≤ 2 → disk.node? (top ++ names) = some .directory →
    (root.below names).checkForm = .ok ()

theorem IsLayout.takesPaths (layout : IsLayout disk top)
    (short : ∀ location ∈ shardLocations top, (ofLocation location).bytes.length ≤ longestPath) :
    TakesPaths disk (ofLocation top) top := by
  intro names few held
  have within : (ofLocation (top ++ names)).bytes.length ≤ longestPath := by
    match names with
    | [] =>
      rw [List.append_nil]
      exact short_root short
    | [_] =>
      obtain ⟨-, kind, rfl⟩ := layout.kinds held
      exact short_kind short kind
    | [kindName, shardName] =>
      have above : disk.node? (top ++ [kindName]) = some .directory :=
        Disk.directory_of_prefix held (by simp) (by simp)
      obtain ⟨-, kind, rfl⟩ := layout.kinds above
      obtain ⟨-, named⟩ := layout.shards held
      obtain ⟨shard, isShard, rfl⟩ := Shard.isNodeName_iff.mp named
      exact short _ (mem_shardLocations.mpr ⟨kind, shard, isShard, rfl⟩)
    | _ :: _ :: _ :: _ => simp at few
  rw [below_ofLocation, checkForm_ofLocation (Disk.isPlain_of_node? held),
    if_neg (Nat.not_lt.mpr within)]

/-- The file that a node in a shard is, if it is one. -/
def found? (shard : DiskPath) : Name × Node → Option FoundFile
  | (name, .file size accessed) => some { path := shard.child name, size, accessed }
  | (_, .directory) | (_, .link _) | (_, .pipe) => none

/-- The files three levels below a location, by their names. -/
def filesBelow (disk : Disk) (top : Location) : List FoundFile :=
  (disk.entries top).flatMap fun kind =>
    (disk.entries (top ++ [kind.1])).flatMap fun shard =>
      (disk.entries (top ++ [kind.1, shard.1])).filterMap (found? (ofNames [kind.1, shard.1]))

theorem found?_eq_some_iff {shard : DiskPath} {name : Name} {node : Node} {found : FoundFile} :
    found? shard (name, node) = some found ↔
      node = .file found.size found.accessed ∧ found.path = shard.child name := by
  obtain ⟨path, size, accessed⟩ := found
  cases node with
  | file => simp [found?, eq_comm, and_comm]
  | directory => simp [found?]
  | link => simp [found?]
  | pipe => simp [found?]

theorem mem_filesBelow {found : FoundFile} : found ∈ filesBelow disk top ↔
    ∃ kindName shardName fileName,
      disk.node? (top ++ [kindName, shardName, fileName]) =
          some (.file found.size found.accessed) ∧
        found.path = ofNames [kindName, shardName, fileName] := by
  simp only [filesBelow, List.mem_flatMap, List.mem_filterMap, Prod.exists, Disk.mem_entries,
    found?_eq_some_iff, List.append_assoc, List.cons_append, List.nil_append]
  constructor
  · rintro ⟨kindName, _, -, shardName, _, -, fileName, _, held, rfl, path⟩
    exact ⟨kindName, shardName, fileName, held, path⟩
  · rintro ⟨kindName, shardName, fileName, held, path⟩
    have shard : disk.node? (top ++ [kindName, shardName]) = some .directory :=
      Disk.directory_of_prefix held (by simp) (by simp)
    have kind : disk.node? (top ++ [kindName]) = some .directory :=
      Disk.directory_of_prefix shard (by simp) (by simp)
    exact ⟨kindName, _, kind, shardName, _, shard, fileName, _, held, rfl, path⟩

theorem filesBelow_eq_nil (noFiles : ∀ kindName shardName name size accessed,
    disk.node? (top ++ [kindName, shardName, name]) ≠ some (.file size accessed)) :
    filesBelow disk top = [] := by
  refine List.eq_nil_iff_forall_not_mem.mpr fun found member => ?_
  obtain ⟨kindName, shardName, name, held, -⟩ := mem_filesBelow.mp member
  exact noFiles _ _ _ _ _ held

theorem segments_of_found? {kindName shardName name : Name} {node : Node} {found : FoundFile}
    (member : (name, node) ∈ disk.entries (top ++ [kindName, shardName]))
    (isFile : found? (ofNames [kindName, shardName]) (name, node) = some found) :
    segments found.path.bytes = [kindName, shardName, name] := by
  have held := Disk.mem_entries.mp member
  rw [List.append_assoc] at held
  rw [(found?_eq_some_iff.mp isFile).2]
  exact segments_ofNames (Disk.isPlain_below held) (List.cons_ne_nil _ _)

theorem exists_segments_of_mem {kindName shardName : Name} {found : FoundFile}
    (member : found ∈ (disk.entries (top ++ [kindName, shardName])).filterMap
      (found? (ofNames [kindName, shardName]))) :
    ∃ name, segments found.path.bytes = [kindName, shardName, name] := by
  obtain ⟨⟨name, node⟩, listed, isFile⟩ := List.mem_filterMap.mp member
  exact ⟨name, segments_of_found? listed isFile⟩

theorem nodup_filesBelow (disk : Disk) (top : Location) :
    ((filesBelow disk top).map FoundFile.path).Nodup := by
  rw [List.Nodup, List.pairwise_map, filesBelow, List.pairwise_flatMap]
  refine ⟨fun kind _ => ?_, (disk.pairwise_entries top).imp ?_⟩
  · rw [List.pairwise_flatMap]
    refine ⟨fun shard _ => ?_, (disk.pairwise_entries _).imp ?_⟩
    · rw [List.pairwise_filterMap]
      apply (disk.pairwise_entries _).imp_of_mem
      rintro ⟨name, node⟩ ⟨name', node'⟩ member member' distinct found isFile found' isFile' same
      have parts := segments_of_found? member isFile
      rw [same, segments_of_found? member' isFile'] at parts
      simp only [List.cons.injEq, true_and, and_true] at parts
      exact distinct parts.symm
    · intro shard shard' distinct found member found' member' same
      obtain ⟨name, parts⟩ := exists_segments_of_mem member
      obtain ⟨name', parts'⟩ := exists_segments_of_mem member'
      rw [same, parts'] at parts
      exact distinct (List.cons.inj (List.cons.inj parts).2).1.symm
  · intro kind kind' distinct found member found' member' same
    obtain ⟨shard, -, inShard⟩ := List.mem_flatMap.mp member
    obtain ⟨shard', -, inShard'⟩ := List.mem_flatMap.mp member'
    obtain ⟨name, parts⟩ := exists_segments_of_mem inShard
    obtain ⟨name', parts'⟩ := exists_segments_of_mem inShard'
    rw [same, parts'] at parts
    exact distinct (List.cons.inj parts).1.symm

/-! ## Directories as the host lists them -/

theorem nodesOf_below (host : Host) (leads : disk.LeadsTo root top) {names : Location}
    (held : disk.node? (top ++ names) = some .directory) :
    nodesOf host disk (root.below names) =
      match (root.below names).checkForm with
      | .ok () => .ok (host.arrange (root.below names) (disk.entries (top ++ names)))
      | .error fault => .error (.disk (root.below names) "read cache directory" fault) := by
  rw [nodesOf, Host.list, leads.list_below held]
  cases (root.below names).checkForm with
  | error fault => rfl
  | ok form => rfl

/-- A directory is listed exactly if the system takes its path, and then all its nodes are. -/
theorem of_nodesOf (leads : disk.LeadsTo root top) {names : Location}
    {nodes : List (Name × Node)} (held : disk.node? (top ++ names) = some .directory)
    (listed : nodesOf host disk (root.below names) = .ok nodes) :
    (root.below names).checkForm = .ok () ∧ nodes.Perm (disk.entries (top ++ names)) := by
  rw [nodesOf_below host leads held] at listed
  split at listed
  · rename_i form
    obtain rfl := Except.ok.inj listed
    exact ⟨form, host.perm_arrange _ _⟩
  · cases listed

theorem exists_nodesOf (host : Host) (leads : disk.LeadsTo root top) {names : Location}
    (held : disk.node? (top ++ names) = some .directory)
    (form : (root.below names).checkForm = .ok ()) :
    ∃ nodes, nodesOf host disk (root.below names) = .ok nodes ∧
      nodes.Perm (disk.entries (top ++ names)) := by
  rw [nodesOf_below host leads held, form]
  exact ⟨_, rfl, host.perm_arrange _ _⟩

/-! ## Shards -/

theorem ofDirectory?_of_textOf? {name : Name}
    (known : ((textOf? name).bind Kind.ofDirectory?).isSome = true) :
    ∃ kind : Kind, kind.directoryName = name := by
  obtain ⟨kind, found⟩ := Option.isSome_iff_exists.mp known
  obtain ⟨text, spelled, isKind⟩ := Option.bind_eq_some_iff.mp found
  refine ⟨kind, ?_⟩
  rw [Kind.directoryName, Kind.directory_of_ofDirectory? isKind]
  exact nameOf_of_textOf? spelled

theorem textOf?_directoryName (kind : Kind) :
    ((textOf? kind.directoryName).bind Kind.ofDirectory?).isSome = true := by
  cases kind <;> decide +kernel

theorem shard_eq_ok_iff {kindName name : Name} {directory path : DiskPath} {node : Node} :
    shard kindName directory name node = .ok path ↔
      node = .directory ∧ Shard.isNodeName name = true ∧ path = ofNames [kindName, name] := by
  unfold shard
  cases named : Shard.isNodeName name with
  | true => cases node <;> simp [Node.isDirectory, ofNames, eq_comm]
  | false => cases node <;> simp [Node.isDirectory]

theorem shardsOfKind_eq (host : Host) (disk : Disk) (root : DiskPath) (name : Name) (node : Node) :
    shardsOfKind host disk root name node =
      if node.isDirectory = false then
        .error (.foreignEntry (root.child name) "unexpected file")
      else if ((textOf? name).bind Kind.ofDirectory?).isSome = false then
        .error (.foreignEntry (root.child name) "unexpected directory")
      else (do
        (← nodesOf host disk (root.child name)).mapM fun (shardName, node) =>
          shard name (root.child name) shardName node) := by
  unfold shardsOfKind
  cases node.isDirectory with
  | false => rfl
  | true =>
    cases ((textOf? name).bind Kind.ofDirectory?).isSome with
    | false => rfl
    | true => rfl

/-- The shards of a node of the root, which is the directory of a kind. -/
theorem of_shardsOfKind (leads : disk.LeadsTo root top) {name : Name} {node : Node}
    {paths : List DiskPath} (found : disk.node? (top ++ [name]) = some node)
    (done : shardsOfKind host disk root name node = .ok paths) :
    (node = .directory ∧ ∃ kind : Kind, kind.directoryName = name) ∧
      (∀ {shardName node}, disk.node? (top ++ [name, shardName]) = some node →
        node = .directory ∧ Shard.isNodeName shardName = true) ∧
      (root.below [name]).checkForm = .ok () ∧
      paths.Perm ((disk.entries (top ++ [name])).map fun shard => ofNames [name, shard.1]) := by
  rw [shardsOfKind_eq] at done
  split at done
  · cases done
  · rename_i directory
    obtain rfl : node = .directory := by
      cases node <;> first | rfl | exact absurd rfl directory
    split at done
    · cases done
    · rename_i known
      obtain ⟨nodes, listed, done⟩ := bind_eq_ok_iff.mp done
      obtain ⟨form, whole⟩ := of_nodesOf leads found listed
      refine ⟨⟨rfl, ofDirectory?_of_textOf? (Bool.not_eq_false _ ▸ known)⟩, ?_, form, ?_⟩
      · intro shardName node held
        have member : (shardName, node) ∈ nodes := by
          rw [whole.mem_iff, Disk.mem_entries, List.append_assoc]
          exact held
        obtain ⟨path, -, isShard⟩ := exists_of_mapM_eq_ok done member
        obtain ⟨directory, named, -⟩ := shard_eq_ok_iff.mp isShard
        exact ⟨directory, named⟩
      · have same : paths.map id = nodes.map fun shard => ofNames [name, shard.1] :=
          map_eq_map_of_mapM done fun item path isShard => (shard_eq_ok_iff.mp isShard).2.2
        rw [List.map_id] at same
        rw [same]
        exact whole.map _

/-- If the two upper levels are accepted, they are those of the layout, and all shards have
been found. -/
theorem of_shards (leads : disk.LeadsTo root top) {paths : List DiskPath}
    (done : shards host disk root = .ok paths) :
    HasUpperLevels disk top ∧
      (∀ names : Location, names.length ≤ 1 → disk.node? (top ++ names) = some .directory →
        (root.below names).checkForm = .ok ()) ∧
      paths.Perm ((disk.entries top).flatMap fun kind =>
        (disk.entries (top ++ [kind.1])).map fun shard => ofNames [kind.1, shard.1]) := by
  obtain ⟨nodes, listed, rest⟩ := bind_eq_ok_iff.mp done
  obtain ⟨lists, each, whole⟩ := bind_eq_ok_iff.mp rest
  obtain rfl := Except.ok.inj whole
  have held : disk.node? (top ++ []) = some .directory := by
    rw [List.append_nil]
    exact leads.held
  obtain ⟨form, all⟩ := of_nodesOf leads held listed
  rw [List.append_nil] at all
  have accepts : ∀ {name node}, disk.node? (top ++ [name]) = some node →
      ∃ paths, shardsOfKind host disk root name node = .ok paths := by
    intro name node found
    have member : (name, node) ∈ nodes := by
      rw [all.mem_iff, Disk.mem_entries]
      exact found
    obtain ⟨paths, -, accepted⟩ := exists_of_mapM_eq_ok each member
    exact ⟨paths, accepted⟩
  refine ⟨⟨fun found => ?_, fun {kindName name node} found => ?_⟩, fun names few found => ?_, ?_⟩
  · obtain ⟨paths, accepted⟩ := accepts found
    exact (of_shardsOfKind leads found accepted).1
  · have above : disk.node? (top ++ [kindName]) = some .directory :=
      Disk.directory_of_prefix found (by simp) (by simp)
    obtain ⟨paths, accepted⟩ := accepts above
    exact (of_shardsOfKind leads above accepted).2.1 found
  · match names with
    | [] => exact form
    | [name] =>
      obtain ⟨paths, accepted⟩ := accepts found
      exact (of_shardsOfKind leads found accepted).2.2.1
    | _ :: _ :: _ => simp at few
  · refine (perm_flatten_of_mapM each ?_).trans (all.flatMap_right _)
    intro item member list accepted
    have found := Disk.mem_entries.mp (all.mem_iff.mp member)
    exact (of_shardsOfKind leads found accepted).2.2.2

/-! ## Files -/

theorem promise_handOver {root shard : DiskPath} {nodes : List (Name × Node)}
    (files : ∀ item ∈ nodes, item.2.isFile = true) :
    (handOver root shard nodes).promise disk = (nodes.filterMap (found? shard), none) := by
  induction nodes with
  | nil => rfl
  | cons item rest ih =>
    obtain ⟨first, others⟩ := List.forall_mem_cons.mp files
    obtain ⟨name, node⟩ := item
    cases node with
    | file => simp [handOver, file, Job.promise, ih others, found?]
    | directory => cases first
    | link => cases first
    | pipe => cases first

theorem isFile_of_promise {root shard : DiskPath} {nodes : List (Name × Node)}
    (well : ((handOver root shard nodes).promise disk).2 = none) :
    ∀ item ∈ nodes, item.2.isFile = true := by
  induction nodes with
  | nil => simp
  | cons item rest ih =>
    obtain ⟨name, node⟩ := item
    cases node with
    | file => exact List.forall_mem_cons.mpr ⟨rfl, ih well⟩
    | directory => cases well
    | link => cases well
    | pipe => cases well

theorem keeps_handOver (root shard : DiskPath) (nodes : List (Name × Node)) :
    (handOver root shard nodes).Keeps (· = disk) := by
  induction nodes with
  | nil => exact .done
  | cons item rest ih =>
    rw [handOver]
    cases file root shard item.1 item.2 with
    | error failure => exact .fail failure
    | ok found => exact .emit found ih

theorem keeps_task (host : Host) (root shard : DiskPath) :
    (task host root shard).Keeps (· = disk) := by
  refine .look fun state same => ?_
  subst same
  cases nodesOf host state (root.join shard) with
  | error failure => exact .fail failure
  | ok nodes => exact keeps_handOver root shard nodes

/-- A job that promises not to fail hands over the files in its shard. -/
theorem of_promise_task (leads : disk.LeadsTo root top) {kindName shardName : Name}
    (held : disk.node? (top ++ [kindName, shardName]) = some .directory)
    (well : ((task host root (ofNames [kindName, shardName])).promise disk).2 = none) :
    (∀ {name node}, disk.node? (top ++ [kindName, shardName, name]) = some node →
        node.isFile = true) ∧
      (root.below [kindName, shardName]).checkForm = .ok () ∧
      ((task host root (ofNames [kindName, shardName])).promise disk).1.Perm
        ((disk.entries (top ++ [kindName, shardName])).filterMap
          (found? (ofNames [kindName, shardName]))) := by
  simp only [task, Job.promise,
    join_ofNames_eq_below root (Disk.isPlain_below held) (List.cons_ne_nil _ _)] at well ⊢
  cases listed : nodesOf host disk (root.below [kindName, shardName]) with
  | error failure => rw [listed] at well; cases well
  | ok nodes =>
    rw [listed] at well
    dsimp only at well ⊢
    obtain ⟨form, all⟩ := of_nodesOf leads held listed
    have files := isFile_of_promise well
    refine ⟨fun {name node} found => files (name, node) ?_, form, ?_⟩
    · rw [all.mem_iff, Disk.mem_entries, List.append_assoc]
      exact found
    · rw [promise_handOver files]
      exact all.filterMap _

/-! ## The inventory -/

theorem state_inventory (host : Host) (workers : Nat) (root : DiskPath) (disk : Disk) :
    (inventory host workers root disk).state = disk := by
  unfold inventory
  split
  · rfl
  · exact ((host.crew.possible workers _ _ disk).promised (keeps_task host root)).1

/-- An inventory lists the files of the layout, each of them once, and there is none where
the tree has another form or where the system refuses the path of a directory. -/
theorem layout_of_inventory (leads : disk.LeadsTo root top) {workers : Nat}
    {files : List FoundFile} (taken : (inventory host workers root disk).outcome = .ok files) :
    IsLayout disk top ∧ TakesPaths disk root top ∧ files.Perm (filesBelow disk top) := by
  unfold inventory at taken
  cases accepted : shards host disk root with
  | error failure => rw [accepted] at taken; cases taken
  | ok paths =>
    rw [accepted] at taken
    obtain ⟨levels, upper, all⟩ := of_shards leads accepted
    have promised := (host.crew.possible workers (task host root) paths disk).promised
      (keeps_task host _)
    simp only [taken] at promised
    obtain ⟨-, well, outputs⟩ := promised
    have each : ∀ {kindName shardName},
        disk.node? (top ++ [kindName, shardName]) = some .directory →
          ((task host root (ofNames [kindName, shardName])).promise disk).2 = none := by
      intro kindName shardName found
      refine well _ (all.mem_iff.mpr ?_)
      have above : disk.node? (top ++ [kindName]) = some .directory :=
        Disk.directory_of_prefix found (by simp) (by simp)
      refine List.mem_flatMap.mpr ⟨(kindName, _), Disk.mem_entries.mpr above, ?_⟩
      refine List.mem_map.mpr ⟨(shardName, .directory), Disk.mem_entries.mpr ?_, rfl⟩
      rw [List.append_assoc]
      exact found
    refine ⟨⟨levels.kinds, levels.shards, fun {kindName shardName name node} found => ?_⟩,
      fun names few found => ?_, ?_⟩
    · have above : disk.node? (top ++ [kindName, shardName]) = some .directory :=
        Disk.directory_of_prefix found (by simp) (by simp)
      exact (of_promise_task leads above (each above)).1 found
    · match names with
      | [] | [_] => exact upper _ (by simp) found
      | [_, _] => exact (of_promise_task leads found (each found)).2.1
      | _ :: _ :: _ :: _ => simp at few
    · refine outputs.trans ((all.flatMap_right _).trans ?_)
      rw [List.flatMap_assoc, filesBelow]
      apply List.Perm.flatMap_left _
      intro kind kindMember
      rw [List.flatMap_map]
      apply List.Perm.flatMap_left _
      intro shard shardMember
      obtain ⟨shardName, node⟩ := shard
      have found := Disk.mem_entries.mp shardMember
      rw [List.append_assoc] at found
      obtain ⟨rfl, -⟩ := levels.shards found
      exact (of_promise_task leads found (each found)).2.2

theorem exists_shards (host : Host) (leads : disk.LeadsTo root top) (layout : IsLayout disk top)
    (takes : TakesPaths disk root top) : ∃ paths, shards host disk root = .ok paths := by
  have held : disk.node? (top ++ []) = some .directory := by
    rw [List.append_nil]
    exact leads.held
  obtain ⟨nodes, listed, all⟩ := exists_nodesOf host leads held (takes [] (by simp) held)
  rw [List.append_nil] at all
  have each : ∀ item ∈ nodes, ∃ paths,
      shardsOfKind host disk root item.1 item.2 = .ok paths := by
    rintro ⟨name, node⟩ member
    have found := Disk.mem_entries.mp (all.mem_iff.mp member)
    obtain ⟨rfl, kind, rfl⟩ := layout.kinds found
    obtain ⟨inside, listedInside, allInside⟩ :=
      exists_nodesOf host leads found (takes _ (by simp) found)
    have path : root.below [kind.directoryName] = root.child kind.directoryName := rfl
    rw [shardsOfKind_eq, if_neg (by simp [Node.isDirectory]),
      if_neg (by simp [textOf?_directoryName]), ← path, listedInside]
    apply exists_mapM_eq_ok
    intro item among
    obtain ⟨shardName, node⟩ := item
    have shardFound := Disk.mem_entries.mp (allInside.mem_iff.mp among)
    rw [List.append_assoc] at shardFound
    obtain ⟨directory, named⟩ := layout.shards shardFound
    exact ⟨_, shard_eq_ok_iff.mpr ⟨directory, named, rfl⟩⟩
  obtain ⟨paths, done⟩ := exists_mapM_eq_ok each
  refine ⟨paths.flatten, ?_⟩
  have path : root.below [] = root := rfl
  rw [path] at listed
  rw [shards, listed]
  exact bind_eq_ok_iff.mpr ⟨nodes, rfl, bind_eq_ok_iff.mpr ⟨paths, done, rfl⟩⟩

theorem exists_inventory (host : Host) (workers : Nat) (leads : disk.LeadsTo root top)
    (layout : IsLayout disk top) (takes : TakesPaths disk root top) :
    ∃ files, (inventory host workers root disk).outcome = .ok files := by
  obtain ⟨paths, accepted⟩ := exists_shards host leads layout takes
  obtain ⟨-, -, all⟩ := of_shards leads accepted
  have promised := (host.crew.possible workers (task host root) paths disk).promised
    (keeps_task host _)
  have well : ∀ path ∈ paths, ((task host root path).promise disk).2 = none := by
    intro path member
    obtain ⟨⟨kindName, kind⟩, -, inKind⟩ := List.mem_flatMap.mp (all.mem_iff.mp member)
    obtain ⟨⟨shardName, shard⟩, inShard, rfl⟩ := List.mem_map.mp inKind
    have found : disk.node? (top ++ [kindName, shardName]) = some shard := by
      simpa using Disk.mem_entries.mp inShard
    obtain ⟨rfl, -⟩ := layout.shards found
    obtain ⟨nodes, listed, inside⟩ :=
      exists_nodesOf host leads found (takes _ (Nat.le_refl 2) found)
    simp only [task, Job.promise,
      join_ofNames_eq_below root (Disk.isPlain_below found) (List.cons_ne_nil _ _), listed]
    rw [promise_handOver]
    rintro ⟨name, node⟩ among
    have file := Disk.mem_entries.mp (inside.mem_iff.mp among)
    rw [List.append_assoc] at file
    exact layout.files file
  unfold inventory
  simp only [accepted]
  cases outcome : (host.crew.run workers (task host root) paths disk).outcome with
  | ok files => exact ⟨files, rfl⟩
  | error failure =>
    rw [outcome] at promised
    obtain ⟨-, path, member, fails⟩ := promised
    rw [well path member] at fails
    cases fails

end Inventory

end ArtifactCache
