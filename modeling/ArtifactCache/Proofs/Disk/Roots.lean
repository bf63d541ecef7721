import ArtifactCache.Proofs.Disk.Walks

/-! # Paths below a root

A root may be given by any path, also by one that leads up and down and through links.  From
the directory where it arrives the way leads on through names, so the operations on a path
below the root do what they say to the node at those names, unless the system refuses the
path as a whole.

A change that keeps the directories and the links of a disk does not lead the root astray.
-/

namespace ArtifactCache

open DiskPath

/-! ## The paths -/

namespace DiskPath

variable {root : DiskPath} {names : List Name}

theorem steps_below (root : DiskPath) (plain : ∀ name ∈ names, IsPlain name) :
    (root.below names).steps = root.steps ++ names.map .into := by
  induction names using List.reverseRecOn with
  | nil => rw [List.map_nil, List.append_nil]; rfl
  | append_singleton names name ih =>
    obtain ⟨plain, last⟩ := List.forall_mem_append.mp plain
    rw [below_append, (last name (by simp)).steps_child, ih plain, List.map_append,
      List.append_assoc]
    rfl

theorem endsInSlash_below (root : DiskPath) (plain : ∀ name ∈ names, IsPlain name)
    (nonempty : names ≠ []) : (root.below names).endsInSlash = false := by
  obtain ⟨before, name, rfl⟩ := (List.eq_nil_or_concat names).resolve_left nonempty
  rw [List.concat_eq_append, below_append]
  exact (plain name (by simp)).endsInSlash_child _

theorem walkSteps_below (root : DiskPath) (plain : ∀ name ∈ names, IsPlain name)
    (nonempty : names ≠ []) :
    (root.below names).walkSteps = root.steps ++ names.map .into := by
  rw [walkSteps, endsInSlash_below root plain nonempty, steps_below root plain]
  simp

theorem bytes_child_ne_nil (base : DiskPath) {name : Name} (plain : IsPlain name) :
    (base.child name).bytes ≠ [] := by
  intro empty
  have steps := plain.steps_child base
  rw [DiskPath.steps, empty] at steps
  exact List.append_ne_nil_of_right_ne_nil _ (List.cons_ne_nil _ _) steps.symm

theorem length_below_le (root : DiskPath) (plain : ∀ name ∈ names, IsPlain name) :
    (root.below names).bytes.length ≤ root.bytes.length + (longestName + 1) * names.length := by
  induction names using List.reverseRecOn with
  | nil => exact Nat.le_refl _
  | append_singleton names name ih =>
    obtain ⟨plain, plainName⟩ := List.forall_mem_append.mp plain
    have last := List.forall_mem_singleton.mp plainName
    have step := length_child_le_add (root.below names) last.single
    have short := last.short
    have earlier := ih plain
    rw [below_append, List.length_append, List.length_singleton, Nat.mul_add]
    omega

theorem noNull_below (noNull : 0 ∉ root.bytes) (plain : ∀ name ∈ names, IsPlain name) :
    0 ∉ (root.below names).bytes := by
  induction names using List.reverseRecOn with
  | nil => exact noNull
  | append_singleton names name ih =>
    obtain ⟨plain, plainName⟩ := List.forall_mem_append.mp plain
    rw [below_append]
    exact noNull_child (ih plain) (List.forall_mem_singleton.mp plainName)

/-- A path is not refused where the root leaves enough room for it. -/
theorem checkForm_below_of_room (noNull : 0 ∉ root.bytes) (plain : ∀ name ∈ names, IsPlain name)
    (nonempty : names ≠ [])
    (room : root.bytes.length + (longestName + 1) * names.length ≤ longestPath) :
    (root.below names).checkForm = .ok () := by
  have length := length_below_le root plain
  obtain ⟨before, name, split⟩ := (List.eq_nil_or_concat names).resolve_left nonempty
  have filled : (root.below names).bytes ≠ [] := by
    rw [split, List.concat_eq_append, below_append]
    exact bytes_child_ne_nil _ (plain name (by simp [split]))
  rw [checkForm, if_neg (by simpa using noNull_below noNull plain), if_neg filled, if_neg]
  omega

theorem length_le_of_checkForm {path : DiskPath} (form : path.checkForm = .ok ()) :
    path.bytes.length ≤ longestPath := by
  rw [checkForm] at form
  split at form
  · cases form
  · split at form
    · cases form
    · split at form
      · cases form
      · exact Nat.not_lt.mp ‹_›

/-- A path below a root is not refused as if nothing were there. -/
theorem checkForm_below_ne_notFound (root : DiskPath) (plain : ∀ name ∈ names, IsPlain name)
    (nonempty : names ≠ []) : (root.below names).checkForm ≠ .error .notFound := by
  obtain ⟨before, name, rfl⟩ := (List.eq_nil_or_concat names).resolve_left nonempty
  rw [List.concat_eq_append, below_append, checkForm,
    if_neg (bytes_child_ne_nil _ (plain name (by simp)))]
  split
  · simp [Fault.nullInPath, Fault.notFound]
  · split
    · simp [Fault.nameTooLong, Fault.notFound]
    · simp

end DiskPath

namespace Disk

variable {disk changed : Disk} {root : DiskPath} {top place names : Location} {name : Name}
  {node : Node} {keepLast : Bool}

/-! ## The way to the root -/

/-- Whether a path leads to a directory at a location. -/
structure LeadsTo (disk : Disk) (root : DiskPath) (top : Location) : Prop where
  walked : disk.walk false root.steps = .ok top
  held : disk.node? top = some .directory

theorem leadsTo_ofLocation (held : disk.node? top = some .directory) :
    disk.LeadsTo (ofLocation top) top := by
  refine ⟨?_, held⟩
  rw [steps_ofLocation (isPlain_of_node? held)]
  exact walk_of_directory held

theorem LeadsTo.padded (leads : disk.LeadsTo root top) (number : Nat) :
    disk.LeadsTo (root.padded number) top :=
  ⟨by rw [steps_padded]; exact leads.walked, leads.held⟩

/-- Whether a disk has all the directories and links, and all pipes, of another one. -/
def Frames (frame disk : Disk) : Prop :=
  ∀ location node, frame.node? location = some node → node.isFile = false →
    disk.node? location = some node

/-- A disk without the nodes at and below some locations. -/
def without (disk : Disk) (locations : List Location) : Disk :=
  locations.foldl prune disk

theorem node?_without (disk : Disk) (locations : List Location) (other : Location) :
    (disk.without locations).node? other =
      if other ≠ [] ∧ ∃ location ∈ locations, location <+: other then none
      else disk.node? other := by
  induction locations generalizing disk with
  | nil => simp [without]
  | cons location rest ih =>
    rw [without, List.foldl_cons, ← without, ih, node?_prune]
    by_cases here : other ≠ [] ∧ location <+: other
    · simp [here]
    · simp only [if_neg here, List.exists_mem_cons_iff]
      by_cases empty : other = []
      · simp [empty]
      · simp [show ¬ location <+: other from fun below => here ⟨empty, below⟩]

theorem frames_without (disk : Disk) (locations : List Location) :
    (disk.without locations).Frames disk := by
  intro location node found _
  rw [node?_without] at found
  split at found
  · cases found
  · exact found

theorem walkFrom_append {behind behind' : Location → List Step → Except Fault Location}
    {rest : List Step}
    (links : ∀ place steps, behind place steps = .ok top →
      ∃ onward, behind' place (steps ++ rest) = disk.walkFrom keepLast onward top rest)
    (held : disk.node? top = some .directory) (further : rest ≠ []) {steps : List Step}
    (walked : disk.walkFrom false behind place steps = .ok top) :
    ∃ onward, disk.walkFrom keepLast behind' place (steps ++ rest) =
      disk.walkFrom keepLast onward top rest := by
  induction steps generalizing place with
  | nil =>
    obtain rfl := Except.ok.inj walked
    exact ⟨behind', rfl⟩
  | cons step steps ih =>
    have more : (steps ++ rest).isEmpty = false := by simp [further]
    cases step with
    | here => exact ih walked
    | above => exact ih walked
    | into name =>
      rw [walkFrom] at walked
      rw [List.cons_append, walkFrom]
      split at walked
      · cases walked
      · rename_i short
        rw [if_neg short]
        cases found : disk.node? (place ++ [name]) with
        | none => simp only [found] at walked; cases walked
        | some node =>
          simp only [found] at walked ⊢
          cases node with
          | directory => exact ih walked
          | file | pipe =>
            dsimp only at walked
            split at walked
            · obtain rfl := Except.ok.inj walked
              rw [found] at held
              cases held
            · cases walked
          | link target =>
            simp only [Bool.false_and, Bool.false_eq_true, if_false] at walked
            simp only [more, Bool.and_false, Bool.false_eq_true, if_false, ← List.append_assoc]
            split at walked
            · rename_i absolute
              rw [if_pos absolute]
              exact links _ _ walked
            · rename_i relative
              rw [if_neg relative]
              exact links _ _ walked

theorem LeadsTo.walk_append (leads : disk.LeadsTo root top) (keepLast : Bool) (rest : List Step)
    (further : rest ≠ []) : ∃ onward, disk.walk keepLast (root.steps ++ rest) =
      disk.walkFrom keepLast onward top rest := by
  have through : ∀ links place steps, disk.walkThrough false links place steps = .ok top →
      ∃ onward, disk.walkThrough keepLast links place (steps ++ rest) =
        disk.walkFrom keepLast onward top rest := by
    intro links
    induction links with
    | zero =>
      exact fun _ _ => walkFrom_append (fun _ _ refused => by cases refused) leads.held further
    | succ links ih => exact fun _ _ => walkFrom_append ih leads.held further
  exact through longestChain _ _ leads.walked

theorem walkFrom_frames (frames : disk.Frames changed)
    {behind behind' : Location → List Step → Except Fault Location}
    (links : ∀ place steps, behind place steps = .ok top → behind' place steps = .ok top)
    (held : disk.node? top = some .directory) {steps : List Step}
    (walked : disk.walkFrom false behind place steps = .ok top) :
    changed.walkFrom false behind' place steps = .ok top := by
  induction steps generalizing place with
  | nil => exact walked
  | cons step steps ih =>
    cases step with
    | here => exact ih walked
    | above => exact ih walked
    | into name =>
      rw [walkFrom] at walked ⊢
      split at walked
      · cases walked
      · rename_i short
        rw [if_neg short]
        cases found : disk.node? (place ++ [name]) with
        | none => simp only [found] at walked; cases walked
        | some node =>
          simp only [found] at walked
          cases node with
          | directory =>
            simp only [frames _ _ found rfl]
            exact ih walked
          | file | pipe =>
            dsimp only at walked
            split at walked
            · obtain rfl := Except.ok.inj walked
              rw [found] at held
              cases held
            · cases walked
          | link target =>
            simp only [frames _ _ found rfl]
            simp only [Bool.false_and, Bool.false_eq_true, if_false] at walked ⊢
            split at walked
            · rename_i absolute
              rw [if_pos absolute]
              exact links _ _ walked
            · rename_i relative
              rw [if_neg relative]
              exact links _ _ walked

theorem LeadsTo.of_frames (leads : disk.LeadsTo root top) (frames : disk.Frames changed) :
    changed.LeadsTo root top := by
  have through : ∀ links place steps, disk.walkThrough false links place steps = .ok top →
      changed.walkThrough false links place steps = .ok top := by
    intro links
    induction links with
    | zero =>
      exact fun _ _ => walkFrom_frames frames (fun _ _ refused => by cases refused) leads.held
    | succ links ih => exact fun _ _ => walkFrom_frames frames ih leads.held
  exact ⟨through longestChain _ _ leads.walked, frames _ _ leads.held rfl⟩

/-- A path that leads down through directories and up again leads back. -/
theorem leadsTo_of_detour
    (steps : root.steps = (top ++ names).map .into ++ List.replicate names.length .above)
    (held : disk.node? (top ++ names) = some .directory) : disk.LeadsTo root top := by
  have back : ∀ behind, disk.walkFrom false behind (top ++ names)
      (List.replicate names.length .above) = .ok top := by
    intro behind
    clear steps
    induction names using List.reverseRecOn with
    | nil => rw [List.append_nil]; rfl
    | append_singleton names name ih =>
      rw [← List.append_assoc] at held ⊢
      rw [List.length_append, List.length_singleton, List.replicate_succ, walkFrom,
        List.dropLast_concat]
      exact ih (parent_of_node? held).2
  refine ⟨?_, ?_⟩
  · rw [steps, walk_names held, back]
  · by_cases direct : names = []
    · rwa [direct, List.append_nil] at held
    · exact directory_of_node? held direct

/-! ## The way on from the root -/

theorem LeadsTo.walk_node? (leads : disk.LeadsTo root top) (nonempty : names ≠ [])
    (found : disk.node? (top ++ names) = some node)
    (kept : keepLast = true ∨ ∀ target, node ≠ .link target) :
    disk.walk keepLast (root.steps ++ names.map .into) = .ok (top ++ names) := by
  obtain ⟨onward, walked⟩ := leads.walk_append keepLast (names.map .into) (by simpa using nonempty)
  obtain ⟨before, name, rfl⟩ := (List.eq_nil_or_concat names).resolve_left nonempty
  rw [List.concat_eq_append] at found walked ⊢
  rw [← List.append_assoc] at found ⊢
  obtain ⟨plain, held⟩ := parent_of_node? found
  rw [walked, List.map_append, walkFrom_names held, List.map_singleton, walkFrom,
    if_neg (Nat.not_lt.mpr plain.short)]
  simp only [found]
  cases node with
  | directory => rfl
  | file => rfl
  | pipe => rfl
  | link target =>
    rcases kept with rfl | noLink
    · rfl
    · exact absurd rfl (noLink target)

theorem LeadsTo.walk_missing (leads : disk.LeadsTo root top) (plain : IsPlain name)
    (missing : disk.node? (top ++ [name]) = none) :
    disk.walk keepLast (root.steps ++ [.into name]) = .error .notFound := by
  obtain ⟨onward, walked⟩ := leads.walk_append keepLast [.into name] (by simp)
  rw [walked, walkFrom, if_neg (Nat.not_lt.mpr plain.short)]
  simp only [missing]

theorem LeadsTo.holder_below (leads : disk.LeadsTo root top)
    (held : disk.node? (top ++ names) = some .directory) (name : Name) :
    disk.holder (root.steps ++ (names ++ [name]).map .into) =
      .ok (⟨top ++ names, held⟩, .into name) := by
  have ends : (root.steps ++ (names ++ [name]).map Step.into).getLast? = some (.into name) := by
    simp
  refine holder_of_directory ends ?_ held
  rw [List.map_append, List.map_singleton, ← List.append_assoc, List.dropLast_concat]
  by_cases empty : names = []
  · rw [empty, List.map_nil, List.append_nil, List.append_nil]
    exact leads.walked
  · exact leads.walk_node? empty held (.inr fun target same => by cases same)

/-! ## Operations below the root -/

theorem LeadsTo.examineKeeping_child (leads : disk.LeadsTo root top) (plain : IsPlain name) :
    disk.examineKeeping (root.child name) = (do
      (root.child name).checkForm
      disk.nodeAt (top ++ [name])) := by
  have steps : (root.child name).walkSteps = root.steps ++ [.into name] :=
    walkSteps_below root (List.forall_mem_singleton.mpr plain) (List.cons_ne_nil _ _)
  rw [examineKeeping, locateKeeping, steps]
  cases (root.child name).checkForm with
  | error fault => rfl
  | ok form =>
    cases found : disk.node? (top ++ [name]) with
    | none =>
      rw [leads.walk_missing plain found]
      simp [bind, Except.bind, nodeAt, found]
    | some node =>
      have walked : disk.walk true (root.steps ++ [.into name]) = .ok (top ++ [name]) :=
        leads.walk_node? (List.cons_ne_nil _ _) found (.inl rfl)
      rw [walked]
      rfl

/-- A slash at the end of the path of a root does not matter. -/
theorem LeadsTo.walk_walkSteps (leads : disk.LeadsTo root top) :
    disk.walk false root.walkSteps = .ok top := by
  rw [walkSteps]
  split
  · obtain ⟨onward, walked⟩ := leads.walk_append false [.here] (List.cons_ne_nil _ _)
    exact walked
  · rw [List.append_nil]
    exact leads.walked

theorem LeadsTo.locate_eq (leads : disk.LeadsTo root top) (form : root.checkForm = .ok ()) :
    disk.locate root = .ok top := by
  rw [locate, form]
  exact leads.walk_walkSteps

theorem LeadsTo.list_below (leads : disk.LeadsTo root top)
    (held : disk.node? (top ++ names) = some .directory) :
    disk.list (root.below names) = (do
      (root.below names).checkForm
      return disk.entries (top ++ names)) := by
  have walked : disk.walk false (root.below names).walkSteps = .ok (top ++ names) := by
    by_cases here : names = []
    · subst here
      rw [List.append_nil]
      exact leads.walk_walkSteps
    · rw [walkSteps_below root (isPlain_below held) here]
      exact leads.walk_node? here held (.inr fun target same => by cases same)
  rw [list, locate, walked]
  cases (root.below names).checkForm with
  | error fault => rfl
  | ok form => simp only [bind, Except.bind, nodeAt, held]

/-- A directory below the root is removed with all that is in it under its path. -/
theorem LeadsTo.removeTree_below (leads : disk.LeadsTo root top) (nonempty : names ≠ [])
    (held : disk.node? (top ++ names) = some .directory) :
    disk.removeTree (root.below names) = (do
      (root.below names).checkForm
      return disk.prune (top ++ names)) := by
  have walked : disk.walk true (root.steps ++ names.map .into) = .ok (top ++ names) :=
    leads.walk_node? nonempty held (.inl rfl)
  rw [removeTree, locateKeeping, walkSteps_below root (isPlain_below held) nonempty, walked]
  cases (root.below names).checkForm with
  | error fault => rfl
  | ok form => simp only [bind, Except.bind, nodeAt, held]

theorem moveNode_of_free (old new : disk.SlotOf) (found : disk.node? old.val = some node)
    (plain : node ≠ .directory) (free : disk.node? new.val = none) :
    ∃ after, disk.moveNode old new = .ok after ∧ ∀ other, after.node? other =
      if other = new.val then some node else if other = old.val then none
      else disk.node? other := by
  unfold moveNode
  split
  · rename_i missing
    rw [found] at missing
    cases missing
  · rename_i held
    obtain rfl := Option.some.inj (held.symm.trans found)
    rw [dif_neg (not_or.mpr ⟨plain, by simp [free]⟩)]
    refine ⟨_, rfl, fun other => ?_⟩
    rw [node?_put, node?_erase]

/-- A file below the root is moved to a free place in a directory below the root, if the
system takes the two paths. -/
theorem LeadsTo.moveFile_below {source target : List Name} {place : Location} {name : Name}
    (leads : disk.LeadsTo root top) (nonempty : source ≠ [])
    (found : disk.node? (top ++ source) = some node) (plain : node ≠ .directory)
    (held : disk.node? (top ++ place) = some .directory) (plainName : IsPlain name)
    (target_eq : target = place ++ [name]) (free : disk.node? (top ++ target) = none) :
    ∃ after, (disk.moveFile (root.below source) (root.below target) = (do
        (root.below source).checkForm
        (root.below target).checkForm
        return after)) ∧ ∀ other, after.node? other =
      if other = top ++ target then some node else if other = top ++ source then none
      else disk.node? other := by
  subst target_eq
  obtain ⟨before, last, rfl⟩ := (List.eq_nil_or_concat source).resolve_left nonempty
  rw [List.concat_eq_append] at found ⊢
  have plainSource := isPlain_below found
  have plainTarget : ∀ other ∈ place ++ [name], IsPlain other :=
    List.forall_mem_append.mpr ⟨isPlain_below held, by simpa using plainName⟩
  rw [← List.append_assoc] at found free ⊢
  obtain ⟨plainLast, inside⟩ := parent_of_node? found
  have old : slotIn ⟨top ++ before, inside⟩ last = .ok ⟨top ++ before ++ [last], _⟩ :=
    dif_pos (isPlainName_iff.mpr plainLast)
  have new : slotIn ⟨top ++ place, held⟩ name = .ok ⟨top ++ place ++ [name], _⟩ :=
    dif_pos (isPlainName_iff.mpr plainName)
  obtain ⟨after, moved, nodes⟩ := moveNode_of_free
    ⟨top ++ before ++ [last], top ++ before, last, rfl, isPlainName_iff.mpr plainLast, inside⟩
    ⟨top ++ place ++ [name], top ++ place, name, rfl, isPlainName_iff.mpr plainName, held⟩
    found plain free
  refine ⟨after, ?_, fun other => ?_⟩
  · rw [moveFile, steps_below root plainSource, steps_below root plainTarget]
    cases (root.below (before ++ [last])).checkForm with
    | error fault => rfl
    | ok form =>
      cases (root.below (place ++ [name])).checkForm with
      | error fault => rfl
      | ok form =>
        simp only [bind, Except.bind, leads.holder_below inside, leads.holder_below held, old, new,
          nodeAt, found, moved]
        rfl
  · rw [← List.append_assoc top before]
    exact nodes other

end Disk

end ArtifactCache
