import ArtifactCache.Proofs.Crew.Promise
import ArtifactCache.Proofs.Store.Preparation

/-! # The root under an upgrade

An upgrade moves files and removes old directories below the root.  It fails where the
root is no directory, and it never takes the root away.  Where there are no old
directories it changes nothing at all.
-/

namespace ArtifactCache

open DiskPath

/-! ## Directories stay -/

namespace Disk

variable {disk changed : Disk} {place : Location} {name : Name}

theorem directory_moveNode {old new : disk.SlotOf} (moved : disk.moveNode old new = .ok changed)
    (held : disk.node? place = some .directory) : changed.node? place = some .directory := by
  unfold moveNode at moved
  split at moved
  · cases moved
  · rename_i node found
    split at moved
    · cases moved
    · rename_i plain
      obtain ⟨plain, free⟩ := not_or.mp plain
      obtain rfl := Except.ok.inj moved
      have notNew : place ≠ new.val := by
        rintro rfl
        exact free held
      have notOld : place ≠ old.val := by
        rintro rfl
        exact plain (Option.some.inj (found.symm.trans held))
      rw [node?_put, if_neg notNew, node?_erase, if_neg notOld]
      exact held

theorem node?_moveNode {old new : disk.SlotOf} (moved : disk.moveNode old new = .ok changed)
    (notOld : place ≠ old.val) (notNew : place ≠ new.val) :
    changed.node? place = disk.node? place := by
  unfold moveNode at moved
  split at moved
  · cases moved
  · split at moved
    · cases moved
    · obtain rfl := Except.ok.inj moved
      rw [node?_put, if_neg notNew, node?_erase, if_neg notOld]

/-- A move between paths with other last names leaves a node where it is. -/
theorem node?_moveFile {source target : DiskPath} {oldName newName : Name}
    (moved : disk.moveFile source target = .ok changed)
    (oldLast : source.steps.getLast? = some (.into oldName)) (notOld : name ≠ oldName)
    (newLast : target.steps.getLast? = some (.into newName)) (notNew : name ≠ newName) :
    changed.node? (place ++ [name]) = disk.node? (place ++ [name]) := by
  obtain ⟨_, -, moved⟩ := bind_eq_ok_iff.mp moved
  obtain ⟨_, -, moved⟩ := bind_eq_ok_iff.mp moved
  obtain ⟨⟨oldDirectory, oldStep⟩, oldHolds, moved⟩ := bind_eq_ok_iff.mp moved
  obtain ⟨⟨newDirectory, newStep⟩, newHolds, moved⟩ := bind_eq_ok_iff.mp moved
  obtain rfl : oldStep = .into oldName := (exists_of_holder oldLast oldHolds).2
  obtain rfl : newStep = .into newName := (exists_of_holder newLast newHolds).2
  obtain ⟨old, oldSlot, moved⟩ := bind_eq_ok_iff.mp moved
  obtain ⟨_, -, moved⟩ := bind_eq_ok_iff.mp moved
  obtain ⟨new, newSlot, moved⟩ := bind_eq_ok_iff.mp moved
  have elsewhere : ∀ {holder : disk.DirectoryOf} {other : Name} {slot : disk.SlotOf},
      slotIn holder other = .ok slot → name ≠ other → place ++ [name] ≠ slot.val := by
    intro holder other slot slotted differ same
    rw [val_of_slotIn slotted] at same
    exact differ (List.append_inj_right' same rfl |> List.singleton_inj.mp)
  exact node?_moveNode moved (elsewhere oldSlot notOld) (elsewhere newSlot notNew)

theorem directory_moveFile {source target : DiskPath}
    (moved : disk.moveFile source target = .ok changed)
    (held : disk.node? place = some .directory) : changed.node? place = some .directory := by
  obtain ⟨_, -, moved⟩ := bind_eq_ok_iff.mp moved
  obtain ⟨_, -, moved⟩ := bind_eq_ok_iff.mp moved
  obtain ⟨⟨oldDirectory, oldStep⟩, -, moved⟩ := bind_eq_ok_iff.mp moved
  obtain ⟨⟨newDirectory, newStep⟩, -, moved⟩ := bind_eq_ok_iff.mp moved
  split at moved
  · obtain ⟨old, -, moved⟩ := bind_eq_ok_iff.mp moved
    obtain ⟨_, -, moved⟩ := bind_eq_ok_iff.mp moved
    obtain ⟨new, -, moved⟩ := bind_eq_ok_iff.mp moved
    exact directory_moveNode moved held
  · cases moved

theorem node?_removeTree {other : Location} (held : disk.node? place = some .directory)
    (plain : IsPlain name)
    (removed : disk.removeTree (ofLocation (place ++ [name])) = .ok changed)
    (apart : ¬ place ++ [name] <+: other) : changed.node? other = disk.node? other := by
  have names : ∀ other ∈ place ++ [name], IsPlain other :=
    List.forall_mem_append.mpr ⟨isPlain_of_node? held, by simpa using plain⟩
  rw [removeTree, locateKeeping_ofLocation names] at removed
  cases form : (ofLocation (place ++ [name])).checkForm with
  | error fault => rw [form] at removed; cases removed
  | ok _ =>
    simp only [form, bind, Except.bind] at removed
    cases found : disk.node? (place ++ [name]) with
    | none =>
      rw [List.map_append, List.map_singleton, walk_of_missing held plain found] at removed
      cases removed
    | some node =>
      rw [walk_of_node? found (.inl rfl)] at removed
      simp only [nodeAt, found] at removed
      cases node with
      | directory =>
        obtain rfl := Except.ok.inj removed
        rw [node?_prune, if_neg]
        rintro ⟨-, below⟩
        exact apart below
      | link target =>
        rw [eraseFile_of_node? found (by simp)] at removed
        obtain rfl := Except.ok.inj removed
        rw [node?_erase, if_neg]
        rintro rfl
        exact apart List.prefix_rfl
      | file => cases removed
      | pipe => cases removed

theorem directory_removeTree (held : disk.node? place = some .directory) (plain : IsPlain name)
    (removed : disk.removeTree (ofLocation (place ++ [name])) = .ok changed) :
    changed.node? place = some .directory := by
  rw [node?_removeTree held plain removed, held]
  exact fun above => absurd above.length_le (by simp)

end Disk

theorem ne_formerName (kind kind' : Kind) : kind.directoryName ≠ nameOf kind'.formerDirectory := by
  intro same
  have texts := nameOf_injective same
  cases kind <;> cases kind' <;> revert texts <;> decide

theorem formerName_injective {kind kind' : Kind}
    (same : nameOf kind.formerDirectory = nameOf kind'.formerDirectory) : kind = kind' := by
  have texts := nameOf_injective same
  cases kind <;> cases kind' <;> revert texts <;> decide

namespace Upgrade

variable {top : Location}

def HasDirectory (place : Location) (scene : Scene) : Prop :=
  scene.disk.node? place = some .directory

/-! ## What outlasts an upgrade -/

/-- Whether an upgrade may move a file from one path to another. -/
def MayMove (root : DiskPath) (kind : Kind) (source target : DiskPath) : Prop :=
  ∃ (directory : DiskPath) (name : Name) (digest : Digest) (token : String),
    digest? name = some digest ∧ (token = flatToken ∨ token = tokenInShard kind) ∧
      source = directory.child name ∧ target = Upgrade.target root kind digest token

/-- Whether a property of disks outlasts all moves of an upgrade, and the removal of the former
directories. -/
structure Outlasts (root : DiskPath) (holds : Disk → Prop) : Prop where
  move : ∀ {kind source target} {disk changed : Disk}, MayMove root kind source target →
    disk.moveFile source target = .ok changed → holds disk → holds changed
  remove : ∀ {kind} {disk changed : Disk}, disk.removeTree (oldDirectory root kind) = .ok changed →
    holds disk → holds changed

section Outlasts

variable {root : DiskPath} {holds : Disk → Prop}

theorem keeps_noting (notice : Notice) {rest : Task}
    (kept : rest.Keeps fun scene => holds scene.disk) :
    (noting notice rest).Keeps fun scene => holds scene.disk := by
  refine .change (fun held changed => ?_) kept
  obtain rfl := Except.ok.inj changed
  exact held

variable (outlasts : Outlasts root holds)

include outlasts

theorem keeps_moving {kind : Kind} {source target : DiskPath} {rest : Task}
    (may : MayMove root kind source target) (kept : rest.Keeps fun scene => holds scene.disk) :
    (moving source target rest).Keeps fun scene => holds scene.disk := by
  refine .change (fun {before after} held changed => ?_) (.emit _ kept)
  cases moved : before.disk.moveFile source target with
  | error fault => rw [moved] at changed; cases changed
  | ok disk =>
    rw [moved] at changed
    obtain rfl := Except.ok.inj changed
    exact outlasts.move may moved held

theorem keeps_taskInShard (kind : Kind) (directory : DiskPath) (nodes : List (Name × Node)) :
    (taskInShard root kind directory nodes).Keeps fun scene => holds scene.disk := by
  induction nodes with
  | nil => exact .done
  | cons first rest ih =>
    obtain ⟨name, node⟩ := first
    unfold taskInShard
    dsimp only
    split
    · rename_i named
      exact keeps_moving outlasts ⟨directory, name, _, _, named, .inr rfl, rfl, rfl⟩ ih
    · exact .fail _

theorem keeps_taskOfShard (host : Host) (kind : Kind) (directory : DiskPath) :
    (taskOfShard host root kind directory).Keeps fun scene => holds scene.disk := by
  refine .look fun scene _ => ?_
  cases host.list scene.disk directory with
  | error fault => exact .fail _
  | ok nodes => exact keeps_taskInShard outlasts kind directory nodes

/-- The tasks of an upgrade keep what outlasts it. -/
theorem keeps_task (host : Host) (kind : Kind) (directory : DiskPath) (item : Name × Node) :
    (task host root kind directory item).Keeps fun scene => holds scene.disk := by
  obtain ⟨name, node⟩ := item
  cases node with
  | directory =>
    have rest := keeps_taskOfShard outlasts host kind (directory.child name)
    simp only [task]
    split
    · exact rest
    · exact keeps_noting _ rest
  | file size accessed =>
    simp only [task]
    split
    · rename_i named
      exact keeps_moving outlasts ⟨directory, name, _, _, named, .inl rfl, rfl, rfl⟩ .done
    · exact keeps_noting _ (.emit _ .done)
  | link target => exact keeps_noting _ (.emit _ .done)
  | pipe => exact keeps_noting _ (.emit _ .done)

theorem Outlasts.upgradeKind (host : Host) (workers : Nat) (kind : Kind) {scene : Scene}
    (held : holds scene.disk) : holds (upgradeKind host workers root kind scene).2.disk := by
  unfold Upgrade.upgradeKind
  dsimp only
  cases scene.disk.examineKeeping (oldDirectory root kind) with
  | error fault =>
    dsimp only
    split
    · exact held
    · exact held
  | ok _ =>
    dsimp only
    cases host.list scene.disk (oldDirectory root kind) with
    | error fault => exact held
    | ok nodes =>
      dsimp only
      have possible := host.crew.possible workers
        (task host root kind (oldDirectory root kind)) nodes scene
      have after := possible.keeps (keeps_task outlasts host kind _) held
      cases report : host.crew.run workers
          (task host root kind (oldDirectory root kind)) nodes scene with
      | mk outcome last =>
        rw [report] at after
        cases outcome with
        | error failure => exact after
        | ok fates =>
          dsimp only
          cases removed : last.disk.removeTree (oldDirectory root kind) with
          | error fault => exact after
          | ok disk => exact outlasts.remove removed after

theorem Outlasts.upgradeKinds (host : Host) (workers : Nat) (kinds : List Kind)
    (summary : UpgradeSummary) {scene : Scene} (held : holds scene.disk) :
    holds (upgradeKinds host workers root kinds summary scene).2.disk := by
  induction kinds generalizing summary scene with
  | nil => exact held
  | cons kind rest ih =>
    have after := outlasts.upgradeKind host workers kind held
    rw [Upgrade.upgradeKinds]
    cases result : Upgrade.upgradeKind host workers root kind scene with
    | mk outcome last =>
      rw [result] at after
      cases outcome with
      | error failure => exact after
      | ok fates => exact ih _ after

theorem Outlasts.upgrade (host : Host) (workers : Nat) {disk : Disk} (held : holds disk) :
    holds (upgrade host workers root disk).2.disk :=
  outlasts.upgradeKinds host workers Kind.all _ held

end Outlasts

/-! ## One kind -/

theorem isPlain_formerName (kind : Kind) : IsPlain (nameOf kind.formerDirectory) :=
  isPlainName_iff.mp (by cases kind <;> decide +kernel)

theorem oldDirectory_ofLocation (top : Location) (kind : Kind) :
    oldDirectory (ofLocation top) kind = ofLocation (top ++ [nameOf kind.formerDirectory]) :=
  (ofLocation_append top _).symm

theorem outlasts_directory (top : Location) :
    Outlasts (ofLocation top) fun disk => disk.node? top = some .directory where
  move _ := Disk.directory_moveFile
  remove {kind _ _} removed held := by
    rw [oldDirectory_ofLocation] at removed
    exact Disk.directory_removeTree held (isPlain_formerName kind) removed

/-- Without a directory at the root the upgrade of a kind fails. -/
theorem upgradeKind_of_plain (host : Host) (workers : Nat) (kind : Kind) {scene : Scene}
    {node : Node} (found : scene.disk.node? top = some node) (plain : node ≠ .directory)
    (noLink : ∀ target, node ≠ .link target) :
    ∃ failure, upgradeKind host workers (ofLocation top) kind scene = (.error failure, scene) := by
  have names : ∀ other ∈ top ++ [nameOf kind.formerDirectory], IsPlain other :=
    List.forall_mem_append.mpr
      ⟨Disk.isPlain_of_node? found, by simpa using isPlain_formerName kind⟩
  have refused : ∃ fault, scene.disk.examineKeeping (oldDirectory (ofLocation top) kind) =
      .error fault ∧ fault ≠ .notFound := by
    rw [oldDirectory_ofLocation, Disk.examineKeeping, Disk.locateKeeping_ofLocation names,
      checkForm_ofLocation names]
    split
    · exact ⟨.nameTooLong, rfl, by decide⟩
    · rw [List.map_append, Disk.walk_of_plain found plain noLink (by simp)]
      exact ⟨.notDirectory, rfl, by decide⟩
  obtain ⟨fault, refused, other⟩ := refused
  rw [upgradeKind]
  simp only [refused, if_neg other]
  exact ⟨_, rfl⟩

theorem upgradeKind_of_missing {host : Host} {workers : Nat} {kind : Kind} {scene : Scene}
    (held : HasDirectory top scene)
    (missing : scene.disk.node? (top ++ [nameOf kind.formerDirectory]) = none)
    (short : (ofLocation (top ++ [nameOf kind.formerDirectory])).bytes.length ≤ longestPath) :
    upgradeKind host workers (ofLocation top) kind scene = (.ok none, scene) := by
  have names : ∀ other ∈ top ++ [nameOf kind.formerDirectory], IsPlain other :=
    List.forall_mem_append.mpr
      ⟨Disk.isPlain_of_node? held, by simpa using isPlain_formerName kind⟩
  have absent : scene.disk.examineKeeping (oldDirectory (ofLocation top) kind) =
      .error .notFound := by
    rw [oldDirectory_ofLocation, Disk.examineKeeping, Disk.locateKeeping_ofLocation names,
      checkForm_ofLocation names, if_neg (Nat.not_lt.mpr short), List.map_append,
      List.map_singleton, Disk.walk_of_missing held (isPlain_formerName kind) missing]
    rfl
  rw [upgradeKind]
  simp only [absent, if_true]

/-! ## All kinds -/

theorem upgradeKinds_of_missing (host : Host) (workers : Nat) (kinds : List Kind)
    (summary : UpgradeSummary) {scene : Scene} (held : HasDirectory top scene)
    (missing : ∀ kind : Kind, scene.disk.node? (top ++ [nameOf kind.formerDirectory]) = none)
    (short : ∀ kind : Kind,
      (ofLocation (top ++ [nameOf kind.formerDirectory])).bytes.length ≤ longestPath) :
    upgradeKinds host workers (ofLocation top) kinds summary scene = (.ok summary, scene) := by
  induction kinds generalizing summary with
  | nil => rfl
  | cons kind rest ih =>
    rw [upgradeKinds, upgradeKind_of_missing held (missing kind) (short kind)]
    exact ih summary

theorem node?_of_upgrade {host : Host} {workers : Nat} {disk : Disk} {node : Node}
    {summary : UpgradeSummary} {scene : Scene} (found : disk.node? top = some node)
    (noLink : ∀ target, node ≠ .link target)
    (upgraded : upgrade host workers (ofLocation top) disk = (.ok summary, scene)) :
    scene.disk.node? top = some .directory := by
  by_cases plain : node = .directory
  · subst plain
    have held := (outlasts_directory top).upgrade host workers found
    rwa [upgraded] at held
  · have start : ({ disk, notices := [] } : Scene).disk.node? top = some node := found
    obtain ⟨failure, failed⟩ := upgradeKind_of_plain host workers .action start plain noLink
    rw [upgrade, Kind.all, upgradeKinds, failed] at upgraded
    cases upgraded

end Upgrade

end ArtifactCache
