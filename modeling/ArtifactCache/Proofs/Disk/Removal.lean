import ArtifactCache.Disk.Change
import ArtifactCache.Proofs.Outcome
import Mathlib.Data.List.Basic

/-! # Removing files

A removal erases one node that is no directory.  Ways that do not lead through that
node lead where they led before, and all others lead to nothing.  So a path whose file
can be removed, or under which there is nothing, stays like that while other files are
removed, also if the way to it leads through links that are removed themselves.
-/

namespace ArtifactCache.Disk

open DiskPath

/-- Whether a result stays the same or becomes that there is nothing. -/
def KeptOrMissing {Value : Type} (before after : Except Fault Value) : Prop :=
  after = before ∨ after = .error .notFound

section Erasing

variable {disk : Disk} {location : Location} {plain : disk.node? location ≠ some .directory}

theorem walkFrom_erase (keepLast : Bool)
    {behind behind' : Location → List Step → Except Fault Location}
    (links : ∀ place steps, KeptOrMissing (behind place steps) (behind' place steps))
    (place : Location) (steps : List Step) :
    KeptOrMissing (disk.walkFrom keepLast behind place steps)
      ((disk.erase location plain).walkFrom keepLast behind' place steps) := by
  induction steps generalizing place with
  | nil => exact .inl rfl
  | cons step rest ih =>
    cases step with
    | here => exact ih place
    | above => exact ih place.dropLast
    | into name =>
      simp only [walkFrom, node?_erase]
      by_cases long : longestName < name.length
      · simp only [if_pos long]
        exact .inl rfl
      simp only [if_neg long]
      by_cases erased : place ++ [name] = location
      · rw [if_pos erased]
        exact .inr rfl
      rw [if_neg erased]
      cases disk.node? (place ++ [name]) with
      | none => exact .inl rfl
      | some node =>
        cases node with
        | directory => exact ih _
        | file => exact .inl rfl
        | pipe => exact .inl rfl
        | link target =>
          dsimp only
          split
          · exact .inl rfl
          · split
            · exact links _ _
            · exact links _ _

theorem walkThrough_erase (keepLast : Bool) (links : Nat) (place : Location) (steps : List Step) :
    KeptOrMissing (disk.walkThrough keepLast links place steps)
      ((disk.erase location plain).walkThrough keepLast links place steps) := by
  induction links generalizing place steps with
  | zero => exact walkFrom_erase keepLast (fun _ _ => .inl rfl) place steps
  | succ links ih => exact walkFrom_erase keepLast ih place steps

/-- Where a node has been erased, steps lead to where they led before or to nothing. -/
theorem walk_erase (keepLast : Bool) (steps : List Step) :
    KeptOrMissing (disk.walk keepLast steps)
      ((disk.erase location plain).walk keepLast steps) :=
  walkThrough_erase keepLast longestChain [] steps

end Erasing

/-! ## One removal -/

section Holder

variable {disk : Disk} {steps : List Step} {last : Step} {directory : Location}

theorem holder_of_directory (ends : steps.getLast? = some last)
    (walked : disk.walk false steps.dropLast = .ok directory)
    (held : disk.node? directory = some .directory) :
    disk.holder steps = .ok (⟨directory, held⟩, last) := by
  unfold holder
  simp only [ends, walked, bind, Except.bind]
  split
  next => rfl
  next other same => exact absurd (Option.some.inj (same.symm.trans held)) other
  next missing => rw [held] at missing; cases missing

theorem holder_of_plain {node : Node} (ends : steps.getLast? = some last)
    (walked : disk.walk false steps.dropLast = .ok directory)
    (held : disk.node? directory = some node) (plain : node ≠ .directory) :
    disk.holder steps = .error .notDirectory := by
  unfold holder
  simp only [ends, walked, bind, Except.bind]
  split
  next same => exact absurd (Option.some.inj (held.symm.trans same)) plain
  next => rfl
  next missing => rw [held] at missing; cases missing

theorem holder_of_missing (ends : steps.getLast? = some last)
    (walked : disk.walk false steps.dropLast = .ok directory)
    (missing : disk.node? directory = none) : disk.holder steps = .error .notFound := by
  unfold holder
  simp only [ends, walked, bind, Except.bind]
  split
  next held => rw [missing] at held; cases held
  next same => rw [missing] at same; cases same
  next => rfl

theorem holder_of_error {fault : Fault} (ends : steps.getLast? = some last)
    (walked : disk.walk false steps.dropLast = .error fault) :
    disk.holder steps = .error fault := by
  unfold holder
  simp only [ends, walked, bind, Except.bind]

theorem exists_of_holder {holding : disk.DirectoryOf × Step} (ends : steps.getLast? = some last)
    (holds : disk.holder steps = .ok holding) :
    disk.walk false steps.dropLast = .ok holding.1.val ∧ holding.2 = last := by
  cases walked : disk.walk false steps.dropLast with
  | error fault => rw [holder_of_error ends walked] at holds; cases holds
  | ok arrived =>
    cases found : disk.node? arrived with
    | none => rw [holder_of_missing ends walked found] at holds; cases holds
    | some node =>
      by_cases directory : node = .directory
      · subst directory
        rw [holder_of_directory ends walked found] at holds
        obtain rfl := Except.ok.inj holds
        exact ⟨rfl, rfl⟩
      · rw [holder_of_plain ends walked found directory] at holds
        cases holds

theorem val_of_slotIn {holder : disk.DirectoryOf} {name : Name} {slot : disk.SlotOf}
    (slotted : slotIn holder name = .ok slot) : slot.val = holder.val ++ [name] := by
  unfold slotIn at slotted
  split at slotted
  · exact congrArg Subtype.val (Except.ok.inj slotted).symm
  · cases slotted

end Holder

/-- The location of what the last of several steps names, where this is a name in a
directory that a removal may look into. -/
def slotOf (disk : Disk) (steps : List Step) : Except Fault Location :=
  match steps.getLast? with
  | none => .error .isDirectory
  | some last => do
    let directory ← disk.walk false steps.dropLast
    match disk.node? directory, last with
    | some .directory, .into name =>
      if isPlainName name = true then return directory ++ [name] else throw .nameTooLong
    | some .directory, .here | some .directory, .above => throw .isDirectory
    | some _, _ => throw .notDirectory
    | none, _ => throw .notFound

theorem eraseFile_of_node? {disk : Disk} {location : Location} {node : Node}
    (found : disk.node? location = some node) (plain : node ≠ .directory) :
    disk.eraseFile location = .ok (disk.erase location (by simp [found, plain])) := by
  unfold eraseFile
  split
  next missing => rw [found] at missing; cases missing
  next other held =>
    obtain rfl : node = other := Option.some.inj (found.symm.trans held)
    rw [dif_neg plain]

theorem eraseFile_of_directory {disk : Disk} {location : Location}
    (found : disk.node? location = some .directory) :
    disk.eraseFile location = .error .isDirectory := by
  unfold eraseFile
  split
  next missing => rw [found] at missing; cases missing
  next other held =>
    obtain rfl : .directory = other := Option.some.inj (found.symm.trans held)
    rw [dif_pos rfl]

theorem eraseFile_of_missing {disk : Disk} {location : Location}
    (missing : disk.node? location = none) : disk.eraseFile location = .error .notFound := by
  unfold eraseFile
  split
  next => rfl
  next other held => rw [missing] at held; cases held

theorem removeFile_eq (disk : Disk) (path : DiskPath) :
    disk.removeFile path = (do
      path.checkForm
      let location ← disk.slotOf path.steps
      let erased ← disk.eraseFile location
      if path.endsInSlash then throw .notDirectory else return erased) := by
  unfold removeFile slotOf
  cases path.checkForm with
  | error fault => rfl
  | ok form =>
    cases ends : path.steps.getLast? with
    | none => simp only [holder, ends]; rfl
    | some last =>
      cases walked : disk.walk false path.steps.dropLast with
      | error fault => simp only [holder_of_error ends walked]; rfl
      | ok directory =>
        cases held : disk.node? directory with
        | none => simp only [holder_of_missing ends walked held, bind, Except.bind, held]; rfl
        | some node =>
          by_cases isDirectory : node = .directory
          · subst isDirectory
            simp only [holder_of_directory ends walked held, bind, Except.bind, held]
            cases last with
            | here => rfl
            | above => rfl
            | into name =>
              by_cases plain : isPlainName name = true
              · simp only [slotIn, dif_pos plain, if_pos plain]
                rfl
              · simp only [slotIn, dif_neg plain, if_neg plain]
                rfl
          · simp only [holder_of_plain ends walked held isDirectory, bind, Except.bind, held]
            cases node <;> first | exact absurd rfl isDirectory | rfl

/-- A removal that succeeds erases the node that the last step names, which is no
directory. -/
theorem exists_of_removeFile {disk changed : Disk} {path : DiskPath}
    (removed : disk.removeFile path = .ok changed) :
    ∃ location, ∃ plain : disk.node? location ≠ some .directory,
      disk.slotOf path.steps = .ok location ∧ changed = disk.erase location plain := by
  rw [removeFile_eq] at removed
  obtain ⟨_, -, removed⟩ := bind_eq_ok_iff.mp removed
  obtain ⟨location, slot, removed⟩ := bind_eq_ok_iff.mp removed
  obtain ⟨erased, gone, removed⟩ := bind_eq_ok_iff.mp removed
  have same : erased = changed := by
    split at removed
    · cases removed
    · exact Except.ok.inj removed
  subst same
  cases found : disk.node? location with
  | none => rw [eraseFile_of_missing found] at gone; cases gone
  | some node =>
    by_cases directory : node = .directory
    · subst directory
      rw [eraseFile_of_directory found] at gone
      cases gone
    · rw [eraseFile_of_node? found directory] at gone
      exact ⟨location, by simpa [found] using directory, slot, (Except.ok.inj gone).symm⟩

/-- Where the last step names a node that is no directory, a removal erases it. -/
theorem removeFile_of_slotOf {disk : Disk} {path : DiskPath} {location : Location} {node : Node}
    (form : path.checkForm = .ok ()) (noSlash : path.endsInSlash = false)
    (slot : disk.slotOf path.steps = .ok location) (found : disk.node? location = some node)
    (plain : node ≠ .directory) :
    disk.removeFile path = .ok (disk.erase location (by simp [found, plain])) := by
  simp only [removeFile_eq, form, slot, eraseFile_of_node? found plain, noSlash, bind,
    Except.bind]
  rfl

/-! ## Several removals -/

/-- Whether the file under a path can be removed, or there is nothing under it. -/
def Removable (disk : Disk) (path : DiskPath) : Prop :=
  match disk.removeFile path with
  | .ok _ => True
  | .error fault => fault = .notFound

instance (disk : Disk) (path : DiskPath) : Decidable (disk.Removable path) :=
  match removal : disk.removeFile path with
  | .ok _ => isTrue (by simp [Removable, removal])
  | .error fault => decidable_of_iff (fault = .notFound) (by simp [Removable, removal])

theorem removable_iff {disk : Disk} {path : DiskPath} :
    disk.Removable path ↔
      path.checkForm = .error .notFound ∨
        path.checkForm = .ok () ∧
          (disk.slotOf path.steps = .error .notFound ∨
            ∃ location, disk.slotOf path.steps = .ok location ∧
              (disk.node? location = none ∨
                disk.node? location ≠ some .directory ∧ path.endsInSlash = false)) := by
  rw [Removable, removeFile_eq]
  cases path.checkForm with
  | error fault => simp [bind, Except.bind]
  | ok form =>
    cases disk.slotOf path.steps with
    | error fault => simp [bind, Except.bind]
    | ok location =>
      cases found : disk.node? location with
      | none => simp [bind, Except.bind, eraseFile_of_missing found, found]
      | some node =>
        by_cases plain : node = .directory
        · subst plain
          simp [bind, Except.bind, eraseFile_of_directory found, found, Fault.isDirectory,
            Fault.notFound]
        · cases slash : path.endsInSlash <;>
            simp [bind, Except.bind, eraseFile_of_node? found plain, found, plain,
              Fault.notDirectory, Fault.notFound, throw, throwThe, MonadExceptOf.throw, pure,
              Except.pure]

theorem slotOf_erase {disk : Disk} {location : Location}
    {plain : disk.node? location ≠ some .directory} (steps : List Step) :
    KeptOrMissing (disk.slotOf steps) ((disk.erase location plain).slotOf steps) := by
  unfold slotOf
  cases steps.getLast? with
  | none => exact .inl rfl
  | some last =>
    dsimp only
    rcases walk_erase false steps.dropLast with same | missing
    · rw [same]
      cases disk.walk false steps.dropLast with
      | error fault => exact .inl rfl
      | ok directory =>
        simp only [bind, Except.bind, node?_erase]
        by_cases erased : directory = location
        · rw [if_pos erased]
          exact .inr rfl
        · rw [if_neg erased]
          exact .inl rfl
    · rw [missing]
      exact .inr rfl

theorem Removable.erase {disk : Disk} {path : DiskPath} (removable : disk.Removable path)
    {location : Location} (plain : disk.node? location ≠ some .directory) :
    (disk.erase location plain).Removable path := by
  rw [removable_iff] at removable ⊢
  rcases removable with refused | ⟨form, missing | ⟨slot, reached, kept⟩⟩
  · exact .inl refused
  · refine .inr ⟨form, .inl ?_⟩
    rcases slotOf_erase path.steps with same | gone
    · exact same.trans missing
    · exact gone
  · refine .inr ⟨form, ?_⟩
    rcases slotOf_erase path.steps with same | gone
    · refine .inr ⟨slot, same.trans reached, ?_⟩
      rw [node?_erase]
      split
      · exact .inl rfl
      · exact kept
    · exact .inl gone

/-- Under a path there is nothing to remove exactly if the way to it is lost or if what it
names does not exist. -/
theorem removeFile_eq_notFound_iff {disk : Disk} {path : DiskPath} :
    disk.removeFile path = .error .notFound ↔
      path.checkForm = .error .notFound ∨
        path.checkForm = .ok () ∧ (disk.slotOf path.steps = .error .notFound ∨
          ∃ location, disk.slotOf path.steps = .ok location ∧ disk.node? location = none) := by
  rw [removeFile_eq]
  cases path.checkForm with
  | error fault => simp [bind, Except.bind]
  | ok form =>
    cases disk.slotOf path.steps with
    | error fault => simp [bind, Except.bind]
    | ok location =>
      cases found : disk.node? location with
      | none => simp [bind, Except.bind, eraseFile_of_missing found, found]
      | some node =>
        by_cases plain : node = .directory
        · subst plain
          simp [bind, Except.bind, eraseFile_of_directory found, found, Fault.isDirectory,
            Fault.notFound]
        · cases slash : path.endsInSlash <;>
            simp [bind, Except.bind, eraseFile_of_node? found plain, found, Fault.notDirectory,
              Fault.notFound, throw, throwThe, MonadExceptOf.throw, pure, Except.pure]

theorem removeFile_erase_of_notFound {disk : Disk} {path : DiskPath} {location : Location}
    (plain : disk.node? location ≠ some .directory)
    (missing : disk.removeFile path = .error .notFound) :
    (disk.erase location plain).removeFile path = .error .notFound := by
  rw [removeFile_eq_notFound_iff] at missing ⊢
  rcases missing with refused | ⟨form, lost | ⟨slot, reached, none⟩⟩
  · exact .inl refused
  · refine .inr ⟨form, .inl ?_⟩
    rcases slotOf_erase path.steps with same | gone
    · exact same.trans lost
    · exact gone
  · refine .inr ⟨form, ?_⟩
    rcases slotOf_erase path.steps with same | gone
    · refine .inr ⟨slot, same.trans reached, ?_⟩
      rw [node?_erase, none, ite_self]
    · exact .inl gone

theorem removeFile_of_removed {disk changed : Disk} {path : DiskPath}
    (removed : disk.removeFile path = .ok changed) :
    changed.removeFile path = .error .notFound := by
  obtain ⟨location, plain, slot, rfl⟩ := exists_of_removeFile removed
  have form : path.checkForm = .ok () := by
    rw [removeFile_eq] at removed
    obtain ⟨_, checked, -⟩ := bind_eq_ok_iff.mp removed
    exact checked
  refine removeFile_eq_notFound_iff.mpr (.inr ⟨form, ?_⟩)
  rcases slotOf_erase path.steps with same | gone
  · exact .inr ⟨location, same.trans slot, by rw [node?_erase, if_pos rfl]⟩
  · exact .inl gone

end ArtifactCache.Disk
