import ArtifactCache.Proofs.Disk.Directories

/-! # Writing a file

A write follows links, also one at the end of its path that leads to nothing yet.  Where there
is no link on the way, the file lies at the end of the way, in a directory that is there.  It
takes the place of a file or is new, and nothing else changes.
-/

namespace ArtifactCache.Disk

open DiskPath

variable {disk changed : Disk} {path : DiskPath} {place location names : Location} {name : Name}
  {node : Node}

def NoLinks (disk : Disk) (location : Location) : Prop :=
  ∀ above, above <+: location → ∀ target, disk.node? above ≠ some (.link target)

theorem NoLinks.above (noLinks : disk.NoLinks (place ++ names)) : disk.NoLinks place :=
  fun _ beginning => noLinks _ (beginning.trans (List.prefix_append _ _))

theorem walkFrom_noLinks {keepLast : Bool} {behind : Location → List Step → Except Fault Location}
    (noLinks : disk.NoLinks (place ++ names)) (found : disk.node? place = some node)
    (walked : disk.walkFrom keepLast behind place (names.map .into) = .ok location) :
    location = place ++ names ∧ ∃ node, disk.node? location = some node := by
  induction names generalizing place node with
  | nil =>
    obtain rfl := Except.ok.inj walked
    exact ⟨(List.append_nil place).symm, node, found⟩
  | cons name rest ih =>
    have split : place ++ name :: rest = place ++ [name] ++ rest := by simp
    rw [split] at noLinks ⊢
    rw [List.map_cons, walkFrom] at walked
    split at walked
    · cases walked
    · cases next : disk.node? (place ++ [name]) with
      | none => simp only [next] at walked; cases walked
      | some other =>
        simp only [next] at walked
        cases other with
        | directory => exact ih noLinks next walked
        | link target => exact absurd next (noLinks _ (List.prefix_append _ _) target)
        | file | pipe =>
          dsimp only at walked
          split at walked
          · rename_i last
            obtain rfl : rest = [] := List.map_eq_nil_iff.mp (List.isEmpty_iff.mp last)
            obtain rfl := Except.ok.inj walked
            exact ⟨(List.append_nil _).symm, _, next⟩
          · cases walked

theorem walk_noLinks {keepLast : Bool} (noLinks : disk.NoLinks names)
    (walked : disk.walk keepLast (names.map .into) = .ok location) :
    location = names ∧ ∃ node, disk.node? location = some node := by
  have arrived : location = [] ++ names ∧ ∃ node, disk.node? location = some node :=
    walkFrom_noLinks noLinks disk.node?_nil walked
  rwa [List.nil_append] at arrived

/-- Whether a disk came from another one by writing a file at a location. -/
def HasWritten (disk : Disk) (location : Location) (file : Node) (changed : Disk) : Prop :=
  ∀ other, changed.node? other = if other = location then some file else disk.node? other

theorem hasWritten_of_overwrite {file : Node}
    (done : disk.overwrite location file = .ok changed) :
    disk.HasWritten location file changed := by
  unfold overwrite at done
  split at done
  · cases done
  · split at done
    · cases done
    · obtain rfl := Except.ok.inj done
      exact disk.node?_put location file _ _

theorem hasWritten_of_putNew {slot : disk.SlotOf} (done : disk.putNew slot node = .ok changed) :
    disk.HasWritten slot.val node changed := by
  unfold putNew at done
  split at done
  · cases done
  · obtain rfl := Except.ok.inj done
    exact disk.node?_put slot.val node _ _

/-- What holds the last of several names is the directory that the others lead to. -/
theorem holder_noLinks {steps : List Step} {holding : disk.DirectoryOf × Step}
    (names : steps = (place ++ [name]).map .into) (noLinks : disk.NoLinks place)
    (holds : disk.holder steps = .ok holding) :
    ∃ held : disk.node? place = some .directory, holding = (⟨place, held⟩, .into name) := by
  have ends : steps.getLast? = some (.into name) := by simp [names]
  have front : steps.dropLast = place.map .into := by
    rw [names, List.map_append, List.map_singleton, List.dropLast_concat]
  cases walked : disk.walk false steps.dropLast with
  | error fault => rw [holder_of_error ends walked] at holds; cases holds
  | ok arrived =>
    obtain ⟨rfl, node, found⟩ := walk_noLinks noLinks (front ▸ walked)
    by_cases plain : node = .directory
    · subst plain
      rw [holder_of_directory ends walked found] at holds
      exact ⟨found, (Except.ok.inj holds).symm⟩
    · rw [holder_of_plain ends walked found plain] at holds
      cases holds

/-- Without links on the way the last of several names can only name what lies at these names. -/
theorem slotOf_noLinks {steps : List Step} (names : steps = (place ++ [name]).map .into)
    (noLinks : disk.NoLinks place) (slot : disk.slotOf steps = .ok location) :
    location = place ++ [name] := by
  have ends : steps.getLast? = some (.into name) := by simp [names]
  have front : steps.dropLast = place.map .into := by
    rw [names, List.map_append, List.map_singleton, List.dropLast_concat]
  rw [slotOf, ends, front] at slot
  obtain ⟨arrived, walked, reached⟩ := bind_eq_ok_iff.mp slot
  obtain ⟨rfl, node, found⟩ := walk_noLinks noLinks walked
  rw [found] at reached
  cases node with
  | directory =>
    dsimp only at reached
    split at reached
    · exact (Except.ok.inj reached).symm
    · cases reached
  | file | link | pipe => cases reached

theorem hasWritten_of_make (steps : path.steps = (place ++ [name]).map .into)
    (noLinks : disk.NoLinks place) (done : disk.make path node = .ok changed) :
    IsPlain name ∧ disk.node? place = some .directory ∧
      disk.HasWritten (place ++ [name]) node changed := by
  obtain ⟨_, -, done⟩ := bind_eq_ok_iff.mp done
  obtain ⟨_, -, done⟩ := bind_eq_ok_iff.mp done
  obtain ⟨holding, holds, done⟩ := bind_eq_ok_iff.mp done
  obtain ⟨held, rfl⟩ := holder_noLinks steps noLinks holds
  obtain ⟨slot, slotted, done⟩ := bind_eq_ok_iff.mp done
  obtain ⟨made, put, finished⟩ := bind_eq_ok_iff.mp done
  have same : made = changed := by
    split at finished
    · cases finished
    · exact Except.ok.inj finished
  subst same
  unfold slotIn at slotted
  split at slotted
  · rename_i plain
    obtain rfl := Except.ok.inj slotted
    exact ⟨isPlainName_iff.mp plain, held, hasWritten_of_putNew put⟩
  · cases slotted

/-- A file that is written without links on the way is new in a directory that is there, or it
takes the place of another node. -/
theorem hasWritten_of_write {size : UInt64} {accessed : Instant}
    (steps : path.steps = (place ++ [name]).map .into) (noSlash : path.endsInSlash = false)
    (noLinks : disk.NoLinks (place ++ [name]))
    (done : disk.write path size accessed = .ok changed) :
    IsPlain name ∧ disk.node? place = some .directory ∧
      disk.HasWritten (place ++ [name]) (.file size accessed) changed := by
  have walkSteps : path.walkSteps = (place ++ [name]).map .into := by
    rw [DiskPath.walkSteps, noSlash, steps]
    simp
  have arrives : ∀ {keepLast location}, disk.walk keepLast path.walkSteps = .ok location →
      location = place ++ [name] ∧ ∃ node, disk.node? location = some node := by
    intro keepLast location walked
    rw [walkSteps] at walked
    exact walk_noLinks noLinks walked
  rw [write, longestChain, writeThrough] at done
  split at done
  · rename_i location located
    obtain ⟨_, -, walked⟩ := bind_eq_ok_iff.mp located
    obtain ⟨rfl, node, found⟩ := arrives walked
    obtain ⟨plain, held⟩ := parent_of_node? found
    exact ⟨plain, held, hasWritten_of_overwrite done⟩
  · exact hasWritten_of_make steps noLinks.above done
  · rename_i fault location _ kept
    obtain ⟨_, -, walked⟩ := bind_eq_ok_iff.mp kept
    obtain ⟨rfl, node, found⟩ := arrives walked
    split at done
    · rename_i isLink
      exact absurd isLink (noLinks _ List.prefix_rfl _)
    · cases done

theorem exists_write_of_file {former : UInt64} {since : Instant}
    (found : disk.node? location = some (.file former since))
    (short : (ofLocation location).bytes.length ≤ longestPath) (size : UInt64)
    (accessed : Instant) :
    ∃ changed, disk.write (ofLocation location) size accessed = .ok changed := by
  have names := isPlain_of_node? found
  have form := checkForm_ofLocation names
  rw [if_neg (Nat.not_lt.mpr short)] at form
  have located : disk.locate (ofLocation location) = .ok location := by
    rw [locate_ofLocation names, form,
      walk_of_node? found (.inr fun target link => by cases link)]
    rfl
  rw [write, longestChain, writeThrough, located]
  dsimp only
  rw [overwrite]
  split
  next missing =>
    rw [found] at missing
    cases missing
  next node held =>
    obtain rfl := Option.some.inj (found.symm.trans held)
    rw [dif_neg (by simp)]
    exact ⟨_, rfl⟩

theorem exists_write_of_missing (held : disk.node? place = some .directory) (plain : IsPlain name)
    (missing : disk.node? (place ++ [name]) = none)
    (short : (ofLocation (place ++ [name])).bytes.length ≤ longestPath) (size : UInt64)
    (accessed : Instant) :
    ∃ changed, disk.write (ofLocation (place ++ [name])) size accessed = .ok changed := by
  have names : ∀ other ∈ place ++ [name], IsPlain other :=
    List.forall_mem_append.mpr ⟨isPlain_of_node? held, List.forall_mem_singleton.mpr plain⟩
  have form := checkForm_ofLocation names
  rw [if_neg (Nat.not_lt.mpr short)] at form
  have absent : ∀ keepLast, disk.walk keepLast ((place ++ [name]).map .into) =
      .error .notFound := by
    intro keepLast
    rw [List.map_append, List.map_singleton]
    exact walk_of_missing held plain missing []
  have located : disk.locate (ofLocation (place ++ [name])) = .error .notFound := by
    rw [locate_ofLocation names, form, absent]
    rfl
  have kept : disk.locateKeeping (ofLocation (place ++ [name])) = .error .notFound := by
    rw [locateKeeping_ofLocation names, form, absent]
    rfl
  have fits : disk.Fits (place ++ [name]) :=
    ⟨place, name, rfl, isPlainName_iff.mpr plain, held⟩
  have slotted : slotIn ⟨place, held⟩ name = .ok ⟨place ++ [name], fits⟩ :=
    dif_pos (isPlainName_iff.mpr plain)
  refine ⟨disk.put (place ++ [name]) (.file size accessed) fits (by simp [missing]), ?_⟩
  rw [write, longestChain, writeThrough]
  simp only [located, kept]
  rw [make, form, steps_ofLocation names, holder_names held]
  simp only [Node.checkForm, bind, Except.bind, slotted,
    putNew_of_missing ⟨place ++ [name], fits⟩ _ missing,
    endsInSlash_ofLocation names (List.append_ne_nil_of_right_ne_nil _ (List.cons_ne_nil _ _))]
  rfl

end ArtifactCache.Disk
