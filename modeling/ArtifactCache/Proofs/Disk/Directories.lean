import ArtifactCache.Proofs.Disk.Walks

/-! # Making directories

To make a directory and the missing ones above it puts directories where nothing was and
changes nothing else, whether it succeeds or not.  It succeeds wherever the way down meets
nothing but directories, until it meets nothing at all.
-/

namespace ArtifactCache.Disk

open DiskPath

variable {disk made last : Disk} {place location : Location} {name : Name}

/-! ## What does not change -/

/-- Whether one disk has all nodes of another one, and beyond them directories only. -/
def Grows (before after : Disk) : Prop :=
  ∀ location, after.node? location = before.node? location ∨
    before.node? location = none ∧ after.node? location = some .directory

theorem Grows.refl (disk : Disk) : Grows disk disk :=
  fun _ => .inl rfl

theorem Grows.trans (first : Grows disk made) (second : Grows made last) : Grows disk last := by
  intro location
  rcases first location with same | ⟨missing, directory⟩
  · rcases second location with same' | ⟨missing', directory'⟩
    · exact .inl (same'.trans same)
    · exact .inr ⟨same.symm.trans missing', directory'⟩
  · rcases second location with same' | ⟨missing', -⟩
    · exact .inr ⟨missing, same'.trans directory⟩
    · rw [directory] at missing'
      cases missing'

theorem Grows.node? (grows : Grows disk made) {node : Node}
    (found : disk.node? location = some node) : made.node? location = some node := by
  rcases grows location with same | ⟨missing, -⟩
  · exact same.trans found
  · rw [found] at missing
    cases missing

theorem putNew_of_missing (slot : disk.SlotOf) (node : Node)
    (missing : disk.node? slot.val = none) :
    disk.putNew slot node = .ok (disk.put slot.val node slot.property (by simp [missing])) := by
  unfold putNew
  split
  next held => rw [missing] at held; cases held
  next => rfl

theorem putNew_of_node? (slot : disk.SlotOf) {node other : Node}
    (found : disk.node? slot.val = some other) : disk.putNew slot node = .error .alreadyExists := by
  unfold putNew
  split
  next => rfl
  next held => rw [found] at held; cases held

theorem grows_makeDirectoryAt {steps : List Step} (done : disk.makeDirectoryAt steps = .ok made) :
    Grows disk made := by
  unfold makeDirectoryAt at done
  cases held : disk.holder steps with
  | error fault => rw [held] at done; cases done
  | ok holder =>
    obtain ⟨directory, last⟩ := holder
    rw [held] at done
    cases last with
    | here => cases done
    | above => cases done
    | into name =>
      simp only [bind, Except.bind] at done
      cases slotted : slotIn directory name with
      | error fault => rw [slotted] at done; cases done
      | ok slot =>
        rw [slotted] at done
        dsimp only at done
        cases found : disk.node? slot.val with
        | some node => rw [putNew_of_node? slot found] at done; cases done
        | none =>
          rw [putNew_of_missing slot _ found] at done
          obtain rfl := Except.ok.inj done
          intro location
          rw [node?_put]
          split
          · rename_i same
            exact .inr ⟨same ▸ found, rfl⟩
          · exact .inl rfl

theorem disk_acceptDirectory (disk : Disk) (steps : List Step) (fault : Fault) :
    (disk.acceptDirectory steps fault).2 = disk := by
  unfold acceptDirectory
  split <;> rfl

theorem grows_makeDirectoriesAt (way : List Step) (above : List (List Step)) :
    Grows disk (disk.makeDirectoriesAt way above).2 := by
  induction above generalizing disk way with
  | nil =>
    rw [makeDirectoriesAt]
    cases made : disk.makeDirectoryAt way.reverse with
    | ok made => exact grows_makeDirectoryAt ‹_›
    | error fault =>
      simp only [disk_acceptDirectory]
      exact .refl disk
  | cons next above ih =>
    rw [makeDirectoriesAt]
    cases first : disk.makeDirectoryAt way.reverse with
    | ok made => exact grows_makeDirectoryAt first
    | error fault =>
      dsimp only
      split
      · have grown : Grows disk (disk.makeDirectoriesAt next above).2 := ih next
        cases result : disk.makeDirectoriesAt next above with
        | mk outcome middle =>
          rw [result] at grown
          cases outcome with
          | error fault => exact grown
          | ok _ =>
            dsimp only
            cases second : middle.makeDirectoryAt way.reverse with
            | ok made => exact grown.trans (grows_makeDirectoryAt second)
            | error fault =>
              simp only [disk_acceptDirectory]
              exact grown
      · rw [disk_acceptDirectory]
        exact .refl disk

theorem grows_makeDirectories (disk : Disk) (path : DiskPath) :
    Grows disk (disk.makeDirectories path).2 := by
  unfold makeDirectories
  split
  · exact .refl disk
  · split
    · exact .refl disk
    · exact grows_makeDirectoriesAt _ _

/-! ## Where it succeeds -/

/-- Whether the way down to a location meets directories only, until it meets nothing. -/
def Clear (disk : Disk) (location : Location) : Prop :=
  ∀ above, above <+: location → disk.node? above = none ∨ disk.node? above = some .directory

/-- Whether a disk came from another one by making a directory and those above it. -/
def HasMade (disk : Disk) (location : Location) (made : Disk) : Prop :=
  ∀ other, made.node? other = if other <+: location then some .directory else disk.node? other

theorem Clear.above {rest : Location} (clear : disk.Clear (location ++ rest)) :
    disk.Clear location :=
  fun _ beginning => clear _ (beginning.trans (List.prefix_append _ _))

theorem Clear.grows (clear : disk.Clear location) (grows : Grows disk made) :
    made.Clear location := by
  intro above beginning
  rcases grows above with same | ⟨-, directory⟩
  · rw [same]
    exact clear above beginning
  · exact .inr directory

theorem clear_of_node? (held : disk.node? location = some .directory) : disk.Clear location := by
  rintro above ⟨rest, rfl⟩
  by_cases same : rest = []
  · rw [same, List.append_nil] at held
    exact .inr held
  · exact .inr (directory_of_node? held same)

theorem clear_of_missing {place : Location} {name : Name}
    (held : disk.node? place = some .directory) (missing : disk.node? (place ++ [name]) = none)
    (rest : Location) : disk.Clear (place ++ name :: rest) := by
  intro above beginning
  rcases List.prefix_or_prefix_of_prefix beginning (List.prefix_append place _) with
    outside | ⟨names, rfl⟩
  · exact clear_of_node? held above outside
  · cases names with
    | nil =>
      rw [List.append_nil]
      exact .inr held
    | cons first later =>
      rw [List.prefix_append_right_inj, List.cons_prefix_cons] at beginning
      obtain ⟨rfl, -⟩ := beginning
      rw [List.append_cons]
      exact .inl (node?_append_of_missing missing later)

theorem hasMade_self (held : disk.node? location = some .directory) :
    disk.HasMade location disk := by
  intro other
  split
  · rename_i beginning
    rcases clear_of_node? held other beginning with missing | directory
    · obtain ⟨rest, rfl⟩ := beginning
      by_cases same : rest = []
      · rw [same, List.append_nil] at held
        exact held
      · exact directory_of_node? held same
    · exact directory
  · rfl

theorem HasMade.grows (hasMade : disk.HasMade location made) (clear : disk.Clear location) :
    Grows disk made := by
  intro other
  rw [hasMade other]
  split
  · rename_i beginning
    rcases clear other beginning with missing | directory
    · exact .inr ⟨missing, rfl⟩
    · exact .inl directory.symm
  · exact .inl rfl

theorem holder_names (held : disk.node? place = some .directory) :
    disk.holder ((place ++ [name]).map .into) = .ok (⟨place, held⟩, .into name) := by
  have walked : disk.walk false (place.map .into) = .ok place := walk_of_directory held
  refine holder_of_directory (by simp) ?_ held
  rw [List.map_append, List.map_singleton, List.dropLast_concat]
  exact walked

theorem makeDirectoryAt_of_missing (held : disk.node? place = some .directory)
    (plain : IsPlain name) (missing : disk.node? (place ++ [name]) = none) :
    ∃ made, disk.makeDirectoryAt ((place ++ [name]).map .into) = .ok made ∧
      disk.HasMade (place ++ [name]) made := by
  have fits : disk.Fits (place ++ [name]) :=
    ⟨place, name, rfl, isPlainName_iff.mpr plain, held⟩
  have slotted : slotIn ⟨place, held⟩ name = .ok ⟨place ++ [name], fits⟩ :=
    dif_pos (isPlainName_iff.mpr plain)
  refine ⟨disk.put (place ++ [name]) .directory fits (by simp [missing]), ?_, fun other => ?_⟩
  · rw [makeDirectoryAt, holder_names held]
    simp only [bind, Except.bind, slotted]
    exact putNew_of_missing ⟨place ++ [name], fits⟩ _ missing
  · have above := hasMade_self held other
    have cut : other <+: place ++ [name] ↔ other = place ++ [name] ∨ other <+: place :=
      List.prefix_concat_iff
    rw [node?_put]
    by_cases same : other = place ++ [name]
    · rw [if_pos same, if_pos (cut.mpr (.inl same))]
    · by_cases beginning : other <+: place
      · rw [if_pos beginning] at above
        rw [if_neg same, if_pos (cut.mpr (.inr beginning)), above]
      · rw [if_neg same, if_neg (fun passed => (cut.mp passed).elim same beginning)]

theorem makeDirectoryAt_of_directory (held : disk.node? location = some .directory) :
    disk.makeDirectoryAt (location.map .into) = .error .alreadyExists := by
  rcases List.eq_nil_or_concat location with rfl | ⟨place, name, rfl⟩
  · rfl
  · rw [List.concat_eq_append] at held ⊢
    obtain ⟨plain, inside⟩ := parent_of_node? held
    have slotted : slotIn ⟨place, inside⟩ name = .ok ⟨place ++ [name], place, name, rfl,
        isPlainName_iff.mpr plain, inside⟩ := dif_pos (isPlainName_iff.mpr plain)
    rw [makeDirectoryAt, holder_names inside]
    simp only [bind, Except.bind, slotted]
    exact putNew_of_node? _ held

theorem walk_of_clear {keepLast : Bool} (plain : ∀ name ∈ location, IsPlain name)
    (clear : disk.Clear location) (missing : disk.node? location = none) (rest : List Step) :
    disk.walk keepLast (location.map .into ++ rest) = .error .notFound := by
  induction location using List.reverseRecOn generalizing rest with
  | nil => cases missing
  | append_singleton place name ih =>
    obtain ⟨plain, last⟩ := List.forall_mem_append.mp plain
    rw [List.map_append, List.append_assoc]
    rcases clear place (List.prefix_append _ _) with absent | held
    · exact ih plain clear.above absent _
    · exact walk_of_missing held (last name (by simp)) missing rest

theorem makeDirectoryAt_of_absent (plain : ∀ name ∈ place, IsPlain name)
    (clear : disk.Clear place) (missing : disk.node? place = none) (name : Name) :
    disk.makeDirectoryAt ((place ++ [name]).map .into) = .error .notFound := by
  have walked : disk.walk false (place.map .into ++ []) = .error .notFound :=
    walk_of_clear plain clear missing []
  rw [List.append_nil] at walked
  have ends : ((place ++ [name]).map Step.into).getLast? = some (.into name) := by simp
  have refused : disk.holder ((place ++ [name]).map .into) = .error .notFound := by
    apply holder_of_error ends
    rw [List.map_append, List.map_singleton, List.dropLast_concat]
    exact walked
  rw [makeDirectoryAt, refused]
  rfl

theorem acceptDirectory_of_directory (held : disk.node? location = some .directory)
    (fault : Fault) : disk.acceptDirectory (location.map .into) fault = (.ok (), disk) := by
  have walked : disk.walk false (location.map .into) = .ok location := walk_of_directory held
  have leads : disk.leadsToDirectory (location.map .into) = true := by
    rw [leadsToDirectory, walked]
    simp only [held]
    rfl
  rw [acceptDirectory, if_pos leads]

theorem beginnings_names (location : Location) (name : Name) :
    beginnings ((location ++ [name]).map .into).reverse =
      ((location ++ [name]).map .into).reverse :: beginnings (location.map .into).reverse := by
  rw [List.map_append, List.map_singleton, List.reverse_concat]
  rfl

theorem makeDirectoriesAt_of_directory (held : disk.node? location = some .directory)
    (above : List (List Step)) :
    disk.makeDirectoriesAt (location.map .into).reverse above = (.ok (), disk) := by
  have refused := makeDirectoryAt_of_directory held
  cases above with
  | nil =>
    simp only [makeDirectoriesAt, List.reverse_reverse, refused]
    exact acceptDirectory_of_directory held _
  | cons next above =>
    have other : Fault.alreadyExists ≠ Fault.notFound := by decide
    simp only [makeDirectoriesAt, List.reverse_reverse, refused, if_neg other]
    exact acceptDirectory_of_directory held _

theorem makeDirectoriesAt_of_clear (plain : ∀ name ∈ location, IsPlain name)
    (clear : disk.Clear location) :
    ∃ made, disk.makeDirectoriesAt (location.map .into).reverse
        (beginnings (location.map .into).reverse).tail = (.ok (), made) ∧
      disk.HasMade location made := by
  induction location using List.reverseRecOn with
  | nil =>
    exact ⟨disk, makeDirectoriesAt_of_directory disk.node?_nil _, hasMade_self disk.node?_nil⟩
  | append_singleton place name ih =>
    obtain ⟨plain, last⟩ := List.forall_mem_append.mp plain
    have plainName := last name (by simp)
    rw [beginnings_names, List.tail_cons]
    rcases clear (place ++ [name]) List.prefix_rfl with missing | held
    · rcases clear place (List.prefix_append _ _) with absent | inside
      · -- The directory above is missing too, and is made first.
        obtain ⟨middle, upper, hasUpper⟩ := ih plain clear.above
        have inside : middle.node? place = some .directory := by
          rw [hasUpper place, if_pos List.prefix_rfl]
        have still : middle.node? (place ++ [name]) = none := by
          rw [hasUpper, if_neg, missing]
          intro beginning
          have length := beginning.length_le
          rw [List.length_append, List.length_singleton] at length
          omega
        obtain ⟨made, done, hasMade⟩ := makeDirectoryAt_of_missing inside plainName still
        refine ⟨made, ?_, fun other => ?_⟩
        · rcases List.eq_nil_or_concat place with rfl | ⟨higher, lower, rfl⟩
          · cases absent
          · simp only [List.concat_eq_append] at upper absent plain done clear ⊢
            have first := makeDirectoryAt_of_absent plain clear.above absent name
            rw [beginnings_names, List.tail_cons] at upper
            rw [beginnings_names]
            simp only [makeDirectoriesAt, List.reverse_reverse, first, upper, done, if_true]
        · rw [hasMade other, hasUpper other]
          by_cases beginning : other <+: place
          · rw [if_pos beginning, ite_self,
              if_pos (beginning.trans (List.prefix_append _ _))]
          · rw [if_neg beginning]
      · obtain ⟨made, done, hasMade⟩ := makeDirectoryAt_of_missing inside plainName missing
        refine ⟨made, ?_, hasMade⟩
        cases above : beginnings (place.map Step.into).reverse with
        | nil => simp only [makeDirectoriesAt, List.reverse_reverse, done]
        | cons next above => simp only [makeDirectoriesAt, List.reverse_reverse, done]
    · exact ⟨disk, makeDirectoriesAt_of_directory held _, hasMade_self held⟩

/-- The directories on a clear way are made, unless its path is too long. -/
theorem makeDirectories_ofLocation (plain : ∀ name ∈ location, IsPlain name)
    (clear : disk.Clear location) (short : (ofLocation location).bytes.length ≤ longestPath) :
    ∃ made, disk.makeDirectories (ofLocation location) = (.ok (), made) ∧
      disk.HasMade location made := by
  have form := checkForm_ofLocation plain
  rw [if_neg (Nat.not_lt.mpr short)] at form
  rw [makeDirectories, if_neg (bytes_ofLocation_ne_nil location), form]
  simp only [steps_ofLocation plain]
  exact makeDirectoriesAt_of_clear plain clear

end ArtifactCache.Disk
