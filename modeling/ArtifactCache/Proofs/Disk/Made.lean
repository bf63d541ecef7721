import ArtifactCache.Proofs.Disk.Bases
import ArtifactCache.Proofs.Disk.Writes

/-! # Directories that have been made

Where the making of a directory succeeds, its path leads to a directory, perhaps through links.
Without links on the way the directory is where the names say, and then nothing but directories
has been in the way.
-/

namespace ArtifactCache.Disk

open DiskPath

variable {disk made : Disk} {location top : Location} {name : Name}

/-! ## What growth keeps -/

theorem Grows.frames (grows : Grows disk made) : disk.Frames made :=
  fun _ _ found _ => grows.node? found

theorem NoLinks.grows (noLinks : disk.NoLinks location) (grows : Grows disk made) :
    made.NoLinks location := by
  intro above beginning target found
  rcases grows above with same | ⟨-, directory⟩
  · exact noLinks above beginning target (same ▸ found)
  · rw [directory] at found
    cases found

theorem Clear.of_grows (clear : made.Clear location) (grows : Grows disk made) :
    disk.Clear location := by
  intro above beginning
  rcases grows above with same | ⟨missing, -⟩
  · rw [← same]
    exact clear above beginning
  · exact .inl missing

theorem Grows.of_file (grows : Grows disk made) {node : Node} (isFile : node.isFile = true)
    (found : made.node? location = some node) : disk.node? location = some node := by
  rcases grows location with same | ⟨-, directory⟩
  · exact same ▸ found
  · rw [directory] at found
    obtain rfl := Option.some.inj found
    cases isFile

/-! ## Ways to directories that are there -/

/-- The directory that the last of several steps is taken from is where the others lead. -/
theorem leadsTo_of_holder {place : Location} {holding : disk.DirectoryOf × Step}
    (plain : ∀ name ∈ place, IsPlain name)
    (holds : disk.holder ((place ++ [name]).map .into) = .ok holding) :
    disk.LeadsTo (ofLocation place) holding.1.val ∧ holding.2 = .into name := by
  have ends : ((place ++ [name]).map Step.into).getLast? = some (.into name) := by simp
  have front : ((place ++ [name]).map Step.into).dropLast = (ofLocation place).steps := by
    rw [List.map_append, List.map_singleton, List.dropLast_concat, steps_ofLocation plain]
  obtain ⟨walked, last⟩ := exists_of_holder ends holds
  exact ⟨⟨front ▸ walked, holding.1.property⟩, last⟩

theorem leadsTo_of_makeDirectoryAt (plain : ∀ name ∈ location, IsPlain name)
    (done : disk.makeDirectoryAt (location.map .into) = .ok made) :
    ∃ arrived, made.LeadsTo (ofLocation location) arrived := by
  have grows := grows_makeDirectoryAt done
  rcases List.eq_nil_or_concat location with rfl | ⟨place, name, rfl⟩
  · cases done
  · rw [List.concat_eq_append] at done plain ⊢
    obtain ⟨plainPlace, -⟩ := List.forall_mem_append.mp plain
    obtain ⟨⟨directory, last⟩, holds, done⟩ := bind_eq_ok_iff.mp done
    obtain ⟨leads, last_eq⟩ := leadsTo_of_holder plainPlace holds
    dsimp only at leads last_eq
    subst last_eq
    obtain ⟨slot, slotted, done⟩ := bind_eq_ok_iff.mp done
    have slot_eq : slot.val = directory.val ++ [name] := val_of_slotIn slotted
    have held : made.node? (directory.val ++ [name]) = some .directory := by
      cases missing : disk.node? slot.val with
      | some node => rw [putNew_of_node? slot missing] at done; cases done
      | none =>
        rw [putNew_of_missing slot _ missing] at done
        obtain rfl := Except.ok.inj done
        rw [node?_put, if_pos slot_eq.symm]
    have walked : made.walk false ((ofLocation place).steps ++ [name].map .into) =
        .ok (directory.val ++ [name]) :=
      (leads.of_frames grows.frames).walk_node? (List.cons_ne_nil _ _) held
        (.inr fun target same => by cases same)
    refine ⟨directory.val ++ [name], ?_, held⟩
    rw [steps_ofLocation plain, List.map_append, ← steps_ofLocation plainPlace]
    exact walked

theorem leadsToDirectory_of_acceptDirectory {steps : List Step} {fault : Fault}
    (accepted : disk.acceptDirectory steps fault = (.ok (), made)) :
    made.leadsToDirectory steps = true := by
  rw [acceptDirectory] at accepted
  split at accepted
  · obtain ⟨-, rfl⟩ := Prod.mk.inj accepted
    assumption
  · cases accepted

/-- At last a directory has been made or accepted under the whole way. -/
theorem of_makeDirectoriesAt {way : List Step} {above : List (List Step)}
    (done : disk.makeDirectoriesAt way above = (.ok (), made)) :
    (∃ before : Disk, before.makeDirectoryAt way.reverse = .ok made) ∨
      made.leadsToDirectory way.reverse = true := by
  cases above with
  | nil =>
    rw [makeDirectoriesAt] at done
    split at done
    · obtain ⟨-, rfl⟩ := Prod.mk.inj done
      exact .inl ⟨disk, ‹_›⟩
    · exact .inr (leadsToDirectory_of_acceptDirectory done)
  | cons next above =>
    rw [makeDirectoriesAt] at done
    split at done
    · obtain ⟨-, rfl⟩ := Prod.mk.inj done
      exact .inl ⟨disk, ‹_›⟩
    · split at done
      · split at done
        · cases done
        · split at done
          · obtain ⟨-, rfl⟩ := Prod.mk.inj done
            exact .inl ⟨_, ‹_›⟩
          · exact .inr (leadsToDirectory_of_acceptDirectory done)
      · exact .inr (leadsToDirectory_of_acceptDirectory done)

theorem leadsTo_of_makeDirectories (plain : ∀ name ∈ location, IsPlain name)
    (done : disk.makeDirectories (ofLocation location) = (.ok (), made)) :
    ∃ arrived, made.LeadsTo (ofLocation location) arrived := by
  rw [makeDirectories, if_neg (bytes_ofLocation_ne_nil location)] at done
  split at done
  · cases done
  · have way := of_makeDirectoriesAt done
    rw [List.reverse_reverse, steps_ofLocation plain] at way
    rcases way with ⟨before, last⟩ | leads
    · exact leadsTo_of_makeDirectoryAt plain last
    · rw [leadsToDirectory] at leads
      split at leads
      · rename_i arrived walked
        refine ⟨arrived, by rw [steps_ofLocation plain]; exact walked, ?_⟩
        cases found : made.node? arrived with
        | none => rw [found] at leads; cases leads
        | some node =>
          rw [found] at leads
          cases node with
          | directory => rfl
          | file | link | pipe => cases leads
      · cases leads

theorem LeadsTo.eq_of_noLinks (plain : ∀ name ∈ location, IsPlain name)
    (leads : disk.LeadsTo (ofLocation location) top) (noLinks : disk.NoLinks location) :
    top = location := by
  have walked := leads.walked
  rw [steps_ofLocation plain] at walked
  exact (walk_noLinks noLinks walked).1

end ArtifactCache.Disk
