import ArtifactCache.Proofs.Disk.Directories
import ArtifactCache.Proofs.Disk.Roots

/-! # Making a directory that is there

A walk that arrives has passed a directory in front of each of its steps.  So where a path leads
to a directory already, there is nothing to make, whatever links and steps upwards it has.
-/

namespace ArtifactCache.Disk

open DiskPath

variable {disk : Disk} {root : DiskPath} {top place : Location} {rest steps : List Step}

theorem walkFrom_split {behind behind' : Location → List Step → Except Fault Location}
    (links : ∀ place steps, disk.node? place = some .directory →
      behind place (steps ++ rest) = .ok top → ∃ middle onward, behind' place steps = .ok middle ∧
        disk.node? middle = some .directory ∧ disk.walkFrom false onward middle rest = .ok top)
    (further : rest ≠ []) (held : disk.node? place = some .directory)
    (walked : disk.walkFrom false behind place (steps ++ rest) = .ok top) :
    ∃ middle onward, disk.walkFrom false behind' place steps = .ok middle ∧
      disk.node? middle = some .directory ∧ disk.walkFrom false onward middle rest = .ok top := by
  induction steps generalizing place with
  | nil => exact ⟨place, behind, rfl, held, walked⟩
  | cons step steps ih =>
    have more : (steps ++ rest).isEmpty = false := by simp [further]
    cases step with
    | here => exact ih held walked
    | above =>
      refine ih ?_ walked
      rcases List.eq_nil_or_concat place with rfl | ⟨above, name, rfl⟩
      · exact held
      · rw [List.concat_eq_append] at held ⊢
        rw [List.dropLast_concat]
        exact (parent_of_node? held).2
    | into name =>
      rw [List.cons_append, walkFrom] at walked
      rw [walkFrom]
      split at walked
      · cases walked
      · rename_i short
        rw [if_neg short]
        cases found : disk.node? (place ++ [name]) with
        | none => simp only [found] at walked; cases walked
        | some node =>
          simp only [found] at walked ⊢
          cases node with
          | directory => exact ih found walked
          | file | pipe =>
            simp only [more, Bool.false_eq_true, if_false] at walked
            cases walked
          | link target =>
            simp only [Bool.false_and, Bool.false_eq_true, if_false, ← List.append_assoc]
              at walked ⊢
            split at walked
            · rename_i absolute
              rw [if_pos absolute]
              exact links _ _ disk.node?_nil walked
            · rename_i relative
              rw [if_neg relative]
              exact links _ _ held walked

/-- In front of its last steps a walk that arrives is at a directory. -/
theorem exists_of_walk_append (further : rest ≠ [])
    (walked : disk.walk false (steps ++ rest) = .ok top) :
    ∃ middle onward, disk.walk false steps = .ok middle ∧
      disk.node? middle = some .directory ∧ disk.walkFrom false onward middle rest = .ok top := by
  have through : ∀ links place steps, disk.node? place = some .directory →
      disk.walkThrough false links place (steps ++ rest) = .ok top →
        ∃ middle onward, disk.walkThrough false links place steps = .ok middle ∧
          disk.node? middle = some .directory ∧
          disk.walkFrom false onward middle rest = .ok top := by
    intro links
    induction links with
    | zero => exact fun _ _ => walkFrom_split (fun _ _ _ refused => by cases refused) further
    | succ links ih => exact fun _ _ => walkFrom_split ih further
  exact through longestChain _ _ disk.node?_nil walked

theorem leadsTo_of_locate (held : disk.node? top = some .directory)
    (located : disk.locate root = .ok top) : disk.LeadsTo root top ∧ root.checkForm = .ok () := by
  obtain ⟨form, accepted, walked⟩ := bind_eq_ok_iff.mp located
  refine ⟨⟨?_, held⟩, accepted⟩
  rw [walkSteps] at walked
  split at walked
  · obtain ⟨middle, onward, arrives, -, same⟩ :=
      exists_of_walk_append (List.cons_ne_nil _ _) walked
    obtain rfl := Except.ok.inj same
    exact arrives
  · rwa [List.append_nil] at walked

theorem leadsTo_of_canonical (plain : ∀ name ∈ top, IsPlain name)
    (held : disk.node? top = some .directory)
    (named : disk.canonical root = .ok (ofLocation top)) :
    disk.LeadsTo root top ∧ root.checkForm = .ok () := by
  obtain ⟨arrived, located, named⟩ := bind_eq_ok_iff.mp named
  obtain ⟨_, -, walked⟩ := bind_eq_ok_iff.mp located
  obtain ⟨_, -, named⟩ := bind_eq_ok_iff.mp named
  obtain ⟨node, found, -⟩ := walk_found walked
  obtain rfl : arrived = top :=
    ofLocation_injective (isPlain_of_node? found) plain (Except.ok.inj named)
  exact leadsTo_of_locate held located

theorem LeadsTo.makeDirectoryAt (leads : disk.LeadsTo root top) :
    ∃ fault, disk.makeDirectoryAt root.steps = .error fault ∧ fault ≠ .notFound := by
  have walked := leads.walked
  rcases List.eq_nil_or_concat root.steps with empty | ⟨before, last, split⟩
  · rw [empty]
    exact ⟨_, rfl, by decide⟩
  · rw [List.concat_eq_append] at split
    rw [split] at walked ⊢
    obtain ⟨middle, onward, arrives, held, rest⟩ :=
      exists_of_walk_append (List.cons_ne_nil _ _) walked
    have holds : disk.holder (before ++ [last]) = .ok (⟨middle, held⟩, last) := by
      apply holder_of_directory List.getLast?_concat _ held
      rw [List.dropLast_concat]
      exact arrives
    rw [Disk.makeDirectoryAt, holds]
    cases last with
    | here => exact ⟨_, rfl, by decide⟩
    | above => exact ⟨_, rfl, by decide⟩
    | into name =>
      by_cases plain : isPlainName name = true
      · have slotted : slotIn ⟨middle, held⟩ name = .ok ⟨middle ++ [name], middle, name, rfl,
            plain, held⟩ := dif_pos plain
        cases found : disk.node? (middle ++ [name]) with
        | none =>
          rw [walkFrom, if_neg (Nat.not_lt.mpr (isPlainName_iff.mp plain).short)] at rest
          simp only [found] at rest
          cases rest
        | some node =>
          refine ⟨.alreadyExists, ?_, by decide⟩
          simp only [bind, Except.bind, slotted]
          exact putNew_of_node? ⟨middle ++ [name], _⟩ found
      · have refused : slotIn ⟨middle, held⟩ name = .error .nameTooLong := dif_neg plain
        refine ⟨.nameTooLong, ?_, by decide⟩
        simp only [bind, Except.bind, refused]

theorem LeadsTo.makeDirectories (leads : disk.LeadsTo root top) (form : root.checkForm = .ok ()) :
    disk.makeDirectories root = (.ok (), disk) := by
  obtain ⟨fault, refused, other⟩ := leads.makeDirectoryAt
  have accepted : disk.acceptDirectory root.steps fault = (.ok (), disk) := by
    rw [acceptDirectory, if_pos]
    rw [leadsToDirectory, leads.walked]
    simp only [leads.held]
    rfl
  rw [Disk.makeDirectories]
  split
  · rfl
  · simp only [form]
    cases (beginnings root.steps.reverse).tail with
    | nil => simp only [makeDirectoriesAt, List.reverse_reverse, refused, accepted]
    | cons next above =>
      simp only [makeDirectoriesAt, List.reverse_reverse, refused, if_neg other, accepted]

end ArtifactCache.Disk
