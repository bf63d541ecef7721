import ArtifactCache.Proofs.Disk.Paths
import ArtifactCache.Proofs.Disk.Removal

/-! # Walks down the tree

Every node lies in a directory, so the way down to a node leads through directories only,
and a walk along its names arrives there.  Where the way ends earlier, the walk tells why:
nothing is there, or something that is no directory.  The operations on the path of a
location therefore do what they say to the node at the location, unless the path is too
long.
-/

namespace ArtifactCache.Disk

open DiskPath

variable {disk : Disk} {place location names : Location} {name : Name} {node : Node}

/-! ## The nodes on the way -/

theorem parent_of_node? (found : disk.node? (place ++ [name]) = some node) :
    IsPlain name ∧ disk.node? place = some .directory := by
  obtain ⟨directory, last, split, plain, inside⟩ := fits_of_node? (by simp) found
  obtain ⟨rfl, same⟩ := List.append_inj' split rfl
  obtain rfl := List.singleton_inj.mp same
  exact ⟨isPlainName_iff.mp plain, inside⟩

theorem directory_of_node? (found : disk.node? (location ++ names) = some node)
    (below : names ≠ []) : disk.node? location = some .directory := by
  induction names using List.reverseRecOn generalizing node with
  | nil => exact absurd rfl below
  | append_singleton names name ih =>
    rw [← List.append_assoc] at found
    have held := (parent_of_node? found).2
    by_cases direct : names = []
    · rwa [direct, List.append_nil] at held
    · exact ih held direct

theorem node?_append_of_missing (missing : disk.node? location = none) (names : List Name) :
    disk.node? (location ++ names) = none := by
  cases found : disk.node? (location ++ names) with
  | none => rfl
  | some node =>
    by_cases same : names = []
    · rw [same, List.append_nil, missing] at found
      cases found
    · rw [directory_of_node? found same] at missing
      cases missing

theorem directory_of_prefix (found : disk.node? location = some node) (above : place <+: location)
    (other : place ≠ location) : disk.node? place = some .directory := by
  obtain ⟨rest, rfl⟩ := above
  apply directory_of_node? found
  rintro rfl
  exact other (List.append_nil place).symm

theorem isPlain_of_node? (found : disk.node? location = some node) :
    ∀ name ∈ location, IsPlain name := by
  induction location using List.reverseRecOn generalizing node with
  | nil => simp
  | append_singleton location name ih =>
    obtain ⟨plain, held⟩ := parent_of_node? found
    exact List.forall_mem_append.mpr ⟨ih held, by simpa using plain⟩

theorem isPlain_below (found : disk.node? (place ++ names) = some node) :
    ∀ name ∈ names, IsPlain name :=
  fun name member => isPlain_of_node? found name (List.mem_append_right _ member)

/-! ## Walks along names -/

section Walk

variable {keepLast : Bool} {behind : Location → List Step → Except Fault Location}

theorem walkFrom_names (held : disk.node? (place ++ names) = some .directory)
    (rest : List Step) :
    disk.walkFrom keepLast behind place (names.map .into ++ rest) =
      disk.walkFrom keepLast behind (place ++ names) rest := by
  induction names generalizing place with
  | nil => rw [List.map_nil, List.nil_append, List.append_nil]
  | cons name names ih =>
    have split : place ++ name :: names = place ++ [name] ++ names := by simp
    have first : disk.node? (place ++ [name]) = some .directory := by
      rw [split] at held
      by_cases last : names = []
      · rwa [last, List.append_nil] at held
      · exact directory_of_node? held last
    have short := (parent_of_node? first).1.short
    rw [List.map_cons, List.cons_append, walkFrom, if_neg (Nat.not_lt.mpr short)]
    simp only [first]
    rw [split] at held ⊢
    exact ih held

theorem walk_names (held : disk.node? location = some .directory) (rest : List Step) :
    disk.walk keepLast (location.map .into ++ rest) =
      disk.walkFrom keepLast (disk.walkThrough keepLast (longestChain - 1)) location rest := by
  have walked : disk.walkFrom keepLast (disk.walkThrough keepLast (longestChain - 1)) []
      (location.map .into ++ rest) = disk.walkFrom keepLast _ ([] ++ location) rest :=
    walkFrom_names held rest
  rwa [List.nil_append] at walked

theorem walk_of_node? (found : disk.node? location = some node)
    (kept : keepLast = true ∨ ∀ target, node ≠ .link target) :
    disk.walk keepLast (location.map .into) = .ok location := by
  rcases List.eq_nil_or_concat location with rfl | ⟨place, name, rfl⟩
  · rfl
  · rw [List.concat_eq_append] at found ⊢
    obtain ⟨plain, held⟩ := parent_of_node? found
    rw [List.map_append, walk_names held, List.map_singleton, walkFrom,
      if_neg (Nat.not_lt.mpr plain.short)]
    simp only [found]
    cases node with
    | directory => rfl
    | file => rfl
    | pipe => rfl
    | link target =>
      rcases kept with rfl | noLink
      · rfl
      · exact absurd rfl (noLink target)

theorem walk_of_directory (held : disk.node? location = some .directory) :
    disk.walk keepLast (location.map .into) = .ok location :=
  walk_of_node? held (.inr fun target same => by cases same)

theorem walk_of_missing (held : disk.node? place = some .directory) (plain : IsPlain name)
    (missing : disk.node? (place ++ [name]) = none) (rest : List Step) :
    disk.walk keepLast (place.map .into ++ .into name :: rest) = .error .notFound := by
  rw [walk_names held, walkFrom, if_neg (Nat.not_lt.mpr plain.short)]
  simp only [missing]

theorem walk_of_plain (found : disk.node? location = some node) (plain : node ≠ .directory)
    (noLink : ∀ target, node ≠ .link target) {rest : List Step} (further : rest ≠ []) :
    disk.walk keepLast (location.map .into ++ rest) = .error .notDirectory := by
  rcases List.eq_nil_or_concat location with rfl | ⟨place, name, rfl⟩
  · exact absurd (Option.some.inj found).symm plain
  · rw [List.concat_eq_append] at found ⊢
    obtain ⟨plainName, held⟩ := parent_of_node? found
    rw [List.map_append, List.append_assoc, walk_names held, List.map_singleton,
      List.singleton_append, walkFrom, if_neg (Nat.not_lt.mpr plainName.short)]
    simp only [found]
    have more : rest.isEmpty = false := List.isEmpty_eq_false_iff.mpr further
    cases node with
    | directory => exact absurd rfl plain
    | file => simp [more]
    | pipe => simp [more]
    | link target => exact absurd rfl (noLink target)

theorem walkFrom_found
    (links : ∀ {place steps location}, disk.node? place = some .directory →
      behind place steps = .ok location →
        ∃ node, disk.node? location = some node ∧ ∀ target, node ≠ .link target)
    {steps : List Step} (held : disk.node? place = some .directory)
    (walked : disk.walkFrom false behind place steps = .ok location) :
    ∃ node, disk.node? location = some node ∧ ∀ target, node ≠ .link target := by
  induction steps generalizing place with
  | nil =>
    obtain rfl := Except.ok.inj walked
    exact ⟨_, held, fun target same => by cases same⟩
  | cons step rest ih =>
    cases step with
    | here => exact ih held walked
    | above =>
      refine ih ?_ walked
      rcases List.eq_nil_or_concat place with rfl | ⟨above, name, rfl⟩
      · exact held
      · rw [List.concat_eq_append] at held ⊢
        rw [List.dropLast_concat]
        exact (parent_of_node? held).2
    | into name =>
      rw [walkFrom] at walked
      split at walked
      · cases walked
      · cases found : disk.node? (place ++ [name]) with
        | none => simp only [found] at walked; cases walked
        | some node =>
          simp only [found] at walked
          cases node with
          | directory => exact ih found walked
          | file | pipe =>
            dsimp only at walked
            split at walked
            · obtain rfl := Except.ok.inj walked
              exact ⟨_, found, fun target same => by cases same⟩
            · cases walked
          | link target =>
            simp only [Bool.false_and, Bool.false_eq_true, if_false] at walked
            split at walked
            · exact links disk.node?_nil walked
            · exact links held walked

theorem walk_found {steps : List Step} (walked : disk.walk false steps = .ok location) :
    ∃ node, disk.node? location = some node ∧ ∀ target, node ≠ .link target := by
  have through : ∀ links {place steps location}, disk.node? place = some .directory →
      disk.walkThrough false links place steps = .ok location →
        ∃ node, disk.node? location = some node ∧ ∀ target, node ≠ .link target := by
    intro links
    induction links with
    | zero => exact walkFrom_found fun _ refused => by cases refused
    | succ links ih => exact walkFrom_found ih
  exact through longestChain disk.node?_nil walked

end Walk

/-! ## Operations on the paths of locations -/

theorem walk_walkSteps {keepLast : Bool} (plain : ∀ name ∈ location, IsPlain name) :
    disk.walk keepLast (ofLocation location).walkSteps =
      disk.walk keepLast (location.map .into) := by
  by_cases top : location = []
  · subst top
    rfl
  · rw [walkSteps, endsInSlash_ofLocation plain top, steps_ofLocation plain]
    simp

theorem locate_ofLocation (plain : ∀ name ∈ location, IsPlain name) :
    disk.locate (ofLocation location) = (do
      (ofLocation location).checkForm
      disk.walk false (location.map .into)) := by
  rw [locate, walk_walkSteps plain]

theorem locateKeeping_ofLocation (plain : ∀ name ∈ location, IsPlain name) :
    disk.locateKeeping (ofLocation location) = (do
      (ofLocation location).checkForm
      disk.walk true (location.map .into)) := by
  rw [locateKeeping, walk_walkSteps plain]

theorem locate_of_directory (held : disk.node? location = some .directory)
    (short : (ofLocation location).bytes.length ≤ longestPath) :
    disk.locate (ofLocation location) = .ok location := by
  have plain := isPlain_of_node? held
  rw [locate_ofLocation plain, checkForm_ofLocation plain, if_neg (Nat.not_lt.mpr short),
    walk_of_directory held]
  rfl

theorem canonical_ofLocation (held : disk.node? location = some .directory)
    (short : (ofLocation location).bytes.length ≤ longestPath) :
    disk.canonical (ofLocation location) = .ok (ofLocation location) := by
  have form := checkForm_ofLocation (isPlain_of_node? held)
  rw [if_neg (Nat.not_lt.mpr short)] at form
  rw [canonical, locate_of_directory held short]
  simp only [bind, Except.bind, form]
  rfl

theorem slotOf_names (held : disk.node? place = some .directory) (plain : IsPlain name) :
    disk.slotOf ((place ++ [name]).map .into) = .ok (place ++ [name]) := by
  have walked : disk.walk false (place.map .into) = .ok place := walk_of_directory held
  rw [slotOf, List.map_append, List.map_singleton, List.getLast?_concat]
  simp only [List.dropLast_concat, walked, bind, Except.bind, held,
    if_pos (isPlainName_iff.mpr plain)]
  rfl

/-- The file at a location is removed under the path of the location, if the path is not
too long. -/
theorem removeFile_ofLocation (found : disk.node? location = some node)
    (plain : node ≠ .directory) :
    disk.removeFile (ofLocation location) =
      if longestPath < (ofLocation location).bytes.length then .error .nameTooLong
      else .ok (disk.erase location (by simp [found, plain])) := by
  have names := isPlain_of_node? found
  have form := checkForm_ofLocation names
  split at form
  · rename_i long
    rw [if_pos long, removeFile_eq, form]
    rfl
  · rename_i short
    rw [if_neg short]
    rcases List.eq_nil_or_concat location with rfl | ⟨place, name, rfl⟩
    · exact absurd (Option.some.inj found).symm plain
    · simp only [List.concat_eq_append] at found names form ⊢
      obtain ⟨plainName, held⟩ := parent_of_node? found
      refine removeFile_of_slotOf form (endsInSlash_ofLocation names (by simp)) ?_ found plain
      rw [steps_ofLocation names]
      exact slotOf_names held plainName

/-! ## Several removals -/

/-- Whether a disk came from another one by erasing what was at certain locations. -/
def HasErased (disk : Disk) (gone : List Location) (after : Disk) : Prop :=
  ∀ other, after.node? other = if other ∈ gone then none else disk.node? other

theorem hasErased_nil (disk : Disk) : disk.HasErased [] disk :=
  fun _ => (if_neg List.not_mem_nil).symm

theorem HasErased.cons {gone : List Location} {after : Disk}
    {plain : disk.node? location ≠ some .directory}
    (erased : (disk.erase location plain).HasErased gone after) :
    disk.HasErased (location :: gone) after := by
  intro other
  rw [erased other, node?_erase]
  by_cases later : other ∈ gone
  · rw [if_pos later, if_pos (List.mem_cons_of_mem _ later)]
  · by_cases first : other = location
    · rw [if_neg later, if_pos first, if_pos (List.mem_cons.mpr (.inl first))]
    · rw [if_neg later, if_neg first, if_neg (fun member =>
        (List.mem_cons.mp member).elim first later)]

theorem HasErased.node?_eq_some_iff {gone : List Location} {after : Disk}
    (erased : disk.HasErased gone after) : after.node? location = some node ↔
      disk.node? location = some node ∧ location ∉ gone := by
  rw [erased]
  by_cases member : location ∈ gone <;> simp [member]

theorem HasErased.append {gone gone' : List Location} {middle after : Disk}
    (erased : disk.HasErased gone middle) (erased' : middle.HasErased gone' after) :
    disk.HasErased (gone ++ gone') after := by
  intro other
  rw [erased' other, erased other]
  by_cases first : other ∈ gone
  · simp [first]
  · simp [first]

theorem HasErased.unique {gone : List Location} {after after' : Disk}
    (erased : disk.HasErased gone after) (erased' : disk.HasErased gone after') : after = after' :=
  ext_node? fun other => (erased other).trans (erased' other).symm

theorem HasErased.congr {gone gone' : List Location} {after : Disk}
    (erased : disk.HasErased gone after) (same : ∀ other, other ∈ gone ↔ other ∈ gone') :
    disk.HasErased gone' after := by
  intro other
  rw [erased other]
  by_cases member : other ∈ gone
  · rw [if_pos member, if_pos ((same other).mp member)]
  · rw [if_neg member, if_neg (mt (same other).mpr member)]

end ArtifactCache.Disk
