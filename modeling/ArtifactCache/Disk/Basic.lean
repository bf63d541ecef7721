import ArtifactCache.Disk.DiskPath
import Std.Data.ExtTreeMap

/-! # The disk as a value

A disk is a finite tree.  Each node has a location, which is the list of names
that lead to it from the top, and the tree is kept as a map from locations to
nodes.  The top itself is always a directory and has no entry in the map.  Every
other node lies in a directory and has a name that a path can spell.

All changes come down to three: to put a node where there is no directory, to
erase a node that is no directory, and to prune a whole branch.  Each is described
by what it does to the node at any location.
-/

namespace ArtifactCache

/-- Nanoseconds since the epoch. -/
abbrev Instant := Int

/-- The names that lead to a node from the top. -/
abbrev Location := List Name

/-- What a location holds. -/
inductive Node where
  | directory
  | file (size : UInt64) (accessed : Instant)
  | link (target : DiskPath)
  | pipe
  deriving DecidableEq, Repr

namespace Node

/-- Whether a node is a directory itself; a link to one is none. -/
def isDirectory : Node → Bool
  | .directory => true
  | _ => false

def isFile : Node → Bool
  | .file _ _ => true
  | _ => false

end Node

abbrev NodeMap := Std.ExtTreeMap Location Node compare

namespace NodeMap

/-- The node at a location.  The top is a directory. -/
def node? (nodes : NodeMap) (location : Location) : Option Node :=
  if location = [] then some .directory else nodes[location]?

/-- Whether a node may be at a location: it has a plain name and lies in a
directory. -/
def Fits (nodes : NodeMap) (location : Location) : Prop :=
  ∃ directory name, location = directory ++ [name] ∧ DiskPath.isPlainName name = true ∧
    nodes.node? directory = some .directory

end NodeMap

/-- A tree of nodes. -/
structure Disk where
  nodes : NodeMap
  fits : ∀ location, nodes[location]?.isSome → nodes.Fits location

namespace Disk

def node? (disk : Disk) (location : Location) : Option Node :=
  disk.nodes.node? location

def Fits (disk : Disk) (location : Location) : Prop :=
  disk.nodes.Fits location

/-- The disk on which nothing but the top exists. -/
def empty : Disk :=
  ⟨∅, by simp⟩

theorem node?_nil (disk : Disk) : disk.node? [] = some .directory := rfl

theorem node?_of_ne {disk : Disk} {location : Location} (below : location ≠ []) :
    disk.node? location = disk.nodes[location]? := by
  simp [node?, NodeMap.node?, below]

theorem node?_empty (location : Location) :
    empty.node? location = if location = [] then some .directory else none := by
  simp [empty, node?, NodeMap.node?]

theorem Fits.ne_nil {disk : Disk} {location : Location} (fits : disk.Fits location) :
    location ≠ [] := by
  obtain ⟨directory, name, rfl, -, -⟩ := fits
  simp

theorem fits_of_node? {disk : Disk} {location : Location} {node : Node}
    (below : location ≠ []) (found : disk.node? location = some node) :
    disk.Fits location := by
  rw [node?_of_ne below] at found
  exact disk.fits location (by simp [found])

theorem fits_of_node?_ne {disk : Disk} {location : Location} {node : Node}
    (found : disk.node? location = some node) (plain : node ≠ .directory) :
    disk.Fits location := by
  refine fits_of_node? ?_ found
  rintro rfl
  exact plain (Option.some.inj found).symm

theorem ext_node? {first second : Disk}
    (same : ∀ location, first.node? location = second.node? location) : first = second := by
  obtain ⟨firstNodes, firstFits⟩ := first
  obtain ⟨secondNodes, secondFits⟩ := second
  suffices firstNodes = secondNodes by subst this; rfl
  refine Std.ExtTreeMap.ext_getElem? fun location => ?_
  by_cases top : location = []
  · subst top
    have missing : ∀ nodes : NodeMap, (∀ location, nodes[location]?.isSome → nodes.Fits location) →
        nodes[([] : Location)]? = none := by
      intro nodes fits
      cases held : nodes[([] : Location)]? with
      | none => rfl
      | some node =>
        obtain ⟨directory, name, split, -, -⟩ := fits [] (by simp [held])
        simp at split
    rw [missing _ firstFits, missing _ secondFits]
  · have agree := same location
    rwa [node?_of_ne top, node?_of_ne top] at agree

/-- The disk with a node put at a location that holds no directory. -/
def put (disk : Disk) (location : Location) (node : Node) (fits : disk.Fits location)
    (vacant : disk.node? location ≠ some .directory) : Disk where
  nodes := disk.nodes.insert location node
  fits other present := by
    have kept : disk.Fits other := by
      rw [Std.ExtTreeMap.getElem?_insert] at present
      split at present
      next same => rwa [← Std.LawfulEqOrd.eq_of_compare same]
      next => exact disk.fits other present
    obtain ⟨directory, name, split, plain, inside⟩ := kept
    refine ⟨directory, name, split, plain, ?_⟩
    simp only [NodeMap.node?] at inside ⊢
    split at inside
    next top => simp [top]
    next below =>
      rw [if_neg below, Std.ExtTreeMap.getElem?_insert, if_neg, inside]
      intro same
      have same := Std.LawfulEqOrd.eq_of_compare same
      subst same
      exact vacant (by rw [node?_of_ne below, inside])

theorem node?_put (disk : Disk) (location : Location) (node : Node) (fits : disk.Fits location)
    (vacant : disk.node? location ≠ some .directory) (other : Location) :
    (disk.put location node fits vacant).node? other =
      if other = location then some node else disk.node? other := by
  by_cases top : other = []
  · subst top
    rw [if_neg (Ne.symm fits.ne_nil)]
    rfl
  · rw [node?_of_ne top, node?_of_ne top]
    simp only [put, Std.ExtTreeMap.getElem?_insert, Std.compare_eq_iff_eq, @eq_comm _ other]

/-- The disk without the node at a location, which must not be a directory. -/
def erase (disk : Disk) (location : Location)
    (plain : disk.node? location ≠ some .directory) : Disk where
  nodes := disk.nodes.erase location
  fits other present := by
    have kept : disk.Fits other := by
      rw [Std.ExtTreeMap.getElem?_erase] at present
      split at present
      next => simp at present
      next => exact disk.fits other present
    obtain ⟨directory, name, split, plainName, inside⟩ := kept
    refine ⟨directory, name, split, plainName, ?_⟩
    simp only [NodeMap.node?] at inside ⊢
    split at inside
    next top => simp [top]
    next below =>
      rw [if_neg below, Std.ExtTreeMap.getElem?_erase, if_neg, inside]
      intro same
      have same := Std.LawfulEqOrd.eq_of_compare same
      subst same
      exact plain (by rw [node?_of_ne below, inside])

theorem node?_erase (disk : Disk) (location : Location)
    (plain : disk.node? location ≠ some .directory) (other : Location) :
    (disk.erase location plain).node? other =
      if other = location then none else disk.node? other := by
  by_cases top : other = []
  · subst top
    rw [if_neg]
    · rfl
    · rintro rfl
      exact plain rfl
  · rw [node?_of_ne top, node?_of_ne top]
    simp only [erase, Std.ExtTreeMap.getElem?_erase, Std.compare_eq_iff_eq, @eq_comm _ other]

theorem Fits.erase {disk : Disk} {location other : Location} (fits : disk.Fits other)
    (plain : disk.node? location ≠ some .directory) : (disk.erase location plain).Fits other := by
  obtain ⟨directory, name, split, plainName, inside⟩ := fits
  refine ⟨directory, name, split, plainName, ?_⟩
  change (disk.erase location plain).node? directory = some .directory
  rw [node?_erase, if_neg]
  · exact inside
  · rintro rfl
    exact plain inside

/-- The disk without the node at a location and all that lies below it. -/
def prune (disk : Disk) (location : Location) : Disk where
  nodes := disk.nodes.filter fun other _ => !location.isPrefixOf other
  fits other present := by
    rw [Std.ExtTreeMap.getElem?_filter'] at present
    obtain ⟨node, held⟩ := Option.isSome_iff_exists.mp present
    rw [Option.filter_eq_some_iff] at held
    obtain ⟨directory, name, rfl, plain, inside⟩ := disk.fits other (by simp [held.1])
    refine ⟨directory, name, rfl, plain, ?_⟩
    simp only [NodeMap.node?] at inside ⊢
    split at inside
    next top => simp [top]
    next below =>
      rw [if_neg below, Std.ExtTreeMap.getElem?_filter', inside, Option.filter_some, if_pos]
      have outside := held.2
      simp only [Bool.not_eq_true', ← Bool.not_eq_true, List.isPrefixOf_iff_prefix] at outside ⊢
      exact fun through => outside (through.trans (List.prefix_append _ _))

theorem node?_prune (disk : Disk) (location other : Location) :
    (disk.prune location).node? other =
      if other ≠ [] ∧ location <+: other then none else disk.node? other := by
  by_cases top : other = []
  · subst top
    simp [node?_nil]
  · rw [node?_of_ne top, node?_of_ne top]
    simp only [prune, Std.ExtTreeMap.getElem?_filter', top, ne_eq, not_false_eq_true, true_and]
    by_cases through : location <+: other
    · have passed : location.isPrefixOf other = true := List.isPrefixOf_iff_prefix.mpr through
      simp [through, passed]
    · have passed : location.isPrefixOf other = false := by
        rw [← Bool.not_eq_true, List.isPrefixOf_iff_prefix]
        exact through
      cases disk.nodes[other]? <;> simp [through, passed]

/-- The name of a location inside a directory, if it lies directly in it. -/
def childName? : (directory location : Location) → Option Name
  | [], [name] => some name
  | first :: directory, other :: location =>
    if first = other then childName? directory location else none
  | _, _ => none

theorem childName?_eq_some_iff {directory location : Location} {name : Name} :
    childName? directory location = some name ↔ location = directory ++ [name] := by
  fun_induction childName? directory location with
  | case1 => simp [eq_comm]
  | case2 => simp_all
  | case3 => simp_all [eq_comm]
  | case4 directory location single step =>
    constructor
    · intro impossible
      cases impossible
    · rintro rfl
      cases directory with
      | nil => exact (single name rfl rfl).elim
      | cons first rest => exact (step first rest first (rest ++ [name]) rfl rfl).elim

/-- The nodes directly inside a directory, ordered by name. -/
def entries (disk : Disk) (directory : Location) : List (Name × Node) :=
  disk.nodes.toList.filterMap fun (location, node) =>
    (childName? directory location).map fun name => (name, node)

theorem mem_entries {disk : Disk} {directory : Location} {name : Name} {node : Node} :
    (name, node) ∈ disk.entries directory ↔ disk.node? (directory ++ [name]) = some node := by
  rw [node?_of_ne (by simp)]
  simp only [entries, List.mem_filterMap, Prod.exists, Option.map_eq_some_iff, Prod.mk.injEq,
    childName?_eq_some_iff]
  constructor
  · rintro ⟨location, held, member, found, rfl, rfl, rfl⟩
    exact Std.ExtTreeMap.mem_toList_iff_getElem?_eq_some.mp member
  · intro found
    exact ⟨_, _, Std.ExtTreeMap.mem_toList_iff_getElem?_eq_some.mpr found, _, rfl, rfl, rfl⟩

theorem pairwise_entries (disk : Disk) (directory : Location) :
    (disk.entries directory).Pairwise fun first second => first.1 ≠ second.1 := by
  refine List.Pairwise.filterMap _ ?_ Std.ExtTreeMap.distinct_keys_toList
  rintro ⟨location, node⟩ ⟨other, otherNode⟩ distinct first found second otherFound same
  simp only [Option.map_eq_some_iff, childName?_eq_some_iff] at found otherFound
  obtain ⟨name, rfl, rfl⟩ := found
  obtain ⟨otherName, rfl, rfl⟩ := otherFound
  cases same
  exact distinct Std.ReflOrd.compare_self

end Disk

end ArtifactCache
