import ArtifactCache.Proofs.Disk.Made
import ArtifactCache.Proofs.Shards
import ArtifactCache.Store.Basic

/-! # The root of a cache and its shards

A cache that is opened has a root, which is the location of a directory, and the preparation
only adds directories to the disk.  The path of each shard leads to a directory afterwards.  Where
nothing but directories is in the way, the shards are these directories themselves.
-/

namespace ArtifactCache

open DiskPath

variable {disk ready : Disk} {top : Location}

/-! ## Shards -/

def shardLocations (top : Location) : List Location :=
  Kind.all.flatMap fun kind => Shard.names.map fun shard =>
    top ++ [kind.directoryName, nameOf shard]

theorem mem_shardLocations {location : Location} : location ∈ shardLocations top ↔
    ∃ kind : Kind, ∃ shard ∈ Shard.names,
      location = top ++ [kind.directoryName, nameOf shard] := by
  simp only [shardLocations, List.mem_flatMap, List.mem_map, Kind.mem_all, true_and, eq_comm]

theorem isPlain_of_mem_shardLocations (plain : ∀ name ∈ top, IsPlain name) {location : Location}
    (member : location ∈ shardLocations top) : ∀ name ∈ location, IsPlain name := by
  obtain ⟨kind, shard, isShard, rfl⟩ := mem_shardLocations.mp member
  refine List.forall_mem_append.mpr ⟨plain, ?_⟩
  simpa using ⟨kind.isPlain_directoryName, Shard.isPlain_nameOf isShard⟩

/-- Below a directory there is no link on the way to a shard, if neither the directory of its
kind nor the shard itself is one. -/
theorem noLinks_shard {kind : Kind} {name : Name} (held : disk.node? top = some .directory)
    (kinds : ∀ target, disk.node? (top ++ [kind.directoryName]) ≠ some (.link target))
    (shards : ∀ target, disk.node? (top ++ [kind.directoryName, name]) ≠ some (.link target)) :
    disk.NoLinks (top ++ [kind.directoryName, name]) := by
  intro above beginning target found
  rcases List.prefix_or_prefix_of_prefix beginning (List.prefix_append top _) with
    outside | ⟨names, rfl⟩
  · have upper := Disk.clear_of_node? held above outside
    rw [found] at upper
    rcases upper with absent | directory
    · cases absent
    · cases directory
  · rw [List.prefix_append_right_inj] at beginning
    match names with
    | [] =>
      rw [List.append_nil, held] at found
      cases found
    | [_] =>
      obtain ⟨rfl, -⟩ := List.cons_prefix_cons.mp beginning
      exact kinds target found
    | [_, _] =>
      obtain ⟨rfl, last⟩ := List.cons_prefix_cons.mp beginning
      obtain ⟨rfl, -⟩ := List.cons_prefix_cons.mp last
      exact shards target found
    | _ :: _ :: _ :: _ => simpa using beginning.length_le

theorem firstShard_mem (top : Location) (kind : Kind) :
    top ++ [kind.directoryName, nameOf "00"] ∈ shardLocations top :=
  mem_shardLocations.mpr ⟨kind, "00", by decide, rfl⟩

theorem short_kind
    (short : ∀ location ∈ shardLocations top, (ofLocation location).bytes.length ≤ longestPath)
    (kind : Kind) : (ofLocation (top ++ [kind.directoryName])).bytes.length ≤ longestPath := by
  have shard := short _ (firstShard_mem top kind)
  rw [List.append_cons, ofLocation_append] at shard
  exact Nat.le_trans (length_le_child _ (Shard.isPlain_nameOf (by decide)).single) shard

theorem short_root
    (short : ∀ location ∈ shardLocations top, (ofLocation location).bytes.length ≤ longestPath) :
    (ofLocation top).bytes.length ≤ longestPath := by
  have kind := short_kind short .action
  rw [ofLocation_append] at kind
  exact Nat.le_trans (length_le_child _ (Kind.isPlain_directoryName _).single) kind

theorem shardDirectories_ofLocation (top : Location) :
    shardDirectories (ofLocation top) = (shardLocations top).map ofLocation := by
  rw [shardDirectories, shardLocations, List.map_flatMap]
  apply List.flatMap_congr
  intro kind _
  rw [List.map_map]
  apply List.map_congr_left
  intro shard _
  rw [Function.comp_apply, List.append_cons, ofLocation_append, ofLocation_append]
  rfl

theorem grows_makeShards (paths : List DiskPath) (disk : Disk) :
    Disk.Grows disk (makeShards paths disk).2 := by
  induction paths generalizing disk with
  | nil => exact .refl disk
  | cons path rest ih =>
    have first := disk.grows_makeDirectories path
    rw [makeShards]
    cases result : disk.makeDirectories path with
    | mk outcome middle =>
      rw [result] at first
      cases outcome with
      | error fault => exact first
      | ok _ => exact first.trans (ih middle)

theorem makeShards_of_clear {locations : List Location}
    (plain : ∀ location ∈ locations, ∀ name ∈ location, IsPlain name)
    (short : ∀ location ∈ locations, (ofLocation location).bytes.length ≤ longestPath)
    (clear : ∀ location ∈ locations, disk.Clear location) :
    ∃ made, makeShards (locations.map ofLocation) disk = (.ok (), made) ∧
      ∀ other, made.node? other =
        if ∃ location ∈ locations, other <+: location then some .directory
        else disk.node? other := by
  induction locations generalizing disk with
  | nil => exact ⟨disk, rfl, fun other => by simp⟩
  | cons location rest ih =>
    obtain ⟨plainFirst, plain⟩ := List.forall_mem_cons.mp plain
    obtain ⟨shortFirst, short⟩ := List.forall_mem_cons.mp short
    obtain ⟨clearFirst, clear⟩ := List.forall_mem_cons.mp clear
    obtain ⟨middle, first, hasMade⟩ :=
      Disk.makeDirectories_ofLocation plainFirst clearFirst shortFirst
    have grows := hasMade.grows clearFirst
    obtain ⟨made, done, nodes⟩ :=
      ih plain short fun other member => (clear other member).grows grows
    refine ⟨made, ?_, fun other => ?_⟩
    · rw [List.map_cons, makeShards, first]
      exact done
    · rw [nodes other, hasMade other]
      by_cases later : ∃ location ∈ rest, other <+: location
      · obtain ⟨shard, member, beginning⟩ := later
        rw [if_pos ⟨shard, member, beginning⟩,
          if_pos ⟨shard, List.mem_cons_of_mem _ member, beginning⟩]
      · simp only [List.exists_mem_cons_iff, later, or_false, if_false]

theorem short_of_makeShards {locations : List Location}
    (plain : ∀ location ∈ locations, ∀ name ∈ location, IsPlain name)
    (done : (makeShards (locations.map ofLocation) disk).1 = .ok ()) :
    ∀ location ∈ locations, (ofLocation location).bytes.length ≤ longestPath := by
  induction locations generalizing disk with
  | nil => simp
  | cons location rest ih =>
    obtain ⟨plainFirst, plain⟩ := List.forall_mem_cons.mp plain
    rw [List.map_cons, makeShards] at done
    have form := checkForm_ofLocation plainFirst
    by_cases long : longestPath < (ofLocation location).bytes.length
    · rw [if_pos long] at form
      rw [Disk.makeDirectories, if_neg (bytes_ofLocation_ne_nil location), form] at done
      cases done
    · cases made : disk.makeDirectories (ofLocation location) with
      | mk outcome middle =>
        rw [made] at done
        cases outcome with
        | error fault => cases done
        | ok _ => exact List.forall_mem_cons.mpr ⟨Nat.not_lt.mp long, ih plain done⟩

theorem leadsTo_of_makeShards {locations : List Location}
    (plain : ∀ location ∈ locations, ∀ name ∈ location, IsPlain name)
    (done : makeShards (locations.map ofLocation) disk = (.ok (), ready)) :
    ∀ location ∈ locations, ∃ arrived, ready.LeadsTo (ofLocation location) arrived := by
  induction locations generalizing disk with
  | nil => simp
  | cons location rest ih =>
    obtain ⟨plainFirst, plain⟩ := List.forall_mem_cons.mp plain
    rw [List.map_cons, makeShards] at done
    split at done
    · rename_i middle made
      have later := grows_makeShards (rest.map ofLocation) middle
      rw [done] at later
      obtain ⟨arrived, leads⟩ := Disk.leadsTo_of_makeDirectories plainFirst made
      exact List.forall_mem_cons.mpr ⟨⟨arrived, leads.of_frames later.frames⟩, ih plain done⟩
    · cases done

/-! ## The root -/

namespace Store

variable {base root : DiskPath} {middle : Disk}

theorem grows_prepareRoot (base : DiskPath) (disk : Disk) :
    Disk.Grows disk (prepareRoot base disk).2 := by
  have made := disk.grows_makeDirectories base
  unfold prepareRoot
  split
  · rename_i result
    rwa [result] at made
  · rename_i middle result
    rw [result] at made
    split
    · exact made
    · rename_i path direct
      have shards := grows_makeShards (shardDirectories path) middle
      rw [prepareShards]
      split
      · rename_i divided
        rw [divided] at shards
        exact made.trans shards
      · rename_i divided
        rw [divided] at shards
        exact made.trans shards

theorem prepareRoot_eq_ok_iff : prepareRoot base disk = (.ok root, ready) ↔
    ∃ middle, disk.makeDirectories base = (.ok (), middle) ∧ middle.canonical base = .ok root ∧
      makeShards (shardDirectories root) middle = (.ok (), ready) := by
  constructor
  · intro prepared
    rw [prepareRoot] at prepared
    split at prepared
    · cases prepared
    · rename_i middle made
      split at prepared
      · cases prepared
      · rename_i path direct
        rw [prepareShards] at prepared
        split at prepared
        · cases prepared
        · rename_i divided
          cases prepared
          exact ⟨middle, made, direct, divided⟩
  · rintro ⟨middle, made, direct, divided⟩
    rw [prepareRoot, made]
    simp only [direct, prepareShards, divided]

/-- Whether a base directory can be made, and where it lies then. -/
structure LiesAt (base : DiskPath) (disk middle : Disk) (top : Location) : Prop where
  made : disk.makeDirectories base = (.ok (), middle)
  located : middle.locate base = .ok top

/-- Whether a base directory has been made and located, and its shards have been made. -/
structure IsPrepared (base : DiskPath) (disk middle : Disk) (top : Location) (ready : Disk) :
    Prop extends LiesAt base disk middle top where
  held : middle.node? top = some .directory
  divided : makeShards ((shardLocations top).map ofLocation) middle = (.ok (), ready)

/-- The root of a prepared cache is the direct path of a directory. -/
theorem exists_isPrepared (prepared : prepareRoot base disk = (.ok root, ready)) :
    ∃ middle top, root = ofLocation top ∧ IsPrepared base disk middle top ready := by
  obtain ⟨middle, made, direct, divided⟩ := prepareRoot_eq_ok_iff.mp prepared
  obtain ⟨top, located, direct⟩ := bind_eq_ok_iff.mp direct
  obtain ⟨_, -, direct⟩ := bind_eq_ok_iff.mp direct
  obtain ⟨_, -, walked⟩ := bind_eq_ok_iff.mp located
  obtain ⟨node, found, noLink⟩ := Disk.walk_found walked
  obtain rfl := Except.ok.inj direct
  have grows := grows_makeShards (shardDirectories (ofLocation top)) middle
  rw [shardDirectories_ofLocation] at divided grows
  rw [divided] at grows
  refine ⟨middle, top, rfl, ⟨made, located⟩, ?_, divided⟩
  -- The path of a shard leads through the root, so a directory must be there.
  have plain := Disk.isPlain_of_node? found
  obtain ⟨arrived, leads⟩ := leadsTo_of_makeShards
    (fun location member => isPlain_of_mem_shardLocations plain member) divided _
    (firstShard_mem top .action)
  have through := leads.walked
  rw [steps_ofLocation (isPlain_of_mem_shardLocations plain (firstShard_mem top .action)),
    List.map_append] at through
  obtain ⟨passed, onward, arrives, directory, -⟩ :=
    Disk.exists_of_walk_append (List.cons_ne_nil _ _) through
  rw [Disk.walk_of_node? (grows.node? found) (.inr noLink)] at arrives
  obtain rfl := Except.ok.inj arrives
  rw [grows.node? found] at directory
  exact found.trans directory

theorem LiesAt.unique {middle' : Disk} {top' : Location} (lies : LiesAt base disk middle top)
    (lies' : LiesAt base disk middle' top') : middle = middle' ∧ top = top' := by
  obtain ⟨-, rfl⟩ := Prod.mk.inj (lies.made.symm.trans lies'.made)
  exact ⟨rfl, Except.ok.inj (lies.located.symm.trans lies'.located)⟩

theorem LiesAt.isPrepared (lies : LiesAt base disk middle top)
    (prepared : prepareRoot base disk = (.ok root, ready)) :
    root = ofLocation top ∧ IsPrepared base disk middle top ready := by
  obtain ⟨middle', top', rfl, isPrepared⟩ := exists_isPrepared prepared
  obtain ⟨rfl, rfl⟩ := lies.unique isPrepared.toLiesAt
  exact ⟨rfl, isPrepared⟩

theorem LiesAt.form (lies : LiesAt base disk middle top) : base.checkForm = .ok () := by
  obtain ⟨_, form, -⟩ := bind_eq_ok_iff.mp lies.located
  exact form

theorem prepareRoot_of_refused {fault : Fault} (nonempty : base.bytes ≠ [])
    (refused : base.checkForm = .error fault) :
    prepareRoot base disk = (.error (.disk base "create cache directory" fault), disk) := by
  rw [prepareRoot, Disk.makeDirectories, if_neg nonempty, refused]

theorem liesAt_of_locate (located : disk.locate base = .ok top)
    (held : disk.node? top = some .directory) : LiesAt base disk disk top := by
  obtain ⟨leads, form⟩ := Disk.leadsTo_of_locate held located
  exact ⟨leads.makeDirectories form, located⟩

namespace IsPrepared

theorem plain (prepared : IsPrepared base disk middle top ready) : ∀ name ∈ top, IsPlain name :=
  Disk.isPlain_of_node? prepared.held

theorem grows (prepared : IsPrepared base disk middle top ready) : Disk.Grows middle ready := by
  have shards := grows_makeShards ((shardLocations top).map ofLocation) middle
  rwa [prepared.divided] at shards

theorem grows_base (prepared : IsPrepared base disk middle top ready) :
    Disk.Grows disk middle := by
  have made := disk.grows_makeDirectories base
  rwa [prepared.made] at made

theorem short (prepared : IsPrepared base disk middle top ready) :
    ∀ location ∈ shardLocations top, (ofLocation location).bytes.length ≤ longestPath :=
  short_of_makeShards (fun _ member => isPlain_of_mem_shardLocations prepared.plain member)
    (congrArg Prod.fst prepared.divided)

theorem leadsTo_shard (prepared : IsPrepared base disk middle top ready) :
    ∀ location ∈ shardLocations top, ∃ arrived, ready.LeadsTo (ofLocation location) arrived :=
  leadsTo_of_makeShards (fun _ member => isPlain_of_mem_shardLocations prepared.plain member)
    prepared.divided

theorem clear (prepared : IsPrepared base disk middle top ready)
    (noLinks : ∀ location ∈ shardLocations top, middle.NoLinks location) :
    ∀ location ∈ shardLocations top, middle.Clear location := by
  intro location member
  obtain ⟨arrived, leads⟩ := prepared.leadsTo_shard location member
  have plain := isPlain_of_mem_shardLocations prepared.plain member
  obtain rfl := leads.eq_of_noLinks plain ((noLinks location member).grows prepared.grows)
  exact (Disk.clear_of_node? leads.held).of_grows prepared.grows

theorem nodes (prepared : IsPrepared base disk middle top ready)
    (clear : ∀ location ∈ shardLocations top, middle.Clear location) (other : Location) :
    ready.node? other =
      if ∃ location ∈ shardLocations top, other <+: location then some .directory
      else middle.node? other := by
  obtain ⟨made, done, nodes⟩ := makeShards_of_clear
    (fun _ member => isPlain_of_mem_shardLocations prepared.plain member) prepared.short clear
  obtain ⟨-, rfl⟩ := Prod.mk.inj (done.symm.trans prepared.divided)
  exact nodes other

end IsPrepared

/-- The root of a prepared cache is the location of a node that is no link, the preparation has
only added directories, and the paths of the shards are not too long. -/
theorem exists_of_prepareRoot (prepared : prepareRoot base disk = (.ok root, ready)) :
    ∃ top, root = ofLocation top ∧
      (∃ node, ready.node? top = some node ∧ ∀ target, node ≠ .link target) ∧
      Disk.Grows disk ready ∧
      ∀ location ∈ shardLocations top, (ofLocation location).bytes.length ≤ longestPath := by
  obtain ⟨middle, top, rfl, isPrepared⟩ := exists_isPrepared prepared
  have directory := isPrepared.grows.node? isPrepared.held
  refine ⟨top, rfl, ⟨_, directory, fun target same => by cases same⟩, ?_, isPrepared.short⟩
  exact isPrepared.grows_base.trans isPrepared.grows

/-- A cache is prepared under a base directory that can be made and has a direct form, where all
ways to the shards are clear. -/
theorem prepareRoot_of_canonical
    (made : disk.makeDirectories base = (.ok (), middle))
    (direct : middle.canonical base = .ok (ofLocation top)) (plain : ∀ name ∈ top, IsPlain name)
    (short : ∀ location ∈ shardLocations top, (ofLocation location).bytes.length ≤ longestPath)
    (clear : ∀ location ∈ shardLocations top, middle.Clear location) :
    ∃ ready, prepareRoot base disk = (.ok (ofLocation top), ready) ∧
      ∀ other, ready.node? other =
        if ∃ location ∈ shardLocations top, other <+: location then some .directory
        else middle.node? other := by
  obtain ⟨ready, done, nodes⟩ := makeShards_of_clear
    (fun location member => isPlain_of_mem_shardLocations plain member) short clear
  rw [← shardDirectories_ofLocation] at done
  exact ⟨ready, prepareRoot_eq_ok_iff.mpr ⟨middle, made, direct, done⟩, nodes⟩

/-- A cache is prepared where its base directory lies, if all ways to the shards are clear. -/
theorem LiesAt.exists_prepareRoot (lies : LiesAt base disk middle top)
    (short : ∀ location ∈ shardLocations top, (ofLocation location).bytes.length ≤ longestPath)
    (clear : ∀ location ∈ shardLocations top, middle.Clear location) :
    ∃ ready, prepareRoot base disk = (.ok (ofLocation top), ready) := by
  obtain ⟨_, -, walked⟩ := bind_eq_ok_iff.mp lies.located
  obtain ⟨node, found, -⟩ := Disk.walk_found walked
  have plain := Disk.isPlain_of_node? found
  have form : (ofLocation top).checkForm = .ok () := by
    rw [checkForm_ofLocation plain, if_neg (Nat.not_lt.mpr (short_root short))]
  have direct : middle.canonical base = .ok (ofLocation top) := by
    simp only [Disk.canonical, lies.located, bind, Except.bind, form]
    rfl
  obtain ⟨ready, prepared, -⟩ := prepareRoot_of_canonical lies.made direct plain short clear
  exact ⟨ready, prepared⟩

theorem prepareRoot_ofLocation (plain : ∀ name ∈ top, IsPlain name)
    (short : ∀ location ∈ shardLocations top, (ofLocation location).bytes.length ≤ longestPath)
    (shortRoot : (ofLocation top).bytes.length ≤ longestPath)
    (clear : ∀ location ∈ shardLocations top, disk.Clear location)
    (clearRoot : disk.Clear top) :
    ∃ ready, prepareRoot (ofLocation top) disk = (.ok (ofLocation top), ready) ∧
      ∀ other, ready.node? other =
        if ∃ location ∈ shardLocations top, other <+: location then some .directory
        else disk.node? other := by
  obtain ⟨middle, first, hasMade⟩ := Disk.makeDirectories_ofLocation plain clearRoot shortRoot
  have grows := hasMade.grows clearRoot
  have held : middle.node? top = some .directory := by
    rw [hasMade top, if_pos List.prefix_rfl]
  obtain ⟨ready, prepared, nodes⟩ := prepareRoot_of_canonical first
    (Disk.canonical_ofLocation held shortRoot) plain short
    fun location member => (clear location member).grows grows
  refine ⟨ready, prepared, fun other => ?_⟩
  rw [nodes other, hasMade other]
  by_cases beginning : other <+: top
  · have shard : ∃ location ∈ shardLocations top, other <+: location := by
      refine ⟨_, mem_shardLocations.mpr ⟨.action, "00", by decide, rfl⟩, ?_⟩
      exact beginning.trans (List.prefix_append _ _)
    rw [if_pos shard, if_pos shard]
  · rw [if_neg beginning]

end Store

end ArtifactCache
