import ArtifactCache.Proofs.Store.Former
import Mathlib.Data.Set.List

/-! # How a cache adopts old files

Where a root holds nothing but former directories, the whole cache comes from them.  For every key
with a copy in an older layout there is one entry afterwards, and it has the file of the copy that
was accessed last.  The other copy of the key, if there is one, is counted and removed.

This needs that the system takes the path of the base directory, those of the shards and those that
the upgrade uses.  Where the base directory is spelled with too many slashes, or lies too deep, it
does not, and then the cache cannot be opened.
-/

namespace ArtifactCache

open DiskPath Upgrade

/-- Whether a copy is the one of its key that was accessed last. -/
structure IsNewest (disk : Disk) (top : Location) (copy : OldCopy) : Prop where
  old : IsOldCopy disk top copy
  last : ∀ other, IsOldCopy disk top other → other.key = copy.key → other.accessed ≤ copy.accessed

variable {host : Host} {settings : Settings} {disk ready after : Disk} {top : Location}

/-! ## The replay of copies -/

namespace Upgrade.OldCopy

/-- The file of a copy as an inventory lists it after the upgrade. -/
def found (copy : OldCopy) : FoundFile :=
  { path := copy.entry.place, size := copy.size, accessed := copy.accessed }

def reading (copy : OldCopy) : Replay.Decoded :=
  { path := copy.entry.place, key := copy.key, file := copy.file }

theorem decode_found (copy : OldCopy) : Replay.decode copy.found = .ok copy.reading := by
  rw [Replay.decode, found, copy.readPlace_entry]
  rfl

theorem mapM_decode (copies : List OldCopy) :
    (copies.map found).mapM Replay.decode = .ok (copies.map reading) := by
  rw [mapM_eq_ok_iff, List.forall₂_map_left_iff, List.forall₂_map_right_iff, List.forall₂_same]
  exact fun copy _ => copy.decode_found

/-- Whether a list has a copy of the same key that was accessed later. -/
def isOlder (copies : List OldCopy) (copy : OldCopy) : Bool :=
  copies.any fun other => other.key = copy.key ∧ copy.accessed < other.accessed

/-- The last copies of all keys. -/
def newest (copies : List OldCopy) : List OldCopy :=
  copies.filter fun copy => !isOlder copies copy

def older (copies : List OldCopy) : List OldCopy :=
  copies.filter (isOlder copies)

theorem isOlder_iff {copies : List OldCopy} {copy : OldCopy} : isOlder copies copy = true ↔
    ∃ other ∈ copies, other.key = copy.key ∧ copy.accessed < other.accessed := by
  simp [isOlder]

variable {copy other : OldCopy} {later copies : List OldCopy}

theorem isOlder_cons_self
    (first : ∀ other ∈ later, copy.accessed < other.accessed) :
    isOlder (copy :: later) copy = Replay.isSuperseded copy.reading (later.map reading) := by
  rw [Bool.eq_iff_iff, isOlder_iff, Replay.isSuperseded, List.any_map, List.any_eq_true]
  simp only [List.mem_cons, exists_eq_or_imp, Int.lt_irrefl, and_false, false_or,
    Function.comp_apply, decide_eq_true_eq]
  refine exists_congr fun other => and_congr_right fun member => ?_
  exact and_iff_left (first other member)

theorem isOlder_cons_of_lt (earlier : copy.accessed < other.accessed) :
    isOlder (copy :: later) other = isOlder later other := by
  rw [isOlder, List.any_cons, isOlder]
  simp [Int.not_lt.mpr (Int.le_of_lt earlier)]

/-- In the order of their access, a replay accepts the last copy of each key and discards the
others. -/
theorem replay_division {budget : UInt64}
    (increasing : copies.Pairwise fun first second => first.accessed < second.accessed)
    (small : ∀ copy ∈ copies, copy.size ≤ budget) :
    Replay.accepted budget (copies.map reading) = (newest copies).map reading ∧
      Replay.discarded budget (copies.map reading) = (older copies).map reading := by
  unfold newest older
  induction copies with
  | nil => exact ⟨rfl, rfl⟩
  | cons copy later ih =>
    obtain ⟨first, increasing⟩ := List.pairwise_cons.mp increasing
    obtain ⟨fits, small⟩ := List.forall_mem_cons.mp small
    obtain ⟨accepted, discarded⟩ := ih increasing small
    -- The first copy was accessed before all others, so it makes none of them an older one.
    have same : ∀ other ∈ later, isOlder (copy :: later) other = isOlder later other :=
      fun other member => isOlder_cons_of_lt (first other member)
    have older : later.filter (isOlder (copy :: later)) = later.filter (isOlder later) :=
      List.filter_congr same
    have newest : (later.filter fun other => !isOlder (copy :: later) other) =
        later.filter fun other => !isOlder later other :=
      List.filter_congr fun other member => congrArg not (same other member)
    have own := isOlder_cons_self first
    have notLarge : ¬ budget < copy.reading.file.diskSize := UInt64.not_lt.mpr fits
    rw [List.map_cons]
    cases superseded : Replay.isSuperseded copy.reading (later.map reading) with
    | true =>
      rw [superseded] at own
      rw [Replay.accepted_of_discarded (.inl superseded),
        Replay.discarded_of_discarded (.inl superseded), accepted, discarded,
        List.filter_cons_of_neg (by simp [own]), List.filter_cons_of_pos own, older, newest]
      exact ⟨rfl, rfl⟩
    | false =>
      rw [superseded] at own
      have kept : ¬ (Replay.isSuperseded copy.reading (later.map reading) = true ∨
          budget < copy.reading.file.diskSize) := by
        simp [superseded, notLarge]
      rw [Replay.accepted_of_kept kept, Replay.discarded_of_kept kept, accepted, discarded,
        List.filter_cons_of_pos (by simp [own]), List.filter_cons_of_neg (by simp [own]), older,
        newest]
      exact ⟨rfl, rfl⟩

section Division

variable (whole : ∀ copy, copy ∈ copies ↔ IsOldCopy disk top copy)

include whole

theorem mem_newest_iff : copy ∈ newest copies ↔ IsNewest disk top copy := by
  rw [newest, List.mem_filter, Bool.not_eq_true', Bool.eq_false_iff, Ne, isOlder_iff, whole]
  constructor
  · rintro ⟨old, last⟩
    exact ⟨old, fun other old' key => Int.not_lt.mp fun later =>
      last ⟨other, (whole other).mpr old', key, later⟩⟩
  · rintro ⟨old, last⟩
    refine ⟨old, ?_⟩
    rintro ⟨other, member, key, later⟩
    exact absurd later (Int.not_lt.mpr (last other ((whole other).mp member) key))

theorem mem_older_iff : copy ∈ older copies ↔ IsOldCopy disk top copy ∧
    ∃ other, IsOldCopy disk top other ∧ other.key = copy.key ∧ copy.accessed < other.accessed := by
  simp only [older, List.mem_filter, isOlder_iff, whole]

theorem nodup_newest
    (increasing : copies.Pairwise fun first second => first.accessed < second.accessed) :
    ((newest copies).map key).Nodup := by
  rw [List.Nodup, List.pairwise_map]
  refine (increasing.filter _).imp_of_mem fun {first second} member member' later same => ?_
  have last := ((mem_newest_iff whole).mp member).last
  have old := ((mem_newest_iff whole).mp member').old
  exact absurd later (Int.not_lt.mpr (last second old same.symm))

end Division

end Upgrade.OldCopy

/-! ## After the upgrade -/

/-- Whether the files below a location are those of the copies in older layouts, where these belong
in the current one. -/
structure HasMovedCopies (disk : Disk) (top : Location) (after : Disk) : Prop where
  lies : ∀ {copy}, IsOldCopy disk top copy →
    after.node? (top ++ copy.entry.location) = some (.file copy.size copy.accessed)
  exists_copy : ∀ {names size accessed},
    after.node? (top ++ names) = some (.file size accessed) →
      ∃ copy, IsOldCopy disk top copy ∧ copy.entry.location = names ∧ copy.size = size ∧
        copy.accessed = accessed

theorem IsFormer.hasMovedCopies (former : IsFormer disk top) {base : DiskPath}
    (prepared : Store.IsPrepared base disk disk top ready)
    (upgraded : IsUpgraded ready top Kind.all after) : HasMovedCopies disk top after where
  lies := by
    intro copy old
    obtain ⟨source, moves, found⟩ := old.exists_moves
    exact (former.isOrdinary.node?_eq_file_iff prepared upgraded).mpr
      (.inr ⟨_, source, _, moves, rfl, found⟩)
  exists_copy := by
    intro names size accessed found
    rcases (former.isOrdinary.node?_eq_file_iff prepared upgraded).mp found with
      beside | ⟨kind, source, target, moves, same, held⟩
    · by_cases below : names = []
      · subst below
        obtain ⟨directory, -⟩ := node?_withoutOld_eq_some_iff.mp beside
        rw [List.append_nil, former.held] at directory
        cases directory
      · rw [former.node?_withoutOld below] at beside
        cases beside
    · obtain ⟨copy, place, rfl, rfl, old⟩ := moves.exists_copy disk top size accessed
      exact ⟨copy, old held, place.trans (List.append_cancel_left same).symm, rfl, rfl⟩

namespace HasMovedCopies

variable (moved : HasMovedCopies disk top after) {copy other : OldCopy}

include moved

theorem eq_of_location (old : IsOldCopy disk top copy) (old' : IsOldCopy disk top other)
    (place : copy.entry.location = other.entry.location) : copy = other := by
  have held := moved.lies old
  rw [place, moved.lies old'] at held
  obtain ⟨size, accessed⟩ := Node.file.inj (Option.some.inj held)
  exact OldCopy.eq_of_location place size.symm accessed.symm

theorem eq_of_sharded (old : IsOldCopy disk top copy) (old' : IsOldCopy disk top other)
    (key : copy.key = other.key) (sharded : copy.sharded = other.sharded) : copy = other :=
  moved.eq_of_location old old' (by
    rw [OldCopy.location_entry, OldCopy.location_entry, OldCopy.token, OldCopy.token, key, sharded])

/-- A copy that was accessed after another one of its key is the last one. -/
theorem isNewest_of_later (old : IsOldCopy disk top copy) (old' : IsOldCopy disk top other)
    (key : other.key = copy.key) (later : copy.accessed < other.accessed) :
    IsNewest disk top other where
  old := old'
  last := by
    intro third old'' key'
    have apart : copy ≠ other := fun same => Int.lt_irrefl _ (same ▸ later)
    have layouts : copy.sharded ≠ other.sharded := fun same =>
      apart (moved.eq_of_sharded old old' key.symm same)
    -- Of three copies of a key two lie in the same layout.
    rcases Bool.eq_or_eq_not third.sharded other.sharded with same | differ
    · exact Int.le_of_eq (congrArg _ (moved.eq_of_sharded old'' old' key' same))
    · have same : third.sharded = copy.sharded := by rw [differ, Bool.eq_not_of_ne layouts]
      rw [moved.eq_of_sharded old'' old (key'.trans key) same]
      exact Int.le_of_lt later

theorem exists_newest (old : IsOldCopy disk top copy) :
    ∃ last, IsNewest disk top last ∧ last.key = copy.key := by
  by_cases newest : IsNewest disk top copy
  · exact ⟨copy, newest, rfl⟩
  · have missed : ¬ ∀ other, IsOldCopy disk top other → other.key = copy.key →
        other.accessed ≤ copy.accessed := fun last => newest ⟨old, last⟩
    push Not at missed
    obtain ⟨other, old', key, later⟩ := missed
    exact ⟨other, moved.isNewest_of_later old old' key later, key⟩

/-- In the order of their access, the files that an inventory lists are those of all copies. -/
theorem exists_copies {files : List FoundFile} (distinct : HasDistinctAccesses after top)
    (listed : files.Perm (Inventory.filesBelow after top)) :
    ∃ copies : List OldCopy, Replay.byAccess files = copies.map OldCopy.found ∧
      (∀ copy, copy ∈ copies ↔ IsOldCopy disk top copy) ∧
      copies.Pairwise fun first second => first.accessed < second.accessed := by
  have sorted : (Replay.byAccess files).Perm (Inventory.filesBelow after top) :=
    Replay.perm_byAccess listed
  let files' : { copy // IsOldCopy disk top copy } → FoundFile := fun copy => copy.val.found
  have covered : Replay.byAccess files ∈ Set.range (List.map files') := by
    rw [Set.range_list_map]
    intro found member
    obtain ⟨kindName, shardName, name, held, path⟩ :=
      Inventory.mem_filesBelow.mp (sorted.mem_iff.mp member)
    obtain ⟨copy, old, place, size, accessed⟩ := moved.exists_copy held
    refine ⟨⟨copy, old⟩, ?_⟩
    simp only [files']
    rw [OldCopy.found, Entry.place_eq_ofNames, place, size, accessed, ← path]
  obtain ⟨olds, covers⟩ := covered
  have same : Replay.byAccess files = (olds.map Subtype.val).map OldCopy.found := by
    rw [← covers, List.map_map]
    rfl
  refine ⟨olds.map Subtype.val, same, fun copy => ⟨fun member => ?_, fun old => ?_⟩, ?_⟩
  · obtain ⟨⟨_, old⟩, -, rfl⟩ := List.mem_map.mp member
    exact old
  · have listed : copy.found ∈ Replay.byAccess files :=
      sorted.mem_iff.mpr (Inventory.mem_filesBelow.mpr
        ⟨_, _, _, moved.lies old, copy.entry.place_eq_ofNames⟩)
    rw [same] at listed
    obtain ⟨other, member, twin⟩ := List.mem_map.mp listed
    obtain ⟨place, size, accessed⟩ := FoundFile.mk.inj twin
    obtain rfl : other = copy := OldCopy.eq_of_location
      (Entry.location_eq_location_iff.mpr (Entry.place_eq_place_iff.mp place)) size accessed
    exact member
  · have ordered := (Replay.isStablySorted_byAccess files).ordered
    have apart := (sorted.map FoundFile.accessed).nodup_iff.mpr distinct.nodup
    rw [same] at ordered apart
    have differ := List.pairwise_map.mp (List.pairwise_map.mp apart)
    exact ((List.pairwise_map.mp ordered).and differ).imp fun ⟨le, ne⟩ =>
      Int.lt_iff_le_and_ne.mpr ⟨le, ne⟩

section Division

variable {copies : List OldCopy} (whole : ∀ copy, copy ∈ copies ↔ IsOldCopy disk top copy)
  (increasing : copies.Pairwise fun first second => first.accessed < second.accessed)

include whole increasing

theorem nodup_older : ((OldCopy.older copies).map OldCopy.key).Nodup := by
  rw [List.Nodup, List.pairwise_map]
  refine (increasing.filter _).imp_of_mem fun {first second} member member' later same => ?_
  obtain ⟨old, -⟩ := (OldCopy.mem_older_iff whole).mp member
  obtain ⟨old', third, old'', key, latest⟩ := (OldCopy.mem_older_iff whole).mp member'
  have newest := moved.isNewest_of_later old old' same.symm later
  exact absurd latest (Int.not_lt.mpr (newest.last third old'' key))

theorem mem_older_keys_iff {key : Key} : key ∈ (OldCopy.older copies).map OldCopy.key ↔
    ∃ flat sharded, IsOldCopy disk top flat ∧ IsOldCopy disk top sharded ∧
      flat.sharded = false ∧ sharded.sharded = true ∧ flat.key = key ∧ sharded.key = key := by
  rw [List.mem_map]
  constructor
  · rintro ⟨copy, member, rfl⟩
    obtain ⟨old, other, old', key, later⟩ := (OldCopy.mem_older_iff whole).mp member
    have layouts : copy.sharded ≠ other.sharded := fun same =>
      Int.lt_irrefl _ (moved.eq_of_sharded old old' key.symm same ▸ later)
    cases layout : copy.sharded with
    | false =>
      rw [layout] at layouts
      exact ⟨copy, other, old, old', layout, (Bool.not_eq_false _).mp layouts.symm, rfl, key⟩
    | true =>
      rw [layout] at layouts
      exact ⟨other, copy, old', old, (Bool.not_eq_true _).mp layouts.symm, layout, key, rfl⟩
  · rintro ⟨flat, sharded, old, old', isFlat, isSharded, rfl, key⟩
    have apart : flat ≠ sharded := by
      rintro rfl
      rw [isFlat] at isSharded
      cases isSharded
    have accesses : (copies.map OldCopy.accessed).Nodup :=
      List.pairwise_map.mpr (increasing.imp fun later => Int.ne_of_lt later)
    have differ : flat.accessed ≠ sharded.accessed := fun same => apart
      (List.inj_on_of_nodup_map accesses ((whole flat).mpr old) ((whole sharded).mpr old') same)
    rcases Int.lt_or_gt_of_ne differ with later | later
    · exact ⟨flat, (OldCopy.mem_older_iff whole).mpr ⟨old, sharded, old', key, later⟩, rfl⟩
    · exact ⟨sharded, (OldCopy.mem_older_iff whole).mpr ⟨old', flat, old, key.symm, later⟩, key⟩

end Division

end HasMovedCopies

/-! ## Adoption -/

namespace Store

/-- Whether a cache consists of the last copies of all keys, in the order of their access, and
nothing else is left on its disk. -/
structure Adopts (disk : Disk) (top : Location) (store : Store) (after : Disk) : Prop where
  root : store.root = ofLocation top
  idle : store.sweeper.queue = []
  distinct : (store.index.entries.map Prod.fst).Nodup
  keys : ∀ key, key ∈ store.index.entries.map Prod.fst ↔
    ∃ copy, IsOldCopy disk top copy ∧ copy.key = key
  ordered : ∃ copies : List OldCopy,
    copies.Pairwise (fun first second => first.accessed < second.accessed) ∧
      (∀ copy, copy ∈ copies ↔ IsNewest disk top copy) ∧
      store.index.entries = copies.map OldCopy.entry
  files : ∀ copy, IsNewest disk top copy →
    store.pathFor copy.key copy.file = ofLocation (top ++ copy.entry.location) ∧
      after.node? (top ++ copy.entry.location) = some (.file copy.size copy.accessed)
  only : ∀ {names size accessed}, after.node? (top ++ names) = some (.file size accessed) →
    ∃ copy, IsNewest disk top copy ∧ copy.entry.location = names
  gone : ∀ kind names, after.node? (oldPlace top kind ++ names) = none
  rejected : store.replayed.rejected = 0
  displaced : store.replayed.displaced = 0
  /-- A key that has a copy in both layouts has one too many. -/
  duplicates : ∃ twice : List Key, twice.Nodup ∧
    (∀ key, key ∈ twice ↔ ∃ flat sharded, IsOldCopy disk top flat ∧ IsOldCopy disk top sharded ∧
      flat.sharded = false ∧ sharded.sharded = true ∧ flat.key = key ∧ sharded.key = key) ∧
    store.replayed.duplicates = twice.length

/-- Where the older copies have been discarded after an upgrade, an index of the others adopts
them. -/
theorem Adopts.of_erased {store : Store} {copies : List OldCopy} {last : Disk}
    (moved : HasMovedCopies disk top after)
    (whole : ∀ copy, copy ∈ copies ↔ IsOldCopy disk top copy)
    (increasing : copies.Pairwise fun first second => first.accessed < second.accessed)
    (gone : ∀ kind names, after.node? (oldPlace top kind ++ names) = none)
    (erased : after.HasErased
      ((OldCopy.older copies).map fun copy => top ++ copy.entry.location) last)
    (root : store.root = ofLocation top) (idle : store.sweeper.queue = [])
    (entries : store.index.entries = (OldCopy.newest copies).map OldCopy.entry)
    (rejected : store.replayed.rejected = 0) (displaced : store.replayed.displaced = 0)
    (duplicates : store.replayed.duplicates = (OldCopy.older copies).length) :
    Adopts disk top store last := by
  have keys : store.index.entries.map Prod.fst = (OldCopy.newest copies).map OldCopy.key := by
    rw [entries, List.map_map]
    rfl
  have mem_newest : ∀ copy, copy ∈ OldCopy.newest copies ↔ IsNewest disk top copy :=
    fun copy => OldCopy.mem_newest_iff whole
  have kept : ∀ copy, IsNewest disk top copy →
      last.node? (top ++ copy.entry.location) = some (.file copy.size copy.accessed) := by
    intro copy newest
    refine erased.node?_eq_some_iff.mpr ⟨moved.lies newest.old, fun discarded => ?_⟩
    obtain ⟨older, member, place⟩ := List.mem_map.mp discarded
    obtain ⟨old, other, old', key, later⟩ := (OldCopy.mem_older_iff whole).mp member
    obtain rfl := moved.eq_of_location old newest.old (List.append_cancel_left place)
    exact absurd later (Int.not_lt.mpr (newest.last other old' key))
  refine
    { root, idle, rejected, displaced
      distinct := keys ▸ OldCopy.nodup_newest whole increasing
      keys := fun key => ?_
      ordered := ⟨OldCopy.newest copies, increasing.filter _, mem_newest, entries⟩
      files := fun copy newest => ⟨?_, kept copy newest⟩
      only := fun {names size accessed} found => ?_
      gone := fun kind names => ?_
      duplicates := ⟨(OldCopy.older copies).map OldCopy.key,
        moved.nodup_older whole increasing, fun key => moved.mem_older_keys_iff whole increasing,
        by rw [duplicates, List.length_map]⟩ }
  · rw [keys, List.mem_map]
    constructor
    · rintro ⟨copy, member, rfl⟩
      exact ⟨copy, ((mem_newest copy).mp member).old, rfl⟩
    · rintro ⟨copy, old, rfl⟩
      obtain ⟨other, newest, key⟩ := moved.exists_newest old
      exact ⟨other, (mem_newest other).mpr newest, key⟩
  · have plain : ∀ name ∈ copy.entry.location, IsPlain name :=
      Disk.isPlain_below (kept copy newest)
    rw [pathFor, root]
    exact @pathUnder_ofLocation top copy.entry plain
  · obtain ⟨held, spared⟩ := erased.node?_eq_some_iff.mp found
    obtain ⟨copy, old, rfl, -, -⟩ := moved.exists_copy held
    refine ⟨copy, (mem_newest copy).mp ?_, rfl⟩
    rw [OldCopy.newest, List.mem_filter, Bool.not_eq_true', Bool.eq_false_iff]
    refine ⟨(whole copy).mpr old, fun older => spared ?_⟩
    exact List.mem_map.mpr ⟨copy, List.mem_filter.mpr ⟨(whole copy).mpr old, older⟩, rfl⟩
  · rw [erased, gone]
    exact ite_self _

theorem exists_opened_iff_takesPaths (host : Host) (usable : settings.fault? = none)
    (leads : disk.LeadsTo settings.baseDirectory top) (former : IsFormer disk top) :
    (∃ store, (start host settings disk).outcome = .ok store) ↔
      TakesPaths settings.baseDirectory disk top := by
  constructor
  · rintro ⟨store, opened⟩
    cases form : settings.baseDirectory.checkForm with
    | error fault =>
      rw [start_of_refused host disk usable form] at opened
      cases opened
    | ok accepted =>
      have lies := liesAt_of_locate (leads.locate_eq form) leads.held
      have admits := admits_of_opened lies former.isOrdinary opened
      exact ⟨form, fun location member => ((admits .directories).2 location member).2,
        fun kind => (admits .upgrade kind).2⟩
  · intro takes
    have lies := liesAt_of_locate (leads.locate_eq takes.base) leads.held
    exact exists_opened lies former.isOrdinary host usable (former.admits takes)
      (by simp [former.filesBelow_withoutOld])

theorem adopts_of_opened {store : Store} (leads : disk.LeadsTo settings.baseDirectory top)
    (former : IsFormer disk top) (distinct : HasDistinctAccesses disk top)
    (fit : CopiesFit disk top settings.maxSize.toNat)
    (opened : (start host settings disk).outcome = .ok store) :
    Adopts disk top store (start host settings disk).disk := by
  obtain ⟨root, ready, scene, files, account, index, last, released, passes, ended⟩ :=
    exists_passes opened
  obtain ⟨middle, other, rfl, prepared⟩ := exists_isPrepared passes.prepared
  obtain ⟨rfl, rfl⟩ :=
    (liesAt_of_locate (leads.locate_eq prepared.form) leads.held).unique prepared.toLiesAt
  obtain ⟨-, upgraded, -, -, listed⟩ := former.isOrdinary.of_passes prepared passes
  have moved := former.hasMovedCopies prepared upgraded
  obtain ⟨copies, found, whole, increasing⟩ := moved.exists_copies
    (former.isOrdinary.hasDistinctAccesses prepared upgraded distinct) listed
  have decoded : (Replay.byAccess files).mapM Replay.decode = .ok (copies.map OldCopy.reading) := by
    rw [found]
    exact OldCopy.mapM_decode copies
  obtain ⟨readings, final, decoded', removed, -⟩ :=
    Replay.exists_of_replay (congrArg ReplayResult.outcome ended)
  obtain rfl : copies.map OldCopy.reading = readings :=
    Except.ok.inj (decoded.symm.trans decoded')
  -- Each copy fits the budget alone, and so do the last ones together.
  have small : ∀ copy ∈ copies, copy.size ≤ settings.maxSize := by
    intro copy member
    have alone := fit [copy] (List.nodup_singleton copy) (by simpa using (whole copy).mp member)
    exact UInt64.le_iff_toNat_le.mpr alone
  obtain ⟨accepted, discarded⟩ := OldCopy.replay_division increasing small
  have together : Index.weight ((Replay.accepted settings.maxSize
      (copies.map OldCopy.reading)).map Replay.Decoded.entry) ≤ settings.maxSize.toNat := by
    rw [accepted, List.map_map]
    exact fit (OldCopy.newest copies)
      (List.Nodup.of_map _ (OldCopy.nodup_newest whole increasing))
      fun copy member => ((OldCopy.mem_newest_iff whole).mp member).old
  obtain ⟨account, index, replayed, rejected, duplicates, displaced, entries⟩ :=
    Replay.exists_replay_of_discardAll (ofLocation top) decoded (List.forall_mem_map.mpr small)
      together removed
  have erased := ((hasReadings_of_inventory listed decoded).discarded settings.maxSize).hasErased
    removed
  rw [discarded, List.map_map] at erased
  have started := passes.start_eq replayed
  obtain rfl := Except.ok.inj (opened.symm.trans (congrArg Opening.outcome started))
  rw [started]
  refine Adopts.of_erased moved whole increasing ?_ erased rfl rfl ?_ rejected displaced ?_
  · exact fun kind names => upgraded.gone kind kind.mem_all names
  · rw [entries, accepted, List.map_map]
    rfl
  · rw [duplicates, discarded, List.length_map]

/-- A digest with a copy in each layout, and another one of an earlier kind. -/
def threeCopies : List OldCopy :=
  [{ key := ⟨.content, firstDigest⟩, sharded := false, size := 4, accessed := 1 },
   { key := ⟨.content, firstDigest⟩, sharded := true, size := 3, accessed := 3 },
   { key := ⟨.action, secondDigest⟩, sharded := false, size := 2, accessed := 2 }]

def oneCopy : List OldCopy :=
  [{ key := ⟨.content, firstDigest⟩, sharded := false, size := 4, accessed := 1 }]

/-- Whether a root holds nothing but copies that a cache should adopt. -/
structure IsAdoptable (settings : Settings) (disk : Disk) (top : Location) : Prop where
  usable : settings.fault? = none
  leads : disk.LeadsTo settings.baseDirectory top
  former : IsFormer disk top
  distinct : HasDistinctAccesses disk top
  fit : CopiesFit disk top settings.maxSize.toNat

theorem isAdoptable_oneCopy (fits : HasShards top) :
    IsAdoptable (tenBytes top) (stocked top oneCopy) top := by
  have furniture : isFurniture (stock oneCopy) = true := by decide +kernel
  have former := isFormer_stocked fits furniture
  have small : Index.weight (oneCopy.map OldCopy.entry) ≤ 10 := by decide
  exact ⟨fault?_tenBytes top, (Disk.leadsTo_of_locate former.held (locate_stocked fits furniture)).1,
    former, hasDistinctAccesses_stocked fits furniture (by decide),
    copiesFit_stocked fits furniture small⟩

theorem start_deep_oneCopy (host : Host) (store : Store) :
    (start host (tenBytes deepLocation) (stocked deepLocation oneCopy)).outcome ≠ .ok store := by
  intro opened
  have fits := hasShards_deepLocation
  have adoptable := isAdoptable_oneCopy fits
  have takes := (exists_opened_iff_takesPaths host adoptable.usable adoptable.leads
    adoptable.former).mp ⟨store, opened⟩
  have old : IsOldFile (stocked deepLocation oneCopy) deepLocation .content
      [nameOf Kind.content.formerDirectory, nameOf firstDigest.text]
      (newNames .content firstDigest "222444666") := by
    refine ⟨.flat firstDigest, 4, 1, ?_⟩
    exact (node?_stocked fits (by decide +kernel)).mpr
      (.inr ⟨_, List.mem_singleton_self _, rfl, rfl⟩)
  exact not_acceptsPaths_deep old (takes.old .content)

end Store

end ArtifactCache
