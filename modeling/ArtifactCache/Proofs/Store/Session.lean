import ArtifactCache.Proofs.Store.Mirror
import ArtifactCache.Proofs.Store.Registration

/-! # The disk in the course of a session

A session opens a cache and then calls it again and again.  The removals that a call has queued
are tried before the next call, in any order.  As long as the system takes the paths of these
removals, the files below the root are those of the index after every call, whether a file is
new, replaces another one, displaces several, or is refused.
-/

namespace ArtifactCache

open DiskPath

/-! ## What an insertion does to the entries -/

namespace Index

variable {key : Key} {file : StoredFile}

theorem perm_filter_location {index : Index} (sound : index.Sound) :
    (index.entries.filter fun other => other.location ≠ Entry.location (key, file)).Perm
      (replaced index.entries key file ++ without index.entries key) := by
  have distinct : index.entries.Nodup := sound.distinct.of_map
  have distinctReplaced : (replaced index.entries key file).Nodup :=
    (nodup_replaced index.entries key file).of_map
  refine (List.perm_ext_iff_of_nodup (distinct.sublist List.filter_sublist) ?_).mpr ?_
  · refine List.nodup_append'.mpr ⟨distinctReplaced, distinct.sublist List.filter_sublist, ?_⟩
    intro other fromReplaced fromOthers
    exact (mem_without.mp fromOthers).2 ((mem_replaced_iff sound.distinct).mp fromReplaced).2.1
  · intro other
    rw [List.mem_filter, decide_eq_true_eq, List.mem_append, mem_replaced_iff sound.distinct,
      mem_without, ne_eq, Entry.location_eq_location_iff]
    by_cases same : other.1 = key
    · simp [same]
    · simp [same]

/-- Of the entries and a new one, none gets lost: but for the entry with the place of the new
one, each stays in the index or is abandoned.  This needs that a file which is refused has a
place of its own. -/
theorem perm_abandoned {index : Index} (sound : index.Sound)
    (apart : index.budget < file.diskSize →
      ∀ other ∈ index.entries, other.location ≠ Entry.location (key, file)) :
    ((index.insert key file).index.entries ++ index.abandoned key file).Perm
      (index.entries.filter (fun other => other.location ≠ Entry.location (key, file)) ++
        [(key, file)]) := by
  by_cases small : file.diskSize ≤ index.budget
  · have admitted : (index.insert key file).admitted = true := admitted_insert.mpr small
    obtain ⟨gone, between, others, released, kept⟩ := exists_split_insert sound small
    rw [abandoned, if_pos admitted, List.append_nil, released, kept]
    calc
      _ = between ++ ([(key, file)] ++ (replaced index.entries key file ++ gone)) :=
        List.append_assoc _ _ _
      List.Perm _ (between ++ (replaced index.entries key file ++ gone ++ [(key, file)])) :=
        List.perm_append_comm.append_left _
      _ = between ++ (replaced index.entries key file ++ gone) ++ [(key, file)] :=
        (List.append_assoc _ _ _).symm
      List.Perm _ (replaced index.entries key file ++ gone ++ between ++ [(key, file)]) :=
        List.perm_append_comm.append_right _
      _ = replaced index.entries key file ++ without index.entries key ++ [(key, file)] := by
        rw [List.append_assoc _ gone, others]
      List.Perm _ _ := (perm_filter_location sound).symm.append_right _
  · have large := UInt64.not_le.mp small
    have all : (index.entries.filter fun other =>
        other.location ≠ Entry.location (key, file)) = index.entries :=
      List.filter_eq_self.mpr fun other member => decide_eq_true (apart large other member)
    rw [abandoned, insert_of_lt large, all]
    exact .refl _

theorem mem_insert {index : Index} (sound : index.Sound) {entry : Entry}
    (member : entry ∈ (index.insert key file).index.entries) :
    entry ∈ index.entries ∨ entry = (key, file) ∧ file.diskSize ≤ index.budget := by
  by_cases small : file.diskSize ≤ index.budget
  · obtain ⟨gone, between, others, -, kept⟩ := exists_split_insert sound small
    rw [kept, List.mem_append, List.mem_singleton] at member
    rcases member with old | new
    · have among : entry ∈ without index.entries key := others ▸ List.mem_append_right gone old
      exact .inl (mem_without.mp among).1
    · exact .inr ⟨new, small⟩
  · rw [insert_of_lt (UInt64.not_le.mp small)] at member
    exact .inl member

theorem used_insert_le {index : Index} (sound : index.Sound) (fits : index.used ≤ index.budget) :
    (index.insert key file).index.used ≤ index.budget := by
  by_cases small : file.diskSize ≤ index.budget
  · obtain ⟨gone, kept, -, longest, inserted⟩ := insert_of_le sound small
    rw [inserted]
    exact longest.fits
  · rw [insert_of_lt (UInt64.not_le.mp small)]
    exact fits

theorem perm_touch {index : Index} (sound : index.Sound) (key : Key) :
    (index.touch key).2.entries.Perm index.entries := by
  cases found : find? index.entries key with
  | none => simp only [touch, found, List.Perm.refl]
  | some entry =>
    obtain ⟨member, rfl⟩ := mem_of_find? found
    have distinct := sound.distinct
    rw [touch_of_found found]
    refine (List.perm_ext_iff_of_nodup (nodup_renewed _ _ distinct).of_map distinct.of_map).mpr ?_
    intro other
    rw [renewed, List.mem_append, mem_without, List.mem_singleton]
    constructor
    · rintro (⟨old, -⟩ | rfl)
      · exact old
      · exact member
    · intro old
      by_cases same : other.1 = entry.1
      · exact .inr (List.inj_on_of_nodup_map distinct old member same)
      · exact .inl ⟨old, same⟩

theorem used_touch (index : Index) (key : Key) : (index.touch key).2.used = index.used := by
  rw [touch]
  cases find? index.entries key <;> rfl

end Index

namespace Store

/-! ## Sessions -/

/-- The cache after all queued removals have been tried. -/
def idle (store : Store) : Store :=
  { store with sweeper := { store.sweeper with queue := [] } }

/-- Whether a file may be registered: its name can be read again, and it is not too large for
the cache where an entry lies at its place already. -/
structure MayRegister (store : Store) (key : Key) (file : StoredFile) : Prop where
  valid : isToken file.token = true
  positive : ¬ file.NamesZero key
  fits : ∀ entry ∈ store.index.entries,
    store.pathFor entry.1 entry.2 = store.pathFor key file → file.diskSize ≤ store.index.budget

/-- Whether a call leads from one state of a cache and its disk to another one, once the removals
that it has queued have been tried in some order.  A file is registered right after it has been
written to its place.  To ask whether a key is there changes nothing. -/
inductive Turn : List DiskPath → Store × Disk → Store × Disk → Prop
  | fetched {store disk} (key : Key) : Turn [] (store, disk) ((store.get key).2, disk)
  | sought {store disk} (key : Key) : Turn [] (store, disk) (store, disk)
  | registered {store disk key file accessed written order} (may : store.MayRegister key file)
      (done : disk.write (store.pathFor key file) file.diskSize accessed = .ok written)
      (swept : order.Perm (store.insert key file).2.sweeper.queue) :
    Turn order (store, disk)
      ((store.insert key file).2.idle, (Sweeper.attemptAll order written).1)

/-- Whether a session leads to a state of a cache and its disk, with all paths that have been
handed to the sweeper. -/
inductive Session (host : Host) (settings : Settings) (disk : Disk) :
    List DiskPath → Store × Disk → Prop
  | opened {store order} (opened : (start host settings disk).outcome = .ok store)
      (swept : order.Perm store.sweeper.queue) :
    Session host settings disk order
      (store.idle, (Sweeper.attemptAll order (start host settings disk).disk).1)
  | next {removed order state state'} (session : Session host settings disk removed state)
      (turn : Turn order state state') : Session host settings disk (removed ++ order) state'

/-! ## The invariant -/

/-- Whether the disk of a cache is in order between two calls: it has the layout and holds the
files of the index, each of which fits the budget alone and can be read again. -/
structure IsInOrder (top : Location) (budget : UInt64) (store : Store) (disk : Disk) : Prop where
  root : store.root = ofLocation top
  idle : store.sweeper.queue = []
  short : ∀ location ∈ shardLocations top, (ofLocation location).bytes.length ≤ longestPath
  layout : Inventory.IsLayout disk top
  holds : disk.Holds top store.index.entries
  sound : store.index.Sound
  budget_eq : store.index.budget = budget
  fits : store.index.used ≤ budget
  each : ∀ entry ∈ store.index.entries, entry.2.diskSize ≤ budget ∧
    ∃ reading, readPlace entry.place entry.2.diskSize = .ok reading

variable {host : Host} {settings : Settings} {budget : UInt64} {store : Store}
  {disk changed : Disk} {top : Location} {key : Key} {file : StoredFile}
  {order removed : List DiskPath}

theorem hasErased_of_short {kept gone : List Entry} (holds : disk.Holds top (kept ++ gone))
    (swept : order.Perm (gone.map fun entry => pathUnder (ofLocation top) entry.1 entry.2))
    (short : ∀ path ∈ order, path.bytes.length ≤ longestPath) :
    disk.HasErased (gone.map fun entry => top ++ entry.location)
      (Sweeper.attemptAll order disk).1 := by
  obtain ⟨erased, -⟩ := hasErased_of_holds holds swept
  have free : ∀ entry ∈ gone, (!isStuck (ofLocation top) entry) = true := by
    intro entry member
    have queued := swept.mem_iff.mpr (List.mem_map_of_mem member)
    simpa [isStuck] using short _ queued
  rwa [List.filter_eq_self.mpr free] at erased

theorem exists_isInOrder_of_start (opened : (start host settings disk).outcome = .ok store)
    (swept : order.Perm store.sweeper.queue)
    (short : ∀ path ∈ order, path.bytes.length ≤ longestPath) :
    ∃ top, store.idle.IsInOrder top settings.maxSize
      (Sweeper.attemptAll order (start host settings disk).disk).1 := by
  obtain ⟨root, ready, scene, files, account, index, last, released, passes, replayed⟩ :=
    exists_passes opened
  have whole := passes.start_eq replayed
  rw [whole] at opened ⊢
  obtain rfl := Except.ok.inj opened
  obtain ⟨top, rfl, held, layout, listed, shortShards⟩ := passes.exists_layout
  have left := isReplayed_of_replay held layout listed replayed
  dsimp only at swept ⊢
  rw [queue_queueReleased, Sweeper.create, List.nil_append] at swept
  have erased := hasErased_of_short left.holds swept short
  exact ⟨top,
    { root := rfl
      idle := rfl
      short := shortShards
      layout := left.layout.erased erased
      holds := left.holds.erased erased
      sound := left.sound
      budget_eq := left.budget_eq
      fits := left.fits
      each := fun entry member =>
        ⟨(left.each entry member).1, entry, (left.each entry member).2⟩ }⟩

theorem noLinks_of_isLayout (held : disk.node? top = some .directory)
    (layout : Inventory.IsLayout disk top) (entry : Entry) :
    disk.NoLinks (top ++ entry.location) := by
  intro above beginning target found
  rcases List.prefix_or_prefix_of_prefix beginning (List.prefix_append top _) with
    outside | ⟨names, rfl⟩
  · rcases Disk.clear_of_node? held above outside with missing | directory
    · rw [missing] at found
      cases found
    · rw [directory] at found
      cases found
  · cases names with
    | nil =>
      rw [List.append_nil, held] at found
      cases found
    | cons kindName below =>
      rcases layout.directory_or_file found with directory | ⟨isFile, -⟩
      · cases directory
      · cases isFile

theorem steps_pathUnder (held : disk.node? top = some .directory)
    (single : slash ∉ nameOf (file.fileName key)) :
    (pathUnder (ofLocation top) key file).steps =
      (top ++ Entry.shardLocation (key, file) ++ [nameOf (file.fileName key)]).map .into := by
  rw [pathUnder, steps_join (isAbsolute_placeOf key file), steps_placeOf single,
    steps_ofLocation (Disk.isPlain_of_node? held), List.append_assoc, List.map_append]
  rfl

theorem append_location (top : Location) (key : Key) (file : StoredFile) :
    top ++ Entry.location (key, file) =
      top ++ Entry.shardLocation (key, file) ++ [nameOf (file.fileName key)] := by
  rw [Entry.location_eq, List.append_assoc]
  rfl

theorem hasWritten_of_isLayout (held : disk.node? top = some .directory)
    (layout : Inventory.IsLayout disk top) (valid : isToken file.token = true)
    {accessed : Instant}
    (done : disk.write (pathUnder (ofLocation top) key file) file.diskSize accessed =
      .ok changed) :
    disk.HasWritten (top ++ Entry.location (key, file)) (.file file.diskSize accessed) changed := by
  have single : slash ∉ nameOf (file.fileName key) := StoredFile.slash_notMem_fileName valid
  have noSlash : (pathUnder (ofLocation top) key file).endsInSlash = false :=
    endsInSlash_join_placeOf _ single
  have noLinks := noLinks_of_isLayout held layout (key, file)
  rw [append_location] at noLinks ⊢
  exact (Disk.hasWritten_of_write (steps_pathUnder held single) noSlash noLinks done).2.2

theorem exists_write_of_isLayout (layout : Inventory.IsLayout disk top)
    (shard : disk.node? (top ++ Entry.shardLocation (key, file)) = some .directory)
    (plain : IsPlain (nameOf (file.fileName key)))
    (short : (ofLocation (top ++ Entry.location (key, file))).bytes.length ≤ longestPath)
    (accessed : Instant) :
    ∃ written, disk.write (pathUnder (ofLocation top) key file) file.diskSize accessed =
      .ok written := by
  have names := @Entry.isPlain_location (key, file) plain
  rw [@pathUnder_ofLocation top (key, file) names]
  cases found : disk.node? (top ++ Entry.location (key, file)) with
  | none =>
    rw [append_location] at found short ⊢
    exact Disk.exists_write_of_missing shard plain found short file.diskSize accessed
  | some node =>
    have isFile := layout.files found
    cases node with
    | file former since => exact Disk.exists_write_of_file found short file.diskSize accessed
    | directory | link | pipe => cases isFile

theorem IsInOrder.hasWritten (inOrder : store.IsInOrder top budget disk)
    (may : store.MayRegister key file) {accessed : Instant}
    (done : disk.write (store.pathFor key file) file.diskSize accessed = .ok changed) :
    disk.HasWritten (top ++ Entry.location (key, file)) (.file file.diskSize accessed) changed := by
  rw [pathFor, inOrder.root] at done
  exact hasWritten_of_isLayout inOrder.holds.root inOrder.layout may.valid done

theorem MayRegister.apart (may : store.MayRegister key file)
    (large : store.index.budget < file.diskSize) :
    ∀ other ∈ store.index.entries, other.location ≠ Entry.location (key, file) := by
  intro other member same
  have paths : store.pathFor other.1 other.2 = store.pathFor key file :=
    congrArg (fun names => store.root.join (ofNames names)) same
  exact UInt64.not_le.mpr large (may.fits other member paths)

/-- A registration keeps a cache in order, whether it admits the file or not. -/
theorem IsInOrder.registered (inOrder : store.IsInOrder top budget disk)
    (may : store.MayRegister key file) {accessed : Instant}
    (done : disk.write (store.pathFor key file) file.diskSize accessed = .ok changed)
    (swept : order.Perm (store.insert key file).2.sweeper.queue)
    (short : ∀ path ∈ order, path.bytes.length ≤ longestPath) :
    (store.insert key file).2.idle.IsInOrder top budget
      (Sweeper.attemptAll order changed).1 := by
  have written := inOrder.hasWritten may done
  have holds : changed.Holds top ((store.index.insert key file).index.entries ++
      store.index.abandoned key file) :=
    (inOrder.holds.written written).perm (Index.perm_abandoned inOrder.sound may.apart).symm
  rw [insert_of_positive store may.positive] at swept ⊢
  dsimp only at swept ⊢
  rw [queue_queueReleased, inOrder.idle, List.nil_append, inOrder.root] at swept
  have erased := hasErased_of_short holds swept short
  exact
    { root := inOrder.root
      idle := rfl
      short := inOrder.short
      layout := (inOrder.layout.written written).erased erased
      holds := holds.erased erased
      sound := inOrder.sound.insert key file
      budget_eq := (Index.budget_perform store.index (.insert key file)).trans inOrder.budget_eq
      fits := by
        rw [← inOrder.budget_eq]
        exact Index.used_insert_le inOrder.sound (inOrder.budget_eq ▸ inOrder.fits)
      each := by
        intro entry member
        rcases Index.mem_insert inOrder.sound member with old | ⟨rfl, small⟩
        · exact inOrder.each entry old
        · exact ⟨inOrder.budget_eq ▸ small, _, readPlace_placeOf may.valid may.positive⟩ }

theorem IsInOrder.fetched (inOrder : store.IsInOrder top budget disk) (key : Key) :
    (store.get key).2.IsInOrder top budget disk := by
  have same := Index.perm_touch inOrder.sound key
  exact
    { root := inOrder.root
      idle := inOrder.idle
      short := inOrder.short
      layout := inOrder.layout
      holds := inOrder.holds.perm same.symm
      sound := inOrder.sound.touch key
      budget_eq := (Index.budget_perform store.index (.touch key)).trans inOrder.budget_eq
      fits := (Index.used_touch store.index key).symm ▸ inOrder.fits
      each := fun entry member => inOrder.each entry (same.mem_iff.mp member) }

theorem IsInOrder.turn {state state' : Store × Disk}
    (inOrder : state.1.IsInOrder top budget state.2) (turn : Turn order state state')
    (short : ∀ path ∈ order, path.bytes.length ≤ longestPath) :
    state'.1.IsInOrder top budget state'.2 := by
  cases turn with
  | fetched key => exact inOrder.fetched key
  | sought key => exact inOrder
  | registered may done swept => exact inOrder.registered may done swept short

/-- A session keeps the disk in order if the system takes the paths of all removals. -/
theorem Session.isInOrder {state : Store × Disk}
    (session : Session host settings disk removed state)
    (short : ∀ path ∈ removed, path.bytes.length ≤ longestPath) :
    ∃ top, state.1.IsInOrder top settings.maxSize state.2 := by
  induction session with
  | opened opened swept => exact exists_isInOrder_of_start opened swept short
  | next _ turn ih =>
    obtain ⟨earlier, later⟩ := List.forall_mem_append.mp short
    obtain ⟨top, inOrder⟩ := ih earlier
    exact ⟨top, inOrder.turn turn later⟩

end Store

end ArtifactCache
