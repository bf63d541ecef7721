import ArtifactCache.Proofs.Store.Upkeep

/-! # Opening a directory once more

Startup is all or nothing: one file that cannot be read is enough, and the cache does not open.
So whatever a registration says, it must leave nothing but files that can be read.

It does, with one exception.  A blob whose name carries the size zero is refused with a fault, but
nobody removes the file that was written for it, and as long as this file lies there the directory
cannot be opened.  In all other cases it can, unless the system does not take the path of a file
that has to be discarded.
-/

namespace ArtifactCache.Store

open DiskPath

/-! ## The state of an open cache -/

/-- Whether an event writes a file that can be read again, if it writes one. -/
def Event.WritesReadably : Event → Prop
  | .written key file _ => isToken file.token = true ∧ ¬ file.NamesZero key
  | _ => True

/-- Whether a cache and its disk can come to a state while no file is written that cannot be read.
Everything else may happen: files are registered whether they are there or not, and the index is
operated directly. -/
inductive Tended (host : Host) (settings : Settings) (disk : Disk) : Store × Disk → Prop
  | opened {store} (opened : (start host settings disk).outcome = .ok store) :
    Tended host settings disk (store, (start host settings disk).disk)
  | step {event state state'} (tended : Tended host settings disk state)
      (step : Step event state state') (readably : event.WritesReadably) :
    Tended host settings disk state'
  | operated {store now} (tended : Tended host settings disk (store, now))
      (operation : Index.Operation) : Tended host settings disk (store.operate operation, now)

variable {host : Host} {settings again : Settings} {disk after ready : Disk} {top : Location}
  {scene : Upgrade.Scene} {files : List FoundFile} {key : Key} {file : StoredFile}

/-- What remains true of the root of a cache as long as it is tended. -/
structure IsTended (top : Location) (store : Store) (disk : Disk) : Prop where
  root : store.root = ofLocation top
  short : ∀ location ∈ shardLocations top, (ofLocation location).bytes.length ≤ longestPath
  cache : disk.HasCache top
  readable : disk.IsReadable top

theorem IsTended.step {event : Event} {state state' : Store × Disk}
    (tended : IsTended top state.1 state.2) (step : Step event state state')
    (readably : event.WritesReadably) : IsTended top state'.1 state'.2 := by
  obtain ⟨root, short, cache, readable⟩ := tended
  cases step with
  | written done =>
    obtain ⟨valid, positive⟩ := readably
    rw [pathFor, root] at done
    have written := hasWritten_of_isLayout cache.held cache.layout valid done
    exact ⟨root, short, cache.written written, readable.written valid positive written⟩
  | inserted key file => exact ⟨(root_insert _ key file).trans root, short, cache, readable⟩
  | fetched key => exact ⟨root, short, cache, readable⟩
  | forgotten key => exact ⟨root, short, cache, readable⟩
  | @swept _ now path queued =>
    have loses := Sweeper.loses_attempt now path
    exact ⟨root, short, cache.loses loses, readable.loses loses⟩

theorem Tended.exists_isTended {state : Store × Disk} (tended : Tended host settings disk state) :
    ∃ top, IsTended top state.1 state.2 := by
  induction tended with
  | opened opened =>
    obtain ⟨top, released, root, -, short, -, cache, readable⟩ := exists_isReplayed_of_start opened
    exact ⟨top, root, short, cache, readable⟩
  | step _ step readably ih =>
    obtain ⟨top, tended⟩ := ih
    exact ⟨top, tended.step step readably⟩
  | operated _ operation ih =>
    obtain ⟨top, root, short, cache, readable⟩ := ih
    exact ⟨top, root, short, cache, readable⟩

/-! ## How an opening ends -/

/-- Whether an opening succeeds, unless the system does not take the path of a file that lies
below the root and has to be discarded. -/
def OpensUnlessStuck (disk : Disk) (top : Location) (opening : Opening) : Prop :=
  (∃ store, opening.outcome = .ok store) ∨
    ∃ found ∈ Inventory.filesBelow disk top,
      longestPath < ((ofLocation top).join found.path).bytes.length ∧
        opening.outcome = .error (.startup .replay
          (.disk ((ofLocation top).join found.path) "remove rejected file" .nameTooLong))

section Endings

variable (passes : Passes host settings disk (ofLocation top) ready scene files)
  (listed : files.Perm (Inventory.filesBelow scene.disk top))

include passes listed

theorem Passes.opensUnlessStuck (readable : scene.disk.IsReadable top) :
    OpensUnlessStuck scene.disk top (start host settings disk) := by
  rw [passes.start_eq_ended, ended]
  cases outcome : (replay (ofLocation top) files (.empty settings.maxSize) scene.disk).outcome with
  | ok account => exact .inl ⟨_, rfl⟩
  | error failure =>
    obtain ⟨readings, decoded⟩ := (exists_decoded_iff listed).mpr readable
    -- All files can be read, so only a removal can have stopped the replay.
    rcases Replay.error_of_replay outcome with ⟨unread, -⟩ | ⟨others, same, stopped⟩
    · rw [decoded] at unread
      cases unread
    · obtain rfl : readings = others := Except.ok.inj (decoded.symm.trans same)
      have read := (hasReadings_of_inventory listed decoded).discarded settings.maxSize
      obtain ⟨reading, member, long, rfl⟩ := read.exists_long stopped
      have division := Replay.perm_accepted_discarded settings.maxSize readings
      obtain ⟨found, among, decodes⟩ := exists_item_of_mapM_eq_ok decoded
        (division.mem_iff.mp (List.mem_append_right _ member))
      have sorted : (Replay.byAccess files).Perm (Inventory.filesBelow scene.disk top) :=
        Replay.perm_byAccess listed
      rw [Replay.path_of_decode decodes] at long ⊢
      exact .inr ⟨found, sorted.mem_iff.mp among, long, rfl⟩

/-- A file that cannot be read stops an opening.  If there is only one reason why files cannot be
read, the opening gives this reason. -/
theorem Passes.outcome_of_unreadable {found : FoundFile} {cause : Failure}
    (member : found ∈ Inventory.filesBelow scene.disk top)
    (unread : Replay.decode found = .error cause)
    (others : ∀ other ∈ Inventory.filesBelow scene.disk top, ∀ failure,
      Replay.decode other = .error failure → failure = cause) :
    (start host settings disk).outcome = .error (.startup .replay cause) := by
  have sorted : (Replay.byAccess files).Perm (Inventory.filesBelow scene.disk top) :=
    Replay.perm_byAccess listed
  have refuses : ∀ readings, (Replay.byAccess files).mapM Replay.decode ≠ .ok readings := by
    intro readings decoded
    obtain ⟨reading, -, reads⟩ := exists_of_mapM_eq_ok decoded (sorted.mem_iff.mpr member)
    rw [unread] at reads
    cases reads
  rw [passes.start_eq_ended, ended]
  cases outcome : (replay (ofLocation top) files (.empty settings.maxSize) scene.disk).outcome with
  | ok account =>
    obtain ⟨readings, -, decoded, -⟩ := Replay.exists_of_replay outcome
    exact absurd decoded (refuses readings)
  | error failure =>
    rcases Replay.error_of_replay outcome with ⟨stopped, -⟩ | ⟨readings, decoded, -⟩
    · obtain ⟨other, among, reason⟩ := exists_item_of_mapM_eq_error stopped
      obtain rfl := others other (sorted.mem_iff.mp among) failure reason
      rfl
    · exact absurd decoded (refuses readings)

end Endings

/-! ## After a registration -/

/-- The failure that an opening ends with when it finds the file of a blob whose name carries the
size zero. -/
def zeroNamed (key : Key) (file : StoredFile) : Failure :=
  .unrecognizedFile (placeOf key file)
    (PlaceFault.name { input := file.fileName key, fault := .size }).message

theorem mem_filesBelow_iff_of_same {found : FoundFile}
    (same : ∀ kindName shardName name, after.node? (top ++ [kindName, shardName, name]) =
      disk.node? (top ++ [kindName, shardName, name])) :
    found ∈ Inventory.filesBelow after top ↔ found ∈ Inventory.filesBelow disk top := by
  simp only [Inventory.mem_filesBelow, same]

theorem OpensUnlessStuck.of_same {opening : Opening} (opens : OpensUnlessStuck after top opening)
    (same : ∀ kindName shardName name, after.node? (top ++ [kindName, shardName, name]) =
      disk.node? (top ++ [kindName, shardName, name])) : OpensUnlessStuck disk top opening := by
  rcases opens with opened | ⟨found, member, stuck⟩
  · exact .inl opened
  · exact .inr ⟨found, (mem_filesBelow_iff_of_same same).mp member, stuck⟩

theorem isReady_of_hasCache (cache : disk.HasCache top)
    (short : ∀ location ∈ shardLocations top, (ofLocation location).bytes.length ≤ longestPath) :
    IsReady disk top where
  plain := Disk.isPlain_of_node? cache.held
  clear := clear_of_isLayout cache.held cache.layout
  short := short
  layout := cache.layout

/-- Where all files can be read, an opening succeeds but for paths that the system does not take. -/
theorem opensUnlessStuck_of_isReadable (host : Host) (cache : disk.HasCache top)
    (short : ∀ location ∈ shardLocations top, (ofLocation location).bytes.length ≤ longestPath)
    (readable : disk.IsReadable top) (usable : again.fault? = none)
    (named : disk.canonical again.baseDirectory = .ok (ofLocation top)) :
    OpensUnlessStuck disk top (start host again disk) := by
  obtain ⟨ready, files, passes, listed, same⟩ :=
    (isReady_of_hasCache cache short).exists_passes host cache.held usable named
  exact (passes.opensUnlessStuck listed (readable.of_same same)).of_same same

/-- As long as the file of a blob lies there whose name carries the size zero, an opening fails
and names this file. -/
theorem outcome_of_namesZero (host : Host) (cache : disk.HasCache top)
    (short : ∀ location ∈ shardLocations top, (ofLocation location).bytes.length ≤ longestPath)
    (valid : isToken file.token = true) (zero : file.NamesZero key)
    (lies : ∃ size accessed, disk.node? (top ++ Entry.location (key, file)) =
      some (.file size accessed))
    (others : ∀ found ∈ Inventory.filesBelow disk top,
      (∃ reading, Replay.decode found = .ok reading) ∨ found.path = placeOf key file)
    (usable : again.fault? = none)
    (named : disk.canonical again.baseDirectory = .ok (ofLocation top)) :
    (start host again disk).outcome = .error (.startup .replay (zeroNamed key file)) := by
  obtain ⟨ready, files, passes, listed, same⟩ :=
    (isReady_of_hasCache cache short).exists_passes host cache.held usable named
  obtain ⟨size, accessed, lies⟩ := lies
  -- The reading fails with the same reason for whatever lies at this place.
  have unread : ∀ found : FoundFile, found.path = placeOf key file →
      Replay.decode found = .error (zeroNamed key file) := by
    intro found path
    rw [Replay.decode, path, readPlace_of_namesZero valid zero]
    rfl
  have member : { path := placeOf key file, size, accessed } ∈ Inventory.filesBelow ready top :=
    (mem_filesBelow_iff_of_same same).mpr (Inventory.mem_filesBelow.mpr ⟨_, _, _, lies, rfl⟩)
  refine passes.outcome_of_unreadable listed member (unread _ rfl) fun other among failure reason =>
    ?_
  rcases others other ((mem_filesBelow_iff_of_same same).mp among) with ⟨reading, reads⟩ | path
  · rw [reason] at reads
    cases reads
  · exact Except.error.inj (reason.symm.trans (unread other path))

/-- Whatever a registration says of a file that has just been written, the directory can be opened
again when the queued removals have been tried, in any order and even if some of them never are, but
for paths that the system does not take.  The exception is a blob whose name carries the size zero:
nothing removes its file, and as long as it lies there the directory cannot be opened. -/
theorem reopens_unless_blob_names_zero (host host' : Host) (settings again : Settings)
    (disk before written : Disk) (store : Store) (key : Key) (file : StoredFile)
    (accessed : Instant) (order : List DiskPath)
    (tended : Tended host settings disk (store, before)) (valid : isToken file.token = true)
    (done : before.write (store.pathFor key file) file.diskSize accessed = .ok written)
    (usable : again.fault? = none)
    (named : (Sweeper.attemptAll order written).1.canonical again.baseDirectory =
      .ok store.root) :
    ∃ top, store.root = ofLocation top ∧
      let settled := (Sweeper.attemptAll order written).1
      settled.node? top = some .directory ∧
      if file.NamesZero key then
        (store.insert key file).1 =
            .error (.invalidKey key.digest.text "cas entries must have a positive logical size") ∧
          ((∃ size accessed, settled.node? (top ++ Entry.location (key, file)) =
              some (.file size accessed)) →
            (start host' again settled).outcome = .error (.startup .replay (zeroNamed key file)))
      else
        (∃ admitted, (store.insert key file).1 = .ok admitted) ∧
          OpensUnlessStuck settled top (start host' again settled) := by
  obtain ⟨top, root, short, cache, readable⟩ := tended.exists_isTended
  rw [pathFor, root] at done
  rw [root] at named
  have hasWritten := hasWritten_of_isLayout cache.held cache.layout valid done
  -- Removals take nothing but files away, so the layout and the readings outlast them.
  have loses := Sweeper.loses_attemptAll order written
  have settled := (cache.written hasWritten).loses loses
  refine ⟨top, root, settled.held, ?_⟩
  split
  next zero =>
    refine ⟨by rw [insert_of_namesZero store zero], fun lies => ?_⟩
    refine outcome_of_namesZero host' settled short valid zero lies (fun found member => ?_) usable
      named
    obtain ⟨kindName, shardName, name, held, path⟩ := Inventory.mem_filesBelow.mp member
    have among : found ∈ Inventory.filesBelow written top :=
      Inventory.mem_filesBelow.mpr ⟨_, _, _, loses.found held, path⟩
    rcases hasWritten.mem_filesBelow among with old | ⟨own, -⟩
    · exact .inl (readable found old)
    · exact .inr own
  next positive =>
    refine ⟨⟨_, by rw [insert_of_positive store positive]⟩, ?_⟩
    exact opensUnlessStuck_of_isReadable host' settled short
      ((readable.written valid positive hasWritten).loses loses) usable named

/-- A blob without content, which bears the size zero in its name. -/
def emptyBlob : Entry :=
  ({ kind := .content, digest := actionKey.digest }, actionFile 0)

theorem exists_write_of_empty {store : Store} (key : Key) (file : StoredFile)
    (opened : (start host settings disk).outcome = .ok store) (root : store.root = ofLocation top)
    (plainTop : ∀ name ∈ top, IsPlain name) (empty : store.index.entries = [])
    (idle : store.sweeper.queue = [])
    (shards : ∀ location ∈ shardLocations top,
      (start host settings disk).disk.node? location = some .directory)
    (valid : isToken file.token = true) (plain : IsPlain (nameOf (file.fileName key)))
    (short : (ofLocation (top ++ Entry.location (key, file))).bytes.length ≤ longestPath)
    (accessed : Instant) :
    ∃ written,
      (start host settings disk).disk.write (store.pathFor key file) file.diskSize accessed =
        .ok written ∧
      written.HasCache top ∧
      (∀ location ∈ shardLocations top, (ofLocation location).bytes.length ≤ longestPath) ∧
      written.node? (top ++ Entry.location (key, file)) = some (.file file.diskSize accessed) ∧
      ∀ found ∈ Inventory.filesBelow written top, found.path = placeOf key file := by
  obtain ⟨other, released, same, queued, shortShards, left, cache, -⟩ :=
    exists_isReplayed_of_start opened
  obtain rfl : other = top := ofLocation_injective (Disk.isPlain_of_node? cache.held) plainTop
    (same.symm.trans root)
  obtain rfl : released = [] := List.map_eq_nil_iff.mp (queued.symm.trans idle)
  have nothing := left.holds
  rw [empty, List.append_nil] at nothing
  obtain ⟨written, done⟩ := exists_write_of_isLayout cache.layout
    (shards _ (shardLocation_mem other (key, file))) plain short accessed
  have hasWritten := hasWritten_of_isLayout cache.held cache.layout valid done
  rw [← root] at done
  refine ⟨written, done, cache.written hasWritten, shortShards,
    (hasWritten _).trans (if_pos rfl), fun found member => ?_⟩
  rcases hasWritten.mem_filesBelow member with old | ⟨path, -⟩
  · obtain ⟨kindName, shardName, name, lies, -⟩ := Inventory.mem_filesBelow.mp old
    obtain ⟨-, kind, rfl⟩ := cache.layout.kinds
      (Disk.directory_of_prefix lies (show other ++ [kindName] <+: _ by simp) (by simp))
    obtain ⟨entry, none, -⟩ := nothing.mem_iff.mp ⟨_, lies⟩
    cases none
  · exact path

/-- Eleven bytes are refused in a cache for ten.  Once they have been removed, the directory is
opened again. -/
theorem reopens_after_refusal : ∃ store written settled reopened,
    Tended .orderly (tenBytes []) (laidOut [] [])
        (store, (start .orderly (tenBytes []) (laidOut [] [])).disk) ∧
      (start .orderly (tenBytes []) (laidOut [] [])).disk.write
        (store.pathFor actionKey (actionFile 11)) 11 1 = .ok written ∧
      (store.insert actionKey (actionFile 11)).1 = .ok false ∧
      settled = (Sweeper.attemptAll
        (store.insert actionKey (actionFile 11)).2.sweeper.queue written).1 ∧
      (start .orderly (tenBytes []) settled).outcome = .ok reopened := by
  obtain ⟨store, opened, root, index, queue, shards⟩ := exists_start_empty
  have plain : ∀ name ∈ ([] : Location), IsPlain name := by simp
  obtain ⟨written, done, cache, short, -, only⟩ := exists_write_of_empty actionKey (actionFile 11)
    opened root plain (by rw [index]; rfl) queue shards (by decide)
    (isPlainName_iff.mp (by decide +kernel)) (by decide +kernel) 1
  have loses := Sweeper.loses_attemptAll
    (store.insert actionKey (actionFile 11)).2.sweeper.queue written
  have refused : (store.insert actionKey (actionFile 11)).1 = .ok false := by
    rw [insert_of_positive _ (by decide), index]
    exact congrArg Except.ok (by decide +kernel)
  obtain ⟨top, sameRoot, held, outcome⟩ := reopens_unless_blob_names_zero .orderly .orderly
    (tenBytes []) (tenBytes []) (laidOut [] []) _ written store actionKey (actionFile 11) 1
    (store.insert actionKey (actionFile 11)).2.sweeper.queue (.opened opened) (by decide) done
    (fault?_tenBytes [])
    (root ▸ Disk.canonical_ofLocation (cache.loses loses).held (short_root short))
  rw [if_neg (by decide)] at outcome
  obtain ⟨-, ⟨reopened, again⟩ | ⟨found, member, long, -⟩⟩ := outcome
  · exact ⟨store, written, _, reopened, .opened opened, done, refused, rfl, again⟩
  · obtain rfl : top = [] := ofLocation_injective (Disk.isPlain_of_node? held) plain
      (sameRoot.symm.trans root)
    obtain ⟨kindName, shardName, name, lies, path⟩ := Inventory.mem_filesBelow.mp member
    have own := only found (Inventory.mem_filesBelow.mpr ⟨_, _, _, loses.found lies, path⟩)
    rw [own] at long
    exact absurd long (by decide +kernel)

/-- A blob without content is refused with a fault, but its file stays, and nobody can open the
directory again. -/
theorem empty_blob_prevents_reopening : ∃ store written,
    Tended .orderly (tenBytes []) (laidOut [] [])
        (store, (start .orderly (tenBytes []) (laidOut [] [])).disk) ∧
      isToken emptyBlob.2.token = true ∧
      (start .orderly (tenBytes []) (laidOut [] [])).disk.write
        (store.pathFor emptyBlob.1 emptyBlob.2) 0 1 = .ok written ∧
      (∃ failure, (store.insert emptyBlob.1 emptyBlob.2).1 = .error failure) ∧
      (store.insert emptyBlob.1 emptyBlob.2).2.sweeper.queue = [] ∧
      written.canonical (tenBytes []).baseDirectory = .ok store.root ∧
      ∀ (host : Host) (reopened : Store),
        (start host (tenBytes []) written).outcome ≠ .ok reopened := by
  obtain ⟨store, opened, root, index, queue, shards⟩ := exists_start_empty
  have plain : ∀ name ∈ ([] : Location), IsPlain name := by simp
  have zero : emptyBlob.2.NamesZero emptyBlob.1 := by decide
  obtain ⟨written, done, cache, short, lies, only⟩ := exists_write_of_empty emptyBlob.1 emptyBlob.2
    opened root plain (by rw [index]; rfl) queue shards (by decide)
    (isPlainName_iff.mp (by decide +kernel)) (by decide +kernel) 1
  have named : written.canonical (tenBytes []).baseDirectory = .ok (ofLocation []) :=
    Disk.canonical_ofLocation cache.held (short_root short)
  refine ⟨store, written, .opened opened, by decide, done, ?_, ?_, root ▸ named,
    fun host reopened opens => ?_⟩
  · rw [insert_of_namesZero store zero]
    exact ⟨_, rfl⟩
  · rw [insert_of_namesZero store zero]
    exact queue
  · have failed := outcome_of_namesZero host cache short (by decide) zero ⟨_, _, lies⟩
      (fun found member => .inr (only found member)) (fault?_tenBytes []) named
    rw [opens] at failed
    cases failed

end ArtifactCache.Store
