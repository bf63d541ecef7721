import ArtifactCache.Proofs.Entry.Reading
import ArtifactCache.Proofs.Index.Release
import ArtifactCache.Proofs.Store.LaidOut
import ArtifactCache.Store.Life

/-! # Registering a file

A file is refused with a fault exactly if its name would carry the size zero and could not be
read again.  Any other file goes to the index, which admits it or not.

What leaves the index is handed to the sweeper, and so is a file that the index does not
admit.  No path that is handed over belongs to an entry that is still in the index, with one
exception: where a file is too large for the index and bears the name of the entry of its
key, the entry stays, and its path is handed over all the same.
-/

namespace ArtifactCache

variable {key : Key} {file : StoredFile}

/-! ## Entries without a file -/

namespace Index

/-- The entries whose files an insertion leaves without an entry in the index: those that it
releases, and the new one if it is refused. -/
def abandoned (index : Index) (key : Key) (file : StoredFile) : List Entry :=
  (index.insert key file).released ++
    if (index.insert key file).admitted then [] else [(key, file)]

/-- An entry that stays in the index shares its place with an abandoned one only if the
insertion was refused and would have kept the file name of the entry. -/
theorem mem_abandoned_iff {index : Index} (sound : index.Sound) {entry : Entry}
    (live : entry ∈ (index.insert key file).index.entries) :
    entry.place ∈ (index.abandoned key file).map Entry.place ↔
      (index.insert key file).admitted = false ∧ entry.1 = key ∧
        entry.fileName = file.fileName key := by
  by_cases small : file.diskSize ≤ index.budget
  · -- What is released of an admitted insertion is free afterwards.
    have admitted : (index.insert key file).admitted = true := admitted_insert.mpr small
    have free : entry.place ∉ (index.insert key file).released.map Entry.place := by
      intro released
      exact ((mem_released_iff sound small _).mp released).2 (List.mem_map_of_mem live)
    rw [abandoned, if_pos admitted, List.append_nil, admitted]
    simp only [free, Bool.true_eq_false, false_and]
  · rw [abandoned, insert_of_lt (UInt64.not_le.mp small)]
    simp only [Bool.false_eq_true, if_false, List.nil_append, List.map_cons, List.map_nil,
      List.mem_singleton, true_and]
    exact Entry.place_eq_place_iff

end Index

namespace Store

/-! ## What a registration does -/

theorem insert_of_namesZero (store : Store) (zero : file.NamesZero key) :
    store.insert key file =
      (.error (.invalidKey key.digest.text "cas entries must have a positive logical size"),
        store) := by
  obtain ⟨content, sized, none⟩ := zero
  rw [insert, if_pos ⟨Kind.recordsSize_iff.mpr content, sized, none⟩]

theorem insert_of_positive (store : Store) (positive : ¬ file.NamesZero key) :
    store.insert key file =
      (.ok (store.index.insert key file).admitted,
        { store with
          index := (store.index.insert key file).index
          sweeper := queueReleased store.root store.sweeper
            (store.index.abandoned key file) }) := by
  have passes : ¬ (key.kind.recordsSize = true ∧ file.sizedName = true ∧
      file.logicalSize = 0) := by
    rwa [Kind.recordsSize_iff]
  rw [insert, if_neg passes]
  cases admitted : (store.index.insert key file).admitted with
  | true => simp [Index.abandoned, admitted]
  | false => simp [Index.abandoned, admitted, queueReleased, pathFor]

theorem index_insert (store : Store) (positive : ¬ file.NamesZero key) :
    (store.insert key file).2.index = (store.index.insert key file).index := by
  rw [insert_of_positive store positive]

theorem root_insert (store : Store) (key : Key) (file : StoredFile) :
    (store.insert key file).2.root = store.root := by
  by_cases zero : file.NamesZero key
  · rw [insert_of_namesZero store zero]
  · rw [insert_of_positive store zero]

/-- A file name is read back as what it was written from, but for a blob with the size zero
in its name.  This is the one file that a cache refuses with a fault, and then it stays as it
is.  Conversely the name that was read is the name of the file that bears it, as a blob and,
where the name has no size, under every kind. -/
theorem insert_refuses_unreadable_names :
    (∀ (key : Key) (file : StoredFile), isToken file.token = true →
      (EntryName.parse (file.fileName key) =
        if file.NamesZero key then .error { input := file.fileName key, fault := .size }
        else .ok
          { digest := key.digest
            logicalSize :=
              if key.kind = .content ∧ file.sizedName = true then some file.logicalSize else none
            token := file.token
            legacy := file.legacy }) ∧
      ∀ store : Store,
        if file.NamesZero key then
          store.insert key file =
            (.error (.invalidKey key.digest.text "cas entries must have a positive logical size"),
              store)
        else ∃ admitted, (store.insert key file).1 = .ok admitted) ∧
    ∀ (text : String) (name : EntryName) (diskSize : UInt64), EntryName.parse text = .ok name →
      ∀ kind : Kind, kind = .content ∨ name.logicalSize = none →
        (StoredFile.ofName name diskSize).fileName { kind, digest := name.digest } = text := by
  refine ⟨fun key file valid => ⟨?_, fun store => ?_⟩, ?_⟩
  · rw [StoredFile.parse_fileName valid, ← StoredFile.logicalSize_name]
    rfl
  · split
    next zero => exact store.insert_of_namesZero zero
    next positive => exact ⟨_, congrArg Prod.fst (store.insert_of_positive positive)⟩
  · intro text name diskSize parsed kind carries
    have sized : name.logicalSize.isSome → kind = .content := by
      intro isSome
      rcases carries with content | absent
      · exact content
      · rw [absent] at isSome
        cases isSome
    rw [StoredFile.fileName, StoredFile.name_ofName diskSize rfl sized]
    exact EntryName.render_of_parse parsed

/-- The largest size is read back in front of a token of digits, and without a size the same
token names the file of an action. -/
theorem insert_refuses_unreadable_names_largest_size :
    let digest : Digest := .uniform 'a' rfl
    let blob : Key := { kind := .content, digest }
    let file : StoredFile :=
      { logicalSize := 18446744073709551615, diskSize := 0, legacy := true, token := "10"
        sizedName := true }
    let text := digest.text ++ "-10.v1"
    let name : EntryName := { digest, logicalSize := none, token := "10", legacy := true }
    isToken file.token = true ∧ ¬ file.NamesZero blob ∧
      EntryName.parse (file.fileName blob) =
        .ok { digest, logicalSize := some file.logicalSize, token := "10", legacy := true } ∧
      EntryName.parse text = .ok name ∧
      (StoredFile.ofName name 3).fileName { kind := .action, digest } = text := by
  intro digest blob file text name
  have valid : isToken file.token = true := by decide
  have positive : ¬ file.NamesZero blob := by decide
  have parsed : EntryName.parse text = .ok name := by decide +kernel
  have written := (insert_refuses_unreadable_names.1 blob file valid).1
  rw [if_neg positive, if_pos ⟨rfl, rfl⟩] at written
  exact ⟨valid, positive, written, parsed,
    insert_refuses_unreadable_names.2 text name 3 parsed .action (.inr rfl)⟩

/-! ## Reachable states -/

/-- Operate the index of an open cache directly.  What it releases is queued. -/
def operate (store : Store) (operation : Index.Operation) : Store :=
  { store with
    index := store.index.perform operation
    sweeper := queueReleased store.root store.sweeper (store.index.releasedBy operation) }

/-- Whether a cache can come to a state after it has been opened, whatever happens to the disk
in the meantime. -/
inductive IsReachable : Store → Prop
  | opened {host settings disk store} (opened : (start host settings disk).outcome = .ok store) :
    IsReachable store
  | step {event store disk next changed} (reachable : IsReachable store)
      (step : Step event (store, disk) (next, changed)) : IsReachable next
  | operated {store} (reachable : IsReachable store) (operation : Index.Operation) :
    IsReachable (store.operate operation)

theorem sound_of_start {host : Host} {settings : Settings} {disk : Disk} {store : Store}
    (opened : (start host settings disk).outcome = .ok store) : store.index.Sound := by
  obtain ⟨root, ready, scene, files, account, index, last, released, passes, replayed⟩ :=
    exists_passes opened
  rw [passes.start_eq replayed] at opened
  obtain rfl := Except.ok.inj opened
  have ended := congrArg ReplayResult.outcome replayed
  obtain ⟨decoded, progress, -, -, accepts, whole⟩ := Replay.exists_of_replay ended
  obtain rfl : index = progress.index :=
    congrArg ReplayResult.index (replayed.symm.trans whole)
  exact accepts.sound

theorem sound_insert {store : Store} (sound : store.index.Sound) (key : Key)
    (file : StoredFile) : (store.insert key file).2.index.Sound := by
  by_cases zero : file.NamesZero key
  · rw [insert_of_namesZero store zero]
    exact sound
  · rw [index_insert store zero]
    exact sound.insert key file

theorem Step.sound {event : Event} {store next : Store} {disk changed : Disk}
    (step : Step event (store, disk) (next, changed)) (sound : store.index.Sound) :
    next.index.Sound := by
  cases step with
  | written done => exact sound
  | inserted key file => exact sound_insert sound key file
  | fetched key => exact sound.touch key
  | forgotten key => exact sound.remove key
  | swept queued => exact sound

theorem IsReachable.sound {store : Store} (reachable : store.IsReachable) :
    store.index.Sound := by
  induction reachable with
  | opened opened => exact sound_of_start opened
  | step _ step ih => exact step.sound ih
  | operated _ operation ih => exact ih.perform operation

/-! ## Files of live entries -/

theorem mem_map_pathUnder_iff {root : DiskPath} {entries : List Entry} {entry : Entry} :
    pathUnder root entry.1 entry.2 ∈
        entries.map (fun other => pathUnder root other.1 other.2) ↔
      entry.place ∈ entries.map Entry.place := by
  simp only [List.mem_map]
  refine exists_congr fun other => and_congr_right fun _ => ⟨fun same => ?_, fun same => ?_⟩
  · exact DiskPath.join_injective (isAbsolute_placeOf _ _) (isAbsolute_placeOf _ _) same
  · exact congrArg root.join same

/-- A registration hands the path of an entry that stays in the index to the sweeper exactly
if it refuses a file that is too large and bears the name of this entry, which is the one of
its key. -/
theorem IsReachable.insert_endangers_iff {store : Store} (reachable : store.IsReachable)
    (key : Key) (file : StoredFile) :
    ∃ handed, (store.insert key file).2.sweeper.queue = store.sweeper.queue ++ handed ∧
      ∀ entry ∈ (store.insert key file).2.index.entries,
        ((store.insert key file).2.pathFor entry.1 entry.2 ∈ handed ↔
          (store.insert key file).1 = .ok false ∧ entry.1 = key ∧
            entry.fileName = file.fileName key) := by
  by_cases zero : file.NamesZero key
  · rw [insert_of_namesZero store zero]
    exact ⟨[], (List.append_nil _).symm, by simp⟩
  · rw [insert_of_positive store zero]
    refine ⟨_, queue_queueReleased _ _ _, fun entry live => ?_⟩
    rw [pathFor, mem_map_pathUnder_iff, Index.mem_abandoned_iff reachable.sound live,
      Except.ok.injEq]

def actionKey : Key :=
  { kind := .action, digest := olderEntry.1.digest }

/-- A file of an action, whose name does not tell its size. -/
def actionFile (size : UInt64) : StoredFile :=
  { logicalSize := size, diskSize := size, legacy := false, token := "tok", sizedName := true }

/-- A cache for ten bytes that has been opened without files can come to hold four bytes. -/
theorem exists_isReachable_fourBytes : ∃ store : Store, store.IsReachable ∧
    store.index = { budget := 10, entries := [(actionKey, actionFile 4)], used := 4 } := by
  have fits : CanBeLaidOut [] [] :=
    { root := by simp
      short := fun location => short_of_room (by decide)
      plain := by simp
      distinct := by simp }
  obtain ⟨account, last, notices, disk, started, -, -, accepts⟩ :=
    exists_start_laidOut .orderly (fault?_tenBytes []) rfl fits (by simp) List.Pairwise.nil
      (by simp [Replay.discarded])
  have reachable := IsReachable.opened (congrArg Opening.outcome started)
  refine ⟨_, .step reachable (@Step.inserted _ last.disk actionKey (actionFile 4)), ?_⟩
  have index : last.index = .empty 10 := accepts.index_eq_empty
  rw [index_insert _ (by decide)]
  dsimp only
  rw [index]
  decide +kernel

/-- Three bytes take the place of four under the same name, and no file of a live entry is
handed over. -/
theorem insert_endangers_iff_three_bytes :
    ∃ store : Store, store.IsReachable ∧
      (actionKey, actionFile 3) ∈ (store.insert actionKey (actionFile 3)).2.index.entries ∧
      ∃ handed,
        (store.insert actionKey (actionFile 3)).2.sweeper.queue = store.sweeper.queue ++ handed ∧
        ∀ entry ∈ (store.insert actionKey (actionFile 3)).2.index.entries,
          (store.insert actionKey (actionFile 3)).2.pathFor entry.1 entry.2 ∉ handed := by
  obtain ⟨store, reachable, index⟩ := exists_isReachable_fourBytes
  obtain ⟨handed, queued, endangers⟩ :=
    reachable.insert_endangers_iff actionKey (actionFile 3)
  have admitted : (store.insert actionKey (actionFile 3)).1 = .ok true := by
    rw [insert_of_positive _ (by decide), index]
    exact congrArg Except.ok (by decide +kernel)
  refine ⟨store, reachable, ?_, handed, queued, fun entry live path => ?_⟩
  · rw [index_insert _ (by decide), index]
    decide +kernel
  · have refused := ((endangers entry live).mp path).1
    rw [admitted] at refused
    cases refused

/-- Eleven bytes under the same name are refused.  The four bytes stay in the index, but their
path is handed to the sweeper. -/
theorem insert_endangers_live_file :
    ∃ store : Store, store.IsReachable ∧ isToken (actionFile 11).token = true ∧
      (store.insert actionKey (actionFile 11)).1 = .ok false ∧
      (actionKey, actionFile 4) ∈ (store.insert actionKey (actionFile 11)).2.index.entries ∧
      ∃ handed,
        (store.insert actionKey (actionFile 11)).2.sweeper.queue = store.sweeper.queue ++ handed ∧
        (store.insert actionKey (actionFile 11)).2.pathFor actionKey (actionFile 4) ∈ handed := by
  obtain ⟨store, reachable, index⟩ := exists_isReachable_fourBytes
  refine ⟨store, reachable, by decide, ?_⟩
  rw [insert_of_positive _ (by decide), index]
  dsimp only
  refine ⟨congrArg Except.ok (by decide +kernel), by decide +kernel, _,
    queue_queueReleased _ _ _, ?_⟩
  rw [pathFor, @mem_map_pathUnder_iff _ _ (actionKey, actionFile 4)]
  decide +kernel

end Store

end ArtifactCache
