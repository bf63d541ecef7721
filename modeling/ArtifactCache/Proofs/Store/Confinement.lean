import ArtifactCache.Proofs.Entry.Confinement
import ArtifactCache.Proofs.Store.Keeping

/-! # Removals that stay in the shards

The path of a removal is put together from the entry that has to go, and the sweeper removes
whatever lies there.  A cache keeps its removals in its shards as long as no file is registered
that has a slash in its token.  A file that is refused is removed at once, and one that is
admitted is removed when its entry leaves the index.
-/

namespace ArtifactCache

open DiskPath

variable {index : Index} {store next : Store} {key : Key} {file : StoredFile} {entry : Entry}
  {condition : StoredFile → Prop}

namespace Index

theorem mem_perform (sound : index.Sound) {operation : Operation}
    (member : entry ∈ (index.perform operation).entries) :
    entry ∈ index.entries ∨ operation = .insert entry.1 entry.2 := by
  cases operation with
  | insert key file => exact (mem_insert sound member).imp_right fun new => by rw [new.1]
  | touch key => exact .inl ((perm_touch sound key).mem_iff.mp member)
  | peek key | contains key => exact .inl member
  | remove key =>
    refine .inl ?_
    simp only [perform, remove] at member
    split at member
    · exact member
    · exact (mem_without.mp member).1

theorem mem_of_mem_releasedBy (sound : index.Sound) {operation : Operation}
    (released : entry ∈ index.releasedBy operation) : entry ∈ index.entries := by
  cases operation with
  | insert key file => exact mem_of_mem_released sound released
  | touch key | peek key | contains key | remove key => cases released

/-- What an insertion leaves without an entry had one before, or it is the new file and was
refused. -/
theorem mem_of_mem_abandoned (sound : index.Sound) (gone : entry ∈ index.abandoned key file) :
    entry ∈ index.entries ∨ (index.insert key file).admitted = false ∧ entry = (key, file) := by
  rcases List.mem_append.mp gone with released | refused
  · exact .inl (mem_of_mem_released sound released)
  · split at refused
    next => cases refused
    next unadmitted => exact .inr ⟨Bool.not_eq_true _ ▸ unadmitted, List.mem_singleton.mp refused⟩

end Index

namespace Store

/-! ## States without stray files -/

/-- Whether a cache can come to a state after it has been opened, if all files that are registered
meet a condition. -/
inductive IsReachableBy (condition : StoredFile → Prop) : Store → Prop
  | opened {host settings disk store} (opened : (start host settings disk).outcome = .ok store) :
    IsReachableBy condition store
  | step {event store disk next changed} (reachable : IsReachableBy condition store)
      (step : Step event (store, disk) (next, changed))
      (meets : ∀ key file, event = .inserted key file → condition file) :
    IsReachableBy condition next
  | operated {store operation} (reachable : IsReachableBy condition store)
      (meets : ∀ key file, operation = .insert key file → condition file) :
    IsReachableBy condition (store.operate operation)

theorem IsReachableBy.isReachable (reachable : store.IsReachableBy condition) :
    store.IsReachable := by
  induction reachable with
  | opened opened => exact .opened opened
  | step _ step _ ih => exact .step ih step
  | operated _ _ ih => exact .operated ih _

/-- Whether a path is that of an entry and leads to a file in its shard. -/
def LeadsIntoShard (root path : DiskPath) : Prop :=
  ∃ entry : Entry, path = pathUnder root entry.1 entry.2 ∧ entry.StaysInShard root

theorem leadsIntoShard_pathUnder_iff {root : DiskPath} :
    LeadsIntoShard root (pathUnder root key file) ↔ '/' ∉ file.token.toList := by
  constructor
  · rintro ⟨entry, same, stays⟩
    have place : placeOf key file = placeOf entry.1 entry.2 :=
      join_injective (isAbsolute_placeOf _ _) (isAbsolute_placeOf _ _) same
    rw [← @StoredFile.slash_mem_fileName_iff file key, (placeOf_eq_placeOf_iff.mp place).2,
      StoredFile.slash_mem_fileName_iff]
    exact Entry.staysInShard_iff.mp stays
  · exact fun clean => ⟨(key, file), rfl, Entry.staysInShard_iff.mpr clean⟩

/-- Whether all entries stay in their shards, and all removals that wait. -/
structure IsConfined (store : Store) : Prop where
  entries : ∀ entry ∈ store.index.entries, entry.StaysInShard store.root
  queued : ∀ path ∈ store.sweeper.queue, LeadsIntoShard store.root path

namespace IsConfined

/-- What a confined cache hands over of its own entries stays in the shards. -/
theorem handed (confined : store.IsConfined) {gone : List Entry}
    (old : ∀ entry ∈ gone, entry ∈ store.index.entries ∨ entry.StaysInShard store.root) :
    ∀ path ∈ gone.map (fun entry => pathUnder store.root entry.1 entry.2),
      LeadsIntoShard store.root path := by
  intro path member
  obtain ⟨entry, isGone, rfl⟩ := List.mem_map.mp member
  exact ⟨entry, rfl, (old entry isGone).elim (confined.entries entry) id⟩

theorem of_start {host : Host} {settings : Settings} {disk : Disk}
    (opened : (start host settings disk).outcome = .ok store) : store.IsConfined := by
  have stays : ∀ entry : Entry, slash ∉ nameOf entry.fileName → entry.StaysInShard store.root :=
    fun entry single => Entry.staysInShard_iff.mpr (mt StoredFile.slash_mem_fileName_iff.mpr single)
  obtain ⟨top, kept⟩ := exists_isKept_of_start opened
  refine ⟨fun entry member => stays entry (kept.single entry member), fun path waits => ?_⟩
  obtain ⟨entry, single, rfl⟩ := kept.queued path waits
  exact ⟨entry, by rw [kept.root], stays entry single⟩

theorem operate (confined : store.IsConfined) (sound : store.index.Sound)
    {operation : Index.Operation}
    (clean : ∀ key file, operation = .insert key file → '/' ∉ file.token.toList) :
    (store.operate operation).IsConfined := by
  constructor
  · intro entry member
    rcases Index.mem_perform sound member with old | rfl
    · exact confined.entries entry old
    · exact Entry.staysInShard_iff.mpr (clean _ _ rfl)
  · intro path waits
    rw [Store.operate, queue_queueReleased] at waits
    rcases List.mem_append.mp waits with before | new
    · exact confined.queued path before
    · exact confined.handed (fun entry released => .inl (Index.mem_of_mem_releasedBy sound released))
        path new

theorem insert (confined : store.IsConfined) (sound : store.index.Sound)
    (clean : '/' ∉ file.token.toList) : (store.insert key file).2.IsConfined := by
  by_cases zero : file.NamesZero key
  · rwa [insert_of_namesZero store zero]
  have stays : Entry.StaysInShard store.root (key, file) := Entry.staysInShard_iff.mpr clean
  rw [insert_of_positive store zero]
  constructor
  · intro entry member
    rcases Index.mem_insert sound member with old | ⟨rfl, -⟩
    · exact confined.entries entry old
    · exact stays
  · intro path waits
    rw [queue_queueReleased] at waits
    rcases List.mem_append.mp waits with before | new
    · exact confined.queued path before
    · refine confined.handed (fun entry gone => ?_) path new
      rcases Index.mem_of_mem_abandoned sound gone with old | ⟨-, rfl⟩
      · exact .inl old
      · exact .inr stays

theorem step (confined : store.IsConfined) (sound : store.index.Sound) {event : Event}
    {disk changed : Disk} (step : Step event (store, disk) (next, changed))
    (clean : ∀ key file, event = .inserted key file → '/' ∉ file.token.toList) :
    next.IsConfined := by
  cases step with
  | written done => exact confined
  | inserted key file => exact confined.insert sound (clean key file rfl)
  | fetched key =>
    exact (confined.operate sound (by simp) : (store.operate (.touch key)).IsConfined)
  | forgotten key =>
    exact (confined.operate sound (by simp) : (store.operate (.remove key)).IsConfined)
  | swept queued =>
    exact ⟨confined.entries, fun path waits => confined.queued path (List.mem_of_mem_erase waits)⟩

end IsConfined

theorem IsReachableBy.isConfined
    (reachable : store.IsReachableBy fun file => '/' ∉ file.token.toList) : store.IsConfined := by
  induction reachable with
  | opened opened => exact .of_start opened
  | step reachable step meets ih => exact ih.step reachable.isReachable.sound step meets
  | operated reachable meets ih => exact ih.operate reachable.isReachable.sound meets

/-- A token that was checked, drawn, or read in a file name consists of letters and digits, but
every stored file, whatever its token is, can also be read from JSON.  The place of an entry has the
three components of the entry, and its path leads into its shard, exactly if there is no slash in
the token.  As long as no file with a slash in its token is registered, all removals that wait lead
into shards, and the next registration hands over a path that leads elsewhere exactly if it refuses
such a file. -/
theorem removals_stay_in_shards
    (reachable : store.IsReachableBy fun file => '/' ∉ file.token.toList) (key : Key)
    (file : StoredFile) :
    (file.IsChecked → EntryName.SpellsToken file.token.toList ∧ '/' ∉ file.token.toList) ∧
    StoredFile.reader.run (Utf8.encode file.toJson.toList) = .ok file ∧
    ((placeOf key file).components = [.named key.kind.directoryName,
        .named (nameOf key.digest.shard), .named (nameOf (file.fileName key))] ↔
      '/' ∉ file.token.toList) ∧
    (LeadsIntoShard store.root (store.pathFor key file) ↔ '/' ∉ file.token.toList) ∧
    (∀ path ∈ store.sweeper.queue, LeadsIntoShard store.root path) ∧
    ∃ handed, (store.insert key file).2.sweeper.queue = store.sweeper.queue ++ handed ∧
      ((∀ path ∈ handed, LeadsIntoShard store.root path) ↔
        ('/' ∈ file.token.toList → (store.insert key file).1 ≠ .ok false)) := by
  have confined := reachable.isConfined
  refine ⟨fun checked => ⟨?_, slash_notMem_of_isToken checked.isToken⟩, file.run_toJson,
    components_placeOf_iff, leadsIntoShard_pathUnder_iff, confined.queued, ?_⟩
  · exact EntryName.spellsToken_iff.mpr (isToken_iff.mp checked.isToken)
  by_cases zero : file.NamesZero key
  · rw [insert_of_namesZero store zero]
    exact ⟨[], (List.append_nil _).symm, by simp⟩
  rw [insert_of_positive store zero]
  refine ⟨_, queue_queueReleased _ _ _, ⟨fun inside stray refused => ?_, fun kept path handed => ?_⟩⟩
  · have gone : (key, file) ∈ store.index.abandoned key file := by
      rw [Index.abandoned, Except.ok.inj refused]
      exact List.mem_append_right _ (List.mem_singleton_self _)
    exact leadsIntoShard_pathUnder_iff.mp (inside _ (List.mem_map_of_mem gone)) stray
  · refine confined.handed (fun entry gone => ?_) path handed
    rcases Index.mem_of_mem_abandoned reachable.isReachable.sound gone with old | ⟨refused, rfl⟩
    · exact .inl old
    · exact .inr (Entry.staysInShard_iff.mpr fun stray => kept stray (congrArg Except.ok refused))

/-- Eleven bytes whose token has been checked are refused by an empty cache for ten, and their
removal leads into their shard. -/
theorem removals_stay_in_shards_eleven_bytes :
    (actionFile 11).IsChecked ∧
      ∃ store : Store, store.IsReachableBy (fun file => '/' ∉ file.token.toList) ∧
        (store.insert actionKey (actionFile 11)).1 = .ok false ∧
        (store.insert actionKey (actionFile 11)).2.sweeper.queue =
          [store.pathFor actionKey (actionFile 11)] ∧
        LeadsIntoShard store.root (store.pathFor actionKey (actionFile 11)) := by
  have checked : (actionFile 11).IsChecked :=
    .created (by decide : StoredFile.create? 11 11 false "tok" = some (actionFile 11))
  obtain ⟨store, opened, -, index, queue, -⟩ := exists_start_empty
  have reachable : store.IsReachableBy (fun file => '/' ∉ file.token.toList) := .opened opened
  obtain ⟨proper, -, -, leads, -⟩ :=
    removals_stay_in_shards reachable actionKey (actionFile 11)
  have refused : (Index.empty 10).insert actionKey (actionFile 11) =
      { index := .empty 10, admitted := false, released := [] } := by decide +kernel
  refine ⟨checked, store, reachable, ?_, ?_, leads.mpr (proper checked).2⟩
  · rw [insert_of_positive store (by decide), index, refused]
  · rw [insert_of_positive store (by decide), queue_queueReleased, queue, Index.abandoned, index,
      refused]
    rfl

/-- A stored file whose token leads out of the directory of the cache. -/
def strayFile : StoredFile :=
  { actionFile 11 with token := "/../../../../victim" }

/-- The JSON text of this file. -/
def strayText : String :=
  "\x7b\"logical_size\":11,\"size_on_disk\":11,\"legacy\":false," ++
    "\"random\":\"/../../../../victim\",\"sized_name\":true\x7d"

/-- A token with slashes is read from JSON.  When the file is refused, a path is handed to the
sweeper that leads out of the directory of the cache. -/
theorem read_token_leaves_directory :
    StoredFile.reader.run (Utf8.encode strayText.toList) = .ok strayFile ∧
      isToken strayFile.token = false ∧
      (placeOf actionKey strayFile).components ≠ [.named actionKey.kind.directoryName,
        .named (nameOf actionKey.digest.shard), .named (nameOf (strayFile.fileName actionKey))] ∧
      ∃ store : Store, store.IsReachable ∧ (store.insert actionKey strayFile).1 = .ok false ∧
        ∃ path ∈ (store.insert actionKey strayFile).2.sweeper.queue,
          path = store.pathFor actionKey strayFile ∧
          path.steps = store.root.steps ++
            [.into actionKey.kind.directoryName, .into (nameOf actionKey.digest.shard),
              .into (nameOf (actionKey.digest.text ++ "-")), .above, .above, .above, .above,
              .into (nameOf "victim")] := by
  obtain ⟨store, opened, -, index, -⟩ := exists_start_empty
  have refused : (Index.empty 10).insert actionKey strayFile =
      { index := .empty 10, admitted := false, released := [] } := by decide +kernel
  have leaves : (placeOf actionKey strayFile).steps =
      [.into actionKey.kind.directoryName, .into (nameOf actionKey.digest.shard),
        .into (nameOf (actionKey.digest.text ++ "-")), .above, .above, .above, .above,
        .into (nameOf "victim")] := by decide +kernel
  refine ⟨by decide +kernel, by decide, by decide +kernel, store, .opened opened, ?_, _, ?_, rfl,
    ?_⟩
  · rw [insert_of_positive store (by decide), index, refused]
  · rw [insert_of_positive store (by decide), queue_queueReleased, Index.abandoned, index, refused]
    exact List.mem_append_right _ (List.mem_singleton_self _)
  · rw [pathFor, pathUnder, steps_join (isAbsolute_placeOf _ _), leaves]

end Store

end ArtifactCache
