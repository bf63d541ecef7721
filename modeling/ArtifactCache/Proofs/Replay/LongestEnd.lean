import ArtifactCache.Proofs.Disk.Removal
import ArtifactCache.Proofs.Entry.Reading
import ArtifactCache.Proofs.Replay.Order
import ArtifactCache.Proofs.Replay.Run

/-! # A replay keeps the longest end that fits

Inserting files one by one and shedding after each of them comes to the same as looking
at all files at once: of the last files of all keys, in the order of their last access
and without those that exceed the budget alone, the index holds the longest end that
stays within the budget, and it has released the entries in front of it.

A replay that cannot remove a file that it discards stops there.  So all of this needs
that every discarded file can be removed or is gone already.
-/

namespace ArtifactCache

/-- Whether a replay came to its end with an index that holds the longest end of certain
entries within a budget, and released the other entries in their order. -/
structure ReplayResult.KeepsLongestEnd (budget : UInt64) (entries : List Entry)
    (result : ReplayResult) : Prop where
  complete : ∃ summary, result.outcome = .ok summary
  split : result.released ++ result.index.entries = entries
  longest : Index.IsLongestWithin budget.toNat entries result.index.entries

namespace Replay

open Index

theorem exists_discardAll {root : DiskPath} {files : List Decoded} {disk : Disk}
    (removable : ∀ decoded ∈ files, disk.Removable (root.join decoded.path)) :
    ∃ cleared, discardAll root files disk = .ok cleared := by
  induction files generalizing disk with
  | nil => exact ⟨disk, rfl⟩
  | cons decoded files ih =>
    obtain ⟨first, rest⟩ := List.forall_mem_cons.mp removable
    rw [Disk.Removable] at first
    rw [discardAll, discard]
    cases removal : disk.removeFile (root.join decoded.path) with
    | error fault =>
      rw [removal] at first
      simp only [if_pos first]
      exact ih rest
    | ok changed =>
      obtain ⟨location, plain, -, rfl⟩ := Disk.exists_of_removeFile removal
      exact ih fun other member => (rest other member).erase plain

/-- What keeps files from being discarded is the disk. -/
theorem exists_fault_of_discardAll {root : DiskPath} {files : List Decoded} {disk : Disk}
    {failure : Failure} (stopped : discardAll root files disk = .error failure) :
    ∃ path operation fault, failure = .disk path operation fault := by
  induction files generalizing disk with
  | nil => cases stopped
  | cons decoded files ih =>
    rw [discardAll] at stopped
    cases step : discard root decoded.path disk with
    | ok changed =>
      rw [step] at stopped
      exact ih stopped
    | error refused =>
      rw [step] at stopped
      obtain rfl := Except.error.inj stopped
      rw [discard] at step
      split at step
      · cases step
      · split at step
        · cases step
        · exact ⟨_, _, _, (Except.error.inj step).symm⟩

/-- The progress of a replay before its first file. -/
def Progress.start (budget : UInt64) (disk : Disk) : Progress :=
  { index := .empty budget, disk, released := [], rejected := 0, duplicates := 0 }

@[simp]
theorem Progress.disk_start (budget : UInt64) (disk : Disk) :
    (Progress.start budget disk).disk = disk := rfl

theorem hasAccepted_start (budget : UInt64) (disk : Disk) :
    (Progress.start budget disk).HasAccepted budget [] where
  sound := sound_empty budget
  budget_eq := rfl
  fits := UInt64.zero_le
  split := rfl
  longest _ := ⟨List.suffix_rfl, Nat.zero_le _, fun _ suffix _ => suffix.length_le⟩

theorem path_of_decode {found : FoundFile} {reading : Decoded}
    (read : decode found = .ok reading) : reading.path = found.path := by
  rw [decode] at read
  split at read
  · obtain rfl := Except.ok.inj read
    rfl
  · cases read

theorem readPlace_found {found : FoundFile} {reading : Decoded}
    (read : decode found = .ok reading) :
    readPlace found.path found.size = .ok reading.entry := by
  rw [decode] at read
  split at read
  · rename_i place
    obtain rfl := Except.ok.inj read
    exact place
  · cases read

theorem replay_eq {files sorted : List FoundFile} {decoded : List Decoded} (root : DiskPath)
    (budget : UInt64) (disk : Disk) (isSorted : IsStablySorted files sorted)
    (decodes : List.Forall₂ (fun file reading => decode file = .ok reading) sorted decoded) :
    replay root files (.empty budget) disk =
      let (outcome, progress) := handleAll root decoded (.start budget disk)
      { outcome := outcome.map fun () => summary files.length progress
        index := progress.index
        disk := progress.disk
        released := progress.released } := by
  obtain rfl : byAccess files = sorted := (isStablySorted_byAccess files).unique isSorted
  rw [replay, mapM_eq_ok_iff.mpr decodes]
  rfl

/-- A replay that comes to its end has read all files, has removed those that it discards,
and has let all accepted entries through its index. -/
theorem exists_of_replay {root : DiskPath} {files : List FoundFile} {budget : UInt64}
    {disk : Disk} {account : ReplaySummary}
    (ended : (replay root files (.empty budget) disk).outcome = .ok account) :
    ∃ (decoded : List Decoded) (last : Progress), (byAccess files).mapM decode = .ok decoded ∧
      discardAll root (discarded budget decoded) disk = .ok last.disk ∧
      last.HasAccepted budget ((accepted budget decoded).map Decoded.entry) ∧
      replay root files (.empty budget) disk =
        { outcome := .ok account, index := last.index, disk := last.disk
          released := last.released } := by
  cases read : (byAccess files).mapM decode with
  | error failure => rw [replay, read] at ended; cases ended
  | ok decoded =>
    have whole := replay_eq root budget disk (isStablySorted_byAccess files)
      (mapM_eq_ok_iff.mp read)
    have run := handleAll_eq root decoded (by simp) (hasAccepted_start budget disk)
    rw [Progress.disk_start] at run
    cases removals : discardAll root (discarded budget decoded) disk with
    | error failure =>
      rw [removals] at run
      rw [whole] at ended
      dsimp only at run ended
      rw [run] at ended
      cases ended
    | ok cleared =>
      rw [removals] at run
      obtain ⟨last, handled, rfl, accepts⟩ := run
      rw [handled] at whole
      refine ⟨decoded, last, rfl, removals, accepts, ?_⟩
      rw [whole] at ended ⊢
      rw [← ended]

theorem exists_kept_of_replay {root : DiskPath} {files : List FoundFile} {budget : UInt64}
    {disk last : Disk} {account : ReplaySummary} {index : Index} {released : List Entry}
    (ended : replay root files (.empty budget) disk =
      { outcome := .ok account, index, disk := last, released }) :
    ∃ (kept : List FoundFile) (readings : List Decoded), kept.Sublist (byAccess files) ∧
      kept.mapM decode = .ok readings ∧ index.entries = readings.map Decoded.entry := by
  obtain ⟨decoded, progress, read, -, accepts, same⟩ :=
    exists_of_replay (congrArg ReplayResult.outcome ended)
  rw [ended] at same
  simp only [ReplayResult.mk.injEq, true_and] at same
  obtain ⟨rfl, -, rfl⟩ := same
  -- The index holds the end of the accepted entries.
  have dropped : progress.index.entries =
      ((accepted budget decoded).drop progress.released.length).map Decoded.entry := by
    rw [List.map_drop, ← accepts.split, List.drop_left]
  have part : ((accepted budget decoded).drop progress.released.length).Sublist decoded :=
    ((List.drop_sublist _ _).trans List.filter_sublist).trans (sublist_latest decoded)
  obtain ⟨kept, among, reads⟩ := exists_sublist_of_mapM read part
  exact ⟨kept, _, among, reads, dropped⟩

theorem account_of_replay {root : DiskPath} {files : List FoundFile} {budget : UInt64}
    {disk last : Disk} {account : ReplaySummary} {index : Index} {released : List Entry}
    (ended : replay root files (.empty budget) disk =
      { outcome := .ok account, index, disk := last, released }) :
    account.filesSeen = files.length ∧ account.indexed = index.size ∧
      account.bytesIndexed = index.used := by
  rw [replay] at ended
  split at ended
  · cases ended
  · rename_i decoded _
    cases handled : handleAll root decoded
        { index := .empty budget, disk, released := [], rejected := 0, duplicates := 0 } with
    | mk outcome progress =>
      simp only [handled] at ended
      cases outcome with
      | error failure => cases ended
      | ok _ =>
        cases ended
        exact ⟨rfl, rfl, rfl⟩

/-- Where the accepted files fit the budget together, and each file fits it alone, a replay whose
discarded files can be removed keeps all others. -/
theorem exists_replay_of_discardAll {files : List FoundFile} {readings : List Decoded}
    (root : DiskPath) {budget : UInt64} {disk cleared : Disk}
    (decoded : (byAccess files).mapM decode = .ok readings)
    (small : ∀ reading ∈ readings, reading.file.diskSize ≤ budget)
    (fits : weight ((accepted budget readings).map Decoded.entry) ≤ budget.toNat)
    (removed : discardAll root (discarded budget readings) disk = .ok cleared) :
    ∃ account index, replay root files (.empty budget) disk =
        { outcome := .ok account, index, disk := cleared, released := [] } ∧
      account.rejected = 0 ∧ account.duplicates = (discarded budget readings).length ∧
      account.displaced = 0 ∧ index.entries = (accepted budget readings).map Decoded.entry := by
  have run := handleAll_eq root readings (by simp) (hasAccepted_start budget disk)
  rw [Progress.disk_start, removed] at run
  obtain ⟨last, handled, rfl, accepts⟩ := run
  rw [List.nil_append] at accepts
  obtain ⟨kept, released⟩ := accepts.eq_of_fits fits
  have none : oversized budget readings = [] := oversized_eq_nil small
  obtain ⟨duplicates, rejected⟩ := counts_handleAll handled
  have discards := (perm_superseded_oversized budget readings).length_eq
  rw [none, List.append_nil] at discards
  rw [Progress.start, Nat.zero_add] at duplicates
  rw [Progress.start, Index.empty, none, List.length_nil] at rejected
  have size : files.length = last.index.size + (discarded budget readings).length := by
    have whole := (perm_accepted_discarded budget readings).length_eq
    have sorted : (byAccess files).length = files.length :=
      (List.mergeSort_perm files _).length_eq
    rw [Index.size, kept, List.length_map, ← List.length_append, whole, ← sorted]
    exact (mapM_eq_ok_iff.mp decoded).length_eq
  have whole := replay_eq root budget disk (isStablySorted_byAccess files)
    (mapM_eq_ok_iff.mp decoded)
  rw [handled] at whole
  refine ⟨summary files.length last, last.index, ?_, rejected, duplicates.trans discards, ?_, kept⟩
  · rw [whole, ← released]
    rfl
  · rw [summary]
    dsimp only
    omega

/-- Where a replay does not come to its end, either a file could not be read, and then nothing
has happened yet, or one of the files that it discards could not be removed. -/
theorem error_of_replay {root : DiskPath} {files : List FoundFile} {budget : UInt64}
    {disk : Disk} {failure : Failure}
    (ended : (replay root files (.empty budget) disk).outcome = .error failure) :
    ((byAccess files).mapM decode = .error failure ∧
      replay root files (.empty budget) disk =
        { outcome := .error failure, index := .empty budget, disk, released := [] }) ∨
      ∃ decoded, (byAccess files).mapM decode = .ok decoded ∧
        discardAll root (discarded budget decoded) disk = .error failure := by
  cases read : (byAccess files).mapM decode with
  | error unread =>
    rw [replay, read] at ended
    obtain rfl := Except.error.inj ended
    exact .inl ⟨rfl, by rw [replay, read]⟩
  | ok decoded =>
    refine .inr ⟨decoded, rfl, ?_⟩
    rw [replay_eq root budget disk (isStablySorted_byAccess files) (mapM_eq_ok_iff.mp read)]
      at ended
    have run := handleAll_eq root decoded (by simp) (hasAccepted_start budget disk)
    rw [Progress.disk_start] at run
    cases removals : discardAll root (discarded budget decoded) disk with
    | error refused =>
      rw [removals] at run
      dsimp only at run ended
      rw [run] at ended
      exact congrArg Except.error (Except.error.inj ended)
    | ok cleared =>
      rw [removals] at run
      obtain ⟨last, handled, -, -⟩ := run
      rw [handled] at ended
      cases ended

/-- The replay of an inventory ends with the longest end of the accepted entries that
stays within the budget, if the files that it discards can be removed or are gone. -/
theorem replay_keeps_longest_end (root : DiskPath) (budget : UInt64) (disk : Disk)
    (files sorted : List FoundFile) (decoded : List Decoded)
    (isSorted : IsStablySorted files sorted)
    (decodes : List.Forall₂ (fun file reading => decode file = .ok reading) sorted decoded)
    (removable : ∀ reading ∈ discarded budget decoded, disk.Removable (root.join reading.path))
    (small : weight ((accepted budget decoded).map Decoded.entry) < UInt64.size) :
    (replay root files (.empty budget) disk).KeepsLongestEnd budget
      ((accepted budget decoded).map Decoded.entry) := by
  obtain ⟨cleared, removals⟩ := exists_discardAll removable
  have run := handleAll_eq root decoded (by simp) (hasAccepted_start budget disk)
  rw [Progress.disk_start, removals] at run
  obtain ⟨last, handled, -, accepts⟩ := run
  rw [replay_eq root budget disk isSorted decodes, handled]
  exact ⟨⟨_, rfl⟩, accepts.split, accepts.longest small⟩

/-! ## Replays of a few files -/

/-- The path of the top of a disk. -/
def top : DiskPath :=
  ⟨[DiskPath.slash]⟩

/-- An uninterpreted blob whose digest repeats one digit. -/
def sample (digit : Char) (hex : isHexDigit digit = true) (token : String) (size : UInt64) :
    Decoded :=
  let key : Key := { kind := .raw, digest := .uniform digit hex }
  let file : StoredFile :=
    { logicalSize := size, diskSize := size, legacy := false, token, sizedName := false }
  { path := placeOf key file, key, file }

def Decoded.found (decoded : Decoded) (accessed : Instant) : FoundFile :=
  { path := decoded.path, size := decoded.file.diskSize, accessed }

theorem decode_found {decoded : Decoded} (accessed : Instant)
    (place : decoded.path = placeOf decoded.key decoded.file)
    (valid : isToken decoded.file.token = true) (plain : decoded.file.sizedName = false)
    (whole : decoded.file.logicalSize = decoded.file.diskSize) :
    decode (decoded.found accessed) = .ok decoded := by
  obtain ⟨path, key, file⟩ := decoded
  dsimp only at place valid plain whole
  subst place
  have zeroless : ¬ file.NamesZero key := by simp [StoredFile.NamesZero, plain]
  have same : { file with logicalSize := file.diskSize, sizedName := false } = file := by
    cases file
    simp_all
  have read : readPlace (placeOf key file) file.diskSize = .ok (key, file) := by
    rw [readPlace_placeOf valid zeroless, if_neg (by simp [plain]), same]
  rw [decode, Decoded.found]
  simp only [read]

theorem decode_sample (digit : Char) (hex : isHexDigit digit = true) {token : String}
    (valid : isToken token = true) (size : UInt64) (accessed : Instant) :
    decode ((sample digit hex token size).found accessed) = .ok (sample digit hex token size) :=
  decode_found accessed (by dsimp only [sample]) valid rfl rfl

/-- A disk with a file of four bytes under a path. -/
def sampleDisk (path : DiskPath) : Disk :=
  ((Disk.empty.makeDirectories path.parent).2.write path 4 1).toOption.getD .empty

/-- Of two files of a key the older one is discarded, a file of eleven bytes is too large
for a budget of ten, and four bytes after eight displace them. -/
theorem replay_keeps_longest_end_four_files :
    let older := sample 'a' rfl "1" 4
    let other := sample 'b' rfl "1" 8
    let newer := sample 'a' rfl "2" 4
    let large := sample 'c' rfl "1" 11
    (replay top [older.found 1, other.found 2, newer.found 2, large.found 3] (.empty 10)
        (sampleDisk (top.join older.path))).KeepsLongestEnd 10 [other.entry, newer.entry] := by
  intro older other newer large
  have accepts : accepted 10 [older, other, newer, large] = [other, newer] := by decide +kernel
  have removable : ∀ reading ∈ discarded 10 [older, other, newer, large],
      (sampleDisk (top.join older.path)).Removable (top.join reading.path) := by decide +kernel
  have decodes : List.Forall₂ (fun file reading => decode file = .ok reading)
      [older.found 1, other.found 2, newer.found 2, large.found 3]
      [older, other, newer, large] :=
    .cons (decode_sample _ _ (by decide) _ _) (.cons (decode_sample _ _ (by decide) _ _)
      (.cons (decode_sample _ _ (by decide) _ _) (.cons (decode_sample _ _ (by decide) _ _) .nil)))
  have keeps := replay_keeps_longest_end top 10 (sampleDisk (top.join older.path)) _ _ _
    ⟨by simp [Decoded.found], fun _ => rfl⟩ decodes removable (by rw [accepts]; decide +kernel)
  rwa [accepts] at keeps

/-- Where a directory lies at the place of an older file of a key, the replay stops, and
the newer file is not indexed. -/
theorem replay_stops_at_directory :
    let older := sample 'a' rfl "1" 1
    let newer := sample 'a' rfl "2" 1
    let files := [older.found 1, newer.found 2]
    let disk := (Disk.empty.makeDirectories (top.join older.path)).2
    IsStablySorted files files ∧
      List.Forall₂ (fun file reading => decode file = .ok reading) files [older, newer] ∧
      weight ((accepted 10 [older, newer]).map Decoded.entry) < UInt64.size ∧
      (replay top files (.empty 10) disk).index.entries = [] ∧
      ¬ (replay top files (.empty 10) disk).KeepsLongestEnd 10
        ((accepted 10 [older, newer]).map Decoded.entry) := by
  intro older newer files disk
  have isSorted : IsStablySorted files files := ⟨by simp [files, Decoded.found], fun _ => rfl⟩
  have decodes : List.Forall₂ (fun file reading => decode file = .ok reading)
      files [older, newer] :=
    .cons (decode_sample _ _ (by decide) _ _) (.cons (decode_sample _ _ (by decide) _ _) .nil)
  have small : weight ((accepted 10 [older, newer]).map Decoded.entry) < UInt64.size := by
    decide +kernel
  have stopped : (handleAll top [older, newer] (.start 10 disk)).1.toOption = none := by
    decide +kernel
  have untouched : (handleAll top [older, newer] (.start 10 disk)).2.index.entries = [] := by
    decide +kernel
  clear_value older newer files disk
  have run := replay_eq top 10 disk isSorted decodes
  refine ⟨isSorted, decodes, small, by rw [run]; exact untouched, fun keeps => ?_⟩
  obtain ⟨summary, ended⟩ := keeps.complete
  rw [run] at ended
  dsimp only at ended
  cases outcome : (handleAll top [older, newer] (.start 10 disk)).1 with
  | error failure => rw [outcome] at ended; cases ended
  | ok _ => rw [outcome] at stopped; cases stopped

end Replay

end ArtifactCache
