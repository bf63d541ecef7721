import ArtifactCache.Proofs.Replay.LongestEnd

/-! # A replay refuses unreadable files as a whole

A replay reads the places of all files before it handles the first one.  If one of them
cannot be read then it fails with the first such file in the order of access, and whatever
is in the index, nothing has been inserted, released or removed by then.

If all of them can be read then only the disk can stop a replay.  Which files have to be
removed depends on the budget of the index alone, so the replay comes to its end exactly if
these removals succeed one after the other.
-/

namespace ArtifactCache.Replay

/-- Whether files can be removed one after the other, each of them from the disk that the
ones before it have left, and what that comes to.  A file may be gone already. -/
inductive Clears (root : DiskPath) : List Decoded → Disk → Disk → Prop
  | done {disk} : Clears root [] disk disk
  | removed {decoded rest disk next last}
      (removal : disk.removeFile (root.join decoded.path) = .ok next)
      (others : Clears root rest next last) : Clears root (decoded :: rest) disk last
  | gone {decoded rest disk last}
      (missing : disk.removeFile (root.join decoded.path) = .error .notFound)
      (others : Clears root rest disk last) : Clears root (decoded :: rest) disk last

section Removals

variable {root : DiskPath} {files gone : List Decoded} {decoded : Decoded} {later : List Decoded}
  {progress : Progress} {disk last : Disk}

theorem discardAll_eq_ok_iff :
    discardAll root gone disk = .ok last ↔ Clears root gone disk last := by
  constructor
  · intro done
    induction gone generalizing disk with
    | nil =>
      obtain rfl := Except.ok.inj done
      exact .done
    | cons decoded rest ih =>
      obtain ⟨next, first, others⟩ := bind_eq_ok_iff.mp done
      rw [discard] at first
      split at first
      · rename_i removal
        obtain rfl := Except.ok.inj first
        exact .removed removal (ih others)
      · rename_i refused
        split at first
        · rename_i missing
          obtain rfl := Except.ok.inj first
          exact .gone (missing ▸ refused) (ih others)
        · cases first
  · intro clears
    induction clears with
    | done => rfl
    | removed removal _ ih =>
      rw [discardAll, discard, removal]
      exact ih
    | gone missing _ ih =>
      rw [discardAll, discard, missing]
      exact ih

/-- Whatever is in the index, a file that is not discarded leaves the disk as it is. -/
theorem exists_handle_of_in (root : DiskPath)
    (kept : ¬ (isSuperseded decoded later ∨ progress.index.budget < decoded.file.diskSize)) :
    ∃ next, handle root decoded later progress = (.ok (), next) ∧ next.disk = progress.disk := by
  obtain ⟨last, small⟩ := not_or.mp kept
  rw [isSuperseded] at last
  rw [handle, if_neg last]
  dsimp only
  rw [if_pos (Index.admitted_insert.mpr (UInt64.not_lt.mp small))]
  exact ⟨_, rfl, rfl⟩

/-- Whatever is in the index, it is for the removals to stop the handling of files. -/
theorem handleAll_of_removals (root : DiskPath) (files : List Decoded) (progress : Progress) :
    match discardAll root (discarded progress.index.budget files) progress.disk with
    | .ok disk => ∃ last, handleAll root files progress = (.ok (), last) ∧ last.disk = disk
    | .error failure => (handleAll root files progress).1 = .error failure := by
  induction files generalizing progress with
  | nil => exact ⟨progress, rfl, rfl⟩
  | cons decoded later ih =>
    by_cases out : isSuperseded decoded later ∨ progress.index.budget < decoded.file.diskSize
    · have first := handle_of_out root out
      rw [discarded_of_discarded out]
      simp only [discardAll, handleAll]
      cases removal : discard root decoded.path progress.disk with
      | error failure =>
        rw [removal] at first
        simp only [first, bind, Except.bind]
      | ok disk =>
        rw [removal] at first
        obtain ⟨next, handled, rfl, sameIndex, -⟩ := first
        simp only [handled, bind, Except.bind]
        exact sameIndex ▸ ih next
    · obtain ⟨next, handled, sameDisk⟩ := exists_handle_of_in root out
      have rest := ih next
      rw [(counts_handle handled).1, sameDisk] at rest
      rw [discarded_of_kept out]
      simp only [handleAll, handled]
      exact rest

end Removals

theorem decode_of_unreadable {found : FoundFile} {fault : PlaceFault}
    (unreadable : readPlace found.path found.size = .error fault) :
    decode found = .error (.unrecognizedFile found.path fault.message) := by
  rw [decode, unreadable]

theorem unreadable_of_decode {found : FoundFile} {failure : Failure}
    (refused : decode found = .error failure) :
    ∃ fault, readPlace found.path found.size = .error fault ∧
      failure = .unrecognizedFile found.path fault.message := by
  rw [decode] at refused
  split at refused
  · cases refused
  · rename_i unreadable
    exact ⟨_, unreadable, (Except.error.inj refused).symm⟩

section Replays

variable {root : DiskPath} {files sorted : List FoundFile} {index : Index} {disk : Disk}

/-- The first file that cannot be read stops a replay before it has begun. -/
theorem exists_first_unreadable (order : byAccess files = sorted)
    (odd : ∃ file ∈ sorted, ∃ fault, readPlace file.path file.size = .error fault) :
    ∃ before found after fault, sorted = before ++ found :: after ∧
      (∀ file ∈ before, ∃ entry, readPlace file.path file.size = .ok entry) ∧
      readPlace found.path found.size = .error fault ∧
      replay root files index disk =
        { outcome := .error (.unrecognizedFile found.path fault.message), index, disk,
          released := [] } := by
  obtain ⟨file, member, fault, unreadable⟩ := odd
  cases read : sorted.mapM decode with
  | ok decoded =>
    obtain ⟨reading, -, readable⟩ := exists_of_mapM_eq_ok read member
    rw [decode_of_unreadable unreadable] at readable
    cases readable
  | error failure =>
    obtain ⟨before, found, after, values, split, readings, refused⟩ :=
      exists_first_of_mapM_eq_error read
    obtain ⟨fault, unreadable, rfl⟩ := unreadable_of_decode refused
    refine ⟨before, found, after, fault, split, fun file among => ?_, unreadable, ?_⟩
    · obtain ⟨reading, -, readable⟩ := exists_of_mapM_eq_ok readings among
      exact ⟨_, readPlace_found readable⟩
    · rw [replay, order, read]

/-- A replay of files that can be read comes to its end exactly if its removals succeed. -/
theorem exists_account_iff {decoded : List Decoded} (order : byAccess files = sorted)
    (read : sorted.mapM decode = .ok decoded) :
    (∃ account, (replay root files index disk).outcome = .ok account) ↔
      ∃ cleared, Clears root (discarded index.budget decoded) disk cleared := by
  simp only [replay, order, read, ← discardAll_eq_ok_iff]
  have run := handleAll_of_removals root decoded
    { index, disk, released := [], rejected := 0, duplicates := 0 }
  dsimp only at run
  cases removals : discardAll root (discarded index.budget decoded) disk with
  | error failure =>
    rw [removals] at run
    simp [run, Except.map]
  | ok cleared =>
    rw [removals] at run
    obtain ⟨last, handled, -⟩ := run
    exact iff_of_true ⟨_, by rw [handled]; rfl⟩ ⟨cleared, rfl⟩

end Replays

/-- If some file cannot be read then a replay fails with the first such file in the order of
access, and the index, the disk and whoever is told of released entries notice nothing.  A
replay comes to its end exactly if all files can be read and each one that has to be discarded
can be removed or is gone. -/
theorem replay_refuses_unreadable_files (root : DiskPath) (files sorted : List FoundFile)
    (index : Index) (disk : Disk) (isSorted : IsStablySorted files sorted) :
    ((∃ file ∈ files, ∃ fault, readPlace file.path file.size = .error fault) →
      ∃ before found after fault, sorted = before ++ found :: after ∧
        (∀ file ∈ before, ∃ entry, readPlace file.path file.size = .ok entry) ∧
        readPlace found.path found.size = .error fault ∧
        replay root files index disk =
          { outcome := .error (.unrecognizedFile found.path fault.message), index, disk,
            released := [] }) ∧
    ((∃ account, (replay root files index disk).outcome = .ok account) ↔
      ∃ decoded cleared,
        List.Forall₂ (fun file reading => decode file = .ok reading) sorted decoded ∧
        Clears root (discarded index.budget decoded) disk cleared) := by
  have order : byAccess files = sorted := (isStablySorted_byAccess files).unique isSorted
  refine ⟨?_, ?_⟩
  · rintro ⟨file, member, odd⟩
    exact exists_first_unreadable order ⟨file, isSorted.mem_iff.mpr member, odd⟩
  · simp only [← mapM_eq_ok_iff]
    cases read : sorted.mapM decode with
    | error failure =>
      rw [replay, order, read]
      simp
    | ok decoded =>
      rw [exists_account_iff order read]
      constructor
      · rintro ⟨cleared, clears⟩
        exact ⟨decoded, cleared, rfl, clears⟩
      · rintro ⟨others, cleared, same, clears⟩
        obtain rfl := Except.ok.inj same
        exact ⟨cleared, clears⟩

def strayFile : FoundFile :=
  { path := .ofString "raw.v2/aa/junk", size := 1, accessed := 3 }

theorem readPlace_strayFile : readPlace strayFile.path strayFile.size =
    .error (.name { input := "junk", fault := .digest }) := by
  decide +kernel

theorem message_strayFile :
    (PlaceFault.name { input := "junk", fault := .digest }).message =
      "invalid cache filename \"junk\": expected 64 lowercase hex characters" := by
  decide +kernel

/-- Among an older file of a key, one that is too large and one that would displace the entry
of a full index, a stray file stops the replay before any of them is handled.  Without it the
replay comes to its end. -/
theorem replay_refuses_unreadable_files_stray :
    let older := sample 'a' rfl "1" 4
    let large := sample 'c' rfl "1" 11
    let newer := sample 'a' rfl "2" 4
    let other := sample 'b' rfl "1" 8
    let index := ((Index.empty 10).insert other.key other.file).index
    let disk := sampleDisk (top.join older.path)
    replay top [newer.found 4, strayFile, large.found 2, older.found 1] index disk =
        { outcome := .error (.unrecognizedFile strayFile.path
            "invalid cache filename \"junk\": expected 64 lowercase hex characters")
          index, disk, released := [] } ∧
      ∃ account, (replay top [newer.found 4, large.found 2, older.found 1] index disk).outcome =
        .ok account := by
  intro older large newer other index disk
  have isSorted : IsStablySorted [newer.found 4, strayFile, large.found 2, older.found 1]
      [older.found 1, large.found 2, strayFile, newer.found 4] :=
    isStablySorted_of_perm (List.reverse_perm _).symm
      (by simp [Decoded.found, strayFile])
  have isSorted' : IsStablySorted [newer.found 4, large.found 2, older.found 1]
      [older.found 1, large.found 2, newer.found 4] :=
    isStablySorted_of_perm (List.reverse_perm _).symm (by simp [Decoded.found])
  have readOlder : decode (older.found 1) = .ok older := decode_sample _ _ (by decide) _ _
  have readLarge : decode (large.found 2) = .ok large := decode_sample _ _ (by decide) _ _
  have readNewer : decode (newer.found 4) = .ok newer := decode_sample _ _ (by decide) _ _
  have removable : ∀ reading ∈ discarded index.budget [older, large, newer],
      disk.Removable (top.join reading.path) := by decide +kernel
  clear_value older large newer other index disk
  refine ⟨?_, ?_⟩
  · obtain ⟨before, found, after, fault, split, -, unreadable, refused⟩ :=
      (replay_refuses_unreadable_files top _ _ index disk isSorted).1
        ⟨strayFile, by simp, _, readPlace_strayFile⟩
    have member : found ∈ [older.found 1, large.found 2, strayFile, newer.found 4] := by
      rw [split]
      exact List.mem_append_right _ List.mem_cons_self
    have readable : ∀ reading, decode found ≠ .ok reading := by
      intro reading read
      rw [readPlace_found read] at unreadable
      cases unreadable
    -- No other file than the stray one is unreadable.
    obtain rfl : found = strayFile := by
      simp only [List.mem_cons, List.not_mem_nil, or_false] at member
      rcases member with rfl | rfl | rfl | rfl
      · exact absurd readOlder (readable _)
      · exact absurd readLarge (readable _)
      · rfl
      · exact absurd readNewer (readable _)
    rw [readPlace_strayFile] at unreadable
    obtain rfl := Except.error.inj unreadable
    rwa [message_strayFile] at refused
  · obtain ⟨cleared, removals⟩ := exists_discardAll removable
    exact (replay_refuses_unreadable_files top _ _ index disk isSorted').2.mpr
      ⟨_, cleared, .cons readOlder (.cons readLarge (.cons readNewer .nil)),
        discardAll_eq_ok_iff.mp removals⟩

end ArtifactCache.Replay
