import ArtifactCache.Proofs.Index.Accounting
import ArtifactCache.Proofs.Replay.LongestEnd

/-! # The account of a replay is exact

A replay counts the files that it removes as it goes, and takes the number of those that had
to make room from what is left over.  The account is exact nevertheless, because each file is
in just one of four classes: a later file of its key supersedes it, or it exceeds the budget
alone, or the index has taken it in and released it again, or the index still has it.  The
files of the first two classes are removed from the disk, and nothing else is.
-/

namespace ArtifactCache.Replay

open Index

/-! ## What is removed -/

/-- Whether a disk is left when certain files are removed: there is nothing more to remove
under their paths, and each node that is lost was under one of them. -/
structure HasDiscarded (root : DiskPath) (gone : List Decoded) (disk after : Disk) : Prop where
  missing : ∀ decoded ∈ gone, after.removeFile (root.join decoded.path) = .error .notFound
  lost : ∀ location, after.node? location ≠ disk.node? location →
    after.node? location = none ∧
      ∃ decoded ∈ gone, disk.slotOf (root.join decoded.path).steps = .ok location

section Discarding

variable {root : DiskPath} {disk after : Disk} {decoded : Decoded} {gone : List Decoded}

/-- A file is discarded by erasing it, or it is gone already. -/
theorem erased_of_discard (discarded : discard root decoded.path disk = .ok after) :
    after.removeFile (root.join decoded.path) = .error .notFound ∧
      (after = disk ∨ ∃ location, ∃ plain : disk.node? location ≠ some .directory,
        disk.slotOf (root.join decoded.path).steps = .ok location ∧
          after = disk.erase location plain) := by
  rw [discard] at discarded
  split at discarded
  · rename_i changed removed
    obtain rfl := Except.ok.inj discarded
    exact ⟨Disk.removeFile_of_removed removed, .inr (Disk.exists_of_removeFile removed)⟩
  · rename_i fault refused
    split at discarded
    · rename_i missing
      obtain rfl := Except.ok.inj discarded
      exact ⟨missing ▸ refused, .inl rfl⟩
    · cases discarded

theorem missing_of_discardAll {path : DiskPath} (missing : disk.removeFile path = .error .notFound)
    (done : discardAll root gone disk = .ok after) :
    after.removeFile path = .error .notFound := by
  induction gone generalizing disk with
  | nil => exact Except.ok.inj done ▸ missing
  | cons decoded rest ih =>
    obtain ⟨middle, first, others⟩ := bind_eq_ok_iff.mp done
    rcases (erased_of_discard first).2 with rfl | ⟨location, plain, -, rfl⟩
    · exact ih missing others
    · exact ih (Disk.removeFile_erase_of_notFound plain missing) others

theorem hasDiscarded_of_discardAll (done : discardAll root gone disk = .ok after) :
    HasDiscarded root gone disk after := by
  induction gone generalizing disk with
  | nil =>
    obtain rfl := Except.ok.inj done
    exact ⟨by simp, fun location differ => absurd rfl differ⟩
  | cons decoded rest ih =>
    obtain ⟨middle, first, following⟩ := bind_eq_ok_iff.mp done
    obtain ⟨missing, how⟩ := erased_of_discard first
    obtain ⟨others, lost⟩ := ih following
    refine ⟨List.forall_mem_cons.mpr ⟨missing_of_discardAll missing following, others⟩,
      fun location differ => ?_⟩
    rcases how with rfl | ⟨slot, plain, reached, rfl⟩
    · obtain ⟨none, other, member, there⟩ := lost location differ
      exact ⟨none, other, List.mem_cons_of_mem _ member, there⟩
    · by_cases later : after.node? location = (disk.erase slot plain).node? location
      · rw [later, Disk.node?_erase] at differ ⊢
        split
        · rename_i here
          exact ⟨rfl, decoded, List.mem_cons_self, here ▸ reached⟩
        · rename_i elsewhere
          exact absurd (if_neg elsewhere) differ
      · obtain ⟨none, other, member, there⟩ := lost location later
        refine ⟨none, other, List.mem_cons_of_mem _ member, ?_⟩
        -- A way that still leads somewhere has not been changed.
        have kept : Disk.KeptOrMissing (disk.slotOf (root.join other.path).steps)
            ((disk.erase slot plain).slotOf (root.join other.path).steps) := Disk.slotOf_erase _
        rcases kept with same | broken
        · exact same ▸ there
        · rw [there] at broken
          cases broken

theorem HasDiscarded.perm {others : List Decoded} (same : others.Perm gone)
    (discarded : HasDiscarded root gone disk after) : HasDiscarded root others disk after where
  missing decoded member := discarded.missing decoded (same.mem_iff.mp member)
  lost location differ := by
    obtain ⟨none, decoded, member, there⟩ := discarded.lost location differ
    exact ⟨none, decoded, same.mem_iff.mpr member, there⟩

end Discarding

/-! ## The bytes that are indexed -/

/-- Under a budget below half the range of a word, a file leaves the count of bytes exact. -/
theorem balanced_handle {root : DiskPath} {decoded : Decoded} {later : List Decoded}
    {progress next : Progress} (balanced : progress.index.Balanced)
    (bounded : progress.index.budget.toNat ≤ 2 ^ 63 - 1)
    (handled : handle root decoded later progress = (.ok (), next)) : next.index.Balanced := by
  rw [handle] at handled
  split at handled
  · split at handled
    · obtain ⟨-, rfl⟩ := Prod.mk.inj handled
      exact balanced
    · cases handled
  · dsimp only at handled
    split at handled
    · obtain ⟨-, rfl⟩ := Prod.mk.inj handled
      exact balanced.insert bounded decoded.key decoded.file
    · split at handled
      · obtain ⟨-, rfl⟩ := Prod.mk.inj handled
        exact balanced
      · cases handled

theorem balanced_handleAll {root : DiskPath} {files : List Decoded} {progress last : Progress}
    (balanced : progress.index.Balanced) (bounded : progress.index.budget.toNat ≤ 2 ^ 63 - 1)
    (handled : handleAll root files progress = (.ok (), last)) : last.index.Balanced := by
  induction files generalizing progress with
  | nil =>
    obtain ⟨-, rfl⟩ := Prod.mk.inj handled
    exact balanced
  | cons decoded later ih =>
    rw [handleAll] at handled
    split at handled
    · rename_i next first
      have sameBudget := (counts_handle first).1
      exact ih (balanced_handle balanced bounded first) (sameBudget ▸ bounded) handled
    · cases handled

/-! ## The account -/

/-- Whether the files of a replay are divided into four classes, and each of them has done what
its class says. -/
structure Divides (root : DiskPath) (budget : UInt64) (decoded : List Decoded) (disk : Disk)
    (result : ReplayResult) (displaced indexed : List Decoded) : Prop where
  /-- Each file is in one of the classes. -/
  perm : (superseded decoded ++ oversized budget decoded ++ displaced ++ indexed).Perm decoded
  /-- No file is in two of them. -/
  apart : ((superseded decoded ++ oversized budget decoded ++ displaced ++ indexed).map
    fun reading => reading.path.components).Nodup
  /-- Each key has at most one file that exceeds the budget as the last one. -/
  keys : ((oversized budget decoded).map Decoded.key).Nodup
  removed : HasDiscarded root (superseded decoded ++ oversized budget decoded) disk result.disk
  released : result.released = displaced.map Decoded.entry
  entries : result.index.entries = indexed.map Decoded.entry

/-- Whether the numbers of an account are those of the four classes. -/
structure IsAccountOf (budget : UInt64) (files : List FoundFile) (decoded : List Decoded)
    (result : ReplayResult) (account : ReplaySummary) : Prop where
  filesSeen : account.filesSeen = files.length
  duplicates : account.duplicates = (superseded decoded).length
  rejected : account.rejected = (oversized budget decoded).length
  displaced : account.displaced = result.released.length
  indexed : account.indexed = result.index.size
  total : account.filesSeen =
    account.indexed + account.rejected + account.duplicates + account.displaced
  bytesIndexed : account.bytesIndexed = tally result.index.entries
  /-- The bytes are exact unless they do not fit into a word. -/
  exact : budget.toNat ≤ 2 ^ 63 - 1 ∨ weight result.index.entries < UInt64.size →
    account.bytesIndexed.toNat = weight result.index.entries

theorem map_path_of_decodes {sorted : List FoundFile} {decoded : List Decoded}
    (decodes : List.Forall₂ (fun file reading => decode file = .ok reading) sorted decoded) :
    decoded.map Decoded.path = sorted.map FoundFile.path := by
  induction decodes with
  | nil => rfl
  | cons read _ ih => rw [List.map_cons, List.map_cons, path_of_decode read, ih]

end ArtifactCache.Replay
