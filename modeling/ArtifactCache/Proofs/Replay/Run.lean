import ArtifactCache.Proofs.Index.Shedding
import ArtifactCache.Replay

/-! # What a replay comes to

A replay takes one file after the other.  Looked at as a whole it divides the files into
two parts: those that it accepts, which are the last files of their keys as far as they
fit into the budget alone, and those that it discards.  The accepted ones go through the
index, which holds the last of them and has released the first ones, and the discarded
ones are removed from the disk one after the other.

Whether the replay comes to its end depends on these removals only.
-/

namespace ArtifactCache

namespace Replay

open Index

/-- The entry that a file stands for. -/
def Decoded.entry (decoded : Decoded) : Entry :=
  (decoded.key, decoded.file)

/-- Whether a file is followed by another one of the same key. -/
def isSuperseded (decoded : Decoded) (later : List Decoded) : Bool :=
  later.any fun other => other.key = decoded.key

/-- The last file of each key, in the order of the files. -/
def latest : List Decoded → List Decoded
  | [] => []
  | decoded :: later =>
    if isSuperseded decoded later then latest later else decoded :: latest later

/-- The last file of each key as far as it fits into a budget alone. -/
def accepted (budget : UInt64) (files : List Decoded) : List Decoded :=
  (latest files).filter fun decoded => decoded.file.diskSize ≤ budget

/-- The files that are not accepted: those that are followed by another one of the same
key, and those that exceed the budget alone. -/
def discarded (budget : UInt64) : List Decoded → List Decoded
  | [] => []
  | decoded :: later =>
    if isSuperseded decoded later ∨ budget < decoded.file.diskSize then
      decoded :: discarded budget later
    else discarded budget later

/-- The files that are followed by another one of the same key. -/
def superseded : List Decoded → List Decoded
  | [] => []
  | decoded :: later =>
    if isSuperseded decoded later then decoded :: superseded later else superseded later

/-- The last file of each key that exceeds a budget alone. -/
def oversized (budget : UInt64) (files : List Decoded) : List Decoded :=
  (latest files).filter fun decoded => budget < decoded.file.diskSize

/-- Remove files up to the first that cannot be removed. -/
def discardAll (root : DiskPath) : List Decoded → Disk → Except Failure Disk
  | [], disk => .ok disk
  | decoded :: rest, disk => do discardAll root rest (← discard root decoded.path disk)

theorem not_isSuperseded_iff {decoded : Decoded} {later : List Decoded} :
    isSuperseded decoded later = false ↔ ∀ other ∈ later, other.key ≠ decoded.key := by
  simp [isSuperseded]

section Parts

variable {budget : UInt64} {decoded : Decoded} {later : List Decoded}

theorem accepted_of_discarded (out : isSuperseded decoded later ∨ budget < decoded.file.diskSize) :
    accepted budget (decoded :: later) = accepted budget later := by
  cases superseded : isSuperseded decoded later with
  | true => rw [accepted, latest, if_pos superseded, accepted]
  | false =>
    have large : budget < decoded.file.diskSize := out.resolve_left (by simp [superseded])
    rw [accepted, latest, if_neg (by simp [superseded]), List.filter_cons_of_neg, accepted]
    simpa using large

theorem accepted_of_kept (kept : ¬ (isSuperseded decoded later ∨ budget < decoded.file.diskSize)) :
    accepted budget (decoded :: later) = decoded :: accepted budget later := by
  obtain ⟨last, small⟩ := not_or.mp kept
  rw [accepted, latest, if_neg last, List.filter_cons_of_pos, accepted]
  simpa using small

theorem discarded_of_discarded
    (out : isSuperseded decoded later ∨ budget < decoded.file.diskSize) :
    discarded budget (decoded :: later) = decoded :: discarded budget later :=
  if_pos out

theorem discarded_of_kept
    (kept : ¬ (isSuperseded decoded later ∨ budget < decoded.file.diskSize)) :
    discarded budget (decoded :: later) = discarded budget later :=
  if_neg kept

end Parts

theorem sublist_latest (files : List Decoded) : (latest files).Sublist files := by
  induction files with
  | nil => exact .refl _
  | cons decoded later ih =>
    rw [latest]
    split
    · exact ih.cons decoded
    · exact ih.cons_cons decoded

theorem nodup_latest (files : List Decoded) : ((latest files).map Decoded.key).Nodup := by
  induction files with
  | nil => exact List.nodup_nil
  | cons decoded later ih =>
    rw [latest]
    split
    · exact ih
    · rename_i last
      rw [List.map_cons, List.nodup_cons]
      refine ⟨fun present => ?_, ih⟩
      obtain ⟨other, member, same⟩ := List.mem_map.mp present
      exact not_isSuperseded_iff.mp (Bool.eq_false_iff.mpr last) other
        ((sublist_latest later).mem member) same

theorem nodup_accepted (budget : UInt64) (files : List Decoded) :
    ((accepted budget files).map Decoded.key).Nodup :=
  (nodup_latest files).sublist (List.filter_sublist.map _)

/-- What is discarded is superseded or oversized, and not both. -/
theorem perm_superseded_oversized (budget : UInt64) (files : List Decoded) :
    (superseded files ++ oversized budget files).Perm (discarded budget files) := by
  induction files with
  | nil => exact .refl _
  | cons decoded later ih =>
    rw [oversized] at ih ⊢
    cases last : isSuperseded decoded later with
    | true =>
      rw [superseded, if_pos last, latest, if_pos last, discarded_of_discarded (.inl last)]
      exact ih.cons decoded
    | false =>
      rw [superseded, if_neg (by simp [last]), latest, if_neg (by simp [last])]
      by_cases large : budget < decoded.file.diskSize
      · rw [List.filter_cons_of_pos (by simpa using large), discarded_of_discarded (.inr large)]
        exact List.perm_middle.trans (ih.cons decoded)
      · rw [List.filter_cons_of_neg (by simpa using large),
          discarded_of_kept (not_or.mpr ⟨by simp [last], large⟩)]
        exact ih

theorem perm_accepted_discarded (budget : UInt64) (files : List Decoded) :
    (accepted budget files ++ discarded budget files).Perm files := by
  induction files with
  | nil => exact .refl _
  | cons decoded later ih =>
    by_cases out : isSuperseded decoded later ∨ budget < decoded.file.diskSize
    · rw [accepted_of_discarded out, discarded_of_discarded out]
      exact List.perm_middle.trans (ih.cons decoded)
    · rw [accepted_of_kept out, discarded_of_kept out]
      exact ih.cons decoded

/-! ## Files one by one -/

/-- Whether a replay under a budget has let certain entries through its index. -/
structure Progress.HasAccepted (budget : UInt64) (entries : List Entry) (progress : Progress) :
    Prop where
  sound : progress.index.Sound
  budget_eq : progress.index.budget = budget
  fits : progress.index.used ≤ budget
  /-- The index has released the first entries and holds the last ones. -/
  split : progress.released ++ progress.index.entries = entries
  /-- Where the bytes are a word, it holds as many entries as the budget allows. -/
  longest : weight entries < UInt64.size →
    IsLongestWithin budget.toNat entries progress.index.entries

theorem Progress.HasAccepted.exists_released {budget : UInt64} {first : Entry}
    {others : List Entry} {progress : Progress}
    (accepts : progress.HasAccepted budget (first :: others))
    (large : budget < tally (first :: others)) :
    ∃ rest, progress.released = first :: rest ∧ rest ++ progress.index.entries = others := by
  obtain ⟨sound, -, fits, split, -⟩ := accepts
  rcases List.append_eq_cons_iff.mp split with ⟨-, entries⟩ | ⟨rest, released, others⟩
  · rw [sound.used_eq, entries] at fits
    exact absurd fits (UInt64.not_le.mpr large)
  · exact ⟨rest, released, others.symm⟩

theorem Progress.HasAccepted.eq_of_fits {budget : UInt64} {entries : List Entry}
    {progress : Progress} (accepts : progress.HasAccepted budget entries)
    (fits : weight entries ≤ budget.toNat) :
    progress.index.entries = entries ∧ progress.released = [] := by
  have longest := accepts.longest (Nat.lt_of_le_of_lt fits budget.toNat_lt)
  have kept : progress.index.entries = entries :=
    longest.suffix.sublist.eq_of_length_le (longest.longest _ List.suffix_rfl fits)
  have split := accepts.split
  rw [kept, List.append_left_eq_self] at split
  exact ⟨kept, split⟩

theorem Progress.HasAccepted.index_eq_empty {budget : UInt64} {progress : Progress}
    (accepts : progress.HasAccepted budget []) : progress.index = .empty budget := by
  obtain ⟨⟨-, used⟩, limit, -, split, -⟩ := accepts
  have entries := (List.append_eq_nil_iff.mp split).2
  rw [entries] at used
  cases found : progress.index with
  | mk budget' entries' used' =>
    rw [found] at used limit entries
    subst used limit entries
    rfl

/-- Whatever is in the index, a discarded file is removed and the index does not notice it. -/
theorem handle_of_out (root : DiskPath) {decoded : Decoded} {later : List Decoded}
    {progress : Progress}
    (out : isSuperseded decoded later ∨ progress.index.budget < decoded.file.diskSize) :
    match discard root decoded.path progress.disk with
    | .ok disk => ∃ next, handle root decoded later progress = (.ok (), next) ∧
        next.disk = disk ∧ next.index = progress.index ∧ next.released = progress.released
    | .error failure => handle root decoded later progress = (.error failure, progress) := by
  unfold handle
  cases superseded : isSuperseded decoded later with
  | true =>
    rw [isSuperseded] at superseded
    rw [if_pos superseded]
    cases discard root decoded.path progress.disk with
    | error failure => rfl
    | ok disk => exact ⟨_, rfl, rfl, rfl, rfl⟩
  | false =>
    have large := out.resolve_left (by simp [superseded])
    rw [isSuperseded] at superseded
    rw [if_neg (by simp [superseded]), insert_of_lt large]
    simp only [Bool.false_eq_true, if_false]
    cases discard root decoded.path progress.disk with
    | error failure => rfl
    | ok disk => exact ⟨_, rfl, rfl, rfl, rfl⟩

theorem handle_of_discarded {budget : UInt64} {entries : List Entry} (root : DiskPath)
    {decoded : Decoded} {later : List Decoded} {progress : Progress}
    (out : isSuperseded decoded later ∨ budget < decoded.file.diskSize)
    (before : progress.HasAccepted budget entries) :
    match discard root decoded.path progress.disk with
    | .ok disk => ∃ next, handle root decoded later progress = (.ok (), next) ∧
        next.disk = disk ∧ next.HasAccepted budget entries
    | .error failure => handle root decoded later progress = (.error failure, progress) := by
  have frame : ∀ {next : Progress}, next.index = progress.index →
      next.released = progress.released → next.HasAccepted budget entries := by
    intro next sameIndex sameReleased
    refine ⟨?_, ?_, ?_, ?_, ?_⟩
    · exact sameIndex ▸ before.sound
    · rw [sameIndex, before.budget_eq]
    · exact sameIndex ▸ before.fits
    · rw [sameIndex, sameReleased, before.split]
    · exact sameIndex ▸ before.longest
  have handled := handle_of_out root (before.budget_eq ▸ out)
  cases removal : discard root decoded.path progress.disk with
  | error failure =>
    rw [removal] at handled
    exact handled
  | ok disk =>
    rw [removal] at handled
    obtain ⟨next, handled, sameDisk, sameIndex, sameReleased⟩ := handled
    exact ⟨next, handled, sameDisk, frame sameIndex sameReleased⟩

theorem handle_of_kept {budget : UInt64} {entries : List Entry} (root : DiskPath)
    {decoded : Decoded} {later : List Decoded} {progress : Progress}
    (kept : ¬ (isSuperseded decoded later ∨ budget < decoded.file.diskSize))
    (fresh : decoded.key ∉ entries.map Prod.fst) (before : progress.HasAccepted budget entries) :
    ∃ next, handle root decoded later progress = (.ok (), next) ∧ next.disk = progress.disk ∧
      next.HasAccepted budget (entries ++ [decoded.entry]) := by
  obtain ⟨last, small⟩ := not_or.mp kept
  have small : decoded.file.diskSize ≤ progress.index.budget :=
    before.budget_eq ▸ UInt64.not_lt.mp small
  have absent : decoded.key ∉ progress.index.entries.map Prod.fst := by
    intro present
    rw [← before.split, List.map_append] at fresh
    exact fresh (List.mem_append_right _ present)
  have inserted : renewed progress.index.entries decoded.key decoded.file =
      progress.index.entries ++ [decoded.entry] := by
    rw [renewed, without_of_notMem absent]
    rfl
  have nothing : replaced progress.index.entries decoded.key decoded.file = [] := by
    rw [replaced, find?_eq_none_iff.mpr absent]
    rfl
  obtain ⟨gone, left, split, longest, insertion⟩ := insert_of_le before.sound small
  rw [inserted] at split longest
  rw [nothing, List.nil_append] at insertion
  refine ⟨{ progress with
    index := { progress.index with entries := left, used := tally left }
    released := progress.released ++ gone }, ?_, rfl, ?_, before.budget_eq, ?_, ?_, ?_⟩
  · rw [isSuperseded] at last
    rw [handle, if_neg last, insertion]
    rfl
  · have sound := before.sound.insert decoded.key decoded.file
    rwa [insertion] at sound
  · exact before.budget_eq ▸ longest.fits
  · rw [List.append_assoc, split, ← List.append_assoc, before.split]
  · intro bytes
    have part : weight (progress.index.entries ++ [decoded.entry]) ≤
        weight (entries ++ [decoded.entry]) := by
      rw [← before.split, List.append_assoc]
      exact weight_le_of_sublist (List.sublist_append_right _ _)
    have former := before.longest (Nat.lt_of_le_of_lt
      (weight_le_of_sublist (List.sublist_append_left _ _)) bytes)
    have latter := longest.within (Nat.lt_of_le_of_lt part bytes)
    rw [before.budget_eq] at latter
    exact former.concat latter

/-- A replay comes to its end exactly if all discarded files can be removed one after the
other, and then all accepted entries have gone through its index. -/
theorem handleAll_eq {budget : UInt64} {entries : List Entry} (root : DiskPath)
    (files : List Decoded) {progress : Progress}
    (fresh : ∀ decoded ∈ files, decoded.key ∉ entries.map Prod.fst)
    (before : progress.HasAccepted budget entries) :
    match discardAll root (discarded budget files) progress.disk with
    | .ok disk => ∃ last, handleAll root files progress = (.ok (), last) ∧ last.disk = disk ∧
        last.HasAccepted budget (entries ++ (accepted budget files).map Decoded.entry)
    | .error failure => (handleAll root files progress).1 = .error failure := by
  induction files generalizing entries progress with
  | nil =>
    refine ⟨progress, rfl, rfl, ?_⟩
    rwa [accepted, latest, List.filter_nil, List.map_nil, List.append_nil]
  | cons decoded later ih =>
    obtain ⟨freshFirst, freshLater⟩ := List.forall_mem_cons.mp fresh
    by_cases out : isSuperseded decoded later ∨ budget < decoded.file.diskSize
    · have first := handle_of_discarded root out before
      rw [discarded_of_discarded out, accepted_of_discarded out]
      simp only [discardAll, handleAll]
      cases removal : discard root decoded.path progress.disk with
      | error failure =>
        rw [removal] at first
        simp only [first, bind, Except.bind]
      | ok disk =>
        rw [removal] at first
        obtain ⟨next, handled, rfl, accepts⟩ := first
        simp only [handled, bind, Except.bind]
        exact ih freshLater accepts
    · obtain ⟨next, handled, sameDisk, accepts⟩ :=
        handle_of_kept root out freshFirst before
      have freshNext : ∀ other ∈ later, other.key ∉ (entries ++ [decoded.entry]).map Prod.fst := by
        intro other member
        have last := not_isSuperseded_iff.mp (Bool.eq_false_iff.mpr (not_or.mp out).1)
        simpa [Decoded.entry, freshLater other member] using last other member
      have rest := ih freshNext accepts
      rw [discarded_of_kept out, accepted_of_kept out, List.map_cons, List.append_cons]
      simp only [handleAll, handled]
      rwa [sameDisk] at rest

/-! ## What is counted -/

section Counts

variable {budget : UInt64} {root : DiskPath} {later files : List Decoded} {decoded : Decoded}
  {progress next : Progress}

theorem discarded_eq_nil (distinct : (files.map Decoded.key).Nodup)
    (small : ∀ decoded ∈ files, decoded.file.diskSize ≤ budget) : discarded budget files = [] := by
  induction files with
  | nil => rfl
  | cons decoded later ih =>
    obtain ⟨fresh, distinct⟩ := List.nodup_cons.mp distinct
    obtain ⟨first, small⟩ := List.forall_mem_cons.mp small
    rw [discarded_of_kept, ih distinct small]
    rintro (superseded | large)
    · obtain ⟨other, member, same⟩ := List.any_eq_true.mp superseded
      exact fresh (List.mem_map.mpr ⟨other, member, of_decide_eq_true same⟩)
    · exact UInt64.not_le.mpr large first

theorem length_superseded_cons : (superseded (decoded :: later)).length =
    (if isSuperseded decoded later then 1 else 0) + (superseded later).length := by
  rw [superseded]
  split
  · exact Nat.add_comm _ _
  · exact (Nat.zero_add _).symm

theorem length_oversized_cons : (oversized budget (decoded :: later)).length =
    (if ¬ isSuperseded decoded later ∧ budget < decoded.file.diskSize then 1 else 0) +
      (oversized budget later).length := by
  rw [oversized, latest]
  by_cases last : isSuperseded decoded later = true
  · rw [if_pos last, if_neg fun out => out.1 last]
    exact (Nat.zero_add _).symm
  · rw [if_neg last, List.filter_cons]
    by_cases large : budget < decoded.file.diskSize
    · rw [if_pos (decide_eq_true large), if_pos ⟨last, large⟩]
      exact Nat.add_comm _ _
    · rw [if_neg (by simpa using large), if_neg fun out => large out.2]
      exact (Nat.zero_add _).symm

theorem counts_handle (handled : handle root decoded later progress = (.ok (), next)) :
    next.index.budget = progress.index.budget ∧
      next.duplicates = progress.duplicates + (if isSuperseded decoded later then 1 else 0) ∧
      next.rejected = progress.rejected +
        if ¬ isSuperseded decoded later ∧ progress.index.budget < decoded.file.diskSize
          then 1 else 0 := by
  have budget_insert : (progress.index.insert decoded.key decoded.file).index.budget =
      progress.index.budget := budget_perform progress.index (.insert decoded.key decoded.file)
  rw [handle, ← isSuperseded] at handled
  by_cases last : isSuperseded decoded later = true
  · rw [if_pos last] at handled
    rw [if_pos last, if_neg fun out => out.1 last]
    split at handled
    · obtain ⟨-, rfl⟩ := Prod.mk.inj handled
      exact ⟨rfl, rfl, rfl⟩
    · cases handled
  · rw [if_neg last] at handled
    rw [if_neg last]
    dsimp only at handled
    by_cases small : decoded.file.diskSize ≤ progress.index.budget
    · rw [if_pos (admitted_insert.mpr small)] at handled
      obtain ⟨-, rfl⟩ := Prod.mk.inj handled
      rw [if_neg fun out => UInt64.not_lt.mpr small out.2]
      exact ⟨budget_insert, rfl, rfl⟩
    · rw [if_neg (mt admitted_insert.mp small)] at handled
      rw [if_pos ⟨last, UInt64.not_le.mp small⟩]
      split at handled
      · obtain ⟨-, rfl⟩ := Prod.mk.inj handled
        exact ⟨rfl, rfl, rfl⟩
      · cases handled

/-- A replay that comes to its end counts the files that it discards, those that are superseded
apart from those that are oversized. -/
theorem counts_handleAll {last : Progress}
    (handled : handleAll root files progress = (.ok (), last)) :
    last.duplicates = progress.duplicates + (superseded files).length ∧
      last.rejected = progress.rejected + (oversized progress.index.budget files).length := by
  induction files generalizing progress with
  | nil =>
    obtain ⟨-, rfl⟩ := Prod.mk.inj handled
    exact ⟨rfl, rfl⟩
  | cons decoded later ih =>
    rw [handleAll] at handled
    split at handled
    · rename_i next first
      obtain ⟨sameBudget, duplicates, rejected⟩ := counts_handle first
      obtain ⟨duplicates', rejected'⟩ := ih handled
      rw [sameBudget] at rejected'
      rw [length_superseded_cons, length_oversized_cons, ← Nat.add_assoc, ← Nat.add_assoc,
        ← duplicates, ← rejected]
      exact ⟨duplicates', rejected'⟩
    · cases handled

theorem oversized_eq_nil (small : ∀ decoded ∈ files, decoded.file.diskSize ≤ budget) :
    oversized budget files = [] := by
  rw [oversized, List.filter_eq_nil_iff]
  intro decoded member
  simpa using small decoded ((sublist_latest files).mem member)

end Counts

end Replay

end ArtifactCache
