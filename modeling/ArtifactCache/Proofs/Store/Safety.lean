import ArtifactCache.Proofs.Store.Acceptance

/-! # What a failed opening leaves

An opening changes the disk before it has looked at all of it: it makes directories, moves old
files and takes the former directories away.  On an ordinary root a failure still destroys no
file.  Whatever lay beside the former directories is where it was, an old file is where it was or
where it belongs, and nothing is discarded before all files of the current layout have been read.
-/

namespace ArtifactCache.Store

open DiskPath Upgrade

variable {host : Host} {settings : Settings} {base : DiskPath}
  {disk middle ready between after : Disk} {top : Location}

/-- Whether a disk still has the files of another one: those beside the former directories of a
base directory where they were, and each old file where it was or where it belongs. -/
structure SparesFiles (base : DiskPath) (disk after : Disk) : Prop where
  others : ∀ {location size accessed}, disk.node? location = some (.file size accessed) →
    (∀ {middle top}, LiesAt base disk middle top → ∀ kind, ¬ oldPlace top kind <+: location) →
      after.node? location = some (.file size accessed)
  old : ∀ {middle top}, LiesAt base disk middle top → ∀ {kind source target size accessed},
    MovesTo kind source target → disk.node? (top ++ source) = some (.file size accessed) →
      after.node? (top ++ source) = some (.file size accessed) ∨
        after.node? (top ++ target) = some (.file size accessed)

theorem sparesFiles_of_grows (grows : Disk.Grows disk after) : SparesFiles base disk after where
  others found _ := grows.node? found
  old _ _ _ _ _ _ _ found := .inl (grows.node? found)

/-- What spares the files on the way to a prepared root spares all files. -/
theorem IsPrepared.sparesFiles (prepared : IsPrepared base disk middle top ready)
    (others : ∀ {location node}, ready.node? location = some node →
      (∀ kind, ¬ oldPlace top kind <+: location) → after.node? location = some node)
    (old : ∀ {kind source target}, IsOldFile ready top kind source target →
      after.node? (top ++ source) = ready.node? (top ++ source) ∨
        after.node? (top ++ target) = ready.node? (top ++ source)) :
    SparesFiles base disk after := by
  have grows := prepared.grows_base.trans prepared.grows
  constructor
  · intro location size accessed found apart
    exact others (grows.node? found) (apart prepared.toLiesAt)
  · intro middle' top' lies kind source target size accessed moves found
    obtain ⟨-, rfl⟩ := prepared.toLiesAt.unique lies
    have held := grows.node? found
    have stays := old ⟨moves, size, accessed, held⟩
    rwa [held] at stays

section Prepared

variable (ordinary : IsOrdinary middle top) (prepared : IsPrepared base disk middle top ready)

include ordinary prepared

theorem sparesFiles_of_upgraded (upgraded : IsUpgraded ready top Kind.all after) :
    SparesFiles base disk after :=
  prepared.sparesFiles
    (fun found apart => upgraded.node?_of_apart (fun kind _ => ordinary.hasRoom prepared kind)
      found fun kind _ => apart kind)
    fun {kind _ _} old => .inr (upgraded.moved kind kind.mem_all old)

theorem sparesFiles_of_stopped {failure : Failure}
    (fails : OneFails ready (ofLocation top) top Kind.all failure after) :
    SparesFiles base disk after := by
  have room := ordinary.hasRoom prepared
  obtain ⟨before, kind, later, between, order, -, upgraded, fails⟩ := fails
  obtain ⟨moves, part, reached⟩ := fails.moved
  -- The kinds before have been upgraded as a whole, and this one in part.
  have fresh : kind ∉ before :=
    fun earlier => Nat.lt_irrefl _ ((mem_before_iff order).mp earlier)
  have stopped := upgraded.stopped fresh (room kind) part reached
  exact prepared.sparesFiles (stopped.node?_of_apart room) (stopped.source_or_target room)

end Prepared

/-- An opening that fails for another reason than that a discarded file could not be removed
destroys no file and discards nothing, if its root is ordinary once it has been made.  Without
usable settings it touches nothing at all. -/
theorem failed_start_spares_files (host : Host) (settings : Settings) (disk : Disk)
    (ordinary : ∀ middle top, LiesAt settings.baseDirectory disk middle top →
      IsOrdinary middle top)
    (failure : Failure) (failed : (start host settings disk).outcome = .error failure)
    (unrefused : ∀ path operation fault,
      failure ≠ .startup .replay (.disk path operation fault)) :
    (start host settings disk).released = [] ∧ (start host settings disk).orphaned.queue = [] ∧
      SparesFiles settings.baseDirectory disk (start host settings disk).disk ∧
        (settings.fault? ≠ none → (start host settings disk).disk = disk) := by
  have course := course_start host settings disk
  generalize start host settings disk = opening at course failed ⊢
  cases course with
  | opened _ _ => cases failed
  | unusable _ => exact ⟨rfl, rfl, sparesFiles_of_grows (.refl disk), fun _ => rfl⟩
  | @unprepared _ ready usable ended =>
    have grows := grows_prepareRoot settings.baseDirectory disk
    rw [ended] at grows
    exact ⟨rfl, rfl, sparesFiles_of_grows grows, fun faulty => absurd usable faulty⟩
  | @notUpgraded _ _ _ scene usable done ended =>
    obtain ⟨middle, top, rfl, prepared⟩ := exists_isPrepared done
    have ordinary := ordinary middle top prepared.toLiesAt
    have stopped := (ordinary.of_stopped_upgrade prepared ended).2
    exact ⟨rfl, rfl, sparesFiles_of_stopped ordinary prepared stopped,
      fun faulty => absurd usable faulty⟩
  | @notInventoried _ _ _ scene _ usable done upgraded ended =>
    obtain ⟨middle, top, rfl, prepared⟩ := exists_isPrepared done
    have ordinary := ordinary middle top prepared.toLiesAt
    have upgraded := (ordinary.of_upgrade prepared upgraded).2
    exact ⟨rfl, rfl, sparesFiles_of_upgraded ordinary prepared upgraded,
      fun faulty => absurd usable faulty⟩
  | @interrupted _ _ scene files cause passes ended =>
    obtain rfl := Except.error.inj failed
    obtain ⟨middle, top, rfl, prepared⟩ := exists_isPrepared passes.prepared
    have ordinary := ordinary middle top prepared.toLiesAt
    have upgraded := (ordinary.of_passes prepared passes).2.1
    -- The files are read before the first one is discarded.
    rcases Replay.error_of_replay ended with ⟨-, idle⟩ | ⟨readings, -, stopped⟩
    · rw [idle]
      exact ⟨rfl, rfl, sparesFiles_of_upgraded ordinary prepared upgraded,
        fun faulty => absurd passes.usable faulty⟩
    · obtain ⟨path, operation, fault, rfl⟩ := Replay.exists_fault_of_discardAll stopped
      exact absurd rfl (unrefused path operation fault)

/-- A pipe in an old shard makes an opening fail, which destroys nothing. -/
theorem failed_start_spares_odd_shard :
    (∀ middle top, LiesAt (tenBytes []).baseDirectory (furnished [] oddShard) middle top →
        IsOrdinary middle top) ∧
      ∃ failure, (start .orderly (tenBytes []) (furnished [] oddShard)).outcome =
          .error failure ∧
        (∀ path operation fault, failure ≠ .startup .replay (.disk path operation fault)) ∧
        (start .orderly (tenBytes []) (furnished [] oddShard)).orphaned.queue = [] ∧
        SparesFiles (tenBytes []).baseDirectory (furnished [] oddShard)
          (start .orderly (tenBytes []) (furnished [] oddShard)).disk := by
  obtain ⟨located, held, ordinary, -, odd⟩ := isOrdinary_oddShard
  have lies := liesAt_of_locate located held
  have ordinary' : ∀ middle top,
      LiesAt (tenBytes []).baseDirectory (furnished [] oddShard) middle top →
        IsOrdinary middle top := by
    intro middle top lies'
    obtain ⟨rfl, rfl⟩ := lies.unique lies'
    exact ordinary
  obtain ⟨failure, failed, other⟩ := exists_failure_of_missing lies ordinary .orderly
    (fault?_tenBytes []) odd
  have unrefused : ∀ path operation fault,
      failure ≠ .startup .replay (.disk path operation fault) := fun _ _ _ => other _
  obtain ⟨-, queue, spared, -⟩ := failed_start_spares_files .orderly (tenBytes [])
    (furnished [] oddShard) ordinary' failure failed unrefused
  exact ⟨ordinary', failure, failed, unrefused, queue, spared⟩

end ArtifactCache.Store
