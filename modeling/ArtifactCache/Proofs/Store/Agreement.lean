import ArtifactCache.Proofs.Store.Acceptance

/-! # Openings agree

The order in which directories are listed, the numbers of workers and their schedule decide how an
opening goes, but not how it ends.  The upgrade of an ordinary root leads to one disk only, the
inventory lists the same files in some order, and where no two of them have been accessed at the
same time the replay takes them in one order only.
-/

namespace ArtifactCache

open DiskPath Upgrade

def Failure.stage? : Failure → Option Stage
  | .startup stage _ => some stage
  | _ => none

theorem Stage.earlier_trichotomy (stage stage' : Stage) :
    stage = stage' ∨ stage ∈ stage'.earlier ∨ stage' ∈ stage.earlier := by
  cases stage <;> cases stage' <;> simp [earlier]

/-- Whether two settings differ in their numbers of workers only, none of which is zero. -/
structure Settings.AgreeButWorkers (settings settings' : Settings) : Prop where
  baseDirectory : settings'.baseDirectory = settings.baseDirectory
  maxSize : settings'.maxSize = settings.maxSize
  maxRemovals : settings'.maxRemovals = settings.maxRemovals
  workers : settings.upgradeWorkers ≠ some 0 ∧ settings.inventoryWorkers ≠ some 0
  workers' : settings'.upgradeWorkers ≠ some 0 ∧ settings'.inventoryWorkers ≠ some 0

theorem Settings.AgreeButWorkers.fault?_eq {settings settings' : Settings}
    (agree : settings.AgreeButWorkers settings') : settings'.fault? = settings.fault? := by
  rw [fault?, fault?, agree.baseDirectory, agree.maxSize, agree.maxRemovals,
    if_neg (not_or.mpr agree.workers), if_neg (not_or.mpr agree.workers')]

namespace Store

variable {host host' : Host} {settings settings' : Settings} {disk middle : Disk}
  {top : Location}

/-- Whether two openings fail in the same stage, or open the same cache with the same releases on
the same disk, which the removals that are queued change in the same way in whatever order. -/
inductive Agree (first second : Opening) : Prop
  | failed {failure failure'} (fails : first.outcome = .error failure)
      (fails' : second.outcome = .error failure') (stage : failure.stage? = failure'.stage?)
  | opened {store} (opens : first.outcome = .ok store) (opens' : second.outcome = .ok store)
      (released : first.released = second.released) (disk : first.disk = second.disk)
      (swept : ∀ order order', order.Perm store.sweeper.queue →
        order'.Perm store.sweeper.queue →
          (Sweeper.attemptAll order first.disk).1 = (Sweeper.attemptAll order' second.disk).1)

/-! ## Failures -/

/-- No two stages are the first one that misses something. -/
theorem Blames.stage_eq {base : DiskPath} {failure failure' : Failure}
    (blames : Blames base disk top failure) (blames' : Blames base disk top failure')
    (missing : ¬ ∀ earlier ∈ Stage.replay.earlier, Admits base disk top earlier) :
    failure.stage? = failure'.stage? := by
  obtain ⟨stage, cause, rfl, earlier, missed⟩ := blames
  obtain ⟨stage', cause', rfl, earlier', missed'⟩ := blames'
  have missed := missed.resolve_right fun ⟨same, _⟩ => missing (same ▸ earlier)
  have missed' := missed'.resolve_right fun ⟨same, _⟩ => missing (same ▸ earlier')
  rcases stage.earlier_trichotomy stage' with rfl | before | behind
  · rfl
  · exact absurd (earlier' stage before) missed
  · exact absurd (earlier stage' behind) missed'

theorem outcome_of_fault {fault : SettingsFault} (host : Host) (disk : Disk)
    (faulty : settings.fault? = some fault) :
    (start host settings disk).outcome = .error (.ofSettings fault) := by
  simp only [start, faulty]

/-- Where the base directory cannot be made or located, nothing else is tried. -/
theorem exists_failure_of_lost (host : Host) (usable : settings.fault? = none)
    (lost : ¬ ∃ middle top, LiesAt settings.baseDirectory disk middle top) :
    ∃ cause, (start host settings disk).outcome = .error (.startup .directories cause) := by
  have unprepared : ∀ {root ready},
      prepareRoot settings.baseDirectory disk ≠ (.ok root, ready) := by
    intro root ready prepared
    obtain ⟨middle, top, -, isPrepared⟩ := exists_isPrepared prepared
    exact lost ⟨middle, top, isPrepared.toLiesAt⟩
  have course := course_start host settings disk
  generalize start host settings disk = opening at course ⊢
  cases course with
  | unusable refused =>
    rw [usable] at refused
    cases refused
  | unprepared _ _ => exact ⟨_, rfl⟩
  | notUpgraded _ prepared _ => exact absurd prepared unprepared
  | notInventoried _ prepared _ _ => exact absurd prepared unprepared
  | interrupted passes _ => exact absurd passes.prepared unprepared
  | opened passes _ => exact absurd passes.prepared unprepared

/-! ## Replays -/

section Replays

variable {ready ready' : Disk} {scene scene' : Scene} {files files' : List FoundFile}

/-- On an ordinary root with distinct accesses the stages in front of the replay lead to the same
disk and to one replay only. -/
theorem Passes.replay_eq (passes : Passes host settings disk (ofLocation top) ready scene files)
    (passes' : Passes host' settings' disk (ofLocation top) ready' scene' files')
    (agree : settings.AgreeButWorkers settings')
    (lies : LiesAt settings.baseDirectory disk middle top) (ordinary : IsOrdinary middle top)
    (distinct : HasDistinctAccesses middle top) :
    replay (ofLocation top) files' (.empty settings'.maxSize) scene'.disk =
      replay (ofLocation top) files (.empty settings.maxSize) scene.disk := by
  -- The preparation does not depend on the host, and an upgraded disk is unique.
  have same := passes'.prepared
  rw [agree.baseDirectory, passes.prepared] at same
  obtain ⟨-, rfl⟩ := Prod.mk.inj same
  obtain ⟨-, prepared⟩ := lies.isPrepared passes.prepared
  obtain ⟨-, upgraded, -, -, listed⟩ := ordinary.of_passes prepared passes
  obtain ⟨-, upgraded', -, -, listed'⟩ := ordinary.of_passes prepared passes'
  rw [upgraded'.unique upgraded] at listed' ⊢
  rw [agree.maxSize]
  apply Replay.replay_eq_of_perm _ _ _ (listed'.trans listed.symm)
  rw [(listed'.map _).nodup_iff]
  have apart : HasDistinctAccesses scene.disk top :=
    ordinary.hasDistinctAccesses prepared upgraded distinct
  exact apart.nodup

theorem Passes.agree (passes : Passes host settings disk (ofLocation top) ready scene files)
    (passes' : Passes host' settings' disk (ofLocation top) ready' scene' files')
    (agree : settings.AgreeButWorkers settings')
    (same : replay (ofLocation top) files' (.empty settings'.maxSize) scene'.disk =
      replay (ofLocation top) files (.empty settings.maxSize) scene.disk) :
    Agree (start host settings disk) (start host' settings' disk) := by
  rw [passes.start_eq_ended, passes'.start_eq_ended, same]
  obtain ⟨other, root, held, layout, listed, -⟩ := passes.exists_layout
  rw [root] at same ⊢
  cases result : replay (ofLocation other) files (.empty settings.maxSize) scene.disk with
  | mk outcome index last released =>
    cases outcome with
    | error failure => exact .failed rfl rfl rfl
    | ok account =>
      have replayed := isReplayed_of_replay held layout listed result
      rw [ended, ended, agree.maxRemovals]
      refine .opened rfl rfl rfl rfl fun order order' swept swept' => ?_
      dsimp only at swept swept'
      rw [queue_queueReleased, Sweeper.create, List.nil_append] at swept swept'
      exact (hasErased_of_holds replayed.holds swept).1.unique
        (hasErased_of_holds replayed.holds swept').1

end Replays

/-- Openings of the same disk agree on any hosts and with any numbers of workers, if the root is
ordinary and no two files below it have been accessed at the same time. -/
theorem start_agrees (host host' : Host) (settings settings' : Settings) (disk : Disk)
    (agree : settings.AgreeButWorkers settings')
    (ordinary : ∀ middle top, LiesAt settings.baseDirectory disk middle top →
      IsOrdinary middle top ∧ HasDistinctAccesses middle top) :
    Agree (start host settings disk) (start host' settings' disk) := by
  cases faulty : settings.fault? with
  | some fault =>
    exact .failed (outcome_of_fault host disk faulty)
      (outcome_of_fault host' disk (agree.fault?_eq.trans faulty)) rfl
  | none =>
    have faulty' := agree.fault?_eq.trans faulty
    by_cases located : ∃ middle top, LiesAt settings.baseDirectory disk middle top
    · obtain ⟨middle, top, lies⟩ := located
      have lies' : LiesAt settings'.baseDirectory disk middle top := by
        rwa [agree.baseDirectory]
      obtain ⟨ordinary, distinct⟩ := ordinary middle top lies
      by_cases admits : ∀ earlier ∈ Stage.replay.earlier,
          Admits settings.baseDirectory middle top earlier
      · obtain ⟨ready, scene, files, passes⟩ :=
          exists_passes_of_admits lies ordinary host faulty admits
        obtain ⟨ready', scene', files', passes'⟩ :=
          exists_passes_of_admits lies' ordinary host' faulty' (by
            rwa [agree.baseDirectory])
        exact passes.agree passes' agree (passes.replay_eq passes' agree lies ordinary distinct)
      · -- Neither opening gets to the replay.
        have fails : ∀ (host : Host) {other : Settings}, other.fault? = none →
            other.baseDirectory = settings.baseDirectory → ∃ failure,
              (start host other disk).outcome = .error failure ∧
                Blames settings.baseDirectory middle top failure := by
          intro host other usable same
          rw [← same] at lies admits ⊢
          cases ended : (start host other disk).outcome with
          | ok store =>
            exact absurd (fun stage _ => admits_of_opened lies ordinary ended stage) admits
          | error failure => exact ⟨failure, rfl, blames_of_failed lies ordinary usable ended⟩
        obtain ⟨failure, failed, blames⟩ := fails host faulty rfl
        obtain ⟨failure', failed', blames'⟩ := fails host' faulty' agree.baseDirectory
        exact .failed failed failed' (blames.stage_eq blames' admits)
    · obtain ⟨cause, failed⟩ := exists_failure_of_lost host faulty located
      obtain ⟨cause', failed'⟩ := exists_failure_of_lost host' faulty' (by
        rwa [agree.baseDirectory])
      exact .failed failed failed' rfl

/-! ## Two hosts -/

/-- A host of two threads that lists directories backwards. -/
def backward : Host where
  width := 2
  crew := .inOrder
  arrange _ nodes := nodes.reverse
  perm_arrange _ nodes := nodes.reverse_perm

theorem hasDistinctAccesses_furnished {items : List OldNode} (fits : HasShards top)
    (furniture : isFurniture items = true) (place : Instant → Location)
    (placed : ∀ item ∈ items, ∀ size accessed, item.node = .file size accessed →
      item.names = place accessed) : HasDistinctAccesses (furnished top items) top := by
  refine hasDistinctAccesses_of_place place fun {names size accessed} held => ?_
  rcases (node?_furnished fits furniture).mp held with ⟨directory, -⟩ | ⟨item, member, same, node⟩
  · cases directory
  · rw [List.append_cancel_left same]
    exact placed item member size accessed node.symm

/-- Forwards and backwards, with one worker and with three, both layouts become the same cache. -/
theorem start_agrees_both_layouts :
    (tenBytes []).AgreeButWorkers { tenBytes [] with upgradeWorkers := some 3 } ∧
      (∀ middle top, LiesAt (tenBytes []).baseDirectory (furnished [] bothLayouts) middle top →
        IsOrdinary middle top ∧ HasDistinctAccesses middle top) ∧
      ∃ store,
        (start .orderly (tenBytes []) (furnished [] bothLayouts)).outcome = .ok store ∧
        (start backward { tenBytes [] with upgradeWorkers := some 3 }
          (furnished [] bothLayouts)).outcome = .ok store := by
  have fits : HasShards [] := ⟨by simp, by decide⟩
  have furniture : isFurniture bothLayouts = true := by decide +kernel
  obtain ⟨located, held, ordinary, directories⟩ := isOrdinary_furnished fits furniture
    (by decide +kernel) (by decide +kernel)
  obtain ⟨layout, nothing⟩ := isLayout_furnished fits furniture
  have lies := liesAt_of_locate located held
  have distinct : HasDistinctAccesses (furnished [] bothLayouts) [] := by
    refine hasDistinctAccesses_furnished fits furniture (fun accessed =>
      if accessed = 1 then [nameOf Kind.action.formerDirectory, nameOf firstDigest.text]
      else [nameOf Kind.content.formerDirectory, [0x78], nameOf secondDigest.text]) ?_
    simp [bothLayouts, OldNode.names]
  have agree : (tenBytes []).AgreeButWorkers { tenBytes [] with upgradeWorkers := some 3 } :=
    ⟨rfl, rfl, rfl, by decide, by decide⟩
  have ordinary' : ∀ middle top,
      LiesAt (tenBytes []).baseDirectory (furnished [] bothLayouts) middle top →
        IsOrdinary middle top ∧ HasDistinctAccesses middle top := by
    intro middle top lies'
    obtain ⟨rfl, rfl⟩ := lies.unique lies'
    exact ⟨ordinary, distinct⟩
  refine ⟨agree, ordinary', ?_⟩
  have usable : Admits (tenBytes []).baseDirectory (furnished [] bothLayouts) [] .upgrade := by
    intro kind
    exact ⟨isClean_furnished fits furniture kind (by cases kind <;> decide +kernel),
      acceptsPaths_of_room (by decide) (by decide)⟩
  have admits := admits_furnished fits furniture directories usable
  obtain ⟨store, opened⟩ := exists_opened lies ordinary .orderly (fault?_tenBytes []) admits
    (by simp [nothing])
  have both := start_agrees .orderly backward (tenBytes [])
    { tenBytes [] with upgradeWorkers := some 3 } (furnished [] bothLayouts) agree ordinary'
  cases both with
  | failed fails _ _ =>
    rw [opened] at fails
    cases fails
  | opened opens opens' _ _ _ => exact ⟨_, opens, opens'⟩

end Store

end ArtifactCache
