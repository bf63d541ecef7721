import ArtifactCache.Crew.Basic

/-! # Doing one job after the other

The simplest crew does one job after the other.  The main statement here is that
this is where some schedule of any number of workers leads: a single worker can do
everything while the others wait for items.
-/

namespace ArtifactCache.Crew

variable {Item State Output Error : Type}

/-- A crew of which one worker does everything. -/
private def alone (shared : State) (worker : Worker Item State Output Error)
    (others : List (Worker Item State Output Error)) (upcoming : List Item)
    (gathered : List Output) : Floor Item State Output Error where
  hall := { shared, queue := [], closed := false, outputs := [], errors := [], failed := false }
  workers := worker :: others
  foreman := .handingOut
  upcoming := upcoming
  gathered := gathered

/-- Whether one worker comes from a job to the end that the job has by itself. -/
private def Ends (size : Nat) (work : Item → Job State Output Error)
    (others : List (Worker Item State Output Error)) (upcoming : List Item)
    (gathered : List Output) (floor : Floor Item State Output Error) :
    Report State Output Error → Prop
  | { outcome := .ok outputs, state } =>
    Reaches size work floor (alone state .waiting others upcoming (gathered ++ outputs))
  | { outcome := .error error, state } =>
    ∃ gathered, Reaches size work floor (alone state (.failing error) others upcoming gathered)

private theorem ends_head {size : Nat} {work : Item → Job State Output Error}
    {others : List (Worker Item State Output Error)} {upcoming : List Item}
    {gathered : List Output} {events : List (Event Item Output Error)}
    {first middle : Floor Item State Output Error} {report : Report State Output Error}
    (step : Step size work events first middle)
    (ends : Ends size work others upcoming gathered middle report) :
    Ends size work others upcoming gathered first report := by
  obtain ⟨outcome, state⟩ := report
  cases outcome with
  | ok outputs => exact .head step ends
  | error error =>
    obtain ⟨gathered, reached⟩ := ends
    exact ⟨gathered, .head step reached⟩

private theorem ends_emit {size : Nat} {work : Item → Job State Output Error}
    {others : List (Worker Item State Output Error)} {upcoming : List Item}
    {gathered : List Output} {output : Output} {floor : Floor Item State Output Error}
    {report : Report State Output Error}
    (ends : Ends size work others upcoming (gathered ++ [output]) floor report) :
    Ends size work others upcoming gathered floor
      { report with outcome := report.outcome.map (output :: ·) } := by
  obtain ⟨outcome, state⟩ := report
  cases outcome with
  | ok outputs => simpa [Ends, Except.map] using ends
  | error error => exact ends

private theorem ends_run {size : Nat} (positive : 0 < size)
    (work : Item → Job State Output Error) (others : List (Worker Item State Output Error))
    (upcoming : List Item) (job : Job State Output Error) (shared : State)
    (gathered : List Output) :
    Ends size work others upcoming gathered
      (alone shared (.working job) others upcoming gathered) (job.run shared) := by
  induction job generalizing shared gathered with
  | done =>
    refine ends_head (.byWorker [] _ rfl .finish) ?_
    simp only [Job.run, Ends, List.append_nil]
    exact .refl _
  | emit output rest ih =>
    refine ends_head (.byWorker [] _ rfl (.emit positive)) ?_
    refine ends_head (.gather rfl) ?_
    exact ends_emit (ih shared (gathered ++ [output]))
  | change act rest ih =>
    cases acted : act shared with
    | ok state =>
      refine ends_head (.byWorker [] _ rfl (.change acted)) ?_
      simp only [Job.run, acted]
      exact ih state gathered
    | error error =>
      refine ends_head (.byWorker [] _ rfl (.fail acted)) ?_
      simp only [Job.run, acted]
      exact ⟨gathered, .refl _⟩
  | look next ih =>
    refine ends_head (.byWorker [] _ rfl .look) ?_
    exact ih shared shared gathered

/-- A crew that has nothing to do but to leave. -/
private def leaving (shared : State) (failed : Bool) (errors : List Error) (left rest : Nat)
    (noticed : Option Error) (upcoming : List Item) (gathered : List Output) :
    Floor Item State Output Error where
  hall := { shared, queue := [], closed := true, outputs := [], errors, failed }
  workers := List.replicate left .gone ++ List.replicate rest .waiting
  foreman := .closing noticed
  upcoming := upcoming
  gathered := gathered

private theorem reaches_finished (size : Nat) (work : Item → Job State Output Error)
    (shared : State) (failed : Bool) (errors : List Error) (left rest : Nat)
    (noticed : Option Error) (upcoming : List Item) (gathered : List Output) :
    ∃ floor, Reaches size work
        (leaving shared failed errors left rest noticed upcoming gathered) floor ∧
      floor.foreman = .finished (verdict noticed errors gathered) ∧
      floor.hall.shared = shared := by
  induction rest generalizing left with
  | zero =>
    refine ⟨_, .head (.finish rfl ?_ rfl) (.refl _), rfl, rfl⟩
    intro worker member
    simp only [leaving, List.replicate_zero, List.append_nil] at member
    exact List.eq_of_mem_replicate member
  | succ rest ih =>
    obtain ⟨floor, reached, outcome, state⟩ := ih (left + 1)
    refine ⟨floor, .head (.byWorker (List.replicate left .gone) (List.replicate rest .waiting) ?_
      (.leave rfl rfl)) ?_,
      outcome, state⟩
    · simp only [leaving, List.replicate_succ]
    · have shape : List.replicate left Worker.gone ++ .gone :: List.replicate rest .waiting =
          List.replicate (left + 1) Worker.gone ++
            (List.replicate rest .waiting : List (Worker Item State Output Error)) := by
        simp [List.replicate_succ']
      simpa only [leaving, shape] using reached

/-- A worker that has failed while the others wait. -/
private theorem reaches_error (rest : Nat) (work : Item → Job State Output Error)
    (shared : State) (error : Error) (upcoming : List Item) (gathered : List Output) :
    ∃ floor, Reaches (rest + 1) work
        (alone shared (.failing error) (List.replicate rest .waiting) upcoming gathered) floor ∧
      floor.foreman = .finished (.error error) ∧ floor.hall.shared = shared := by
  cases upcoming with
  | nil =>
    obtain ⟨floor, reached, outcome, state⟩ := reaches_finished (rest + 1) work
      shared true [error] 0 (rest + 1) none [] gathered
    refine ⟨floor, ?_, outcome, state⟩
    refine .head (.byWorker [] _ rfl .raise) ?_
    refine .head (.byWorker [] _ rfl (.report (Nat.succ_pos _))) ?_
    refine .head (.close rfl rfl) ?_
    exact reached
  | cons item items =>
    obtain ⟨floor, reached, outcome, state⟩ := reaches_finished (rest + 1) work
      shared true [] 0 (rest + 1) (some error) (item :: items) gathered
    refine ⟨floor, ?_, outcome, state⟩
    refine .head (.byWorker [] _ rfl .raise) ?_
    refine .head (.byWorker [] _ rfl (.report (Nat.succ_pos _))) ?_
    refine .head (.notice rfl rfl rfl) ?_
    exact reached

private theorem reaches_runAll (rest : Nat) (work : Item → Job State Output Error)
    (items : List Item) (shared : State) (gathered : List Output) :
    ∃ floor, Reaches (rest + 1) work
        (alone shared .waiting (List.replicate rest .waiting) items gathered) floor ∧
      floor.foreman = .finished ((Job.runAll work items shared).outcome.map (gathered ++ ·)) ∧
      floor.hall.shared = (Job.runAll work items shared).state := by
  induction items generalizing shared gathered with
  | nil =>
    obtain ⟨floor, reached, outcome, state⟩ := reaches_finished (rest + 1) work
      shared false [] 0 (rest + 1) none [] gathered
    refine ⟨floor, .head (.close rfl rfl) reached, ?_, state⟩
    simpa [Job.runAll, verdict, Except.map] using outcome
  | cons item items ih =>
    have taken (middle last) (ends : Reaches (rest + 1) work middle last)
        (same : middle = alone shared (.working (work item)) (List.replicate rest .waiting) items
          gathered) :
        Reaches (rest + 1) work
          (alone shared .waiting (List.replicate rest .waiting) (item :: items) gathered) last := by
      subst same
      refine .head (.handOut rfl rfl (Nat.succ_pos _)) ?_
      refine .head (.byWorker [] _ rfl (.take rfl)) ?_
      refine .head (.byWorker [] _ rfl (.start rfl)) ?_
      exact ends
    have ends := ends_run (Nat.succ_pos rest) work (List.replicate rest .waiting) items (work item)
      shared gathered
    simp only [Job.runAll]
    generalize (work item).run shared = report at ends
    obtain ⟨outcome, state⟩ := report
    cases outcome with
    | ok outputs =>
      obtain ⟨floor, reached, outcome, last⟩ := ih state (gathered ++ outputs)
      refine ⟨floor, taken _ _ (.trans ends reached) rfl, ?_, last⟩
      rw [outcome]
      cases later : (Job.runAll work items state).outcome <;> simp [later, Except.map]
    | error error =>
      obtain ⟨gathered, ends⟩ := ends
      obtain ⟨floor, reached, outcome, last⟩ := reaches_error rest work state error items gathered
      exact ⟨floor, taken _ _ (.trans ends reached) rfl, outcome, last⟩

/-- Doing one job after the other is what some schedule of any number of workers leads
to. -/
theorem possible_runAll (workers : Nat) (work : Item → Job State Output Error)
    (items : List Item) (shared : State) :
    Possible workers work items shared (Job.runAll work items shared) := by
  have positive : 0 < size workers := by unfold size; omega
  obtain ⟨rest, sized⟩ := Nat.exists_eq_succ_of_ne_zero (Nat.ne_of_gt positive)
  obtain ⟨floor, reached, outcome, state⟩ := reaches_runAll rest work items shared []
  refine ⟨floor, ?_, ?_, state⟩
  · rw [sized]
    exact reached
  · rw [outcome]
    cases (Job.runAll work items shared).outcome <;> rfl

/-- The crew that does one job after the other. -/
def inOrder : Crew where
  run _ work items shared := Job.runAll work items shared
  possible := possible_runAll

end ArtifactCache.Crew
