import ArtifactCache.Crew.Basic
import ArtifactCache.Proofs.Crew.Account

/-! # What a crew keeps and what it promises

A property of the shared state that every change in every job keeps is kept by the whole
crew, whatever the schedule.  If the property fixes the state, the jobs only look at it,
and then each job can be told in advance what it will hand over and whether it will
fail.  The schedule then only decides in which order the outputs arrive and, if several
jobs fail, which error is reported.
-/

namespace ArtifactCache

variable {Item State Output Error : Type}

/-! ## Jobs -/

/-- Whether a job keeps a property of the shared state, whatever happens between its
steps. -/
inductive Job.Keeps (holds : State → Prop) : Job State Output Error → Prop
  | done : Keeps holds .done
  | emit (output : Output) {rest} (kept : Keeps holds rest) : Keeps holds (.emit output rest)
  | change {act rest} (changed : ∀ {before after}, holds before → act before = .ok after →
      holds after) (kept : Keeps holds rest) : Keeps holds (.change act rest)
  | look {next} (kept : ∀ state, holds state → Keeps holds (next state)) :
    Keeps holds (.look next)

theorem Job.Keeps.fail {holds : State → Prop} (error : Error) :
    Job.Keeps holds (Job.fail error : Job State Output Error) :=
  .change (fun _ changed => by cases changed) .done

/-- The outputs of a job in a state that does not change, and the error that it fails with
if it does. -/
def Job.promise (state : State) : Job State Output Error → List Output × Option Error
  | .done => ([], none)
  | .emit output rest => (output :: (rest.promise state).1, (rest.promise state).2)
  | .change act rest =>
    match act state with
    | .ok _ => rest.promise state
    | .error error => ([], some error)
  | .look next => (next state).promise state

namespace Crew

/-! ## What is kept -/

/-- Whether the shared state has a property that all jobs under way keep. -/
structure Floor.Keeps (holds : State → Prop) (floor : Floor Item State Output Error) : Prop where
  shared : holds floor.hall.shared
  jobs : ∀ job, .working job ∈ floor.workers → Job.Keeps holds job

section Keeps

variable {holds : State → Prop} {size : Nat} {work : Item → Job State Output Error}
  {events : List (Event Item Output Error)} {floor last : Floor Item State Output Error}

theorem Floor.Keeps.step (works : ∀ item, Job.Keeps holds (work item)) (keeps : floor.Keeps holds)
    (step : Step size work events floor last) : last.Keeps holds := by
  cases step with
  | @byWorker _ _ worker next hall before after split step =>
    have others : ∀ job, .working job ∈ before ++ after → Job.Keeps holds job := by
      intro job member
      apply keeps.jobs job
      rw [split]
      rcases List.mem_append.mp member with front | back
      · exact List.mem_append_left _ front
      · exact List.mem_append_right _ (List.mem_cons_of_mem _ back)
    have own : ∀ job, worker = .working job → Job.Keeps holds job := by
      rintro job rfl
      exact keeps.jobs job (by simp [split])
    suffices holds hall.shared ∧ ∀ job, next = .working job → Job.Keeps holds job by
      refine ⟨this.1, fun job member => ?_⟩
      rcases List.mem_append.mp member with front | rest
      · exact others job (List.mem_append_left _ front)
      · rcases List.mem_cons.mp rest with same | back
        · exact this.2 job same.symm
        · exact others job (List.mem_append_right _ back)
    cases step with
    | start well =>
      refine ⟨keeps.shared, ?_⟩
      rintro job ⟨⟩
      exact works _
    | emit room =>
      refine ⟨keeps.shared, ?_⟩
      rintro job ⟨⟩
      cases own _ rfl with
      | emit _ kept => exact kept
    | change changed =>
      cases own _ rfl with
      | change keepsChange kept =>
        refine ⟨keepsChange keeps.shared changed, ?_⟩
        rintro job ⟨⟩
        exact kept
    | look =>
      refine ⟨keeps.shared, ?_⟩
      rintro job ⟨⟩
      cases own _ rfl with
      | look kept => exact kept _ keeps.shared
    | _ => exact ⟨keeps.shared, fun job same => by cases same⟩
  | _ => exact ⟨keeps.shared, keeps.jobs⟩

theorem Floor.Keeps.steps (works : ∀ item, Job.Keeps holds (work item)) (keeps : floor.Keeps holds)
    (steps : Steps size work events floor last) : last.Keeps holds := by
  induction steps with
  | none => exact keeps
  | next step _ ih => exact ih (keeps.step works step)

theorem keeps_start (size : Nat) (items : List Item) {shared : State} (held : holds shared) :
    (Floor.start size items shared : Floor Item State Output Error).Keeps holds where
  shared := held
  jobs job member := by cases List.eq_of_mem_replicate member

/-- A crew keeps what all of its jobs keep. -/
theorem Possible.keeps {workers : Nat} {items : List Item} {shared : State}
    {report : Report State Output Error} (works : ∀ item, Job.Keeps holds (work item))
    (held : holds shared) (possible : Possible workers work items shared report) :
    holds report.state := by
  obtain ⟨floor, ⟨events, steps⟩, -, same⟩ := possible
  exact same ▸ ((keeps_start _ items held).steps works steps).shared

end Keeps

/-! ## What is promised -/

/-- What the job of a worker will still hand over, and the error that it will fail with. -/
def Worker.promise (state : State) :
    Worker Item State Output Error → List Output × Option Error
  | .working job => job.promise state
  | _ => ([], none)

/-- Whether all promises of the jobs that were started are kept or can still be kept. -/
structure Promised (state : State) (work : Item → Job State Output Error)
    (events : List (Event Item Output Error)) (floor : Floor Item State Output Error) : Prop where
  keeps : floor.Keeps (· = state)
  outputs : ((started events).flatMap fun item => ((work item).promise state).1).Perm
    (emitted events ++ floor.workers.flatMap fun worker => (worker.promise state).1)
  errors : ((started events).flatMap fun item => ((work item).promise state).2.toList).Perm
    (failures events ++ floor.workers.flatMap fun worker => (worker.promise state).2.toList)

theorem perm_exchange {Value : Type} {paid promised front own back earned paid' own' : List Value}
    (total : earned.Perm (paid ++ (front ++ (own ++ back))))
    (step : promised ++ own = paid' ++ own') :
    (earned ++ promised).Perm (paid ++ paid' ++ (front ++ (own' ++ back))) := by
  classical
  rw [List.perm_iff_count] at total ⊢
  intro value
  have before := total value
  have exchanged := congrArg (List.count value) step
  simp only [List.count_append] at before exchanged ⊢
  omega

section Promises

variable {state : State} {size : Nat} {work : Item → Job State Output Error}
  {events others : List (Event Item Output Error)} {floor last : Floor Item State Output Error}

/-- A step of a worker hands over what was promised first and keeps the other promises. -/
theorem promise_byWorker {worker next : Worker Item State Output Error}
    {hall reached : Hall Item State Output Error} (shared : hall.shared = state)
    (step : WorkerStep size work others (worker, hall) (next, reached)) :
    ((started others).flatMap fun item => ((work item).promise state).1) ++
        (worker.promise state).1 = emitted others ++ (next.promise state).1 ∧
      ((started others).flatMap fun item => ((work item).promise state).2.toList) ++
        (worker.promise state).2.toList = failures others ++ (next.promise state).2.toList := by
  cases step with
  | change changed =>
    rw [shared] at changed
    simp [started, emitted, failures, Worker.promise, Job.promise, changed]
  | fail refused =>
    rw [shared] at refused
    simp [started, emitted, failures, Worker.promise, Job.promise, refused, Event.item?,
      Event.output?, Event.error?, List.filterMap_cons]
  | _ =>
    simp [started, emitted, failures, Worker.promise, Job.promise, shared, Event.item?,
      Event.output?, Event.error?, List.filterMap_cons]

theorem Promised.step (works : ∀ item, Job.Keeps (· = state) (work item))
    (promised : Promised state work events floor) (step : Step size work others floor last) :
    Promised state work (events ++ others) last := by
  have keeps := promised.keeps.step works step
  cases step with
  | @byWorker _ _ worker next hall before after split step =>
    have own := promise_byWorker promised.keeps.shared step
    refine ⟨keeps, ?_, ?_⟩
    · have total := promised.outputs
      simp only [split, List.flatMap_append, List.flatMap_cons, started_append, emitted_append]
        at total ⊢
      exact perm_exchange total own.1
    · have total := promised.errors
      simp only [split, List.flatMap_append, List.flatMap_cons, started_append, failures_append]
        at total ⊢
      exact perm_exchange total own.2
  | _ =>
    rw [List.append_nil]
    exact ⟨keeps, promised.outputs, promised.errors⟩

theorem Promised.steps (works : ∀ item, Job.Keeps (· = state) (work item))
    (promised : Promised state work events floor) (steps : Steps size work others floor last) :
    Promised state work (events ++ others) last := by
  induction steps generalizing events with
  | none => rwa [List.append_nil]
  | next step _ ih =>
    rw [← List.append_assoc]
    exact ih (promised.step works step)

theorem flatMap_promise_eq_nil {Value : Type} {workers : List (Worker Item State Output Error)}
    (idle : ∀ worker ∈ workers, worker.promise state = ([], none))
    (part : List Output × Option Error → List Value) (nothing : part ([], none) = []) :
    (workers.flatMap fun worker => part (worker.promise state)) = [] := by
  rw [List.flatMap_eq_nil_iff]
  intro worker member
  rw [idle worker member, nothing]

theorem promised_start (size : Nat) (items : List Item) :
    Promised state work [] (.start size items state) := by
  have idle : ∀ worker ∈ List.replicate size (Worker.waiting : Worker Item State Output Error),
      worker.promise state = ([], none) := by
    intro worker member
    rw [List.eq_of_mem_replicate member]
    rfl
  refine ⟨keeps_start size items rfl, ?_, ?_⟩
  · rw [Floor.start, flatMap_promise_eq_nil idle Prod.fst rfl]
    exact .refl _
  · rw [Floor.start, flatMap_promise_eq_nil idle (fun promise => promise.2.toList) rfl]
    exact .refl _

/-- What a crew does with jobs that only look at the shared state.  Either none of them
fails, and all their outputs are there in some order, or the error is that of one of them. -/
theorem Possible.promised {workers : Nat} {items : List Item} {report : Report State Output Error}
    (works : ∀ item, Job.Keeps (· = state) (work item))
    (possible : Possible workers work items state report) :
    report.state = state ∧
      match report.outcome with
      | .ok outputs => (∀ item ∈ items, ((work item).promise state).2 = none) ∧
          outputs.Perm (items.flatMap fun item => ((work item).promise state).1)
      | .error error => ∃ item ∈ items, ((work item).promise state).2 = some error := by
  obtain ⟨floor, ⟨events, steps⟩, finished, same⟩ := possible
  have account := (account_start (size_pos workers) items state).steps (size_pos workers) steps
  have promised := (promised_start (size workers) items).steps works steps
  rw [List.nil_append] at account promised
  refine ⟨same ▸ promised.keeps.shared, ?_⟩
  have idle : ∀ worker ∈ floor.workers, worker.promise state = ([], none) := by
    intro worker member
    rw [(account.settled _ finished).1 worker member]
    rfl
  have outputs := promised.outputs
  have errors := promised.errors
  rw [flatMap_promise_eq_nil idle Prod.fst rfl, List.append_nil] at outputs
  rw [flatMap_promise_eq_nil idle (fun promise => promise.2.toList) rfl, List.append_nil] at errors
  have verdict := account.finished finished
  cases outcome : report.outcome with
  | error error =>
    rw [outcome] at verdict
    obtain ⟨item, member, fails⟩ := List.mem_flatMap.mp (errors.mem_iff.mpr verdict)
    refine ⟨item, ?_, Option.mem_toList.mp fails⟩
    obtain ⟨dropped, balance, -⟩ := account.conserved
    exact balance.mem_iff.mpr (by simp [member])
  | ok outputs' =>
    rw [outcome] at verdict
    obtain ⟨well, all, every⟩ := verdict
    refine ⟨fun item member => ?_, every.symm.trans (outputs.symm.trans (all.flatMap_right _))⟩
    rw [well, List.perm_nil, List.flatMap_eq_nil_iff] at errors
    simpa using errors item (all.mem_iff.mpr member)

end Promises

end Crew

end ArtifactCache
