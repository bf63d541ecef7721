import ArtifactCache.Proofs.Crew.Plan

/-! # A crew delivers

A job fails at most once, and nobody starts another job after the flag was raised.  So each
worker has at most one error to report, the queue of errors has room for all of them, and
every error is on its way until one of them becomes the outcome.

A crew that has not finished is never stuck.  The collector makes room for outputs, a worker
that holds something can always go on, and when all workers wait for items the foreman either
has one to hand out or has closed the queue, which sends them home.
-/

namespace ArtifactCache.Crew

variable {Item State Output Error : Type}

/-- Whether a worker may still have an error to report. -/
def Worker.mayFail : Worker Item State Output Error → Bool
  | .working _ | .failing _ | .reporting _ => true
  | _ => false

/-- The bounds that a crew keeps to. -/
structure Bounds (size : Nat) (events : List (Event Item Output Error))
    (floor : Floor Item State Output Error) : Prop where
  staff : floor.workers.length = size
  /-- All errors that there may still be have room in the queue. -/
  room : floor.workers.countP Worker.mayFail + floor.hall.errors.length +
    floor.foreman.noticed.length ≤ size
  /-- No error is reported before the flag is raised. -/
  calm : floor.hall.failed = false → floor.hall.errors = [] ∧ floor.foreman.noticed = [] ∧
    ∀ error, .reporting error ∉ floor.workers
  /-- Every error is on its way until the outcome is given. -/
  told : (∀ outcome, floor.foreman ≠ .finished outcome) → (failures events).Perm floor.known
  closed : floor.foreman = .handingOut ∨ floor.hall.closed = true

theorem bounds_start (size : Nat) (items : List Item) (shared : State) :
    Bounds size ([] : List (Event Item Output Error)) (.start size items shared) where
  staff := List.length_replicate
  room := by simp [Floor.start, List.countP_replicate, Worker.mayFail, Foreman.noticed]
  calm := by
    refine fun _ => ⟨rfl, rfl, fun error member => ?_⟩
    cases List.eq_of_mem_replicate member
  told _ := by
    have silent : (List.replicate size
        (Worker.waiting : Worker Item State Output Error)).flatMap Worker.unreported = [] := by
      rw [List.flatMap_eq_nil_iff]
      intro worker member
      rw [List.eq_of_mem_replicate member]
      rfl
    simp only [Floor.known, Floor.start, silent, Foreman.noticed, List.append_nil]
    exact .refl _
  closed := .inl rfl

section Bounds

variable {size : Nat} {work : Item → Job State Output Error}
  {events others : List (Event Item Output Error)} {floor last : Floor Item State Output Error}
  {worker next : Worker Item State Output Error} {hall : Hall Item State Output Error}
  {before after : List (Worker Item State Output Error)}

/-- A worker that reports an error finds room for it. -/
theorem Bounds.heard (bounds : Bounds size events floor) {error : Error}
    (member : .reporting error ∈ floor.workers) : floor.hall.errors.length < size := by
  have counted : 0 < floor.workers.countP Worker.mayFail :=
    List.countP_pos_iff.mpr ⟨_, member, rfl⟩
  have room := bounds.room
  omega

/-- The errors that are told of are the ones that were known and those of the step. -/
theorem known_perm_byWorker (heard : ∀ error, worker = .reporting error →
      floor.hall.errors.length < size)
    (split : floor.workers = before ++ worker :: after)
    (step : WorkerStep size work others (worker, floor.hall) (next, hall)) :
    (floor.known ++ failures others).Perm
      ({ floor with workers := before ++ next :: after, hall } :
        Floor Item State Output Error).known := by
  classical
  rw [List.perm_iff_count]
  intro other
  simp only [Floor.known, split, List.flatMap_append, List.flatMap_cons, List.count_append]
  cases step with
  | lose full => exact absurd (heard _ rfl) (Nat.not_lt.mpr full)
  | fail refused =>
    simp only [Worker.unreported, failures, Event.error?, List.filterMap_cons, List.filterMap_nil,
      List.count_cons, List.count_nil]
    omega
  | report room =>
    simp only [Worker.unreported, failures, List.filterMap_nil, List.count_append,
      List.count_cons, List.count_nil]
    omega
  | _ => simp [Worker.unreported, failures, Event.error?, List.filterMap_cons]

theorem Bounds.byWorker (bounds : Bounds size events floor)
    (split : floor.workers = before ++ worker :: after)
    (step : WorkerStep size work others (worker, floor.hall) (next, hall)) :
    Bounds size (events ++ others) { floor with workers := before ++ next :: after, hall } := by
  have member : worker ∈ floor.workers := by simp [split]
  have staff := bounds.staff
  have room := bounds.room
  simp only [split, List.length_append, List.length_cons] at staff
  simp only [split, List.countP_append, List.countP_cons] at room
  -- Only a job that starts adds to what may fail, and then nothing has failed so far.
  have front := List.countP_le_length (p := Worker.mayFail) (l := before)
  have back := List.countP_le_length (p := Worker.mayFail) (l := after)
  refine ⟨by simpa using staff, ?_, ?_, fun unfinished => ?_, ?_⟩
  · simp only [List.countP_append, List.countP_cons]
    cases step with
    | start well =>
      obtain ⟨errors, noticed, -⟩ := bounds.calm well
      simp only [errors, noticed, Worker.mayFail, if_true, List.length_nil]
      omega
    | report =>
      simp only [Worker.mayFail, if_true, Bool.false_eq_true, if_false, List.length_append,
        List.length_singleton] at room ⊢
      omega
    | _ =>
      simp only [Worker.mayFail, if_true, Bool.false_eq_true, if_false] at room ⊢
      omega
  · have elsewhere : ∀ error, (∀ error, .reporting error ∉ floor.workers) →
        next ≠ .reporting error → .reporting error ∉ before ++ next :: after := by
      intro error none other reporting
      refine none error ?_
      rw [split]
      simp only [List.mem_append, List.mem_cons, Ne.symm other, false_or] at reporting ⊢
      exact reporting.imp_right .inr
    intro well
    cases step with
    | raise => cases well
    | report =>
      obtain ⟨-, -, none⟩ := bounds.calm well
      exact absurd member (none _)
    | _ =>
      obtain ⟨errors, noticed, none⟩ := bounds.calm well
      exact ⟨errors, noticed, fun error => elsewhere error none (by simp)⟩
  · have heard : ∀ error, worker = .reporting error → floor.hall.errors.length < size := by
      rintro error rfl
      exact bounds.heard member
    rw [failures_append]
    exact ((bounds.told unfinished).append_right _).trans (known_perm_byWorker heard split step)
  · cases step <;> exact bounds.closed

theorem Bounds.step (bounds : Bounds size events floor)
    (step : Step size work others floor last) : Bounds size (events ++ others) last := by
  cases step with
  | byWorker before after split step => exact bounds.byWorker split step
  | handOut busy upcoming room =>
    rw [List.append_nil]
    exact { bounds with }
  | @notice _ item rest error errors busy upcoming reported =>
    rw [List.append_nil]
    have room := bounds.room
    refine ⟨bounds.staff, ?_, fun well => ?_, fun _ => ?_, .inr rfl⟩
    · simp only [busy, reported, Foreman.noticed, List.length_cons, List.length_nil] at room ⊢
      omega
    · have none := (bounds.calm well).1
      rw [reported] at none
      cases none
    · refine (bounds.told (by simp [busy])).trans ?_
      simp only [Floor.known, busy, reported, Foreman.noticed, List.append_nil, List.append_assoc]
      exact (List.perm_append_singleton error errors).symm.append_left _
  | close busy upcoming =>
    rw [List.append_nil]
    have room := bounds.room
    have calm := bounds.calm
    have told := bounds.told (by simp [busy])
    rw [busy] at room calm
    rw [Floor.known, busy] at told
    exact ⟨bounds.staff, room, calm, fun _ => told, .inr rfl⟩
  | gather ready =>
    rw [List.append_nil]
    exact { bounds with }
  | finish closing left gathered =>
    rw [List.append_nil]
    refine ⟨bounds.staff, ?_, fun well => ?_, fun unfinished => absurd rfl (unfinished _), .inr ?_⟩
    · exact Nat.le_trans (Nat.le_add_right _ _) bounds.room
    · obtain ⟨errors, -, none⟩ := bounds.calm well
      exact ⟨errors, rfl, none⟩
    · exact bounds.closed.resolve_left (by simp [closing])

theorem Bounds.steps (bounds : Bounds size events floor)
    (steps : Steps size work others floor last) : Bounds size (events ++ others) last := by
  induction steps generalizing events with
  | none => rwa [List.append_nil]
  | next step _ ih =>
    rw [← List.append_assoc]
    exact ih (bounds.step step)

end Bounds

section Progress

variable {size : Nat} {work : Item → Job State Output Error} {items : List Item}
  {events : List (Event Item Output Error)} {floor : Floor Item State Output Error}

/-- A worker that has not gone takes its next step as soon as there is room for an output,
unless it waits for an item. -/
theorem exists_workerStep (size : Nat) (work : Item → Job State Output Error)
    {hall : Hall Item State Output Error} (room : hall.outputs.length < size)
    {worker : Worker Item State Output Error} (waits : worker ≠ .waiting) (stays : worker ≠ .gone) :
    ∃ events next, WorkerStep size work events (worker, hall) next := by
  cases worker with
  | waiting => exact absurd rfl waits
  | gone => exact absurd rfl stays
  | holding item =>
    cases failed : hall.failed with
    | true => exact ⟨_, _, .discard failed⟩
    | false => exact ⟨_, _, .start failed⟩
  | working job =>
    cases job with
    | done => exact ⟨_, _, .finish⟩
    | emit output rest => exact ⟨_, _, .emit room⟩
    | change act rest =>
      cases acted : act hall.shared with
      | ok state => exact ⟨_, _, .change acted⟩
      | error error => exact ⟨_, _, .fail acted⟩
    | look next => exact ⟨_, _, .look⟩
  | failing error => exact ⟨_, _, .raise⟩
  | reporting error =>
    rcases Nat.lt_or_ge hall.errors.length size with space | full
    · exact ⟨_, _, .report space⟩
    · exact ⟨_, _, .lose full⟩

/-- When a worker waits for an item, somebody can do something about it. -/
theorem exists_step_of_waiting (positive : 0 < size) (bounds : Bounds size events floor)
    (waiting : .waiting ∈ floor.workers) : ∃ others last, Step size work others floor last := by
  obtain ⟨before, after, split⟩ := List.append_of_mem waiting
  cases queue : floor.hall.queue with
  | cons item rest => exact ⟨_, _, .byWorker before after split (.take queue)⟩
  | nil =>
    rcases bounds.closed with busy | closed
    · cases upcoming : floor.upcoming with
      | nil => exact ⟨_, _, .close busy upcoming⟩
      | cons item rest => exact ⟨_, _, .handOut busy upcoming (by simpa [queue] using positive)⟩
    · exact ⟨_, _, .byWorker before after split (.leave queue closed)⟩

theorem exists_step_of_unfinished (positive : 0 < size) (account : Account items events floor)
    (bounds : Bounds size events floor)
    (unfinished : ∀ outcome, floor.foreman ≠ .finished outcome) :
    ∃ others last, Step size work others floor last := by
  cases outputs : floor.hall.outputs with
  | cons output rest => exact ⟨_, _, .gather outputs⟩
  | nil =>
    -- With no outputs to gather it is for a worker to go on, or for the foreman to finish.
    by_cases left : ∀ worker ∈ floor.workers, worker = .gone
    · obtain ⟨worker, member⟩ := List.exists_mem_of_ne_nil _ account.staffed
      have closed := (account.left (left worker member ▸ member)).1
      cases foreman : floor.foreman with
      | handingOut => exact absurd foreman (account.closed closed)
      | closing noticed => exact ⟨_, _, .finish foreman left outputs⟩
      | finished outcome => exact absurd foreman (unfinished outcome)
    · push Not at left
      obtain ⟨worker, member, stays⟩ := left
      by_cases waits : worker = .waiting
      · exact exists_step_of_waiting positive bounds (waits ▸ member)
      · have room : floor.hall.outputs.length < size := by simpa [outputs] using positive
        obtain ⟨others, ⟨next, hall⟩, step⟩ := exists_workerStep size work room waits stays
        obtain ⟨before, after, split⟩ := List.append_of_mem member
        exact ⟨_, _, .byWorker before after split step⟩

/-- The outcome is an error exactly if some job failed. -/
theorem Agrees.isError_iff {outcome : Except Error (List Output)}
    (agrees : Agrees items events outcome) :
    (∃ error, outcome = .error error) ↔ failures events ≠ [] := by
  cases outcome with
  | ok outputs => simp [agrees.1]
  | error error =>
    refine ⟨fun _ => List.ne_nil_of_mem agrees, fun _ => ⟨error, rfl⟩⟩

end Progress

/-- What a crew guarantees at every moment of its work. -/
structure Delivers (size : Nat) (work : Item → Job State Output Error) (items : List Item)
    (events : List (Event Item Output Error)) (floor : Floor Item State Output Error) : Prop where
  /-- No item is started twice. -/
  once : (started events).Subperm items
  /-- The queue of errors never holds too many. -/
  room : floor.hall.errors.length ≤ size
  /-- A worker that reports an error finds room for it. -/
  heard : ∀ error, .reporting error ∈ floor.workers → floor.hall.errors.length < size
  /-- Every error is on its way until the outcome is given. -/
  told : (∀ outcome, floor.foreman ≠ .finished outcome) → (failures events).Perm floor.known
  /-- A crew that has not finished is not stuck. -/
  goesOn : (∀ outcome, floor.foreman ≠ .finished outcome) →
    ∃ others last, Step size work others floor last
  /-- When the outcome is given, everybody has gone and nothing happens any more. -/
  quiet : ∀ outcome, floor.foreman = .finished outcome →
    (∀ worker ∈ floor.workers, worker = .gone) ∧ ∀ others last, ¬ Step size work others floor last
  /-- The outcome is an error exactly if some job failed, and then it is the error of one. -/
  failed : ∀ outcome, floor.foreman = .finished outcome →
    ((∃ error, outcome = .error error) ↔ failures events ≠ []) ∧
      ∀ error, outcome = .error error → error ∈ failures events
  /-- If outputs are given then every item was started once, and all outputs are there. -/
  complete : ∀ outputs, floor.foreman = .finished (.ok outputs) →
    (started events).Perm items ∧ (emitted events).Perm outputs

/-- A crew of any size delivers, whatever the jobs do and whatever the schedule. -/
theorem Steps.delivers {workers : Nat} {work : Item → Job State Output Error} {items : List Item}
    {shared : State} {events : List (Event Item Output Error)}
    {floor : Floor Item State Output Error}
    (steps : Steps (size workers) work events (.start (size workers) items shared) floor) :
    Delivers (size workers) work items events floor := by
  have positive := size_pos workers
  have account := (account_start positive items shared).steps positive steps
  have bounds := (bounds_start (size workers) items shared).steps steps
  rw [List.nil_append] at account bounds
  have room := bounds.room
  have genuine : ∀ error, floor.foreman = .finished (.error error) → error ∈ failures events :=
    fun error finished => account.finished finished
  exact {
    once := account.subperm_started
    room := by omega
    heard := fun error reporting => bounds.heard reporting
    told := bounds.told
    goesOn := exists_step_of_unfinished positive account bounds
    quiet := fun outcome finished =>
      ⟨(account.settled outcome finished).1, fun others last => account.halted finished⟩
    failed := fun outcome finished =>
      ⟨(account.finished finished).isError_iff, fun error same => genuine error (same ▸ finished)⟩
    complete := fun outputs finished => (account.finished finished).2 }

/-- Two workers whose jobs are under way at the same time may both fail.  The queue has room
for both errors, and the first one becomes the outcome. -/
theorem delivers_two_failures : ∃ (events : List (Event Nat Nat Nat))
    (floor : Floor Nat Unit Nat Nat),
    Steps (size 2) Job.fail events (.start (size 2) [1, 2] ()) floor ∧
      floor.foreman = .finished (.error 1) ∧ failures events = [1, 2] ∧
      Delivers (size 2) Job.fail [1, 2] events floor := by
  have room : 0 < size 2 := size_pos 2
  have roomBesides : 1 < size 2 := by decide
  have steps : Steps (size 2) Job.fail _
      (.start (size 2) [1, 2] () : Floor Nat Unit Nat Nat) _ :=
    .next (.handOut rfl rfl room) <|
    .next (.byWorker [] [.waiting] rfl (.take rfl)) <|
    .next (.handOut rfl rfl room) <|
    .next (.byWorker [.holding 1] [] rfl (.take rfl)) <|
    .next (.byWorker [] [.holding 2] rfl (.start rfl)) <|
    .next (.byWorker [.working (Job.fail 1)] [] rfl (.start rfl)) <|
    .next (.byWorker [] [.working (Job.fail 2)] rfl (.fail rfl)) <|
    .next (.byWorker [.failing 1] [] rfl (.fail rfl)) <|
    .next (.byWorker [] [.failing 2] rfl .raise) <|
    .next (.byWorker [.reporting 1] [] rfl .raise) <|
    .next (.byWorker [] [.reporting 2] rfl (.report room)) <|
    .next (.byWorker [.waiting] [] rfl (.report roomBesides)) <|
    .next (.close rfl rfl) <|
    .next (.byWorker [] [.waiting] rfl (.leave rfl rfl)) <|
    .next (.byWorker [.gone] [] rfl (.leave rfl rfl)) <|
    .next (.finish rfl (by simp) rfl) .none
  exact ⟨_, _, steps, rfl, rfl, steps.delivers⟩

end ArtifactCache.Crew
