import ArtifactCache.Crew.Schedule
import Mathlib.Data.List.Basic
import Mathlib.Tactic.Tauto

/-! # The account of a crew

Whatever the schedule, nothing gets lost in the queues of a crew: the outputs that were
handed over are the ones that were gathered or still wait for it, and as long as no
flag was raised every item is started, on its way to a worker, or still to be handed
out.  An error that was reported is noticed in the end, because the queue of errors only
loses one when it holds another.

So the outcome of a crew can be read off the account of its work: it is an error exactly
if some job failed, and otherwise every item was started and every output is there.
-/

namespace ArtifactCache.Crew

variable {Item State Output Error : Type}

/-! ## What an account tells -/

def Event.item? : Event Item Output Error → Option Item
  | .started item => some item
  | _ => none

def Event.output? : Event Item Output Error → Option Output
  | .emitted output => some output
  | _ => none

def Event.error? : Event Item Output Error → Option Error
  | .failed error => some error
  | _ => none

def started (events : List (Event Item Output Error)) : List Item :=
  events.filterMap Event.item?

/-- The outputs that were handed over. -/
def emitted (events : List (Event Item Output Error)) : List Output :=
  events.filterMap Event.output?

/-- The errors of the jobs that failed. -/
def failures (events : List (Event Item Output Error)) : List Error :=
  events.filterMap Event.error?

/-- The item that a worker has taken and not started. -/
def Worker.held : Worker Item State Output Error → List Item
  | .holding item => [item]
  | _ => []

/-- The error that a worker has not reported yet. -/
def Worker.unreported : Worker Item State Output Error → List Error
  | .failing error | .reporting error => [error]
  | _ => []

/-- The error that the foreman has noticed. -/
def Foreman.noticed : Foreman Output Error → List Error
  | .closing (some error) => [error]
  | _ => []

/-- The errors that are on their way to the outcome. -/
def Floor.known (floor : Floor Item State Output Error) : List Error :=
  floor.workers.flatMap Worker.unreported ++ floor.hall.errors ++ floor.foreman.noticed

/-- What the account of a crew and its state have to do with each other. -/
structure Account (items : List Item) (events : List (Event Item Output Error))
    (floor : Floor Item State Output Error) : Prop where
  staffed : floor.workers ≠ []
  /-- No output is lost. -/
  outputs : (emitted events).Perm (floor.gathered ++ floor.hall.outputs)
  /-- No item is started twice, and none is dropped before the flag is raised. -/
  conserved : ∃ dropped, items.Perm (started events ++ floor.workers.flatMap Worker.held ++
    floor.hall.queue ++ floor.upcoming ++ dropped) ∧ (floor.hall.failed = false → dropped = [])
  /-- Every error comes from a job. -/
  genuine : ∀ error ∈ floor.known, error ∈ failures events
  raised : floor.hall.failed = true → failures events ≠ []
  /-- The last error that is on its way is not lost. -/
  pending : failures events ≠ [] → (∀ outcome, floor.foreman ≠ .finished outcome) →
    floor.known ≠ []
  closed : floor.hall.closed = true → floor.foreman ≠ .handingOut
  exhausted : floor.foreman = .closing none → floor.upcoming = []
  left : .gone ∈ floor.workers → floor.hall.closed = true ∧ floor.hall.queue = []
  settled : ∀ outcome, floor.foreman = .finished outcome →
    (∀ worker ∈ floor.workers, worker = .gone) ∧ floor.hall.outputs = [] ∧
      match outcome with
      | .ok outputs => failures events = [] ∧ floor.gathered = outputs ∧ floor.upcoming = []
      | .error error => error ∈ failures events

section Append

variable (first second : List (Event Item Output Error))

@[simp]
theorem started_append : started (first ++ second) = started first ++ started second :=
  List.filterMap_append

@[simp]
theorem emitted_append : emitted (first ++ second) = emitted first ++ emitted second :=
  List.filterMap_append

@[simp]
theorem failures_append : failures (first ++ second) = failures first ++ failures second :=
  List.filterMap_append

end Append

theorem account_start {size : Nat} (positive : 0 < size) (items : List Item) (shared : State) :
    Account items ([] : List (Event Item Output Error)) (.start size items shared) where
  staffed := by simpa [Floor.start] using Nat.ne_of_gt positive
  outputs := .refl _
  conserved := by
    refine ⟨[], ?_, fun _ => rfl⟩
    have none : (List.replicate size
        (Worker.waiting : Worker Item State Output Error)).flatMap Worker.held = [] := by
      rw [List.flatMap_eq_nil_iff]
      intro worker member
      rw [List.eq_of_mem_replicate member]
      rfl
    simp [Floor.start, started, none]
  genuine := by
    intro error member
    simp only [Floor.known, Floor.start, Foreman.noticed, List.append_nil, List.mem_flatMap]
      at member
    obtain ⟨worker, member, holds⟩ := member
    rw [List.eq_of_mem_replicate member] at holds
    cases holds
  raised := by simp [Floor.start]
  pending := by simp [failures]
  closed := by simp [Floor.start]
  exhausted := by simp [Floor.start]
  left := by simp [Floor.start]
  settled := by simp [Floor.start]

section WorkerStep

variable {size : Nat} {work : Item → Job State Output Error} {items : List Item}
  {events others : List (Event Item Output Error)} {floor : Floor Item State Output Error}
  {worker next : Worker Item State Output Error} {hall : Hall Item State Output Error}
  {before after : List (Worker Item State Output Error)}

theorem outputs_byWorker (step : WorkerStep size work others (worker, floor.hall) (next, hall))
    (outputs : (emitted events).Perm (floor.gathered ++ floor.hall.outputs)) :
    (emitted (events ++ others)).Perm (floor.gathered ++ hall.outputs) := by
  rw [emitted_append]
  cases step with
  | emit room =>
    rw [← List.append_assoc]
    exact outputs.append_right _
  | _ => simpa [emitted, Event.output?, List.filterMap_cons] using outputs

theorem conserved_byWorker (split : floor.workers = before ++ worker :: after)
    (step : WorkerStep size work others (worker, floor.hall) (next, hall))
    (conserved : ∃ dropped, items.Perm (started events ++ floor.workers.flatMap Worker.held ++
      floor.hall.queue ++ floor.upcoming ++ dropped) ∧ (floor.hall.failed = false → dropped = [])) :
    ∃ dropped, items.Perm (started (events ++ others) ++
      (before ++ next :: after).flatMap Worker.held ++ hall.queue ++ floor.upcoming ++ dropped) ∧
        (hall.failed = false → dropped = []) := by
  classical
  obtain ⟨dropped, balance, none⟩ := conserved
  simp only [List.perm_iff_count, split, List.flatMap_append, List.flatMap_cons, started_append,
    List.count_append] at balance ⊢
  cases step with
  | take queued =>
    refine ⟨dropped, fun other => ?_, none⟩
    have before := balance other
    simp only [queued, Worker.held, List.count_cons, List.count_nil, started,
      List.filterMap_nil] at before ⊢
    omega
  | @discard _ item failed =>
    refine ⟨item :: dropped, fun other => ?_, fun well => by simp [failed] at well⟩
    have before := balance other
    simp only [Worker.held, List.count_cons, List.count_nil, started,
      List.filterMap_nil] at before ⊢
    omega
  | start well =>
    refine ⟨dropped, fun other => ?_, none⟩
    have before := balance other
    simp only [Worker.held, List.count_cons, List.count_nil, started,
      List.filterMap_nil, List.filterMap_cons, Event.item?] at before ⊢
    omega
  | raise =>
    refine ⟨dropped, fun other => ?_, fun well => by simp at well⟩
    simpa [Worker.held, started] using balance other
  | _ =>
    refine ⟨dropped, fun other => ?_, none⟩
    simpa [Worker.held, started, Event.item?, List.filterMap_cons] using balance other

/-- A step of a worker brings no errors but those that it accounts for, and it does not
lose the last one. -/
theorem known_byWorker (positive : 0 < size) (split : floor.workers = before ++ worker :: after)
    (step : WorkerStep size work others (worker, floor.hall) (next, hall)) :
    let reached := { floor with workers := before ++ next :: after, hall }
    (∀ error ∈ reached.known, error ∈ floor.known ∨ error ∈ failures others) ∧
      (floor.known ≠ [] ∨ failures others ≠ [] → reached.known ≠ []) := by
  intro reached
  simp only [reached, Floor.known, split, List.flatMap_append, List.flatMap_cons]
  generalize before.flatMap Worker.unreported = front, after.flatMap Worker.unreported = back
  cases step with
  | fail refused =>
    simp only [Worker.unreported, failures, Event.error?, List.filterMap_cons, List.filterMap_nil]
    refine ⟨fun other member => ?_, fun _ => by simp⟩
    simp only [List.mem_append, List.not_mem_nil, false_or] at member ⊢
    tauto
  | raise =>
    exact ⟨fun error member => .inl member,
      fun present => present.resolve_right (by simp [failures])⟩
  | report room =>
    simp only [Worker.unreported, failures, List.filterMap_nil]
    refine ⟨fun other member => ?_, fun _ => by simp⟩
    simp only [List.mem_append, List.not_mem_nil, false_or] at member ⊢
    tauto
  | lose full =>
    have some : floor.hall.errors ≠ [] := by
      intro none
      rw [none] at full
      exact absurd full (Nat.not_le.mpr positive)
    simp only [Worker.unreported, failures, List.filterMap_nil]
    refine ⟨fun other member => ?_, fun _ => by simp [some]⟩
    simp only [List.mem_append, List.not_mem_nil, false_or] at member ⊢
    tauto
  | _ => simp [Worker.unreported, failures, Event.error?]

theorem Account.byWorker (positive : 0 < size) (account : Account items events floor)
    (split : floor.workers = before ++ worker :: after)
    (step : WorkerStep size work others (worker, floor.hall) (next, hall)) :
    Account items (events ++ others)
      { floor with workers := before ++ next :: after, hall } := by
  have outputs := outputs_byWorker step account.outputs
  have conserved := conserved_byWorker split step account.conserved
  have known := known_byWorker positive split step
  refine ⟨by simp, outputs, conserved, ?_, ?_, ?_, ?_, account.exhausted, ?_, ?_⟩
  · intro error member
    rw [failures_append, List.mem_append]
    exact (known.1 error member).imp_left (account.genuine error)
  · intro failed
    rw [failures_append]
    refine List.append_ne_nil_of_left_ne_nil ?_ _
    cases step with
    | @raise _ error =>
      refine List.ne_nil_of_mem (account.genuine error ?_)
      simp [Floor.known, split, Worker.unreported]
    | _ => exact account.raised failed
  · intro failed unfinished
    rw [failures_append, ne_eq, List.append_eq_nil_iff, not_and_or] at failed
    exact known.2 (failed.imp_left fun before => account.pending before unfinished)
  · intro closed
    cases step <;> exact account.closed closed
  · intro gone
    have stayed : next ≠ .gone → .gone ∈ floor.workers := by
      intro busy
      rw [split]
      rcases List.mem_append.mp gone with front | rest
      · exact List.mem_append_left _ front
      · rcases List.mem_cons.mp rest with same | back
        · exact absurd same.symm busy
        · exact List.mem_append_right _ (List.mem_cons_of_mem _ back)
    cases step with
    | leave empty closed => exact ⟨closed, empty⟩
    | take queued =>
      have none := (account.left (stayed (by simp))).2
      rw [queued] at none
      cases none
    | _ => exact account.left (stayed (by simp))
  · intro outcome finished
    have stays := (account.settled outcome finished).1 worker (by simp [split])
    subst stays
    cases step

end WorkerStep

section Runs

variable {size : Nat} {work : Item → Job State Output Error} {items : List Item}
  {events others : List (Event Item Output Error)} {floor last : Floor Item State Output Error}

theorem unreported_of_left (left : ∀ worker ∈ floor.workers, worker = .gone) :
    floor.workers.flatMap Worker.unreported = [] := by
  rw [List.flatMap_eq_nil_iff]
  intro worker member
  rw [left worker member]
  rfl

theorem known_of_left {noticed : Option Error} (closing : floor.foreman = .closing noticed)
    (left : ∀ worker ∈ floor.workers, worker = .gone) :
    floor.known = floor.hall.errors ++ noticed.toList := by
  rw [Floor.known, unreported_of_left left, closing]
  cases noticed <;> rfl

/-- When all workers have left, the verdict agrees with the account. -/
theorem Account.verdict_settles (account : Account items events floor) {noticed : Option Error}
    (closing : floor.foreman = .closing noticed)
    (left : ∀ worker ∈ floor.workers, worker = .gone) :
    match verdict noticed floor.hall.errors floor.gathered with
    | .ok outputs => failures events = [] ∧ floor.gathered = outputs ∧ floor.upcoming = []
    | .error error => error ∈ failures events := by
  have known := known_of_left closing left
  unfold verdict
  cases first : noticed.or floor.hall.errors.head? with
  | some error =>
    apply account.genuine error
    rw [known, List.mem_append, Option.mem_toList]
    rcases Option.or_eq_some_iff.mp first with same | ⟨-, head⟩
    · exact .inr same
    · exact .inl (List.mem_of_head? head)
  | none =>
    obtain ⟨rfl, none⟩ := Option.or_eq_none_iff.mp first
    refine ⟨by_contra fun failed => ?_, rfl, account.exhausted closing⟩
    have present := account.pending failed (by simp [closing])
    rw [known, List.head?_eq_none_iff.mp none] at present
    exact present rfl

theorem Account.step (positive : 0 < size) (account : Account items events floor)
    (step : Step size work others floor last) : Account items (events ++ others) last := by
  cases step with
  | byWorker before after split step => exact account.byWorker positive split step
  | @handOut _ item rest busy upcoming room =>
    rw [List.append_nil]
    refine ⟨account.staffed, account.outputs, ?_, account.genuine, account.raised,
      account.pending, account.closed, ?_, ?_, ?_⟩
    · obtain ⟨dropped, balance, none⟩ := account.conserved
      refine ⟨dropped, ?_, none⟩
      simpa [upcoming] using balance
    · intro closing
      rw [busy] at closing
      cases closing
    · intro gone
      exact absurd busy (account.closed (account.left gone).1)
    · intro outcome finished
      rw [busy] at finished
      cases finished
  | @notice _ item rest error errors busy upcoming reported =>
    rw [List.append_nil]
    have known : ∀ other, other ∈ floor.known ↔
        other ∈ floor.workers.flatMap Worker.unreported ++ errors ++ [error] := by
      intro other
      simp only [Floor.known, busy, reported, Foreman.noticed, List.mem_append, List.mem_cons,
        List.not_mem_nil, or_false]
      tauto
    refine ⟨account.staffed, account.outputs, account.conserved, ?_, account.raised,
      ?_, ?_, ?_, ?_, ?_⟩
    · exact fun other member => account.genuine other ((known other).mpr member)
    · exact fun _ _ => by simp [Floor.known, Foreman.noticed]
    · exact fun _ => by simp
    · exact fun closing => by simp at closing
    · intro gone
      exact absurd busy (account.closed (account.left gone).1)
    · exact fun outcome finished => by cases finished
  | close busy upcoming =>
    rw [List.append_nil]
    have known : floor.known = floor.workers.flatMap Worker.unreported ++ floor.hall.errors ++ [] :=
      by rw [Floor.known, busy]; rfl
    refine ⟨account.staffed, account.outputs, account.conserved, ?_, account.raised, ?_, ?_,
      fun _ => upcoming, ?_, ?_⟩
    · exact fun other member => account.genuine other (known ▸ member)
    · intro failed _
      have present := account.pending failed (by simp [busy])
      rwa [known] at present
    · exact fun _ => by simp
    · intro gone
      exact absurd busy (account.closed (account.left gone).1)
    · exact fun outcome finished => by cases finished
  | @gather _ output rest ready =>
    rw [List.append_nil]
    refine ⟨account.staffed, ?_, account.conserved, account.genuine, account.raised,
      account.pending, account.closed, account.exhausted, account.left, ?_⟩
    · simpa [ready] using account.outputs
    · intro outcome finished
      have none := (account.settled outcome finished).2.1
      rw [ready] at none
      cases none
  | @finish _ noticed closing left gathered =>
    rw [List.append_nil]
    have quiet := unreported_of_left left
    have known := known_of_left closing left
    refine ⟨account.staffed, account.outputs, account.conserved, ?_, account.raised, ?_, ?_, ?_,
      account.left, ?_⟩
    · intro other member
      apply account.genuine other
      rw [Floor.known, quiet] at member
      rw [known]
      exact List.mem_append_left _ (by simpa [Foreman.noticed] using member)
    · exact fun _ unfinished => absurd rfl (unfinished _)
    · exact fun _ => by simp
    · exact fun closing => by simp at closing
    · intro outcome finished
      obtain rfl : verdict noticed floor.hall.errors floor.gathered = outcome := by
        simpa using finished
      exact ⟨left, gathered, account.verdict_settles closing left⟩

theorem Account.steps (positive : 0 < size) (account : Account items events floor)
    (steps : Steps size work others floor last) : Account items (events ++ others) last := by
  induction steps generalizing events with
  | none => rwa [List.append_nil]
  | next step _ ih =>
    rw [← List.append_assoc]
    exact ih (account.step positive step)

/-- Whether an outcome agrees with an account: it is an error of a job that failed, or else
no job failed, every item was started, and the outcome holds every output. -/
def Agrees (items : List Item) (events : List (Event Item Output Error)) :
    Except Error (List Output) → Prop
  | .ok outputs => failures events = [] ∧ (started events).Perm items ∧
      (emitted events).Perm outputs
  | .error error => error ∈ failures events

/-- When a crew has finished, its outcome agrees with its account. -/
theorem Account.finished (account : Account items events floor)
    {outcome : Except Error (List Output)} (finished : floor.foreman = .finished outcome) :
    Agrees items events outcome := by
  obtain ⟨gone, delivered, verdict⟩ := account.settled outcome finished
  cases outcome with
  | error error => exact verdict
  | ok outputs =>
    obtain ⟨well, rfl, upcoming⟩ := verdict
    refine ⟨well, ?_, by simpa [delivered] using account.outputs⟩
    obtain ⟨worker, member⟩ := List.exists_mem_of_ne_nil _ account.staffed
    have taken := (account.left (gone worker member ▸ member)).2
    have held : floor.workers.flatMap Worker.held = [] := by
      rw [List.flatMap_eq_nil_iff]
      intro other member
      rw [gone other member]
      rfl
    obtain ⟨dropped, balance, none⟩ := account.conserved
    have well : floor.hall.failed = false :=
      Bool.eq_false_iff.mpr fun failed => account.raised failed well
    simpa [held, taken, upcoming, none well] using balance.symm

/-- When a crew has finished, nobody takes another step. -/
theorem Account.halted (account : Account items events floor)
    {outcome : Except Error (List Output)} (finished : floor.foreman = .finished outcome) :
    ¬ Step size work others floor last := by
  obtain ⟨gone, delivered, -⟩ := account.settled outcome finished
  intro step
  cases step with
  | @byWorker _ _ worker _ _ before after split step =>
    obtain rfl := gone worker (by simp [split])
    cases step
  | handOut busy | notice busy | close busy =>
    rw [finished] at busy
    cases busy
  | gather ready =>
    rw [delivered] at ready
    cases ready
  | finish closing =>
    rw [finished] at closing
    cases closing

end Runs

theorem size_pos (workers : Nat) : 0 < size workers :=
  Nat.lt_of_lt_of_le Nat.one_pos (Nat.le_max_left 1 workers)

theorem Reaches.halted {workers : Nat} {work : Item → Job State Output Error} {items : List Item}
    {shared : State} {floor next : Floor Item State Output Error}
    {events : List (Event Item Output Error)} {outcome : Except Error (List Output)}
    (reaches : Reaches (size workers) work (.start (size workers) items shared) floor)
    (finished : floor.foreman = .finished outcome) :
    ¬ Step (size workers) work events floor next := by
  obtain ⟨_, steps⟩ := reaches
  exact ((account_start (size_pos workers) items shared).steps (size_pos workers) steps).halted
    finished

end ArtifactCache.Crew
