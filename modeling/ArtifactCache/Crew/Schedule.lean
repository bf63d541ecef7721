import ArtifactCache.Crew.Job

/-! # The schedules of a crew

A crew of workers shares the jobs of a list of items.  A foreman hands the items out
through a queue, the workers do the jobs, and a collector gathers what they hand
over.  The queues of items, of outputs and of errors are bounded by the number of
workers, and whoever finds a queue full has to wait.

The first error stops the work.  A worker whose job failed raises a flag and then
reports the error.  Workers that see the flag discard the items they take, and the
foreman stops as soon as he notices an error.  In the end the foreman closes the
queue of items, waits until all workers have gone and their outputs are gathered,
and gives the outputs or one of the errors.

Nothing says which of several possible steps happens next.  A schedule is any
sequence of steps from the start to the end, and `Possible` holds of whatever some
schedule leads to.
-/

namespace ArtifactCache.Crew

variable {Item State Output Error : Type}

/-- What a worker is doing. -/
inductive Worker (Item State Output Error : Type) where
  | waiting
  /-- An item was taken from the queue, and the flag is still to be looked at. -/
  | holding (item : Item)
  | working (job : Job State Output Error)
  /-- The job failed, and the flag is still to be raised. -/
  | failing (error : Error)
  /-- The flag was raised, and the error is still to be reported. -/
  | reporting (error : Error)
  | gone

/-- What all workers can see. -/
structure Hall (Item State Output Error : Type) where
  shared : State
  /-- Items that were handed out and not taken yet. -/
  queue : List Item
  /-- Whether no more items will be handed out. -/
  closed : Bool
  /-- Outputs that are not gathered yet. -/
  outputs : List Output
  /-- Errors that were reported and not noticed yet. -/
  errors : List Error
  /-- The flag that a worker raises whose job failed. -/
  failed : Bool

/-- What the foreman is doing. -/
inductive Foreman (Output Error : Type) where
  | handingOut
  /-- No more items are handed out; an error may have been noticed. -/
  | closing (noticed : Option Error)
  | finished (outcome : Except Error (List Output))

/-- The state of a crew. -/
structure Floor (Item State Output Error : Type) where
  hall : Hall Item State Output Error
  workers : List (Worker Item State Output Error)
  foreman : Foreman Output Error
  /-- Items that are still to be handed out. -/
  upcoming : List Item
  /-- Outputs that were gathered. -/
  gathered : List Output

/-- The steps that matter to an account of the work. -/
inductive Event (Item Output Error : Type) where
  | started (item : Item)
  | emitted (output : Output)
  | failed (error : Error)

/-- A step of one worker.  Each of the bounded queues holds at most `size` things. -/
inductive WorkerStep (size : Nat) (work : Item → Job State Output Error) :
    List (Event Item Output Error) →
    Worker Item State Output Error × Hall Item State Output Error →
    Worker Item State Output Error × Hall Item State Output Error → Prop
  | take {hall item rest} (queued : hall.queue = item :: rest) :
    WorkerStep size work [] (.waiting, hall) (.holding item, { hall with queue := rest })
  | leave {hall} (empty : hall.queue = []) (closed : hall.closed = true) :
    WorkerStep size work [] (.waiting, hall) (.gone, hall)
  | discard {hall item} (failed : hall.failed = true) :
    WorkerStep size work [] (.holding item, hall) (.waiting, hall)
  | start {hall item} (well : hall.failed = false) :
    WorkerStep size work [.started item] (.holding item, hall) (.working (work item), hall)
  | finish {hall} :
    WorkerStep size work [] (.working .done, hall) (.waiting, hall)
  | emit {hall output rest} (room : hall.outputs.length < size) :
    WorkerStep size work [.emitted output] (.working (.emit output rest), hall)
      (.working rest, { hall with outputs := hall.outputs ++ [output] })
  | change {hall act rest state} (changed : act hall.shared = .ok state) :
    WorkerStep size work [] (.working (.change act rest), hall)
      (.working rest, { hall with shared := state })
  | fail {hall act rest error} (refused : act hall.shared = .error error) :
    WorkerStep size work [.failed error] (.working (.change act rest), hall)
      (.failing error, hall)
  | look {hall next} :
    WorkerStep size work [] (.working (.look next), hall) (.working (next hall.shared), hall)
  | raise {hall error} :
    WorkerStep size work [] (.failing error, hall) (.reporting error, { hall with failed := true })
  | report {hall error} (room : hall.errors.length < size) :
    WorkerStep size work [] (.reporting error, hall)
      (.waiting, { hall with errors := hall.errors ++ [error] })
  | lose {hall error} (full : size ≤ hall.errors.length) :
    WorkerStep size work [] (.reporting error, hall) (.waiting, hall)

/-- What the foreman gives in the end: the error that was noticed, or else one that
still waits, or else the outputs. -/
def verdict (noticed : Option Error) (errors : List Error) (gathered : List Output) :
    Except Error (List Output) :=
  match noticed.or errors.head? with
  | some error => .error error
  | none => .ok gathered

inductive Step (size : Nat) (work : Item → Job State Output Error) :
    List (Event Item Output Error) →
    Floor Item State Output Error → Floor Item State Output Error → Prop
  /-- One of the workers takes a step. -/
  | byWorker {events floor worker next hall} (before after)
      (split : floor.workers = before ++ worker :: after)
      (step : WorkerStep size work events (worker, floor.hall) (next, hall)) :
    Step size work events floor { floor with workers := before ++ next :: after, hall }
  /-- The foreman hands out an item. -/
  | handOut {floor item rest} (busy : floor.foreman = .handingOut)
      (upcoming : floor.upcoming = item :: rest) (room : floor.hall.queue.length < size) :
    Step size work [] floor
      { floor with
        upcoming := rest
        hall := { floor.hall with queue := floor.hall.queue ++ [item] } }
  /-- The foreman notices an error while there are items to hand out. -/
  | notice {floor item rest error errors} (busy : floor.foreman = .handingOut)
      (upcoming : floor.upcoming = item :: rest) (reported : floor.hall.errors = error :: errors) :
    Step size work [] floor
      { floor with
        foreman := .closing (some error)
        hall := { floor.hall with errors, closed := true } }
  /-- Everything has been handed out. -/
  | close {floor} (busy : floor.foreman = .handingOut) (upcoming : floor.upcoming = []) :
    Step size work [] floor
      { floor with foreman := .closing none, hall := { floor.hall with closed := true } }
  /-- The collector gathers an output. -/
  | gather {floor output rest} (ready : floor.hall.outputs = output :: rest) :
    Step size work [] floor
      { floor with
        gathered := floor.gathered ++ [output]
        hall := { floor.hall with outputs := rest } }
  /-- All workers have gone and all outputs are gathered. -/
  | finish {floor noticed} (closing : floor.foreman = .closing noticed)
      (left : ∀ worker ∈ floor.workers, worker = .gone) (gathered : floor.hall.outputs = []) :
    Step size work [] floor
      { floor with
        foreman := .finished (verdict noticed floor.hall.errors floor.gathered) }

inductive Steps (size : Nat) (work : Item → Job State Output Error) :
    List (Event Item Output Error) →
    Floor Item State Output Error → Floor Item State Output Error → Prop
  | none {floor} : Steps size work [] floor floor
  | next {events others floor middle last} (first : Step size work events floor middle)
      (rest : Steps size work others middle last) : Steps size work (events ++ others) floor last

theorem Steps.append {size : Nat} {work : Item → Job State Output Error}
    {events others : List (Event Item Output Error)}
    {first middle last : Floor Item State Output Error}
    (before : Steps size work events first middle) (after : Steps size work others middle last) :
    Steps size work (events ++ others) first last := by
  induction before with
  | none => exact after
  | next step rest ih =>
    rw [List.append_assoc]
    exact .next step (ih after)

def Reaches (size : Nat) (work : Item → Job State Output Error)
    (first last : Floor Item State Output Error) : Prop :=
  ∃ events, Steps size work events first last

theorem Reaches.refl {size : Nat} {work : Item → Job State Output Error}
    (floor : Floor Item State Output Error) : Reaches size work floor floor :=
  ⟨_, .none⟩

theorem Reaches.head {size : Nat} {work : Item → Job State Output Error}
    {events : List (Event Item Output Error)} {first middle last : Floor Item State Output Error}
    (step : Step size work events first middle) (rest : Reaches size work middle last) :
    Reaches size work first last :=
  let ⟨_, steps⟩ := rest
  ⟨_, .next step steps⟩

theorem Reaches.trans {size : Nat} {work : Item → Job State Output Error}
    {first middle last : Floor Item State Output Error}
    (before : Reaches size work first middle) (after : Reaches size work middle last) :
    Reaches size work first last :=
  let ⟨_, steps⟩ := before
  let ⟨_, others⟩ := after
  ⟨_, steps.append others⟩

def Floor.start (size : Nat) (items : List Item) (shared : State) :
    Floor Item State Output Error where
  hall := { shared, queue := [], closed := false, outputs := [], errors := [], failed := false }
  workers := List.replicate size .waiting
  foreman := .handingOut
  upcoming := items
  gathered := []

/-- The number of workers in a crew that was asked for a number of them. -/
def size (workers : Nat) : Nat := max 1 workers

/-- Whether some schedule leads to a report. -/
def Possible (workers : Nat) (work : Item → Job State Output Error) (items : List Item)
    (shared : State) (report : Report State Output Error) : Prop :=
  ∃ floor, Reaches (size workers) work (.start (size workers) items shared) floor ∧
    floor.foreman = .finished report.outcome ∧ floor.hall.shared = report.state

end ArtifactCache.Crew
