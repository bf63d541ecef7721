/-! # Jobs

A job is what a worker does with one item.  It proceeds in steps: it changes a
state that all workers share, or looks at it, or hands over an output.  Between two
steps other workers may change the shared state.  A job that fails stops there, and
what it has done so far remains.

Jobs can be done one after the other by a single worker.  How several workers may
share them is described in `ArtifactCache.Crew.Schedule`.
-/

namespace ArtifactCache

/-- The steps that a worker takes. -/
inductive Job (State Output Error : Type) where
  /-- Nothing is left to do. -/
  | done
  /-- Hand over an output. -/
  | emit (output : Output) (rest : Job State Output Error)
  /-- Change the shared state, or fail and leave it. -/
  | change (act : State → Except Error State) (rest : Job State Output Error)
  /-- Look at the shared state and go on accordingly. -/
  | look (next : State → Job State Output Error)

/-- Where work has led: its outputs, if nothing failed, and the shared state. -/
structure Report (State Output Error : Type) where
  outcome : Except Error (List Output)
  state : State

namespace Job

variable {Item State Output Error : Type}

def fail (error : Error) : Job State Output Error :=
  .change (fun _ => .error error) .done

def run : Job State Output Error → State → Report State Output Error
  | .done, state => { outcome := .ok [], state }
  | .emit output rest, state =>
    let report := rest.run state
    { report with outcome := report.outcome.map (output :: ·) }
  | .change act rest, state =>
    match act state with
    | .ok state => rest.run state
    | .error error => { outcome := .error error, state }
  | .look next, state => (next state).run state

/-- Do the jobs of several items one after the other, up to the first that fails. -/
def runAll (work : Item → Job State Output Error) :
    List Item → State → Report State Output Error
  | [], state => { outcome := .ok [], state }
  | item :: rest, state =>
    match (work item).run state with
    | { outcome := .error error, state } => { outcome := .error error, state }
    | { outcome := .ok outputs, state } =>
      let report := runAll work rest state
      { report with outcome := report.outcome.map (outputs ++ ·) }

end Job

end ArtifactCache
