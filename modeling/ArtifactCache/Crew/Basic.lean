import ArtifactCache.Crew.Schedule

/-! # Crews

A crew does the jobs of a list of items and gives a report.  All that is known of a
crew is that its report is one that some schedule leads to.  What is shown for every
crew therefore holds for all numbers of workers and all orders of their steps.
-/

namespace ArtifactCache

/-- Something that does jobs as some schedule of workers would. -/
structure Crew where
  /-- Do the jobs of all items with a number of workers. -/
  run {Item State Output Error : Type} (workers : Nat) (work : Item → Job State Output Error)
    (items : List Item) (shared : State) : Report State Output Error
  possible {Item State Output Error : Type} (workers : Nat)
    (work : Item → Job State Output Error) (items : List Item) (shared : State) :
    Crew.Possible workers work items shared (run workers work items shared)

end ArtifactCache
