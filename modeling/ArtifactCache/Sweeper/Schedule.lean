import ArtifactCache.Sweeper.Basic

/-! # The schedules of the sweeper

Each removal is a task of its own.  A request first counts the task and then starts
it, so that the count is never too low.  A task waits for one of a limited number of
permits, removes its file, gives the permit back, and counts itself off.  The task
that brings the count to zero wakes everyone who waits for that.

Who wants to wait until the sweeper is idle first registers to be woken and only then
looks at the count.  If there is nothing to do he returns, and otherwise he sleeps
until he is woken and begins again.

Nothing says which of several possible steps happens next.
-/

namespace ArtifactCache.Sweeper

/-- How far a removal has come. -/
inductive Phase where
  /-- It was counted and has not been started yet. -/
  | counted
  /-- It waits for a permit. -/
  | waiting
  /-- It holds a permit and is about to remove its file. -/
  | removing
  /-- It has tried to remove its file and has given the permit back. -/
  | tried
  /-- It has counted itself off; it may have been the last one. -/
  | countedOff (last : Bool)
  | over
  deriving DecidableEq, Repr

structure Removal where
  path : DiskPath
  phase : Phase
  deriving DecidableEq, Repr

/-- What someone is doing who waits until the sweeper is idle. -/
inductive Waiter where
  | arriving
  /-- He has registered and is about to look at the count. -/
  | registered (woken : Bool)
  | asleep (woken : Bool)
  | returned
  deriving DecidableEq, Repr

/-- The waiter after everyone who had registered was woken. -/
def Waiter.wake : Waiter → Waiter
  | .arriving => .arriving
  | .registered _ => .registered true
  | .asleep _ => .asleep true
  | .returned => .returned

/-- The state of a sweeper at work. -/
structure State where
  disk : Disk
  notices : List Notice
  /-- Permits that nobody holds. -/
  permits : Nat
  /-- The count of the removals that are not over. -/
  count : Nat
  removals : List Removal
  waiters : List Waiter

/-- The steps that matter to an account of the work. -/
inductive Event where
  | requested (path : DiskPath)
  | tried (path : DiskPath)
  deriving DecidableEq, Repr

/-- A step of one removal, together with what it does to everything else. -/
inductive RemovalStep : List Event → Removal × State → Removal × State → Prop
  | start {path state} :
    RemovalStep [] ({ path, phase := .counted }, state) ({ path, phase := .waiting }, state)
  | acquire {path state permits} (free : state.permits = permits + 1) :
    RemovalStep [] ({ path, phase := .waiting }, state)
      ({ path, phase := .removing }, { state with permits })
  | remove {path state disk notices} (tried : attempt state.disk path = (disk, notices)) :
    RemovalStep [.tried path] ({ path, phase := .removing }, state)
      ({ path, phase := .tried },
        { state with disk, notices := state.notices ++ notices, permits := state.permits + 1 })
  | countOff {path state} :
    RemovalStep [] ({ path, phase := .tried }, state)
      ({ path, phase := .countedOff (state.count = 1) }, { state with count := state.count - 1 })
  | wake {path state} :
    RemovalStep [] ({ path, phase := .countedOff true }, state)
      ({ path, phase := .over }, { state with waiters := state.waiters.map Waiter.wake })
  | finish {path state} :
    RemovalStep [] ({ path, phase := .countedOff false }, state) ({ path, phase := .over }, state)

/-- A step of one waiter, who sees the count. -/
inductive WaiterStep (count : Nat) : Waiter → Waiter → Prop
  | register : WaiterStep count .arriving (.registered false)
  | leave {woken} (idle : count = 0) : WaiterStep count (.registered woken) .returned
  | sleep {woken} (busy : count ≠ 0) : WaiterStep count (.registered woken) (.asleep woken)
  | again : WaiterStep count (.asleep true) .arriving

inductive Step : List Event → State → State → Prop
  /-- Someone requests a removal. -/
  | request {state} (path : DiskPath) :
    Step [.requested path] state
      { state with
        count := state.count + 1
        removals := state.removals ++ [{ path, phase := .counted }] }
  /-- A removal takes a step. -/
  | byRemoval {events state removal removal' state'} (before after : List Removal)
      (split : state.removals = before ++ removal :: after)
      (step : RemovalStep events (removal, state) (removal', state')) :
    Step events state { state' with removals := before ++ removal' :: after }
  /-- Someone wants to wait until the sweeper is idle. -/
  | arrive {state} : Step [] state { state with waiters := state.waiters ++ [.arriving] }
  /-- A waiter takes a step. -/
  | byWaiter {state waiter waiter'} (before after : List Waiter)
      (split : state.waiters = before ++ waiter :: after)
      (step : WaiterStep state.count waiter waiter') :
    Step [] state { state with waiters := before ++ waiter' :: after }

inductive Steps : List Event → State → State → Prop
  | none {state} : Steps [] state state
  | next {events others first middle last} (step : Step events first middle)
      (rest : Steps others middle last) : Steps (events ++ others) first last

def State.start (limit : UInt64) (disk : Disk) : State where
  disk := disk
  notices := []
  permits := (create limit).limit.toNat
  count := 0
  removals := []
  waiters := []

end ArtifactCache.Sweeper
