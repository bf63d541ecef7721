import ArtifactCache.Sweeper.Schedule
import Mathlib.Algebra.GroupWithZero.Nat
import Mathlib.Data.List.Perm.Basic

/-! # The books of the sweeper

The sweeper counts a removal before its task is started, and the task counts itself off when it
has tried to remove the file.  Whatever happens in which order, the count is that of the tasks
that have not done so yet, the permits that are out are those of the removals under way, and
each path that was requested has been tried once or is still waiting for it.  A path that
cannot be removed costs the others nothing.

A removal has only so many steps to take, and as long as one of them is not over somebody can
take the next one.  So all of them come to their end under every schedule that does not forget
any of them.
-/

namespace ArtifactCache.Sweeper

/-- Whether a removal has yet to be counted off. -/
def Phase.isPending : Phase → Bool
  | .counted | .waiting | .removing | .tried => true
  | .countedOff _ | .over => false

/-- Whether a removal was started and has yet to be counted off. -/
def Phase.isAtWork : Phase → Bool
  | .waiting | .removing | .tried => true
  | .counted | .countedOff _ | .over => false

/-- Whether a removal holds a permit. -/
def Phase.isRemoving : Phase → Bool
  | .removing => true
  | .counted | .waiting | .tried | .countedOff _ | .over => false

/-- Whether a removal has tried its path. -/
def Phase.hasTried : Phase → Bool
  | .tried | .countedOff _ | .over => true
  | .counted | .waiting | .removing => false

/-- The path of a removal that has not tried it yet. -/
def Removal.untried (removal : Removal) : List DiskPath :=
  if removal.phase.hasTried then [] else [removal.path]

/-- How many steps a removal still has to take. -/
def Phase.ahead : Phase → Nat
  | .counted => 5
  | .waiting => 4
  | .removing => 3
  | .tried => 2
  | .countedOff _ => 1
  | .over => 0

/-- How many steps all removals still have to take. -/
def State.ahead (state : State) : Nat :=
  (state.removals.map fun removal => removal.phase.ahead).sum

def Event.requested? : Event → Option DiskPath
  | .requested path => some path
  | .tried _ => none

def Event.tried? : Event → Option DiskPath
  | .requested _ => none
  | .tried path => some path

/-- The paths that were requested, in their order. -/
def requested (events : List Event) : List DiskPath :=
  events.filterMap Event.requested?

/-- The paths that were tried, in their order. -/
def tried (events : List Event) : List DiskPath :=
  events.filterMap Event.tried?

theorem requested_append (events others : List Event) :
    requested (events ++ others) = requested events ++ requested others :=
  List.filterMap_append

theorem tried_append (events others : List Event) :
    tried (events ++ others) = tried events ++ tried others :=
  List.filterMap_append

theorem countP_isPending (removals : List Removal) :
    (removals.countP fun removal => removal.phase.isPending) =
      (removals.countP fun removal => removal.phase.isAtWork) +
        removals.countP fun removal => removal.phase = .counted := by
  induction removals with
  | nil => rfl
  | cons removal rest ih =>
    rw [List.countP_cons, List.countP_cons, List.countP_cons, ih]
    rcases removal with ⟨path, phase⟩
    cases phase <;> simp [Phase.isPending, Phase.isAtWork] <;> omega

/-! ## Trying paths one after the other -/

theorem attemptAll_append (first second : List DiskPath) (disk : Disk) :
    attemptAll (first ++ second) disk =
      ((attemptAll second (attemptAll first disk).1).1,
        (attemptAll first disk).2 ++ (attemptAll second (attemptAll first disk).1).2) := by
  induction first generalizing disk with
  | nil => rfl
  | cons path rest ih => simp only [List.cons_append, attemptAll, ih, List.append_assoc]

theorem attemptAll_singleton (path : DiskPath) (disk : Disk) :
    attemptAll [path] disk = attempt disk path := by
  simp [attemptAll]

/-- What a failed attempt leaves behind. -/
theorem attempt_of_error {disk : Disk} {path : DiskPath} {fault : Fault}
    (refused : disk.removeFile path = .error fault) :
    attempt disk path = (disk, if fault = .notFound then [] else [.notRemoved path fault]) := by
  rw [attempt, refused]

/-- A path that cannot be removed makes no difference to the others, neither to those before
it nor to those after it. -/
theorem attemptAll_of_error {before : List DiskPath} {path : DiskPath} {disk : Disk}
    {fault : Fault} (refused : (attemptAll before disk).1.removeFile path = .error fault)
    (after : List DiskPath) :
    (attemptAll (before ++ path :: after) disk).1 = (attemptAll (before ++ after) disk).1 ∧
      (attemptAll (before ++ path :: after) disk).2 =
        (attemptAll before disk).2 ++
          (if fault = .notFound then [] else [.notRemoved path fault]) ++
          (attemptAll after (attemptAll before disk).1).2 := by
  rw [List.append_cons, attemptAll_append (before ++ [path]), attemptAll_append before [path],
    attemptAll_singleton, attempt_of_error refused, attemptAll_append before after]
  exact ⟨rfl, rfl⟩

/-! ## The books -/

/-- Whether the books of a sweeper agree with what has happened. -/
structure Books (limit : UInt64) (disk : Disk) (events : List Event) (state : State) : Prop where
  count : state.count = state.removals.countP fun removal => removal.phase.isPending
  permits : state.permits + (state.removals.countP fun removal => removal.phase.isRemoving) =
    max 1 limit.toNat
  once : (tried events ++ state.removals.flatMap Removal.untried).Perm (requested events)
  disk : attemptAll (tried events) disk = (state.disk, state.notices)

theorem toNat_limit_create (limit : UInt64) : (create limit).limit.toNat = max 1 limit.toNat :=
  UInt64.toNat_max 1 limit

theorem books_start (limit : UInt64) (disk : Disk) : Books limit disk [] (.start limit disk) where
  count := rfl
  permits := toNat_limit_create limit
  once := .refl _
  disk := rfl

section Steps

variable {limit : UInt64} {disk : Disk} {events others : List Event} {state next : State}
  {removal removal' : Removal} {before after : List Removal}

/-- A removal that tries its path is done with it, and the disk shows it. -/
theorem RemovalStep.tries (step : RemovalStep others (removal, state) (removal', next)) :
    requested others = [] ∧ removal.untried = tried others ++ removal'.untried ∧
      next.disk = (attemptAll (tried others) state.disk).1 ∧
      next.notices = state.notices ++ (attemptAll (tried others) state.disk).2 := by
  cases step with
  | @remove path _ _ _ attempted =>
    refine ⟨rfl, rfl, ?_⟩
    have alone : tried [Event.tried path] = [path] := rfl
    rw [alone, attemptAll_singleton, attempted]
    exact ⟨rfl, rfl⟩
  | _ => exact ⟨rfl, rfl, rfl, (List.append_nil _).symm⟩

/-- A removal takes a permit that is free, and gives it back. -/
theorem RemovalStep.permits_eq (step : RemovalStep others (removal, state) (removal', next)) :
    next.permits + (if removal'.phase.isRemoving then 1 else 0) =
      state.permits + (if removal.phase.isRemoving then 1 else 0) := by
  cases step with
  | acquire free => simp [Phase.isRemoving, free]
  | _ => simp [Phase.isRemoving]

/-- A removal that is counted counts itself off once. -/
theorem RemovalStep.count_eq (step : RemovalStep others (removal, state) (removal', next))
    {rest : Nat} (count : state.count = rest + if removal.phase.isPending then 1 else 0) :
    next.count = rest + if removal'.phase.isPending then 1 else 0 := by
  cases step with
  | countOff => simp [Phase.isPending, count]
  | _ => exact count

theorem Books.byRemoval (books : Books limit disk events state)
    (split : state.removals = before ++ removal :: after)
    (step : RemovalStep others (removal, state) (removal', next)) :
    Books limit disk (events ++ others) { next with removals := before ++ removal' :: after } := by
  obtain ⟨count, permits, once, trace⟩ := books
  obtain ⟨quiet, own, traceOwn, noticed⟩ := step.tries
  simp only [split, List.countP_append, List.countP_cons, List.flatMap_append, List.flatMap_cons]
    at count permits once
  refine ⟨?_, ?_, ?_, ?_⟩
  · rw [← Nat.add_assoc] at count
    simpa only [List.countP_append, List.countP_cons, Nat.add_assoc] using step.count_eq count
  · have same := step.permits_eq
    simp only [List.countP_append, List.countP_cons]
    omega
  · rw [requested_append, quiet, List.append_nil]
    refine List.Perm.trans ?_ once
    rw [own, tried_append]
    simp only [List.flatMap_append, List.flatMap_cons, List.append_assoc]
    exact (List.perm_append_comm_assoc _ _ _).append_left _
  · rw [tried_append, attemptAll_append, trace, traceOwn, noticed]

/-- The books are kept, whatever happens next. -/
theorem Books.step (books : Books limit disk events state) (step : Step others state next) :
    Books limit disk (events ++ others) next := by
  cases step with
  | request path =>
    have nothing : tried [Event.requested path] = [] := rfl
    refine ⟨?_, ?_, ?_, ?_⟩
    · simp [books.count, Phase.isPending]
    · simpa [Phase.isRemoving] using books.permits
    · have more := books.once.append_right [path]
      rw [List.append_assoc] at more
      rw [tried_append, nothing, List.append_nil, requested_append, List.flatMap_append]
      exact more
    · rw [tried_append, nothing, List.append_nil]
      exact books.disk
  | byRemoval before after split step => exact books.byRemoval split step
  | arrive | byWaiter =>
    rw [List.append_nil]
    exact ⟨books.count, books.permits, books.once, books.disk⟩

theorem Books.steps (books : Books limit disk events state) (steps : Steps others state next) :
    Books limit disk (events ++ others) next := by
  induction steps generalizing events with
  | none => rwa [List.append_nil]
  | next step _ ih =>
    rw [← List.append_assoc]
    exact ih (books.step step)

/-- When the count is zero, everything that was requested has been tried. -/
theorem Books.tried_of_idle (books : Books limit disk events state) (idle : state.count = 0) :
    (tried events).Perm (requested events) := by
  have done : state.removals.flatMap Removal.untried = [] := by
    rw [List.flatMap_eq_nil_iff]
    intro removal member
    have off := List.countP_eq_zero.mp (books.count.symm.trans idle) removal member
    rcases removal with ⟨path, phase⟩
    cases phase with
    | counted | waiting | removing | tried => exact absurd rfl off
    | _ => rfl
  simpa only [done, List.append_nil] using books.once

/-- When all removals are over, the count is zero. -/
theorem Books.idle_of_ended (books : Books limit disk events state)
    (ended : ∀ removal ∈ state.removals, removal.phase = .over) : state.count = 0 := by
  rw [books.count, List.countP_eq_zero]
  intro removal member
  rw [ended removal member]
  exact Bool.false_ne_true

/-! ## Removals come to their end -/

theorem RemovalStep.ahead_lt (step : RemovalStep others (removal, state) (removal', next)) :
    removal'.phase.ahead < removal.phase.ahead := by
  cases step <;> exact Nat.lt_succ_self _

theorem State.ahead_split (split : state.removals = before ++ removal :: after) :
    state.ahead = (before.map fun removal => removal.phase.ahead).sum + removal.phase.ahead +
      (after.map fun removal => removal.phase.ahead).sum := by
  simp [State.ahead, split, Nat.add_assoc]

/-- A step of a removal leaves fewer of them to be taken. -/
theorem ahead_lt_of_byRemoval (split : state.removals = before ++ removal :: after)
    (step : RemovalStep others (removal, state) (removal', next)) :
    State.ahead { next with removals := before ++ removal' :: after } < state.ahead := by
  rw [State.ahead_split split, State.ahead_split rfl]
  have less := step.ahead_lt
  omega

/-- Unless something new is requested, a step concerns no removal or brings the end of all of
them closer. -/
theorem Step.closer (step : Step others state next) (quiet : requested others = []) :
    next.removals = state.removals ∨ next.ahead < state.ahead := by
  cases step with
  | request path => cases quiet
  | byRemoval before after split step => exact .inr (ahead_lt_of_byRemoval split step)
  | arrive | byWaiter => exact .inl rfl

/-- A removal that is not over can take a step, unless it waits for a permit. -/
theorem exists_removalStep (removal : Removal) (state : State) (left : removal.phase ≠ .over)
    (free : removal.phase = .waiting → state.permits ≠ 0) :
    ∃ others removal' next, RemovalStep others (removal, state) (removal', next) := by
  rcases removal with ⟨path, phase⟩
  cases phase with
  | counted => exact ⟨_, _, _, .start⟩
  | waiting =>
    obtain ⟨permits, free⟩ := Nat.exists_eq_succ_of_ne_zero (free rfl)
    exact ⟨_, _, _, .acquire free⟩
  | removing => exact ⟨_, _, _, .remove rfl⟩
  | tried => exact ⟨_, _, _, .countOff⟩
  | countedOff last =>
    cases last with
    | false => exact ⟨_, _, _, .finish⟩
    | true => exact ⟨_, _, _, .wake⟩
  | _ => exact absurd rfl left

/-- Not all removals wait for a permit in vain. -/
theorem Books.exists_movable (books : Books limit disk events state)
    (left : ∃ removal ∈ state.removals, removal.phase ≠ .over) :
    ∃ removal ∈ state.removals, removal.phase ≠ .over ∧
      (removal.phase = .waiting → state.permits ≠ 0) := by
  by_cases busy : ∃ removal ∈ state.removals, removal.phase ≠ .over ∧ removal.phase ≠ .waiting
  · obtain ⟨removal, member, left, moving⟩ := busy
    exact ⟨removal, member, left, fun waiting => absurd waiting moving⟩
  · obtain ⟨removal, member, left⟩ := left
    refine ⟨removal, member, left, fun _ taken => busy ?_⟩
    -- There is at least one permit, so somebody holds it who does not wait.
    have out : (state.removals.countP fun removal => removal.phase.isRemoving) ≠ 0 := by
      have permits := books.permits
      have positive : 1 ≤ max 1 limit.toNat := Nat.le_max_left _ _
      omega
    obtain ⟨other, present, removing⟩ := List.countP_pos_iff.mp (Nat.pos_of_ne_zero out)
    refine ⟨other, present, ?_⟩
    rcases other with ⟨path, phase⟩
    cases phase with
    | removing => exact ⟨nofun, nofun⟩
    | _ => cases removing

/-- As long as some removal is not over, one of them can take a step. -/
theorem Books.goesOn (books : Books limit disk events state)
    (left : ∃ removal ∈ state.removals, removal.phase ≠ .over) :
    ∃ others next, Step others state next ∧ requested others = [] ∧ next.ahead < state.ahead := by
  obtain ⟨removal, member, left, free⟩ := books.exists_movable left
  obtain ⟨before, after, split⟩ := List.append_of_mem member
  obtain ⟨others, removal', next, step⟩ := exists_removalStep removal state left free
  exact ⟨others, _, .byRemoval before after split step, step.tries.1,
    ahead_lt_of_byRemoval split step⟩

theorem Books.finishes (books : Books limit disk events state) :
    ∃ others last, Steps others state last ∧ requested others = [] ∧
      ∀ removal ∈ last.removals, removal.phase = .over := by
  induction rounds : state.ahead using Nat.strongRecOn generalizing events state with
  | _ rounds ih =>
    by_cases left : ∃ removal ∈ state.removals, removal.phase ≠ .over
    · obtain ⟨first, middle, step, quiet, less⟩ := books.goesOn left
      obtain ⟨others, last, steps, still, ended⟩ :=
        ih middle.ahead (rounds ▸ less) (books.step step) rfl
      exact ⟨first ++ others, last, .next step steps, by rw [requested_append, quiet, still]; rfl,
        ended⟩
    · push Not at left
      exact ⟨[], state, .none, rfl, left⟩

end Steps

end ArtifactCache.Sweeper
