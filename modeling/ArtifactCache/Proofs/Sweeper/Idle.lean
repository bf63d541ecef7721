import ArtifactCache.Proofs.Sweeper.Books
import Mathlib.Logic.Relation

/-! # Waiting until the sweeper is idle

Who waits registers before he looks at the count, so that whoever brings the count to zero
after the look wakes him.  Hence nobody sleeps unwoken once everything is over, and who returns
has seen a count of zero, at a moment when everything requested so far had been tried.

The main statement gathers this and the books of the sweeper for all states that it can reach.
-/

namespace ArtifactCache.Sweeper

variable {limit : UInt64} {disk : Disk} {events others : List Event} {state next last : State}

/-! ## Sleepers are woken -/

/-- Whether everyone who sleeps unwoken will be woken: somebody has yet to be counted off, or
the last one is about to wake everybody. -/
def State.IsWatched (state : State) : Prop :=
  .asleep false ∈ state.waiters →
    state.count ≠ 0 ∨ ∃ removal ∈ state.removals, removal.phase = .countedOff true

theorem Waiter.wake_ne_asleep (waiter : Waiter) : waiter.wake ≠ .asleep false := by
  cases waiter <;> exact nofun

theorem mem_replaced {Value : Type} {before after : List Value} {value other : Value}
    (new : Value) (member : other ∈ before ++ value :: after) (kept : other ≠ value) :
    other ∈ before ++ new :: after := by
  simp only [List.mem_append, List.mem_cons] at member ⊢
  exact member.imp_right fun rest => .inr (rest.resolve_left kept)

theorem State.IsWatched.byRemoval {removal removal' : Removal} {before after : List Removal}
    (watched : state.IsWatched) (split : state.removals = before ++ removal :: after)
    (step : RemovalStep others (removal, state) (removal', next)) :
    State.IsWatched { next with removals := before ++ removal' :: after } := by
  -- The last removal, if there is one, is still there unless it is the one that moves.
  have stays : removal.phase ≠ .countedOff true →
      (∃ removal ∈ state.removals, removal.phase = .countedOff true) →
      ∃ removal ∈ before ++ removal' :: after, removal.phase = .countedOff true := by
    rintro moves ⟨other, member, last⟩
    rw [split] at member
    exact ⟨other, mem_replaced removal' member fun same => moves (same ▸ last), last⟩
  intro asleep
  cases step with
  | countOff =>
    -- Whoever brings the count to zero becomes the last one in the same step.
    by_cases one : state.count = 1
    · exact .inr ⟨_, List.mem_append_right _ List.mem_cons_self,
        congrArg Phase.countedOff (decide_eq_true one)⟩
    · rcases watched asleep with busy | last
      · exact .inl (Nat.sub_ne_zero_of_lt (by omega))
      · exact .inr (stays nofun last)
  | wake =>
    obtain ⟨waiter, -, same⟩ := List.mem_map.mp asleep
    exact absurd same waiter.wake_ne_asleep
  | _ => exact (watched asleep).imp_right (stays nofun)

theorem State.IsWatched.step (watched : state.IsWatched) (step : Step others state next) :
    next.IsWatched := by
  cases step with
  | request path => exact fun _ => .inl (Nat.succ_ne_zero _)
  | byRemoval before after split step => exact watched.byRemoval split step
  | arrive =>
    intro asleep
    exact watched (by simpa using asleep)
  | @byWaiter _ waiter waiter' before after split step =>
    intro asleep
    by_cases moved : waiter' = .asleep false
    · cases step with
      | sleep busy => exact .inl busy
      | _ => cases moved
    · apply watched
      rw [split]
      exact mem_replaced waiter asleep (Ne.symm moved)

theorem State.IsWatched.steps (watched : state.IsWatched) (steps : Steps others state next) :
    next.IsWatched := by
  induction steps with
  | none => exact watched
  | next step _ ih => exact ih (watched.step step)

/-- A waiter who does not sleep unwoken returns by steps of his own when the count is zero. -/
theorem Waiter.returns (waiter : Waiter) (awake : waiter ≠ .asleep false) :
    Relation.ReflTransGen (WaiterStep 0) waiter .returned := by
  have looks (woken : Bool) : Relation.ReflTransGen (WaiterStep 0) (.registered woken) .returned :=
    .single (.leave rfl)
  have arrives : Relation.ReflTransGen (WaiterStep 0) .arriving .returned :=
    (looks false).head .register
  cases waiter with
  | arriving => exact arrives
  | registered woken => exact looks woken
  | asleep woken =>
    cases woken with
    | false => exact absurd rfl awake
    | true => exact arrives.head .again
  | returned => exact .refl

/-- When all removals are over, nobody sleeps unwoken. -/
theorem Books.not_asleep (books : Books limit disk events state) (watched : state.IsWatched)
    (ended : ∀ removal ∈ state.removals, removal.phase = .over) :
    .asleep false ∉ state.waiters := by
  intro asleep
  rcases watched asleep with busy | ⟨removal, present, last⟩
  · exact busy (books.idle_of_ended ended)
  · cases (ended removal present).symm.trans last

/-- When all removals are over, everybody who waits can return. -/
theorem Books.returns (books : Books limit disk events state) (watched : state.IsWatched)
    (ended : ∀ removal ∈ state.removals, removal.phase = .over) :
    ∀ waiter ∈ state.waiters,
      Relation.ReflTransGen (WaiterStep state.count) waiter .returned := by
  intro waiter member
  rw [books.idle_of_ended ended]
  exact waiter.returns fun asleep => books.not_asleep watched ended (asleep ▸ member)

/-! ## Who returns has seen the sweeper idle -/

/-- A waiter returns in no other step than one that sees a count of zero. -/
theorem Step.idle_of_returns (step : Step others state next) {waiter : Nat}
    (waits : state.waiters[waiter]? ≠ some .returned)
    (returned : next.waiters[waiter]? = some .returned) :
    state.count = 0 ∧ ∃ woken, state.waiters[waiter]? = some (.registered woken) := by
  cases step with
  | request => exact absurd returned waits
  | byRemoval before after split step =>
    cases step with
    | wake =>
      simp only [List.getElem?_map, Option.map_eq_some_iff] at returned
      obtain ⟨other, found, woken⟩ := returned
      cases other with
      | returned => exact absurd found waits
      | _ => cases woken
    | _ => exact absurd returned waits
  | arrive =>
    rw [List.getElem?_append] at returned
    split at returned
    · exact absurd returned waits
    · cases List.mem_singleton.mp (List.mem_of_getElem? returned)
  | @byWaiter _ other other' before after split step =>
    rw [split, List.getElem?_append] at waits
    rw [split, List.getElem?_append]
    rw [List.getElem?_append] at returned
    by_cases front : waiter < before.length
    · rw [if_pos front] at waits returned
      exact absurd returned waits
    · rw [if_neg front] at waits returned ⊢
      cases place : waiter - before.length with
      | succ place' =>
        rw [place] at waits returned
        exact absurd returned waits
      | zero =>
        rw [place, List.getElem?_cons_zero] at returned
        obtain rfl := Option.some_inj.mp returned
        cases step with
        | leave idle => exact ⟨idle, _, rfl⟩

/-- Between two states of a run, a waiter who has returned meanwhile has seen a count of zero. -/
theorem Steps.exists_idle (steps : Steps events state last) {waiter : Nat}
    (waits : state.waiters[waiter]? ≠ some .returned)
    (returned : last.waiters[waiter]? = some .returned) :
    ∃ before after seen, events = before ++ after ∧ Steps before state seen ∧
      Steps after seen last ∧ seen.count = 0 ∧
      ∃ woken, seen.waiters[waiter]? = some (.registered woken) := by
  induction steps with
  | none => exact absurd returned waits
  | @next first rest state middle last step steps ih =>
    by_cases leaves : middle.waiters[waiter]? = some .returned
    · obtain ⟨idle, looks⟩ := step.idle_of_returns waits leaves
      exact ⟨[], first ++ rest, state, rfl, .none, .next step steps, idle, looks⟩
    · obtain ⟨before, after, seen, rfl, early, late, idle, looks⟩ := ih leaves returned
      exact ⟨first ++ before, after, seen, (List.append_assoc ..).symm, .next step early, late,
        idle, looks⟩

/-! ## The order that a sweeper keeps -/

/-- What holds of every state that a sweeper can reach, whatever is requested, whoever waits,
and whichever step happens next. -/
structure KeepsOrder (limit : UInt64) (disk : Disk) (events : List Event) (state : State) :
    Prop where
  /-- The count is that of the removals that were started and have not counted themselves off.
  One that a request is about to start is in it already. -/
  count : state.count = (state.removals.countP fun removal => removal.phase.isAtWork) +
    state.removals.countP fun removal => removal.phase = .counted
  /-- No removal counts itself off from zero. -/
  covered : ∀ removal ∈ state.removals, removal.phase = .tried → 0 < state.count
  width : (state.removals.countP fun removal => removal.phase.isRemoving) ≤ max 1 limit.toNat
  /-- Each path that was requested has been tried once or has yet to be tried. -/
  once : (tried events ++ state.removals.flatMap Removal.untried).Perm (requested events)
  /-- The disk and the notices come from the attempts alone. -/
  trace : attemptAll (tried events) disk = (state.disk, state.notices)
  /-- A path that could not be removed has made no difference to the others. -/
  unharmed : ∀ before path after fault, tried events = before ++ path :: after →
    (attemptAll before disk).1.removeFile path = .error fault →
    state.disk = (attemptAll (before ++ after) disk).1 ∧
      state.notices = (attemptAll before disk).2 ++
        (if fault = .notFound then [] else [.notRemoved path fault]) ++
        (attemptAll after (attemptAll before disk).1).2
  /-- As long as some removal is not over, one of them can take a step. -/
  goesOn : (∃ removal ∈ state.removals, removal.phase ≠ .over) →
    ∃ others next, Step others state next ∧ requested others = [] ∧ next.ahead < state.ahead
  /-- Every step of a removal brings the end closer, and only requests put it off. -/
  closer : ∀ others next, Step others state next → requested others = [] →
    next.removals = state.removals ∨ next.ahead < state.ahead
  /-- In the end each path that was requested has been tried once. -/
  finishes : ∃ others last, Steps others state last ∧ requested others = [] ∧
    (∀ removal ∈ last.removals, removal.phase = .over) ∧
    (tried (events ++ others)).Perm (requested events)
  /-- When all removals are over, nobody sleeps unwoken, and everybody can return. -/
  awake : (∀ removal ∈ state.removals, removal.phase = .over) →
    .asleep false ∉ state.waiters ∧
      ∀ waiter ∈ state.waiters, Relation.ReflTransGen (WaiterStep state.count) waiter .returned
  /-- Who waits now or comes later returns only after he has seen a count of zero, and
  everything requested until then had been tried. -/
  idle : ∀ later last (waiter : Nat), Steps later state last →
    state.waiters[waiter]? ≠ some .returned → last.waiters[waiter]? = some .returned →
    ∃ before after seen, later = before ++ after ∧ Steps before state seen ∧
      Steps after seen last ∧ seen.count = 0 ∧
      (∃ woken, seen.waiters[waiter]? = some (.registered woken)) ∧
      (tried (events ++ before)).Perm (requested events ++ requested before)

/-- A sweeper keeps its books exactly, never works beyond its limit, tries each path once, and
never leaves anybody waiting for nothing. -/
theorem Steps.keeps_order (steps : Steps events (.start limit disk) state) :
    KeepsOrder limit disk events state := by
  have books : Books limit disk events state := (books_start limit disk).steps steps
  have watched : state.IsWatched := State.IsWatched.steps (fun asleep => by cases asleep) steps
  refine
    { count := books.count.trans (countP_isPending _)
      covered := ?_
      width := books.permits ▸ Nat.le_add_left _ _
      once := books.once
      trace := books.disk
      unharmed := ?_
      goesOn := books.goesOn
      closer := fun _ _ step => step.closer
      finishes := ?_
      awake := fun ended => ⟨books.not_asleep watched ended, books.returns watched ended⟩
      idle := ?_ }
  · intro removal member tried
    rw [books.count, List.countP_pos_iff]
    exact ⟨removal, member, by rw [tried]; rfl⟩
  · intro before path after fault split refused
    have trace := books.disk
    rw [split] at trace
    obtain ⟨rest, noticed⟩ := attemptAll_of_error refused after
    rw [trace] at rest noticed
    exact ⟨rest, noticed⟩
  · obtain ⟨others, last, steps, quiet, ended⟩ := books.finishes
    have closed := books.steps steps
    have tried := closed.tried_of_idle (closed.idle_of_ended ended)
    rw [requested_append, quiet, List.append_nil] at tried
    exact ⟨others, last, steps, quiet, ended, tried⟩
  · intro later last waiter steps waits returned
    obtain ⟨before, after, seen, split, early, late, idle, looks⟩ :=
      steps.exists_idle waits returned
    have tried := (books.steps early).tried_of_idle idle
    rw [requested_append] at tried
    exact ⟨before, after, seen, split, early, late, idle, looks, tried⟩

/-- A path of the directory that is the top itself, which cannot be removed. -/
def topPath : DiskPath := .ofString "."

def filePath : DiskPath := .ofString "file"

def fileDisk : Disk :=
  (Disk.empty.write filePath 4 1).toOption.getD .empty

/-- With a limit of zero one removal after the other has its turn.  The first one fails, and
somebody who waits for both is woken by the second one. -/
theorem keeps_order_two_paths : ∃ events state,
    Steps events (.start 0 fileDisk) state ∧ KeepsOrder 0 fileDisk events state ∧
      requested events = [topPath, filePath] ∧ tried events = [topPath, filePath] ∧
      state.notices = [.notRemoved topPath .isDirectory] ∧
      fileDisk.node? [DiskPath.nameOf "file"] = some (.file 4 1) ∧
      state.disk.node? [DiskPath.nameOf "file"] = none ∧ state.waiters = [.returned] := by
  -- He looks while both removals are still to be started, and looks again after the second one.
  have steps : Steps _ (.start 0 fileDisk) _ := .next (.request topPath) <|
    .next (.request filePath) <| .next .arrive <| .next (.byWaiter [] [] rfl .register) <|
    .next (.byWaiter [] [] rfl (.sleep (by decide))) <|
    .next (.byRemoval [] [_] rfl .start) <| .next (.byRemoval [_] [] rfl .start) <|
    .next (.byRemoval [] [_] rfl (.acquire rfl)) <| .next (.byRemoval [] [_] rfl (.remove rfl)) <|
    .next (.byRemoval [_] [] rfl (.acquire rfl)) <| .next (.byRemoval [_] [] rfl (.remove rfl)) <|
    .next (.byRemoval [] [_] rfl .countOff) <| .next (.byRemoval [] [_] rfl .finish) <|
    .next (.byRemoval [_] [] rfl .countOff) <| .next (.byRemoval [_] [] rfl .wake) <|
    .next (.byWaiter [] [] rfl .again) <| .next (.byWaiter [] [] rfl .register) <|
    .next (.byWaiter [] [] rfl (.leave rfl)) .none
  exact ⟨_, _, steps, steps.keeps_order, rfl, rfl, by decide +kernel, by decide +kernel,
    by decide +kernel, rfl⟩

end ArtifactCache.Sweeper
