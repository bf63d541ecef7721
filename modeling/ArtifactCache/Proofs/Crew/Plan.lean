import ArtifactCache.Proofs.Crew.Promise
import Mathlib.Data.List.Flatten
import Mathlib.Data.List.Perm.Subperm

/-! # Jobs that go by a plan

The jobs of a crew change a state that all workers share, so what a job finds depends on what
the others have done by then.  A job goes by a plan if this does not matter: as long as the
others do only what their own plans say, each of its steps does what is planned for it.

The state is described by the effects that were brought about so far, in whatever order.  A
plan lists the effects and the outputs of a job, and the errors that it may fail with.  What
holds in the end is then independent of the schedule: either all plans were carried out and
none of them has an error, or the error is one of those planned and some deeds are missing.
-/

namespace ArtifactCache

variable {Item State Output Error Effect : Type}

/-! ## Plans -/

/-- Something that a job does and that others can see. -/
inductive Deed (Effect Output : Type) where
  | effect (effect : Effect)
  | output (output : Output)

def Deed.effect? : Deed Effect Output → Option Effect
  | .effect value => some value
  | .output _ => none

def Deed.output? : Deed Effect Output → Option Output
  | .effect _ => none
  | .output value => some value

def effects (deeds : List (Deed Effect Output)) : List Effect :=
  deeds.filterMap Deed.effect?

def outputs (deeds : List (Deed Effect Output)) : List Output :=
  deeds.filterMap Deed.output?

/-- What a job is going to do, in some order, and the errors of which one will stop it. -/
structure Plan (Effect Output Error : Type) where
  deeds : List (Deed Effect Output)
  fails : Error → Prop

def Plan.idle : Plan Effect Output Error where
  deeds := []
  fails _ := False

section Deeds

variable (first second : List (Deed Effect Output)) (effect : Effect) (output : Output)

@[simp]
theorem effects_nil : effects ([] : List (Deed Effect Output)) = [] := rfl

@[simp]
theorem effects_effect_cons : effects (.effect effect :: first) = effect :: effects first := rfl

@[simp]
theorem effects_output_cons : effects (.output output :: first) = effects first := rfl

@[simp]
theorem effects_append : effects (first ++ second) = effects first ++ effects second :=
  List.filterMap_append

@[simp]
theorem outputs_nil : outputs ([] : List (Deed Effect Output)) = [] := rfl

@[simp]
theorem outputs_effect_cons : outputs (.effect effect :: first) = outputs first := rfl

@[simp]
theorem outputs_output_cons : outputs (.output output :: first) = output :: outputs first := rfl

@[simp]
theorem outputs_append : outputs (first ++ second) = outputs first ++ outputs second :=
  List.filterMap_append

end Deeds

/-- Whether a job goes by a plan.  The state is only known by the effects that led to it, and
what is done already and what the job has still to do are parts of all deeds together. -/
inductive Job.Follows (total : List (Deed Effect Output)) (reached : List Effect → State → Prop)
    (fails : Error → Prop) : Job State Output Error → List (Deed Effect Output) → Prop
  | done (well : ∀ error, ¬ fails error) : Follows total reached fails .done []
  | emit {output rest deeds left} (order : deeds.Perm (.output output :: left))
      (follows : Follows total reached fails rest left) :
    Follows total reached fails (.emit output rest) deeds
  | effect {effect act rest deeds left} (order : deeds.Perm (.effect effect :: left))
      (acts : ∀ {done state}, (done ++ deeds).Subperm total → reached (effects done) state →
        ∃ after, act state = .ok after ∧ reached (effect :: effects done) after)
      (follows : Follows total reached fails rest left) :
    Follows total reached fails (.change act rest) deeds
  | quiet {act rest deeds} (acts : ∀ {done state}, (done ++ deeds).Subperm total →
        reached (effects done) state → ∃ after, act state = .ok after ∧
          reached (effects done) after)
      (follows : Follows total reached fails rest deeds) :
    Follows total reached fails (.change act rest) deeds
  | fail {error act rest deeds} (planned : fails error)
      (acts : ∀ {done state}, (done ++ deeds).Subperm total → reached (effects done) state →
        act state = .error error) :
    Follows total reached fails (.change act rest) deeds
  | look {next deeds} (follows : ∀ {done state}, (done ++ deeds).Subperm total →
        reached (effects done) state → Follows total reached fails (next state) deeds) :
    Follows total reached fails (.look next) deeds

namespace Crew

/-! ## The plans of a crew -/

section Planned

variable (total : List (Deed Effect Output)) (reached : List Effect → State → Prop)

def Worker.Follows : Worker Item State Output Error → Plan Effect Output Error → Prop
  | .working job, plan => job.Follows total reached plan.fails plan.deeds
  | _, plan => plan = .idle

/-- Whether what a crew has done is what its plans say, with the deeds that were done, the
plans that the workers still follow, and the deeds that were given up. -/
structure Planned (plan : Item → Plan Effect Output Error)
    (events : List (Event Item Output Error)) (floor : Floor Item State Output Error)
    (done : List (Deed Effect Output))
    (staff : List (Worker Item State Output Error × Plan Effect Output Error))
    (dropped : List (Deed Effect Output)) : Prop where
  reaches : reached (effects done) floor.hall.shared
  workers : floor.workers = staff.map Prod.fst
  follows : ∀ member ∈ staff, member.1.Follows total reached member.2
  deeds : ((started events).flatMap fun item => (plan item).deeds).Perm
    (done ++ (staff.flatMap fun member => member.2.deeds) ++ dropped)
  handed : (emitted events).Perm (outputs done)
  whole : failures events = [] → dropped = []
  genuine : ∀ error ∈ failures events, ∃ item ∈ started events, (plan item).fails error
  foreseen : ∀ member ∈ staff, ∀ error, member.2.fails error →
    ∃ item ∈ started events, (plan item).fails error
  unsettled : ∀ item ∈ started events, ∀ error, (plan item).fails error →
    failures events ≠ [] ∨ ∃ member ∈ staff, member.2.fails error

/-- What one step of a worker does, seen from its plan. -/
structure PlannedStep (plan : Item → Plan Effect Output Error)
    (events : List (Event Item Output Error)) (own own' : Plan Effect Output Error)
    (new dropped : List (Deed Effect Output)) : Prop where
  deeds : ((started events).flatMap (fun item => (plan item).deeds) ++ own.deeds).Perm
    (new ++ (own'.deeds ++ dropped))
  handed : emitted events = outputs new
  whole : failures events = [] → dropped = []
  genuine : ∀ error ∈ failures events, own.fails error
  foreseen : ∀ error, own'.fails error →
    own.fails error ∨ ∃ item ∈ started events, (plan item).fails error
  unsettled : ∀ error, (own.fails error ∨ ∃ item ∈ started events, (plan item).fails error) →
    failures events ≠ [] ∨ own'.fails error

end Planned

section Steps

variable {total : List (Deed Effect Output)} {reached : List Effect → State → Prop}
  {plan : Item → Plan Effect Output Error} {size : Nat}
  {work : Item → Job State Output Error} {items : List Item}
  {events others : List (Event Item Output Error)} {floor last : Floor Item State Output Error}
  {done : List (Deed Effect Output)}
  {staff : List (Worker Item State Output Error × Plan Effect Output Error)}
  {dropped : List (Deed Effect Output)}

/-- A step in which nothing of the plan is done. -/
theorem plannedStep_idle (own : Plan Effect Output Error) :
    PlannedStep plan ([] : List (Event Item Output Error)) own own [] [] where
  deeds := by simp [started]
  handed := rfl
  whole _ := rfl
  genuine _ member := by cases member
  foreseen _ fails := .inl fails
  unsettled error fails := by
    rcases fails with own | ⟨item, member, -⟩
    · exact .inr own
    · cases member

/-- A worker that follows its plan still does after its next step. -/
theorem follows_byWorker {worker next : Worker Item State Output Error}
    {hall after : Hall Item State Output Error} {own : Plan Effect Output Error}
    (works : ∀ item, worker = .holding item →
      (work item).Follows total reached (plan item).fails (plan item).deeds)
    (follows : worker.Follows total reached own) (reaches : reached (effects done) hall.shared)
    (part : (done ++ own.deeds).Subperm total)
    (step : WorkerStep size work others (worker, hall) (next, after)) :
    ∃ own' new dropped, next.Follows total reached own' ∧
      reached (effects (new ++ done)) after.shared ∧
      PlannedStep plan others own own' new dropped := by
  cases step with
  | @start _ item well =>
    obtain rfl : own = .idle := follows
    exact ⟨plan item, [], [], works item rfl, reaches, by
      simp [started, Event.item?, Plan.idle], rfl, fun _ => rfl,
      by simp [failures, Event.error?], fun error fails => .inr ⟨item, by simp [started,
        Event.item?], fails⟩, by simp [started, failures, Event.item?, Event.error?, Plan.idle]⟩
  | finish =>
    obtain ⟨deeds, fails⟩ := own
    cases follows with
    | done well =>
      refine ⟨.idle, [], [], rfl, reaches, ?_⟩
      obtain rfl : fails = fun _ => False := funext fun error => eq_false (well error)
      exact plannedStep_idle _
  | @emit _ output rest room =>
    obtain ⟨deeds, fails⟩ := own
    cases follows with
    | @emit _ _ _ left order follows =>
      refine ⟨⟨left, fails⟩, [.output output], [], follows, reaches, ?_, rfl, fun _ => rfl,
        by simp [failures, Event.error?], fun error may => .inl may, ?_⟩
      · simpa [started, List.filterMap_cons, Event.item?] using order
      · intro error fails
        simpa [started, failures, List.filterMap_cons, Event.item?, Event.error?] using fails
  | @change _ act rest state changed =>
    obtain ⟨deeds, fails⟩ := own
    cases follows with
    | @effect effect _ _ _ left order acts follows =>
      obtain ⟨reachedState, acted, reaches⟩ := acts part reaches
      obtain rfl : reachedState = state := Except.ok.inj (acted.symm.trans changed)
      refine ⟨⟨left, fails⟩, [.effect effect], [], follows, reaches, ?_, rfl, fun _ => rfl,
        by simp [failures], fun error may => .inl may, ?_⟩
      · simpa [started] using order
      · intro error fails
        simpa [started, failures] using fails
    | quiet acts follows =>
      obtain ⟨reachedState, acted, reaches⟩ := acts part reaches
      obtain rfl : reachedState = state := Except.ok.inj (acted.symm.trans changed)
      exact ⟨⟨deeds, fails⟩, [], [], follows, reaches, plannedStep_idle _⟩
    | fail planned acts =>
      have acted := acts part reaches
      rw [changed] at acted
      cases acted
  | @fail _ act rest error refused =>
    obtain ⟨deeds, fails⟩ := own
    cases follows with
    | effect order acts follows =>
      obtain ⟨state, acted, -⟩ := acts part reaches
      rw [refused] at acted
      cases acted
    | quiet acts follows =>
      obtain ⟨state, acted, -⟩ := acts part reaches
      rw [refused] at acted
      cases acted
    | fail planned acts =>
      obtain rfl := Except.error.inj ((acts part reaches).symm.trans refused)
      exact ⟨.idle, [], deeds, rfl, reaches, by simp [started, List.filterMap_cons, Event.item?,
        Plan.idle], rfl,
        by simp [failures, Event.error?], by simpa [failures, Event.error?] using planned,
        fun _ fails => fails.elim, by simp [failures, Event.error?]⟩
  | look =>
    obtain ⟨deeds, fails⟩ := own
    cases follows with
    | look follows =>
      exact ⟨⟨deeds, fails⟩, [], [], follows part reaches, reaches, plannedStep_idle _⟩
  | _ =>
    obtain rfl : own = .idle := follows
    exact ⟨.idle, [], [], rfl, reaches, plannedStep_idle _⟩

theorem subperm_flatMap {First Last : Type} {some all : List First} (part : some.Subperm all)
    (next : First → List Last) : (some.flatMap next).Subperm (all.flatMap next) := by
  obtain ⟨chosen, same, among⟩ := part
  exact (same.symm.flatMap_right next).subperm.trans (among.flatMap next).subperm

theorem Account.subperm_started (account : Account items events floor) :
    (started events).Subperm items := by
  obtain ⟨dropped, balance, -⟩ := account.conserved
  have part : (started events).Sublist (started events ++ floor.workers.flatMap Worker.held ++
      floor.hall.queue ++ floor.upcoming ++ dropped) := by
    simp only [List.append_assoc, List.sublist_append_left]
  exact part.subperm.trans balance.symm.subperm

/-- What is done already and what one of the workers has still to do are parts of the whole. -/
theorem Planned.subperm (planned : Planned total reached plan events floor done staff dropped)
    (known : (started events).Subperm items)
    (whole : total = items.flatMap fun item => (plan item).deeds)
    {member : Worker Item State Output Error × Plan Effect Output Error}
    (working : member ∈ staff) : (done ++ member.2.deeds).Subperm total := by
  have part : (done ++ member.2.deeds).Subperm
      (done ++ (staff.flatMap fun member => member.2.deeds) ++ dropped) := by
    obtain ⟨front, back, rfl⟩ := List.append_of_mem working
    rw [List.append_assoc, List.flatMap_append, List.flatMap_cons]
    refine List.Subperm.append (.refl _) (List.Sublist.subperm ?_)
    exact ((List.sublist_append_left _ _).trans (List.sublist_append_right _ _)).trans
      (List.sublist_append_left _ _)
  rw [whole]
  exact (part.trans planned.deeds.symm.subperm).trans (subperm_flatMap known _)

/-- A step of a worker that goes by its plan keeps the plans of all. -/
theorem Planned.byWorker {worker next : Worker Item State Output Error}
    {hall : Hall Item State Output Error} {own own' : Plan Effect Output Error}
    {front back : List (Worker Item State Output Error × Plan Effect Output Error)}
    {new gone : List (Deed Effect Output)}
    (planned : Planned total reached plan events floor done
      (front ++ (worker, own) :: back) dropped)
    (follows : next.Follows total reached own')
    (reaches : reached (effects (new ++ done)) hall.shared)
    (step : PlannedStep plan others own own' new gone) :
    Planned total reached plan (events ++ others)
      { floor with workers := front.map Prod.fst ++ next :: back.map Prod.fst, hall }
      (new ++ done) (front ++ (next, own') :: back) (gone ++ dropped) := by
  classical
  refine ⟨reaches, by simp, ?_, ?_, ?_, ?_, ?_, ?_, ?_⟩
  · intro member among
    rcases List.mem_append.mp among with before | rest
    · exact planned.follows member (List.mem_append_left _ before)
    · rcases List.mem_cons.mp rest with rfl | after
      · exact follows
      · exact planned.follows member (List.mem_append_right _ (List.mem_cons_of_mem _ after))
  · have total := planned.deeds
    have part := step.deeds
    simp only [List.perm_iff_count, List.flatMap_append, List.flatMap_cons, started_append,
      List.count_append] at total part ⊢
    intro deed
    have balance := total deed
    have change := part deed
    omega
  · rw [emitted_append, outputs_append, step.handed]
    exact (planned.handed.append_right _).trans List.perm_append_comm
  · intro well
    rw [failures_append, List.append_eq_nil_iff] at well
    rw [step.whole well.2, planned.whole well.1, List.append_nil]
  · intro error member
    rw [started_append]
    rw [failures_append] at member
    rcases List.mem_append.mp member with earlier | now
    · obtain ⟨item, among, fails⟩ := planned.genuine error earlier
      exact ⟨item, List.mem_append_left _ among, fails⟩
    · obtain ⟨item, among, fails⟩ :=
        planned.foreseen (worker, own) (by simp) error (step.genuine error now)
      exact ⟨item, List.mem_append_left _ among, fails⟩
  · intro member among error fails
    rw [started_append]
    have earlier : ∀ member ∈ front ++ (worker, own) :: back, member.2.fails error →
        ∃ item ∈ started events ++ started others, (plan item).fails error := by
      intro member among fails
      obtain ⟨item, among, fails⟩ := planned.foreseen member among error fails
      exact ⟨item, List.mem_append_left _ among, fails⟩
    rcases List.mem_append.mp among with before | rest
    · exact earlier member (List.mem_append_left _ before) fails
    · rcases List.mem_cons.mp rest with rfl | after
      · rcases step.foreseen error fails with own | ⟨item, among, fails⟩
        · exact earlier (worker, _) (by simp) own
        · exact ⟨item, List.mem_append_right _ among, fails⟩
      · exact earlier member (List.mem_append_right _ (List.mem_cons_of_mem _ after)) fails
  · intro item among error fails
    rw [failures_append]
    rw [started_append] at among
    -- A failure that the worker's plan has is now told, or its new plan still has it.
    have settle : (own.fails error ∨ ∃ item ∈ started others, (plan item).fails error) →
        failures events ++ failures others ≠ [] ∨
          ∃ member ∈ front ++ (next, own') :: back, member.2.fails error := by
      intro may
      rcases step.unsettled error may with told | fails
      · exact .inl (List.append_ne_nil_of_right_ne_nil _ told)
      · exact .inr ⟨(next, own'), by simp, fails⟩
    rcases List.mem_append.mp among with earlier | now
    · rcases planned.unsettled item earlier error fails with told | ⟨member, among, fails⟩
      · exact .inl (List.append_ne_nil_of_left_ne_nil told _)
      · rcases List.mem_append.mp among with before | rest
        · exact .inr ⟨member, List.mem_append_left _ before, fails⟩
        · rcases List.mem_cons.mp rest with rfl | after
          · exact settle (.inl fails)
          · exact .inr ⟨member, List.mem_append_right _ (List.mem_cons_of_mem _ after), fails⟩
    · exact settle (.inr ⟨item, now, fails⟩)

theorem Planned.step (account : Account items events floor)
    (whole : total = items.flatMap fun item => (plan item).deeds)
    (works : ∀ item ∈ items, (work item).Follows total reached (plan item).fails (plan item).deeds)
    (planned : Planned total reached plan events floor done staff dropped)
    (step : Step size work others floor last) :
    ∃ done staff dropped,
      Planned total reached plan (events ++ others) last done staff dropped := by
  cases step with
  | @byWorker _ _ worker next hall before after split step =>
    have named := planned.workers
    rw [split, eq_comm, List.map_eq_append_iff] at named
    obtain ⟨front, rest, rfl, rfl, named⟩ := named
    obtain ⟨⟨same, own⟩, back, rfl, rfl, rfl⟩ := List.map_eq_cons_iff.mp named
    have part : (done ++ own.deeds).Subperm total :=
      planned.subperm account.subperm_started whole (List.mem_append_right _ List.mem_cons_self)
    have held : ∀ item, same = .holding item →
        (work item).Follows total reached (plan item).fails (plan item).deeds := by
      rintro item rfl
      obtain ⟨lost, balance, -⟩ := account.conserved
      apply works
      rw [balance.mem_iff, split]
      simp [Worker.held]
    obtain ⟨own', new, gone, follows, reaches, own⟩ :=
      follows_byWorker held (planned.follows (same, own) (by simp)) planned.reaches part step
    exact ⟨_, _, _, planned.byWorker follows reaches own⟩
  | _ =>
    rw [List.append_nil]
    exact ⟨done, staff, dropped, { planned with }⟩

theorem Planned.steps (positive : 0 < size) (account : Account items events floor)
    (whole : total = items.flatMap fun item => (plan item).deeds)
    (works : ∀ item ∈ items, (work item).Follows total reached (plan item).fails (plan item).deeds)
    (planned : Planned total reached plan events floor done staff dropped)
    (steps : Steps size work others floor last) :
    ∃ done staff dropped,
      Planned total reached plan (events ++ others) last done staff dropped := by
  induction steps generalizing events done staff dropped with
  | none =>
    rw [List.append_nil]
    exact ⟨done, staff, dropped, planned⟩
  | next step _ ih =>
    rw [← List.append_assoc]
    obtain ⟨done, staff, dropped, planned⟩ := planned.step account whole works step
    exact ih (account.step positive step) planned

theorem planned_start (size : Nat) (items : List Item) {shared : State}
    (reaches : reached [] shared) :
    Planned total reached plan [] (.start size items shared) []
      (List.replicate size (.waiting, .idle)) [] where
  reaches := reaches
  workers := by simp [Floor.start]
  follows member among := by
    rw [List.eq_of_mem_replicate among]
    rfl
  deeds := by
    have none : (List.replicate size
        ((.waiting, .idle) : Worker Item State Output Error × Plan Effect Output Error)).flatMap
          (fun member => member.2.deeds) = [] := by
      rw [List.flatMap_eq_nil_iff]
      intro member among
      rw [List.eq_of_mem_replicate among]
      rfl
    rw [none]
    exact .refl _
  handed := .refl _
  whole _ := rfl
  genuine _ member := by cases member
  foreseen member among error fails := by
    rw [List.eq_of_mem_replicate among] at fails
    exact fails.elim
  unsettled _ member := by cases member

/-- What a crew does whose jobs all go by plans.  Some of the planned deeds were done, in
whatever order, and the state shows it.  If the crew gives outputs then no plan has an error
and all deeds were done; if it gives an error then one of the plans has it. -/
theorem Possible.planned {workers : Nat} {items : List Item} {shared : State}
    {report : Report State Output Error} (reaches : reached [] shared)
    (works : ∀ item ∈ items, (work item).Follows (items.flatMap fun item => (plan item).deeds)
      reached (plan item).fails (plan item).deeds)
    (possible : Possible workers work items shared report) :
    ∃ done : List (Deed Effect Output), reached (effects done) report.state ∧
      done.Subperm (items.flatMap fun item => (plan item).deeds) ∧
      match report.outcome with
      | .ok given => (∀ item ∈ items, ∀ error, ¬ (plan item).fails error) ∧
          done.Perm (items.flatMap fun item => (plan item).deeds) ∧ given.Perm (outputs done)
      | .error error => ∃ item ∈ items, (plan item).fails error := by
  obtain ⟨floor, ⟨events, steps⟩, finished, same⟩ := possible
  have start : Account items ([] : List (Event Item Output Error))
      (.start (size workers) items shared) := account_start (size_pos workers) items shared
  have account := start.steps (size_pos workers) steps
  obtain ⟨done, staff, dropped, planned⟩ :=
    (planned_start (size workers) items reaches).steps (size_pos workers) start rfl works steps
  rw [List.nil_append] at account planned
  -- The workers have gone, and nothing is left of their plans.
  have idle : ∀ member ∈ staff, member.2 = .idle := by
    intro member among
    have gone : member.1 = .gone := by
      apply (account.settled _ finished).1
      rw [planned.workers]
      exact List.mem_map_of_mem among
    have follows := planned.follows member among
    rwa [gone] at follows
  have rest : (staff.flatMap fun member => member.2.deeds) = [] := by
    rw [List.flatMap_eq_nil_iff]
    intro member among
    rw [idle member among]
    rfl
  have deeds := planned.deeds
  rw [rest, List.append_nil] at deeds
  refine ⟨done, same ▸ planned.reaches, ?_, ?_⟩
  · exact (List.sublist_append_left _ _).subperm.trans
      (deeds.symm.subperm.trans (subperm_flatMap account.subperm_started _))
  · have verdict := account.finished finished
    cases outcome : report.outcome with
    | error error =>
      rw [outcome] at verdict
      obtain ⟨item, member, fails⟩ := planned.genuine error verdict
      exact ⟨item, account.subperm_started.subset member, fails⟩
    | ok given =>
      rw [outcome] at verdict
      obtain ⟨well, all, every⟩ := verdict
      rw [planned.whole well, List.append_nil] at deeds
      refine ⟨fun item member error fails => ?_, ?_, ?_⟩
      · rcases planned.unsettled item (all.mem_iff.mpr member) error fails with told | ⟨worker,
          among, fails⟩
        · exact told well
        · rw [idle worker among] at fails
          exact fails
      · exact deeds.symm.trans (all.flatMap_right _)
      · exact every.symm.trans planned.handed

end Steps

end Crew

end ArtifactCache
