import ArtifactCache.Proofs.Crew.Plan
import ArtifactCache.Proofs.Upgrade.OldFiles

/-! # The tasks of an upgrade go by their plans

What a node in a former directory calls for can be told before the crew starts: the moves of
the old files in it, or that it is skipped, and the failures of which one will stop the task.
No task disturbs another one, because the moves of the others neither touch its files nor
take their places, and leave its directory as it is.
-/

namespace ArtifactCache.Upgrade

open DiskPath

/-! ## What is planned -/

/-- Refuse a move with a path that no disk can hold. -/
def checkPaths (source target : DiskPath) : Except Fault Unit := do
  source.checkForm
  target.checkForm

/-- Whether a move is refused with a failure, because the system does not take its paths. -/
def RefusesMove (source target : DiskPath) (failure : Failure) : Prop :=
  ∃ fault, checkPaths source target = .error fault ∧
    failure = .upgrade source "rename into current layout" (some fault)

/-- Whether a node in an old shard is refused with a failure: nothing but old files belongs
there. -/
def RefusesEntry (root : DiskPath) (kind : Kind) (directory : DiskPath) :
    Name × Node → Failure → Prop
  | (name, node), failure =>
    match digest? name, node with
    | some digest, .file _ _ =>
      RefusesMove (directory.child name) (target root kind digest (tokenInShard kind)) failure
    | _, _ =>
      failure = .upgrade (directory.child name) "unexpected entry in legacy shard" none

def RefusesShard (disk : Disk) (root : DiskPath) (top : Location) (kind : Kind) (name : Name)
    (failure : Failure) : Prop :=
  (∃ fault, ((oldDirectory root kind).child name).checkForm = .error fault ∧
    failure = .upgrade ((oldDirectory root kind).child name) "read legacy shard" (some fault)) ∨
  ∃ entry ∈ disk.entries (oldPlace top kind ++ [name]),
    RefusesEntry root kind ((oldDirectory root kind).child name) entry failure

def deedsOf (moves : List Move) : List (Deed Move Fate) :=
  moves.flatMap fun move => [.effect move, .output .moved]

def skipPlan : Plan Move Fate Failure where
  deeds := [.output .skipped]
  fails _ := False

/-- The plan for a node directly inside the former directory. -/
def planOf (disk : Disk) (root : DiskPath) (top : Location) (kind : Kind) :
    Name × Node → Plan Move Fate Failure
  | (name, .directory) =>
    { deeds := deedsOf (movesOf disk top kind (name, .directory))
      fails := RefusesShard disk root top kind name }
  | (name, .file size accessed) =>
    match digest? name with
    | some digest =>
      { deeds := deedsOf (movesOf disk top kind (name, .file size accessed))
        fails := RefusesMove ((oldDirectory root kind).child name)
          (target root kind digest flatToken) }
    | none => skipPlan
  | (_, .link _) | (_, .pipe) => skipPlan

theorem effects_deedsOf (moves : List Move) : effects (deedsOf moves) = moves := by
  induction moves with
  | nil => rfl
  | cons move moves ih => exact congrArg (List.cons move) ih

theorem outputs_deedsOf (moves : List Move) :
    outputs (deedsOf moves) = List.replicate moves.length .moved := by
  induction moves with
  | nil => rfl
  | cons move moves ih => exact congrArg (List.cons Fate.moved) ih

/-! ## The tasks -/

/-- Whether a scene came about by moves. -/
def Reached (disk : Disk) (moves : List Move) (scene : Scene) : Prop :=
  disk.HasMoved moves scene.disk

section Tasks

variable {disk : Disk} {root : DiskPath} {top : Location} {kind : Kind} {name : Name}
  {source names : List Name} {rest : Task} {total deeds left : List (Deed Move Fate)}
  {fails : Failure → Prop}

theorem effects_subperm {some all : List (Deed Move Fate)} (part : some.Subperm all) :
    (effects some).Subperm (effects all) := by
  obtain ⟨chosen, same, among⟩ := part
  exact ⟨effects chosen, same.filterMap _, among.filterMap _⟩

/-- What the tasks of a former directory rely on while they work. -/
structure Grounds (disk : Disk) (root : DiskPath) (top : Location) (kind : Kind)
    (total : List (Deed Move Fate)) : Prop where
  leads : disk.LeadsTo root top
  shards : ∀ location ∈ shardLocations top, disk.node? location = some .directory
  can : disk.CanMove (effects total)
  known : ∀ move ∈ effects total, ∃ source target, IsOldFile disk top kind source target ∧
    move = { source := top ++ source, target := top ++ target }

/-- A move that is still to be made finds everything as it was before the first one. -/
theorem Grounds.moveFile (grounds : Grounds disk root top kind total)
    (old : IsOldFile disk top kind source names)
    (order : deeds.Perm (.effect { source := top ++ source, target := top ++ names } ::
      .output .moved :: left))
    {done : List (Deed Move Fate)} {scene : Scene} (part : (done ++ deeds).Subperm total)
    (reached : Reached disk (effects done) scene) :
    ∃ after, scene.disk.moveFile (root.below source) (root.below names) =
        (checkPaths (root.below source) (root.below names)).map (fun _ => after) ∧
      disk.HasMoved ({ source := top ++ source, target := top ++ names } :: effects done)
        after := by
  have own : disk.CanMove ({ source := top ++ source, target := top ++ names } ::
      effects done) := by
    apply grounds.can.subperm
    refine List.Subperm.trans ?_ (effects_subperm part)
    have ordered : (effects deeds).Perm
        ({ source := top ++ source, target := top ++ names } :: effects left) :=
      order.filterMap _
    rw [effects_append]
    have whole := (ordered.append_left (effects done)).trans List.perm_middle
    exact (List.Sublist.subperm (List.sublist_append_left _ _)).trans whole.symm.subperm
  have earlier : disk.CanMove (effects done) := own.subperm (List.sublist_cons_self _ _).subperm
  have frames := reached.frames earlier
  obtain ⟨same, free⟩ := reached.next own
  obtain ⟨size, accessed, found⟩ := old.held
  obtain ⟨digest, name, plainName, target_eq⟩ := old.moves.exists_target
  have shard : scene.disk.node? (top ++ [kind.directoryName, nameOf digest.shard]) =
      some .directory := by
    apply frames _ _ (grounds.shards _ ?_) rfl
    exact mem_shardLocations.mpr ⟨kind, _, Shard.shard_mem_names digest, rfl⟩
  obtain ⟨after, moved, nodes⟩ := (grounds.leads.of_frames frames).moveFile_below
    old.moves.source_ne_nil (same.trans found) (by simp) shard plainName target_eq free
  refine ⟨after, ?_, reached.cons own fun other => ?_⟩
  · rw [moved, checkPaths]
    cases (root.below source).checkForm <;>
      cases (root.below names).checkForm <;> rfl
  · rw [nodes other, found]

/-- A task that moves an old file and then goes by its plan goes by its plan. -/
theorem follows_moving (grounds : Grounds disk root top kind total)
    (old : IsOldFile disk top kind source names)
    (order : deeds.Perm (.effect { source := top ++ source, target := top ++ names } ::
      .output .moved :: left))
    (refused : ∀ failure, RefusesMove (root.below source) (root.below names) failure →
      fails failure)
    (follows : (∀ failure, ¬ RefusesMove (root.below source) (root.below names) failure) →
      rest.Follows total (Reached disk) fails left) :
    (moving (root.below source) (root.below names) rest).Follows total (Reached disk) fails
      deeds := by
  cases form : checkPaths (root.below source) (root.below names) with
  | error fault =>
    refine .fail (refused _ ⟨fault, form, rfl⟩) fun {done scene} part reached => ?_
    obtain ⟨after, moved, -⟩ := grounds.moveFile old order part reached
    rw [form] at moved
    simp only [moved, Except.map]
  | ok _ =>
    refine .effect order (fun {done scene} part reached => ?_) (.emit (.refl _) (follows ?_))
    · obtain ⟨after, moved, hasMoved⟩ := grounds.moveFile old order part reached
      rw [form] at moved
      exact ⟨{ scene with disk := after }, by simp only [moved, Except.map], hasMoved⟩
    · rintro failure ⟨fault, refusal, -⟩
      rw [form] at refusal
      cases refusal

theorem follows_taskInShard (grounds : Grounds disk root top kind total)
    (nodes : List (Name × Node))
    (held : ∀ entry ∈ nodes, disk.node? (oldPlace top kind ++ [name] ++ [entry.1]) = some entry.2)
    (order : deeds.Perm (deedsOf (nodes.filterMap
      (moveIn top kind [nameOf kind.formerDirectory, name] (tokenInShard kind)))))
    (refused : ∀ entry ∈ nodes, ∀ failure,
      RefusesEntry root kind ((oldDirectory root kind).child name) entry failure → fails failure)
    (complete : ∀ failure, fails failure → ∃ entry ∈ nodes,
      RefusesEntry root kind ((oldDirectory root kind).child name) entry failure) :
    (taskInShard root kind ((oldDirectory root kind).child name) nodes).Follows total
      (Reached disk) fails deeds := by
  induction nodes generalizing deeds with
  | nil =>
    obtain rfl := List.perm_nil.mp order
    refine .done fun failure fails => ?_
    obtain ⟨entry, member, -⟩ := complete failure fails
    cases member
  | cons entry nodes ih =>
    obtain ⟨other, node⟩ := entry
    obtain ⟨first, others⟩ := List.forall_mem_cons.mp held
    obtain ⟨refusedFirst, refusedOthers⟩ := List.forall_mem_cons.mp refused
    unfold taskInShard
    dsimp only
    split
    · rename_i digest size accessed named
      have moves : moveIn top kind [nameOf kind.formerDirectory, name] (tokenInShard kind)
          (other, .file size accessed) = some
            { source := top ++ [nameOf kind.formerDirectory, name, other]
              target := top ++ newNames kind digest (tokenInShard kind) } := by
        rw [moveIn, named]
        rfl
      have old : IsOldFile disk top kind [nameOf kind.formerDirectory, name, other]
          (newNames kind digest (tokenInShard kind)) := by
        rw [digest?_eq_some_iff.mp named, List.append_assoc] at first
        rw [digest?_eq_some_iff.mp named]
        exact isOldFile_sharded first
      have same : ∀ failure, RefusesEntry root kind ((oldDirectory root kind).child name)
          (other, .file size accessed) failure ↔
            RefusesMove (root.below [nameOf kind.formerDirectory, name, other])
              (root.below (newNames kind digest (tokenInShard kind))) failure := by
        intro failure
        simp only [RefusesEntry, named, target_eq_below]
        rfl
      rw [target_eq_below]
      rw [List.filterMap_cons_some moves] at order
      refine follows_moving grounds old order ?_ fun well => ?_
      · exact fun failure refusal => refusedFirst failure ((same failure).mpr refusal)
      · apply ih others (.refl _) refusedOthers
        intro failure fails
        obtain ⟨entry, member, refusal⟩ := complete failure fails
        rcases List.mem_cons.mp member with rfl | later
        · exact absurd ((same failure).mp refusal) (well failure)
        · exact ⟨entry, later, refusal⟩
    · rename_i odd
      refine .fail (refusedFirst _ ?_) fun _ _ => rfl
      unfold RefusesEntry
      dsimp only
      split
      · rename_i digest size accessed named
        exact absurd rfl (odd digest size accessed named)
      · rfl

theorem Grounds.perm_entries (grounds : Grounds disk root top kind total)
    (held : disk.node? (oldPlace top kind ++ [name]) = some .directory)
    {done : List (Deed Move Fate)} {scene : Scene}
    (part : (done ++ deedsOf (movesOf disk top kind (name, .directory))).Subperm total)
    (reached : Reached disk (effects done) scene) :
    (scene.disk.entries (oldPlace top kind ++ [name])).Perm
      (disk.entries (oldPlace top kind ++ [name])) := by
  have part := effects_subperm part
  rw [effects_append, effects_deedsOf] at part
  have apart := (grounds.can.subperm part).sources
  rw [List.map_append, List.nodup_append] at apart
  refine Disk.perm_entries fun other => reached.kept _ fun move member => ?_
  obtain ⟨source, target, old, rfl⟩ :=
    grounds.known move (part.subset (List.mem_append_left _ member))
  constructor
  · intro same
    have source_eq : source = [nameOf kind.formerDirectory, name, other] := by
      simpa [oldPlace] using same.symm
    subst source_eq
    have own := (mem_movesOf held).mpr ⟨[other], target, old, rfl⟩
    exact apart.2.2 _ (List.mem_map_of_mem member) _ (List.mem_map_of_mem own) rfl
  · intro same
    obtain ⟨digest, newName, -, rfl⟩ := old.moves.exists_target
    simp only [oldPlace, List.append_assoc, List.cons_append, List.nil_append,
      List.append_cancel_left_eq, List.cons.injEq] at same
    exact ne_formerName kind kind same.1.symm

theorem follows_taskOfShard (host : Host) (grounds : Grounds disk root top kind total)
    (held : disk.node? (oldPlace top kind ++ [name]) = some .directory) :
    (taskOfShard host root kind ((oldDirectory root kind).child name)).Follows total
      (Reached disk) (RefusesShard disk root top kind name)
      (deedsOf (movesOf disk top kind (name, .directory))) := by
  refine .look fun {done scene} part reached => ?_
  have frames := reached.frames (grounds.can.subperm
    (effects_subperm ((List.sublist_append_left _ _).subperm.trans part)))
  have place : top ++ [nameOf kind.formerDirectory, name] = oldPlace top kind ++ [name] := by
    simp [oldPlace]
  have listed := (grounds.leads.of_frames frames).list_below
    (place ▸ frames _ _ held rfl)
  have path : root.below [nameOf kind.formerDirectory, name] =
      (oldDirectory root kind).child name := rfl
  rw [path, place] at listed
  rw [Host.list, listed]
  cases form : ((oldDirectory root kind).child name).checkForm with
  | error fault => exact .fail (.inl ⟨fault, form, rfl⟩) fun _ _ => rfl
  | ok _ =>
    have same := ((host.perm_arrange ((oldDirectory root kind).child name)
      (scene.disk.entries (oldPlace top kind ++ [name])))).trans
        (grounds.perm_entries held part reached)
    refine follows_taskInShard grounds _ ?_ ?_ ?_ ?_
    · rintro ⟨other, node⟩ member
      exact Disk.mem_entries.mp (same.mem_iff.mp member)
    · exact ((same.filterMap _).flatMap_right _).symm
    · intro entry member failure refusal
      exact .inr ⟨entry, same.mem_iff.mp member, refusal⟩
    · rintro failure (⟨fault, refused, -⟩ | ⟨entry, member, refusal⟩)
      · rw [form] at refused
        cases refused
      · exact ⟨entry, same.mem_iff.mpr member, refusal⟩

theorem follows_skipping (notice : Notice) :
    (skipping notice).Follows total (Reached disk) skipPlan.fails skipPlan.deeds :=
  .quiet (fun _ reached => ⟨_, rfl, reached⟩) (.emit (.refl _) (.done fun _ fails => fails))

/-- The task of a node directly inside a former directory goes by the plan for the node. -/
theorem follows_task (host : Host) (grounds : Grounds disk root top kind total) {node : Node}
    (held : disk.node? (oldPlace top kind ++ [name]) = some node) :
    (task host root kind (oldDirectory root kind) (name, node)).Follows total (Reached disk)
      (planOf disk root top kind (name, node)).fails
      (planOf disk root top kind (name, node)).deeds := by
  cases node with
  | directory =>
    have rest := follows_taskOfShard host grounds held
    simp only [task, planOf]
    split
    · exact rest
    · exact .quiet (fun _ reached => ⟨_, rfl, reached⟩) rest
  | file size accessed =>
    simp only [task, planOf]
    cases named : digest? name with
    | none => exact follows_skipping _
    | some digest =>
      obtain rfl := digest?_eq_some_iff.mp named
      have moves : movesOf disk top kind (nameOf digest.text, .file size accessed) =
          [{ source := top ++ [nameOf kind.formerDirectory, nameOf digest.text]
             target := top ++ newNames kind digest flatToken }] := by
        rw [movesOf_of_plain (by simp), moveIn, named]
        rfl
      dsimp only
      rw [moves, target_eq_below]
      exact follows_moving grounds (isOldFile_flat held) (.refl _) (fun _ refusal => refusal) .done
  | link target => exact follows_skipping _
  | pipe => exact follows_skipping _

end Tasks

end ArtifactCache.Upgrade
