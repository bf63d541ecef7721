import ArtifactCache.Proofs.Upgrade.Stopped

/-! # Resuming an upgrade

Without the unexpected nodes an upgrade that was stopped can be run again, and leads to the
same disk from any point at which it was stopped.
-/

namespace ArtifactCache.Upgrade

open DiskPath

variable {disk after first second frame : Disk} {root : DiskPath} {top : Location}
  {kind other : Kind} {before later kinds : List Kind} {source target : List Name}

/-! ## Resuming -/

/-- Where the upgrade of some kinds leads is the same for all schedules. -/
theorem IsUpgraded.unique (upgraded : IsUpgraded disk top kinds first)
    (upgraded' : IsUpgraded disk top kinds second) : first = second := by
  apply Disk.ext_node?
  intro location
  by_cases below : ∃ kind ∈ kinds, oldPlace top kind <+: location
  · obtain ⟨kind, member, names, rfl⟩ := below
    rw [upgraded.gone kind member, upgraded'.gone kind member]
  · by_cases arrived : ∃ kind ∈ kinds, ∃ source target,
        IsOldFile disk top kind source target ∧ location = top ++ target
    · obtain ⟨kind, member, source, target, old, rfl⟩ := arrived
      rw [upgraded.moved kind member old, upgraded'.moved kind member old]
    · have elsewhere : ∀ kind ∈ kinds, ¬ oldPlace top kind <+: location ∧
          ∀ source target, IsOldFile disk top kind source target → location ≠ top ++ target := by
        intro kind member
        refine ⟨fun above => below ⟨kind, member, above⟩, fun source target old same => ?_⟩
        exact arrived ⟨kind, member, source, target, old, same⟩
      rw [upgraded.kept location elsewhere, upgraded'.kept location elsewhere]

theorem IsStopped.not_mem_of_cleared (stopped : IsStopped disk top before kind after)
    {names : List Name} {node : Node}
    (found : (cleared after top).node? (oldPlace top other ++ names) = some node) :
    disk.node? (oldPlace top other ++ names) = some node := by
  have held := node?_of_cleared found
  apply stopped.node?_old _ held
  intro member
  rw [stopped.gone other member] at held
  cases held

theorem IsStopped.upgradable_cleared (stopped : IsStopped disk top before kind after)
    (upgradable : IsUpgradable disk root top) (stands : StandsApart frame disk root top) :
    IsUpgradable (cleared after top) root top ∧ StandsApart frame (cleared after top) root top := by
  have room := upgradable.room
  have stands' : StandsApart frame (cleared after top) root top := by
    refine ⟨stands.stands, stands.apart, fun location node framed plain => ?_⟩
    have found := stands.frames location node framed plain
    have apart : ∀ kind, ¬ oldPlace top kind <+: location := by
      rintro kind ⟨names, rfl⟩
      rw [stands.apart] at framed
      cases framed
    have notTarget : ∀ {kind source target}, IsOldFile disk top kind source target →
        location ≠ top ++ target := by
      rintro kind source target old rfl
      rw [(room kind).free old] at found
      cases found
    rw [node?_cleared_of_other apart, stopped.kept, found]
    · exact fun earlier _ => ⟨apart earlier, fun source target => notTarget⟩
    · intro source target old
      refine ⟨?_, notTarget old⟩
      rintro rfl
      exact apart kind (old.moves.oldPlace_prefix top)
  have former' : ∀ other, (cleared after top).node? (oldPlace top other) = none ∨
      (cleared after top).node? (oldPlace top other) = some .directory := by
    intro other
    cases found : (cleared after top).node? (oldPlace top other) with
    | none => exact .inl rfl
    | some node =>
      rw [← List.append_nil (oldPlace top other)] at found
      have held := stopped.not_mem_of_cleared found
      rw [List.append_nil] at held
      rcases upgradable.former other with missing | directory
      · rw [missing] at held
        cases held
      · exact .inr (held ▸ directory)
  have room' : ∀ other, HasRoom (cleared after top) top other := by
    intro other
    constructor
    · intro source target old
      rw [node?_cleared_of_other fun kind => old.moves.not_prefix top kind]
      exact (stopped.of_isOldFile room (isOldFile_cleared_iff.mp old)).2.2
    · intro source source' target old old'
      exact (room other).distinct (stopped.of_isOldFile room (isOldFile_cleared_iff.mp old)).1
        (stopped.of_isOldFile room (isOldFile_cleared_iff.mp old')).1
  exact ⟨⟨stands'.now, former', room'⟩, stands'⟩

/-- A stopped upgrade can be resumed once the unexpected nodes are gone, and leads where it would
have led. -/
theorem IsStopped.exists_resumed (stopped : IsStopped disk top before kind after)
    (host : Host) (workers : Nat) (upgradable : IsUpgradable disk root top)
    (stands : StandsApart frame disk root top) (accepts : ∀ kind, AcceptsPaths disk root top kind) :
    ∃ summary last, upgrade host workers root (cleared after top) = (.ok summary, last) ∧
      IsUpgraded disk top Kind.all last.disk := by
  have accepts' : ∀ other, AcceptsPaths (cleared after top) root top other := by
    intro other
    refine ⟨(accepts other).former, fun {name} held => ?_, fun {source target} old => ?_⟩
    · exact (accepts other).shards (stopped.not_mem_of_cleared held)
    · have still := isOldFile_cleared_iff.mp old
      exact (accepts other).files (stopped.of_isOldFile upgradable.room still).1
  obtain ⟨upgradable', stands'⟩ := stopped.upgradable_cleared upgradable stands
  obtain ⟨summary, last, result, upgraded⟩ := exists_upgrade_of_usable host workers upgradable'
    stands' fun other => ⟨isClean_cleared after top other, accepts' other⟩
  exact ⟨summary, last, result, stopped.upgraded upgradable.room upgraded⟩

/-! ## The order of the kinds -/

theorem mem_before_iff (order : Kind.all = before ++ kind :: later) :
    other ∈ before ↔ other.rank < kind.rank := by
  have ranks : (before ++ kind :: later).Pairwise fun first second =>
      first.rank < second.rank := order ▸ by decide
  obtain ⟨-, behind, apart⟩ := List.pairwise_append.mp ranks
  constructor
  · exact fun member => apart _ member _ List.mem_cons_self
  · intro earlier
    have member : other ∈ before ++ kind :: later := order ▸ other.mem_all
    rcases List.mem_append.mp member with inBefore | rest
    · exact inBefore
    · rcases List.mem_cons.mp rest with rfl | later
      · exact absurd earlier (Nat.lt_irrefl _)
      · have after := (List.pairwise_cons.mp behind).1 other later
        omega

theorem mem_later_iff (order : Kind.all = before ++ kind :: later) :
    other ∈ later ↔ kind.rank < other.rank := by
  have ranks : (before ++ kind :: later).Pairwise fun first second =>
      first.rank < second.rank := order ▸ by decide
  obtain ⟨-, behind, -⟩ := List.pairwise_append.mp ranks
  constructor
  · exact fun member => (List.pairwise_cons.mp behind).1 other member
  · intro after
    have member : other ∈ before ++ kind :: later := order ▸ other.mem_all
    rcases List.mem_append.mp member with inBefore | rest
    · have earlier := (mem_before_iff order).mp inBefore
      omega
    · rcases List.mem_cons.mp rest with rfl | inLater
      · exact absurd after (Nat.lt_irrefl _)
      · exact inLater

/-! ## Why an upgrade is stopped -/

theorem not_acceptsPaths_of_refusesMove {failure : Failure}
    (old : IsOldFile disk top kind source target)
    (refused : RefusesMove (root.below source) (root.below target) failure) :
    ¬ AcceptsPaths disk root top kind ∧
      ∃ path reason fault, failure = .upgrade path reason (some fault) := by
  obtain ⟨fault, refused, rfl⟩ := refused
  refine ⟨fun accepts => ?_, _, _, _, rfl⟩
  rw [checkPaths_eq_ok_iff.mpr (accepts.files old)] at refused
  cases refused

theorem eq_of_refusesEntry {directory : DiskPath} {name : Name} {node : Node} {failure : Failure}
    (odd : isExpected (name, node) = false)
    (refused : RefusesEntry root kind directory (name, node) failure) :
    failure = .upgrade (directory.child name) "unexpected entry in legacy shard" none := by
  cases node with
  | file size accessed =>
    simp only [isExpected, Option.isSome_eq_false_iff, Option.isNone_iff_eq_none] at odd
    simpa only [RefusesEntry, odd] using refused
  | _ =>
    cases named : digest? name <;> simpa only [RefusesEntry, named] using refused

/-- Whether a failure names an unexpected node in an old shard. -/
def NamesUnexpected (disk : Disk) (root : DiskPath) (top : Location) (kind : Kind)
    (failure : Failure) : Prop :=
  ∃ shard name node, disk.node? (oldPlace top kind ++ [shard, name]) = some node ∧
    isExpected (name, node) = false ∧
      failure = .upgrade (((oldDirectory root kind).child shard).child name)
        "unexpected entry in legacy shard" none

/-- The upgrade of a kind is stopped by an unexpected node or by a path that the system does not
take. -/
theorem Fails.reason_cases {failure : Failure} (fails : Fails disk root top kind failure after) :
    NamesUnexpected disk root top kind failure ∨
      ¬ AcceptsPaths disk root top kind ∧
        ∃ path reason fault, failure = .upgrade path reason (some fault) := by
  rcases fails.reason with ⟨fault, refused, rfl⟩ | ⟨⟨shard, node⟩, member, refusal⟩
  · refine .inr ⟨fun accepts => ?_, _, _, _, rfl⟩
    rw [accepts.former] at refused
    cases refused
  · have held := Disk.mem_entries.mp member
    cases node with
    | directory =>
      rcases refusal with ⟨fault, refused, rfl⟩ | ⟨⟨name, node⟩, entry, refused⟩
      · refine .inr ⟨fun accepts => ?_, _, _, _, rfl⟩
        rw [accepts.shards held] at refused
        cases refused
      · have found := Disk.mem_entries.mp entry
        rw [List.append_assoc, List.singleton_append] at found
        cases expected : isExpected (name, node) with
        | false =>
          exact .inl ⟨shard, name, node, found, expected, eq_of_refusesEntry expected refused⟩
        | true =>
          obtain ⟨⟨digest, rfl⟩, isFile⟩ := isExpected_iff.mp expected
          cases node with
          | file size accessed =>
            simp only [RefusesEntry, digest?_eq_some_iff.mpr rfl, target_eq_below] at refused
            exact .inr (not_acceptsPaths_of_refusesMove (isOldFile_sharded found) refused)
          | _ => cases isFile
    | file size accessed =>
      simp only [planOf] at refusal
      split at refusal
      · rename_i digest named
        obtain rfl := digest?_eq_some_iff.mp named
        simp only [target_eq_below] at refusal
        exact .inr (not_acceptsPaths_of_refusesMove (isOldFile_flat held) refusal)
      · exact refusal.elim
    | link target => exact refusal.elim
    | pipe => exact refusal.elim

/-- Where the system takes the paths of all kinds up to one that is not clean, an unexpected node
stops the upgrade. -/
theorem exists_unexpected (host : Host) (workers : Nat) (upgradable : IsUpgradable disk root top)
    (stands : StandsApart frame disk root top) (odd : ¬ IsClean disk top kind)
    (accepts : ∀ other, other.rank ≤ kind.rank → AcceptsPaths disk root top other) :
    ∃ path last, upgrade host workers root disk =
        (.error (.upgrade path "unexpected entry in legacy shard" none), last) ∧
      OneFails disk root top Kind.all (.upgrade path "unexpected entry in legacy shard" none)
        last.disk := by
  obtain ⟨outcome, last, result, verdict⟩ := exists_upgrade host workers upgradable stands
  cases outcome with
  | ok summary =>
    have clean : IsClean disk top kind := (verdict.usable kind kind.mem_all).1
    exact absurd @clean odd
  | error failure =>
    obtain ⟨before, other, later, middle, order, usable, upgraded, fails⟩ := id verdict
    have fresh : other ∉ before :=
      fun earlier => Nat.lt_irrefl _ ((mem_before_iff order).mp earlier)
    have notLater : other.rank ≤ kind.rank := by
      by_contra behind
      have earlier := (mem_before_iff order).mpr (Nat.not_le.mp behind)
      have clean : IsClean disk top kind := (usable kind earlier).1
      exact odd @clean
    rcases fails.reason_cases with ⟨shard, name, node, -, -, rfl⟩ | ⟨refused, -⟩
    · exact ⟨_, last, result, verdict⟩
    · exact absurd ((upgraded.sameOld fresh).acceptsPaths (accepts other notLater)) refused

/-! ## Nothing is lost -/

/-- What is certain about an upgrade that an unexpected node in an old shard has stopped. -/
structure StopsSafely (disk : Disk) (root : DiskPath) (top : Location) (failure : Failure)
    (before : List Kind) (kind : Kind) (later : List Kind) (after : Disk) : Prop where
  order : Kind.all = before ++ kind :: later
  stopped : IsStopped disk top before kind after
  /-- In the former directory of the kind everything but its old files stays. -/
  left : ∀ names node, disk.node? (oldPlace top kind ++ names) = some node →
    (∀ target, ¬ IsOldFile disk top kind (nameOf kind.formerDirectory :: names) target) →
      after.node? (oldPlace top kind ++ names) = some node
  offending : NamesUnexpected disk root top kind failure
  untouched : ∀ other ∈ later, SameOld disk after top other

theorem not_isOldFile_of_node? {names : List Name} {node : Node}
    (found : disk.node? (oldPlace top kind ++ names) = some node) (plain : node.isFile = false) :
    ¬ IsOldFile disk top kind (nameOf kind.formerDirectory :: names) target := by
  rintro ⟨-, size, accessed, file⟩
  rw [← oldPlace_append, found] at file
  obtain rfl := Option.some.inj file
  cases plain

theorem IsStopped.left (stopped : IsStopped disk top before kind after) (fresh : kind ∉ before)
    {names : List Name} {node : Node} (held : disk.node? (oldPlace top kind ++ names) = some node)
    (other : ∀ target, ¬ IsOldFile disk top kind (nameOf kind.formerDirectory :: names) target) :
    after.node? (oldPlace top kind ++ names) = some node := by
  rw [stopped.kept, held]
  · intro earlier member
    constructor
    · intro above
      exact fresh (kind_eq_of_above (List.prefix_append _ _) above ▸ member)
    · intro source target old same
      exact old.moves.not_prefix top kind (same ▸ List.prefix_append _ _)
  · intro source target old
    constructor
    · intro same
      rw [oldPlace, List.append_assoc] at same
      obtain rfl := List.append_cancel_left same
      exact other target old
    · intro same
      exact old.moves.not_prefix top kind (same ▸ List.prefix_append _ _)

theorem IsStopped.sameOld (stopped : IsStopped disk top before kind after)
    (notEarlier : other ∉ before) (apart : other ≠ kind) : SameOld disk after top other := by
  intro names
  apply stopped.kept
  · intro earlier member
    constructor
    · intro above
      exact notEarlier (kind_eq_of_above (List.prefix_append _ _) above ▸ member)
    · intro source target old same
      exact old.moves.not_prefix top other (same ▸ List.prefix_append _ _)
  · intro source target old
    constructor
    · intro same
      have above := old.moves.oldPlace_prefix top
      rw [← same] at above
      exact apart (kind_eq_of_above (List.prefix_append _ _) above)
    · intro same
      exact old.moves.not_prefix top other (same ▸ List.prefix_append _ _)

theorem OneFails.stopsSafely {path : DiskPath}
    (fails : OneFails disk root top Kind.all
      (.upgrade path "unexpected entry in legacy shard" none) after)
    (room : ∀ kind, HasRoom disk top kind) : ∃ before kind later,
      StopsSafely disk root top (.upgrade path "unexpected entry in legacy shard" none)
        before kind later after := by
  obtain ⟨before, kind, later, middle, order, -, upgraded, stopped⟩ := fails
  have fresh : kind ∉ before :=
    fun earlier => Nat.lt_irrefl _ ((mem_before_iff order).mp earlier)
  obtain ⟨moves, part, reached⟩ := stopped.moved
  have isStopped := upgraded.stopped fresh (room kind) part reached
  refine ⟨before, kind, later, order, isStopped, ?_, ?_, ?_⟩
  · exact fun names node held other => isStopped.left fresh held other
  · rcases stopped.reason_cases with ⟨shard, name, node, found, odd, same⟩ | ⟨-, _, _, _, same⟩
    · rw [upgraded.sameOld fresh] at found
      exact ⟨shard, name, node, found, odd, same⟩
    · cases same
  · intro other member
    have behind := (mem_later_iff order).mp member
    apply isStopped.sameOld
    · intro earlier
      have ahead := (mem_before_iff order).mp earlier
      omega
    · rintro rfl
      exact Nat.lt_irrefl _ behind

/-- An upgrade that is stopped by an unexpected node loses nothing and can be resumed. -/
theorem upgrade_resumes (host : Host) (workers : Nat) (upgradable : IsUpgradable disk root top)
    (leads : (withoutOld disk top).LeadsTo root top) {path : DiskPath} {last : Scene}
    (failed : upgrade host workers root disk =
      (.error (.upgrade path "unexpected entry in legacy shard" none), last)) :
    (∃ before kind later,
      StopsSafely disk root top (.upgrade path "unexpected entry in legacy shard" none)
        before kind later last.disk) ∧
    (∀ kind nodes scene floor outcome,
      Crew.Reaches (Crew.size workers) (task host root kind (oldDirectory root kind))
        (.start (Crew.size workers) nodes scene) floor → floor.foreman = .finished outcome →
      ∀ events next, ¬ Crew.Step (Crew.size workers)
        (task host root kind (oldDirectory root kind)) events floor next) ∧
    ((∀ kind, AcceptsPaths disk root top kind) → ∀ host workers host' workers',
      ∃ summary resumed summary' direct,
        upgrade host workers root (cleared last.disk top) = (.ok summary, resumed) ∧
        upgrade host' workers' root (cleared disk top) = (.ok summary', direct) ∧
        resumed.disk = direct.disk) := by
  have stands := upgradable.standsApart leads
  obtain ⟨outcome, last, result, verdict⟩ :=
    exists_upgrade host workers upgradable stands
  rw [result] at failed
  obtain ⟨rfl, rfl⟩ := Prod.mk.inj failed
  have safely := verdict.stopsSafely upgradable.room
  refine ⟨safely, fun kind nodes scene floor outcome reaches finished events next =>
    reaches.halted finished, fun accepts host workers host' workers' => ?_⟩
  obtain ⟨before, kind, later, safely⟩ := safely
  obtain ⟨summary, resumed, again, upgraded⟩ := safely.stopped.exists_resumed host workers
    upgradable stands accepts
  have fresh := isStopped_self (upgradable.room kind)
  obtain ⟨summary', direct, once, upgraded'⟩ := fresh.exists_resumed host' workers' upgradable
    stands accepts
  exact ⟨summary, resumed, summary', direct, again, once, upgraded.unique upgraded'⟩

/-- Both older layouts, with a pipe in the old shard. -/
def oddShard : List OldNode :=
  { directory := [nameOf Kind.content.formerDirectory, [0x78]], name := [0x21], node := .pipe } ::
    bothLayouts

/-- The upgrade of both layouts is stopped by the pipe and resumed without it. -/
theorem upgrade_resumes_odd_shard :
    IsUpgradable (furnished [] oddShard) (ofLocation []) [] ∧
      (withoutOld (furnished [] oddShard) []).LeadsTo (ofLocation []) [] ∧
      ∃ path last, upgrade .orderly 1 (ofLocation []) (furnished [] oddShard) =
          (.error (.upgrade path "unexpected entry in legacy shard" none), last) ∧
        (∃ before kind later, StopsSafely (furnished [] oddShard) (ofLocation []) []
          (.upgrade path "unexpected entry in legacy shard" none) before kind later last.disk) ∧
        ∃ summary resumed summary' direct,
          upgrade .orderly 1 (ofLocation []) (cleared last.disk []) = (.ok summary, resumed) ∧
          upgrade .orderly 1 (ofLocation []) (cleared (furnished [] oddShard) []) =
            (.ok summary', direct) ∧ resumed.disk = direct.disk := by
  have fits : HasShards [] := ⟨by simp, by decide⟩
  have furniture : isFurniture oddShard = true := by decide +kernel
  have leads := leadsTo_withoutOld_furnished fits furniture
  have upgradable := isUpgradable_furnished fits furniture
    (leads.of_frames (Disk.frames_without _ _)) (by decide +kernel) (by decide +kernel)
  have accepts : ∀ kind, AcceptsPaths (furnished [] oddShard) (ofLocation []) [] kind :=
    fun kind => acceptsPaths_of_room (by decide) (by decide)
  have odd : ¬ IsClean (furnished [] oddShard) [] .content := by
    intro clean
    have found := (node?_furnished_old fits furniture .content [[0x78], [0x21]]).mpr
      ⟨_, List.mem_cons_self, rfl, rfl⟩
    exact absurd (clean found).2 (by decide)
  obtain ⟨path, last, failed, -⟩ := exists_unexpected .orderly 1 upgradable
    (upgradable.standsApart leads) odd fun kind _ => accepts kind
  obtain ⟨safely, -, resumes⟩ := upgrade_resumes .orderly 1 upgradable leads failed
  exact ⟨upgradable, leads, path, last, failed, safely, resumes accepts .orderly 1 .orderly 1⟩

/-- A pipe in an old shard, and a file of a later kind. -/
def oddBeforeRaw : List OldNode :=
  [{ directory := [nameOf Kind.raw.formerDirectory]
     name := nameOf firstDigest.text, node := .file 4 1 },
   { directory := [], name := nameOf Kind.raw.formerDirectory, node := .directory },
   { directory := [nameOf Kind.content.formerDirectory, [0x78]], name := [0x21], node := .pipe },
   { directory := [nameOf Kind.content.formerDirectory], name := [0x78], node := .directory },
   { directory := [], name := nameOf Kind.content.formerDirectory, node := .directory }]

theorem isFurniture_oddBeforeRaw : isFurniture oddBeforeRaw = true := by decide +kernel

theorem not_isClean_oddBeforeRaw {top : Location} (fits : HasShards top) :
    ¬ IsClean (furnished top oddBeforeRaw) top .content := by
  intro clean
  have found := (node?_furnished_old fits isFurniture_oddBeforeRaw .content [[0x78], [0x21]]).mpr
    ⟨_, List.mem_cons_of_mem _ (List.mem_cons_of_mem _ List.mem_cons_self), rfl, rfl⟩
  exact absurd (clean found).2 (by decide)

/-- Only the pipe can stop an upgrade that finds something unexpected. -/
theorem eq_content_of_namesUnexpected {failure : Failure} (fits : HasShards top)
    (names : NamesUnexpected (furnished top oddBeforeRaw) root top kind failure) :
    kind = .content := by
  obtain ⟨shard, name, node, found, -, -⟩ := names
  obtain ⟨item, member, same, -⟩ :=
    (node?_furnished_old fits isFurniture_oddBeforeRaw kind [shard, name]).mp found
  have inner : ∀ item ∈ oddBeforeRaw, item.directory.length = 2 →
      item.names.head? = some (nameOf Kind.content.formerDirectory) := by decide +kernel
  have length : item.directory.length = 2 := by
    have whole := congrArg List.length same
    rw [OldNode.names, List.length_append] at whole
    exact Nat.succ.inj whole
  have head := inner item member length
  rw [same] at head
  exact formerName_injective (Option.some.inj head)

/-- The system refuses where the file belongs, once the pipe is gone. -/
theorem resumed_fails_slashed : ∃ path last failure again,
    IsUpgradable (furnished [[0x78]] oddBeforeRaw) slashedRoot [[0x78]] ∧
      upgrade .orderly 1 slashedRoot (furnished [[0x78]] oddBeforeRaw) =
        (.error (.upgrade path "unexpected entry in legacy shard" none), last) ∧
      upgrade .orderly 1 slashedRoot (cleared last.disk [[0x78]]) = (.error failure, again) := by
  have fits := hasShards_x
  have leads := (leadsTo_withoutOld_furnished fits isFurniture_oddBeforeRaw).padded 4020
  have upgradable := isUpgradable_furnished fits isFurniture_oddBeforeRaw
    (leads.of_frames (Disk.frames_without _ _)) (by decide +kernel) (by decide +kernel)
  have accepts : ∀ other, other.rank ≤ Kind.content.rank →
      AcceptsPaths (furnished [[0x78]] oddBeforeRaw) slashedRoot [[0x78]] other := by
    intro other earlier
    cases other with
    | raw => exact absurd earlier (by decide)
    | _ =>
      exact acceptsPaths_furnished fits isFurniture_oddBeforeRaw (by decide +kernel)
        (by decide +kernel) (by decide +kernel)
  obtain ⟨path, last, failed, verdict⟩ := exists_unexpected .orderly 1 upgradable
    (upgradable.standsApart leads) (not_isClean_oddBeforeRaw fits) accepts
  obtain ⟨before, kind, later, safely⟩ := verdict.stopsSafely upgradable.room
  obtain ⟨upgradable', stands'⟩ :=
    safely.stopped.upgradable_cleared upgradable (upgradable.standsApart leads)
  obtain ⟨outcome, again, result, verdict'⟩ := exists_upgrade .orderly 1 upgradable' stands'
  cases outcome with
  | error failure => exact ⟨path, last, failure, again, upgradable, failed, result⟩
  | ok summary =>
    obtain rfl := eq_content_of_namesUnexpected fits safely.offending
    have isLater : .raw ∈ later := (mem_later_iff safely.order).mpr (by decide)
    have old : IsOldFile (furnished [[0x78]] oddBeforeRaw) [[0x78]] .raw
        [nameOf Kind.raw.formerDirectory, nameOf firstDigest.text]
        (newNames .raw firstDigest "222444666") := by
      refine ⟨.flat _, 4, 1, ?_⟩
      apply (node?_furnished fits isFurniture_oddBeforeRaw).mpr
      exact .inr ⟨_, List.mem_cons_self, rfl, rfl⟩
    have still := (safely.untouched .raw isLater).isOldFile_iff.mpr old
    have taken := (verdict'.usable .raw (by decide)).2.files (isOldFile_cleared_iff.mpr still)
    have long : longestPath <
        (slashedRoot.below (newNames .raw firstDigest "222444666")).bytes.length := by
      decide +kernel
    exact absurd (length_le_of_checkForm taken.2) (Nat.not_le.mpr long)

/-- A directory in an old shard, and a file of an earlier kind. -/
def oddBehindAction : List OldNode :=
  [{ directory := [nameOf Kind.action.formerDirectory]
     name := nameOf firstDigest.text, node := .file 4 1 },
   { directory := [], name := nameOf Kind.action.formerDirectory, node := .directory },
   { directory := [nameOf Kind.content.formerDirectory, [0x78]], name := [0x65]
     node := .directory },
   { directory := [nameOf Kind.content.formerDirectory], name := [0x78], node := .directory },
   { directory := [], name := nameOf Kind.content.formerDirectory, node := .directory }]

theorem isFurniture_oddBehindAction : isFurniture oddBehindAction = true := by decide +kernel

/-- A root that leads through the directory. -/
def throughOdd : DiskPath := .ofString "/x/cas/x/e/../../.."

theorem steps_throughOdd : throughOdd.steps =
    ([[0x78]] ++ [nameOf Kind.content.formerDirectory, [0x78], [0x65]]).map .into ++
      List.replicate 3 .above := by decide +kernel

theorem upgrade_throughOdd (host : Host) (workers : Nat)
    (held : disk.node? (oldPlace [[0x78]] .content ++ [[0x78]]) = some .directory)
    (missing : disk.node? (oldPlace [[0x78]] .content ++ [[0x78], [0x65]]) = none) :
    upgrade host workers throughOdd disk = (.ok ⟨0, 0, 0⟩, { disk, notices := [] }) := by
  have lost : ∀ kind, upgradeKind host workers throughOdd kind { disk, notices := [] } =
      (.ok none, { disk, notices := [] }) := by
    intro kind
    apply upgradeKind_of_lost steps_throughOdd (isPlainName_iff.mp (by decide)) held missing
    cases kind <;> decide +kernel
  simp only [upgrade, Kind.all, upgradeKinds, lost]
  rfl

/-- An upgrade whose root leads through an unexpected directory of contents is stopped there, after
the actions have been upgraded. -/
theorem stopped_throughOdd (host : Host) (workers : Nat)
    (upgradable : IsUpgradable disk throughOdd [[0x78]]) (clean : IsClean disk [[0x78]] .action)
    (odd : disk.node? (oldPlace [[0x78]] .content ++ [[0x78], [0x65]]) = some .directory) :
    ∃ path last, upgrade host workers throughOdd disk =
        (.error (.upgrade path "unexpected entry in legacy shard" none), last) ∧
      IsStopped disk [[0x78]] [.action] .content last.disk := by
  have accepts : ∀ {disk kind}, AcceptsPaths disk throughOdd [[0x78]] kind :=
    acceptsPaths_of_room (by decide) (by decide)
  have apart : ∀ kind ∈ [Kind.action], HasRoom disk [[0x78]] kind :=
    fun kind _ => upgradable.room kind
  have fresh : Kind.content ∉ [Kind.action] := by decide
  let start : Scene := { disk, notices := [] }
  have stands : Stands start.disk throughOdd [[0x78]] := upgradable.stands
  obtain ⟨outcome, middle, first, verdict⟩ := exists_upgradeKind host workers stands
    (upgradable.former .action) (upgradable.room .action)
  cases outcome with
  | error failure => exact (verdict.not_usable clean accepts).elim
  | ok fates =>
    have same := verdict.upgraded.sameOld fresh
    have held := (same [[0x78], [0x65]]).trans odd
    have stands' : Stands middle.disk throughOdd [[0x78]] := by
      refine ⟨Disk.leadsTo_of_detour steps_throughOdd held, fun location member => ?_⟩
      exact verdict.upgraded.node?_of_apart apart (stands.shards location member)
        fun kind _ => not_oldPlace_prefix_shard member kind
    have former : middle.disk.node? (oldPlace [[0x78]] .content) = some .directory :=
      Disk.directory_of_node? held (List.cons_ne_nil _ _)
    obtain ⟨outcome, last, second, verdict'⟩ := exists_upgradeKind host workers stands'
      (.inr former) (verdict.upgraded.hasRoom fresh (upgradable.room .content))
    cases outcome with
    | ok fates => exact absurd (verdict'.clean held).2 (by decide)
    | error failure =>
      rcases verdict'.reason_cases with ⟨shard, name, node, -, -, rfl⟩ | ⟨refused, -⟩
      · obtain ⟨moves, part, reached⟩ := verdict'.moved
        refine ⟨((oldDirectory throughOdd .content).child shard).child name, last, ?_,
          verdict.upgraded.stopped fresh (upgradable.room .content) part reached⟩
        rw [upgrade, Kind.all, upgradeKinds, first]
        simp only [upgradeKinds, second]
      · exact absurd accepts refused

/-- Where the root leads through an unexpected directory, nothing happens once it is gone, although
the actions have been upgraded before. -/
theorem resumed_differs_through_odd : ∃ path last summary resumed summary' direct,
    IsUpgradable (furnished [[0x78]] oddBehindAction) throughOdd [[0x78]] ∧
      upgrade .orderly 1 throughOdd (furnished [[0x78]] oddBehindAction) =
        (.error (.upgrade path "unexpected entry in legacy shard" none), last) ∧
      upgrade .orderly 1 throughOdd (cleared last.disk [[0x78]]) = (.ok summary, resumed) ∧
      upgrade .orderly 1 throughOdd (cleared (furnished [[0x78]] oddBehindAction) [[0x78]]) =
        (.ok summary', direct) ∧
      resumed.disk ≠ direct.disk := by
  have fits := hasShards_x
  have odd : (furnished [[0x78]] oddBehindAction).node?
      (oldPlace [[0x78]] .content ++ [[0x78], [0x65]]) = some .directory :=
    (node?_furnished_old fits isFurniture_oddBehindAction .content _).mpr
      ⟨_, List.mem_cons_of_mem _ (List.mem_cons_of_mem _ List.mem_cons_self), rfl, rfl⟩
  have actions : (furnished [[0x78]] oddBehindAction).node? (oldPlace [[0x78]] .action ++ []) =
      some .directory :=
    (node?_furnished_old fits isFurniture_oddBehindAction .action _).mpr
      ⟨_, List.mem_cons_of_mem _ List.mem_cons_self, rfl, rfl⟩
  have upgradable := isUpgradable_furnished fits isFurniture_oddBehindAction
    (Disk.leadsTo_of_detour steps_throughOdd odd) (by decide +kernel) (by decide +kernel)
  obtain ⟨path, last, failed, stopped⟩ := stopped_throughOdd .orderly 1 upgradable
    (isClean_furnished fits isFurniture_oddBehindAction .action (by decide +kernel)) odd
  -- Without the directory the root is lost, whatever else has become of the disk.
  have nothing : ∀ {disk : Disk}, disk.node? (oldPlace [[0x78]] .content ++ [[0x78], [0x65]]) =
      some .directory → upgrade .orderly 1 throughOdd (cleared disk [[0x78]]) =
        (.ok ⟨0, 0, 0⟩, { disk := cleared disk [[0x78]], notices := [] }) := by
    intro disk found
    apply upgrade_throughOdd
    · rw [node?_cleared_short (by simp)]
      exact Disk.directory_of_prefix found (by simp) (by simp)
    · exact node?_cleared_of_unexpected found rfl
  have still := stopped.left (by decide) odd fun target => not_isOldFile_of_node? odd rfl
  refine ⟨path, last, _, _, _, _, upgradable, failed, nothing still, nothing odd, fun same => ?_⟩
  have gone := stopped.gone .action List.mem_cons_self []
  dsimp only at same
  rw [← node?_cleared_short (by simp)] at gone actions
  rw [same, actions] at gone
  cases gone

/-- A stopped upgrade cannot be resumed below a root that is spelled with many slashes, and leads
elsewhere below a root that leads through an unexpected node. -/
theorem upgrade_may_not_resume :
    (∃ path last failure again,
      IsUpgradable (furnished [[0x78]] oddBeforeRaw) slashedRoot [[0x78]] ∧
        upgrade .orderly 1 slashedRoot (furnished [[0x78]] oddBeforeRaw) =
          (.error (.upgrade path "unexpected entry in legacy shard" none), last) ∧
        upgrade .orderly 1 slashedRoot (cleared last.disk [[0x78]]) = (.error failure, again)) ∧
    ∃ path last summary resumed summary' direct,
      IsUpgradable (furnished [[0x78]] oddBehindAction) throughOdd [[0x78]] ∧
        upgrade .orderly 1 throughOdd (furnished [[0x78]] oddBehindAction) =
          (.error (.upgrade path "unexpected entry in legacy shard" none), last) ∧
        upgrade .orderly 1 throughOdd (cleared last.disk [[0x78]]) = (.ok summary, resumed) ∧
        upgrade .orderly 1 throughOdd (cleared (furnished [[0x78]] oddBehindAction) [[0x78]]) =
          (.ok summary', direct) ∧
        resumed.disk ≠ direct.disk :=
  ⟨resumed_fails_slashed, resumed_differs_through_odd⟩

end ArtifactCache.Upgrade
