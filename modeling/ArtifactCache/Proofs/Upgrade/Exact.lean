import ArtifactCache.Proofs.Store.Mirror
import ArtifactCache.Proofs.Upgrade.Furnished

/-! # What a whole upgrade does

An upgrade succeeds exactly if nothing unexpected lies in the directories of the older layouts
and the system takes all the paths.  Then every old file is where it belongs today, nothing is
left of the older layouts, and a second upgrade finds nothing to do.
-/

namespace ArtifactCache.Upgrade

open DiskPath

variable {disk after : Disk} {root : DiskPath} {top : Location} {kind : Kind} {name : Name}
  {node : Node} {kinds : List Kind}

/-! ## What an upgrade counts -/

/-- Whether a number is that of the locations with a property. -/
def Counts (number : Nat) (holds : Location → Prop) : Prop :=
  ∃ locations : List Location, locations.Nodup ∧
    (∀ location, location ∈ locations ↔ holds location) ∧ locations.length = number

theorem counts_flatMap (top : Location) (lists : Kind → List Location)
    (each : ∀ kind, (lists kind).Nodup)
    (inside : ∀ kind, ∀ location ∈ lists kind, oldPlace top kind <+: location) :
    Counts (Kind.all.flatMap lists).length fun location => ∃ kind, location ∈ lists kind := by
  refine ⟨Kind.all.flatMap lists, ?_, fun location => ?_, rfl⟩
  · apply List.nodup_flatMap.mpr
    refine ⟨fun kind _ => each kind, ?_⟩
    have distinct : Kind.all.Nodup := by decide
    apply distinct.imp
    intro first second differ location member member'
    exact differ (kind_eq_of_above (inside _ _ member) (inside _ _ member'))
  · simp [List.mem_flatMap, Kind.mem_all]

theorem counts_directories (former : ∀ kind, disk.node? (oldPlace top kind) = none ∨
      disk.node? (oldPlace top kind) = some .directory) :
    Counts (amount disk top Kind.all).directories fun location =>
      ∃ kind, location = oldPlace top kind ∧ disk.node? location = some .directory := by
  let found (kind : Kind) : List Location :=
    if (disk.node? (oldPlace top kind)).isSome then [oldPlace top kind] else []
  have whole : (Kind.all.flatMap found).length = (amount disk top Kind.all).directories := by
    rw [amount, ← List.countP_eq_length_filter, List.length_flatMap]
    induction Kind.all with
    | nil => rfl
    | cons kind kinds ih =>
      rw [List.map_cons, List.sum_cons, ih, List.countP_cons, Nat.add_comm]
      simp only [found]
      split <;> rfl
  have mem_found : ∀ {kind location}, location ∈ found kind ↔
      location = oldPlace top kind ∧ disk.node? location = some .directory := by
    intro kind location
    rcases former kind with missing | held
    · simp only [found, missing]
      constructor
      · intro member
        cases member
      · rintro ⟨rfl, held⟩
        rw [missing] at held
        cases held
    · simp only [found, held, Option.isSome_some, if_true, List.mem_singleton]
      exact ⟨fun same => ⟨same, same ▸ held⟩, And.left⟩
  have counted := counts_flatMap top found ?_ ?_
  · rw [whole] at counted
    simpa only [mem_found] using counted
  · intro kind
    simp only [found]
    split <;> simp
  · intro kind location member
    exact (mem_found.mp member).1 ▸ List.prefix_rfl

theorem counts_moved (room : ∀ kind, HasRoom disk top kind) :
    Counts (amount disk top Kind.all).moved fun location => ∃ kind source target,
      IsOldFile disk top kind source target ∧ location = top ++ source := by
  have mem_sources : ∀ {kind location}, location ∈ (oldMoves disk top kind).map Move.source ↔
      ∃ source target, IsOldFile disk top kind source target ∧ location = top ++ source := by
    intro kind location
    simp only [List.mem_map, mem_oldMoves]
    constructor
    · rintro ⟨_, ⟨source, target, old, rfl⟩, rfl⟩
      exact ⟨source, target, old, rfl⟩
    · rintro ⟨source, target, old, rfl⟩
      exact ⟨_, ⟨source, target, old, rfl⟩, rfl⟩
  have counted := counts_flatMap top
    (fun kind => (oldMoves disk top kind).map Move.source) ?_ ?_
  · rw [← List.map_flatMap, List.length_map] at counted
    simpa only [amount, mem_sources] using counted
  · exact fun kind => (canMove_movesOf (room kind) (.refl _)).sources
  · intro kind location member
    obtain ⟨source, target, old, rfl⟩ := mem_sources.mp member
    exact old.moves.oldPlace_prefix top

theorem isLeft_eq_true_iff : isLeft (name, node) = true ↔
    node ≠ .directory ∧ ¬ (node.isFile = true ∧ ∃ digest : Digest, name = nameOf digest.text) := by
  cases node with
  | file size accessed =>
    simp only [isLeft, Node.isFile, ← digest?_eq_some_iff, Option.isNone_iff_eq_none]
    cases digest? name <;> simp
  | _ => simp [isLeft, Node.isFile]

theorem counts_skipped (disk : Disk) (top : Location) :
    Counts (amount disk top Kind.all).skipped fun location => ∃ kind name node,
      location = oldPlace top kind ++ [name] ∧ disk.node? location = some node ∧
        node ≠ .directory ∧
          ¬ (node.isFile = true ∧ ∃ digest : Digest, name = nameOf digest.text) := by
  have mem_leftNodes : ∀ {kind location}, location ∈ leftNodes disk top kind ↔ ∃ name node,
      location = oldPlace top kind ++ [name] ∧ disk.node? location = some node ∧
        node ≠ .directory ∧
          ¬ (node.isFile = true ∧ ∃ digest : Digest, name = nameOf digest.text) := by
    intro kind location
    simp only [leftNodes, List.mem_map, List.mem_filter, Prod.exists, Disk.mem_entries,
      isLeft_eq_true_iff]
    constructor
    · rintro ⟨name, node, ⟨found, left⟩, rfl⟩
      exact ⟨name, node, rfl, found, left⟩
    · rintro ⟨name, node, rfl, found, left⟩
      exact ⟨name, node, ⟨found, left⟩, rfl⟩
  have counted := counts_flatMap top (leftNodes disk top) ?_ ?_
  · simpa only [amount, mem_leftNodes] using counted
  · intro kind
    apply List.Pairwise.map _ _ ((disk.pairwise_entries (oldPlace top kind)).filter isLeft)
    intro first second differ same
    exact differ (List.cons.inj (List.append_cancel_left same)).1
  · intro kind location member
    obtain ⟨name, node, rfl, -⟩ := mem_leftNodes.mp member
    exact List.prefix_append _ _

/-! ## What an upgrade does -/

variable {host : Host} {workers : Nat} {scene : Scene} {summary : UpgradeSummary}

theorem upgradeKinds_of_absent (leads : scene.disk.LeadsTo root top)
    (form : ∀ kind ∈ kinds, (oldDirectory root kind).checkForm = .ok ())
    (missing : ∀ kind ∈ kinds, scene.disk.node? (oldPlace top kind) = none) :
    upgradeKinds host workers root kinds summary scene = (.ok summary, scene) := by
  induction kinds with
  | nil => rfl
  | cons kind kinds ih =>
    obtain ⟨formFirst, formOthers⟩ := List.forall_mem_cons.mp form
    obtain ⟨missingFirst, missingOthers⟩ := List.forall_mem_cons.mp missing
    rw [upgradeKinds, upgradeKind_of_absent leads formFirst missingFirst]
    exact ih formOthers missingOthers

/-- Whether an upgrade has done all that it should, and says so in its summary. -/
structure IsExact (disk : Disk) (top : Location) (summary : UpgradeSummary) (after : Disk) :
    Prop where
  upgraded : IsUpgraded disk top Kind.all after
  directories : Counts summary.directories fun location =>
    ∃ kind, location = oldPlace top kind ∧ disk.node? location = some .directory
  moved : Counts summary.moved fun location => ∃ kind source target,
    IsOldFile disk top kind source target ∧ location = top ++ source
  skipped : Counts summary.skipped fun location => ∃ kind name node,
    location = oldPlace top kind ++ [name] ∧ disk.node? location = some node ∧
      node ≠ .directory ∧ ¬ (node.isFile = true ∧ ∃ digest : Digest, name = nameOf digest.text)

/-- An upgrade is complete, exact and idempotent. -/
theorem upgrade_exact (host : Host) (workers : Nat) (upgradable : IsUpgradable disk root top)
    (leads : (withoutOld disk top).LeadsTo root top) :
    ∃ outcome last, upgrade host workers root disk = (outcome, last) ∧
      ((∃ summary, outcome = .ok summary) ↔
        ∀ kind, IsClean disk top kind ∧ AcceptsPaths disk root top kind) ∧
      ∀ summary, outcome = .ok summary → IsExact disk top summary last.disk ∧
        ∀ host workers, upgrade host workers root last.disk =
          (.ok ⟨0, 0, 0⟩, { disk := last.disk, notices := [] }) := by
  obtain ⟨outcome, last, result, verdict⟩ := exists_upgrade host workers upgradable
    (upgradable.standsApart leads)
  refine ⟨outcome, last, result, ?_⟩
  cases outcome with
  | error failure =>
    constructor
    · constructor
      · rintro ⟨summary, same⟩
        cases same
      · intro usable
        exact (verdict.not_usable (by decide) fun kind _ => usable kind).elim
    · intro summary same
      cases same
  | ok total =>
    have usable := fun kind => verdict.usable kind kind.mem_all
    constructor
    · exact ⟨fun _ => usable, fun _ => ⟨total, rfl⟩⟩
    · rintro summary same
      obtain rfl := Except.ok.inj same
      have stands := verdict.upgraded.standsApart (upgradable.standsApart leads)
        fun kind _ => upgradable.room kind
      constructor
      · refine ⟨verdict.upgraded, ?_, ?_, ?_⟩
        · rw [verdict.directories, Nat.zero_add]
          exact counts_directories upgradable.former
        · rw [verdict.moved, Nat.zero_add]
          exact counts_moved upgradable.room
        · rw [verdict.skipped, Nat.zero_add]
          exact counts_skipped disk top
      · intro host workers
        have leads : ({ disk := last.disk, notices := [] } : Scene).disk.LeadsTo root top :=
          stands.now.leads
        apply upgradeKinds_of_absent leads
        · exact fun kind _ => (usable kind).2.former
        · intro kind member
          have gone := verdict.upgraded.gone kind member []
          rwa [List.append_nil] at gone

theorem isHexDigit_a : isHexDigit 'a' = true := rfl

theorem isHexDigit_b : isHexDigit 'b' = true := rfl

def firstDigest : Digest := .uniform 'a' isHexDigit_a

def secondDigest : Digest := .uniform 'b' isHexDigit_b

/-- An old file of each layout, and a pipe that is left behind. -/
def bothLayouts : List OldNode :=
  [{ directory := [nameOf Kind.content.formerDirectory, [0x78]]
     name := nameOf secondDigest.text, node := .file 6 2 },
   { directory := [nameOf Kind.content.formerDirectory], name := [0x78], node := .directory },
   { directory := [], name := nameOf Kind.content.formerDirectory, node := .directory },
   { directory := [nameOf Kind.action.formerDirectory], name := [0x78], node := .pipe },
   { directory := [nameOf Kind.action.formerDirectory]
     name := nameOf firstDigest.text, node := .file 4 1 },
   { directory := [], name := nameOf Kind.action.formerDirectory, node := .directory }]

/-- The upgrade of both layouts does all that it should. -/
theorem upgrade_exact_both_layouts :
    IsUpgradable (furnished [] bothLayouts) (ofLocation []) [] ∧
      (withoutOld (furnished [] bothLayouts) []).LeadsTo (ofLocation []) [] ∧
      ∃ summary last, upgrade .orderly 1 (ofLocation []) (furnished [] bothLayouts) =
        (.ok summary, last) ∧ IsExact (furnished [] bothLayouts) [] summary last.disk := by
  have fits : HasShards [] := ⟨by simp, by decide⟩
  have furniture : isFurniture bothLayouts = true := by decide +kernel
  have leads := leadsTo_withoutOld_furnished fits furniture
  have upgradable := isUpgradable_furnished fits furniture
    (leads.of_frames (Disk.frames_without _ _)) (by decide +kernel) (by decide +kernel)
  refine ⟨upgradable, leads, ?_⟩
  obtain ⟨outcome, last, result, succeeds, exact⟩ := upgrade_exact .orderly 1 upgradable leads
  obtain ⟨summary, rfl⟩ := succeeds.mpr fun kind =>
    ⟨isClean_furnished fits furniture kind (by cases kind <;> decide +kernel),
      acceptsPaths_of_room (by decide) (by decide)⟩
  exact ⟨summary, last, result, (exact summary rfl).1⟩

/-- A file of the flat layout, and an empty directory of the kind before it. -/
def flatContent : List OldNode :=
  [{ directory := [nameOf Kind.content.formerDirectory]
     name := nameOf firstDigest.text, node := .file 4 1 },
   { directory := [], name := nameOf Kind.content.formerDirectory, node := .directory },
   { directory := [], name := nameOf Kind.action.formerDirectory, node := .directory }]

theorem isFurniture_flatContent : isFurniture flatContent = true := by decide +kernel

theorem isClean_flatContent {top : Location} (fits : HasShards top) (kind : Kind) :
    IsClean (furnished top flatContent) top kind :=
  isClean_furnished fits isFurniture_flatContent kind (by cases kind <;> decide +kernel)

theorem isUpgradable_flatContent {top : Location} (fits : HasShards top) {root : DiskPath}
    (leads : (furnished top flatContent).LeadsTo root top) :
    IsUpgradable (furnished top flatContent) root top :=
  isUpgradable_furnished fits isFurniture_flatContent leads (by decide +kernel) (by decide +kernel)

theorem isOldFile_flatContent {top : Location} (fits : HasShards top) :
    IsOldFile (furnished top flatContent) top .content
      [nameOf Kind.content.formerDirectory, nameOf firstDigest.text]
      (newNames .content firstDigest "222444666") := by
  refine ⟨.flat _, 4, 1, ?_⟩
  apply (node?_furnished fits isFurniture_flatContent).mpr
  exact .inr ⟨_, List.mem_cons_self, rfl, rfl⟩

theorem hasShards_x : HasShards [[0x78]] := by
  refine ⟨?_, by decide⟩
  exact List.forall_mem_singleton.mpr (isPlainName_iff.mp (by decide +kernel))

/-- A root that is spelled with so many slashes that the system takes the paths of its former
directories, but not those of its shards' files. -/
def slashedRoot : DiskPath := (ofLocation [[0x78]]).padded 4020

/-- The system takes where the file is, and refuses where it belongs. -/
theorem fails_flatContent_slashed :
    IsUpgradable (furnished [[0x78]] flatContent) slashedRoot [[0x78]] ∧
      (∀ kind, IsClean (furnished [[0x78]] flatContent) [[0x78]] kind) ∧
      ∃ failure last, upgrade .orderly 1 slashedRoot (furnished [[0x78]] flatContent) =
        (.error failure, last) := by
  have fits := hasShards_x
  have leads := (leadsTo_withoutOld_furnished fits isFurniture_flatContent).padded 4020
  have upgradable := isUpgradable_flatContent fits (leads.of_frames (Disk.frames_without _ _))
  refine ⟨upgradable, isClean_flatContent fits, ?_⟩
  obtain ⟨outcome, last, result, verdict⟩ := exists_upgrade .orderly 1 upgradable
    (upgradable.standsApart leads)
  cases outcome with
  | error failure => exact ⟨failure, last, result⟩
  | ok summary =>
    have accepts := (verdict.usable .content (by decide)).2
    have short := length_le_of_checkForm (accepts.files (isOldFile_flatContent fits)).2
    have long : longestPath <
        (slashedRoot.below (newNames .content firstDigest "222444666")).bytes.length := by
      decide +kernel
    exact absurd short (Nat.not_le.mpr long)

/-- A root that leads through its own directory of former actions. -/
def throughFormer : DiskPath := .ofString "/x/ac/.."

theorem steps_throughFormer : throughFormer.steps =
    [[0x78]].map .into ++ .into (nameOf Kind.action.formerDirectory) :: [.above] := by
  decide +kernel

/-- An upgrade of a root that leads through the former directory of the first kind never gets to
the other kinds. -/
theorem upgrade_throughFormer (host : Host) (workers : Nat)
    (upgradable : IsUpgradable disk throughFormer [[0x78]])
    (clean : IsClean disk [[0x78]] .action)
    (accepts : AcceptsPaths disk throughFormer [[0x78]] .action) :
    ∃ summary last, upgrade host workers throughFormer disk = (.ok summary, last) ∧
      IsUpgraded disk [[0x78]] [.action] last.disk := by
  let start : Scene := { disk, notices := [] }
  have stands : Stands start.disk throughFormer [[0x78]] := upgradable.stands
  obtain ⟨outcome, last, first, verdict⟩ := exists_upgradeKind host workers stands
    (upgradable.former .action) (upgradable.room .action)
  cases outcome with
  | error failure => exact (verdict.not_usable clean accepts).elim
  | ok fates =>
    have gone := verdict.upgraded.gone .action List.mem_cons_self []
    rw [List.append_nil] at gone
    have held : last.disk.node? [[0x78]] = some .directory := by
      apply verdict.upgraded.node?_of_apart _ upgradable.stands.leads.held
      · exact fun kind member above => absurd above.length_le (by simp [oldPlace])
      · exact fun kind _ => upgradable.room kind
    have lost : ∀ kind, upgradeKind host workers throughFormer kind last = (.ok none, last) := by
      intro kind
      apply upgradeKind_of_lost steps_throughFormer (isPlain_formerName .action) held gone
      cases kind <;> decide +kernel
    refine ⟨counted ⟨0, 0, 0⟩ fates, last, ?_, verdict.upgraded⟩
    rw [upgrade, Kind.all, upgradeKinds, first]
    simp only [upgradeKinds, lost]
    rfl

/-- Where the root leads through the former directory of the kind before it, the file stays where
it is, although the upgrade succeeds. -/
theorem succeeds_flatContent_through_former :
    IsUpgradable (furnished [[0x78]] flatContent) throughFormer [[0x78]] ∧
      ∃ summary last, upgrade .orderly 1 throughFormer (furnished [[0x78]] flatContent) =
        (.ok summary, last) ∧
      last.disk.node? (oldPlace [[0x78]] .content ++ [nameOf firstDigest.text]) =
        some (.file 4 1) := by
  have fits := hasShards_x
  have former : (furnished [[0x78]] flatContent).node? (oldPlace [[0x78]] .action ++ []) =
      some .directory :=
    (node?_furnished_old fits isFurniture_flatContent .action []).mpr
      ⟨_, List.mem_cons_of_mem _ (List.mem_cons_of_mem _ List.mem_cons_self), rfl, rfl⟩
  have old : (furnished [[0x78]] flatContent).node?
      (oldPlace [[0x78]] .content ++ [nameOf firstDigest.text]) =
        some (.file 4 1) :=
    (node?_furnished_old fits isFurniture_flatContent .content _).mpr
      ⟨_, List.mem_cons_self, rfl, rfl⟩
  rw [List.append_nil] at former
  have leads := Disk.leadsTo_of_detour steps_throughFormer former
  have upgradable := isUpgradable_flatContent fits leads
  refine ⟨upgradable, ?_⟩
  obtain ⟨summary, last, result, upgraded⟩ := upgrade_throughFormer .orderly 1 upgradable
    (isClean_flatContent fits .action)
    (acceptsPaths_furnished fits isFurniture_flatContent (by decide +kernel) (by decide +kernel)
      (by decide +kernel))
  refine ⟨summary, last, result, ?_⟩
  rw [upgraded.kept, old]
  intro kind member
  obtain rfl := List.mem_singleton.mp member
  constructor
  · intro above
    exact absurd (kind_eq_of_above above (List.prefix_append _ _)) (by decide)
  · rintro source target old same
    exact old.moves.not_prefix [[0x78]] .content (same ▸ List.prefix_append _ _)

/-- Neither an upgrade below a root that is spelled with many slashes is complete, nor one below a
root that leads through a former directory. -/
theorem upgrade_can_be_incomplete :
    (IsUpgradable (furnished [[0x78]] flatContent) slashedRoot [[0x78]] ∧
      (∀ kind, IsClean (furnished [[0x78]] flatContent) [[0x78]] kind) ∧
      ∃ failure last, upgrade .orderly 1 slashedRoot (furnished [[0x78]] flatContent) =
        (.error failure, last)) ∧
    IsUpgradable (furnished [[0x78]] flatContent) throughFormer [[0x78]] ∧
      ∃ summary last, upgrade .orderly 1 throughFormer (furnished [[0x78]] flatContent) =
        (.ok summary, last) ∧
      last.disk.node? (oldPlace [[0x78]] .content ++ [nameOf firstDigest.text]) =
        some (.file 4 1) :=
  ⟨fails_flatContent_slashed, succeeds_flatContent_through_former⟩

end ArtifactCache.Upgrade
