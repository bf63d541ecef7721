import ArtifactCache.Proofs.Settings.Environment

/-! # The precedence of the sources of settings

The environment wins over the settings file, and the file over the defaults.  Loading succeeds
exactly if every source that is there can be read and the merged settings can be used; what a
source says about a field that another one overrides makes no difference.
-/

namespace ArtifactCache.Settings

/-! ## Usable settings -/

/-- Whether a cache can run with settings. -/
structure IsUsable (settings : Settings) : Prop where
  baseDirectory : settings.baseDirectory.bytes ≠ []
  maxSize : settings.maxSize ≠ 0
  maxRemovals : settings.maxRemovals ≠ 0
  upgradeWorkers : settings.upgradeWorkers ≠ some 0
  inventoryWorkers : settings.inventoryWorkers ≠ some 0

theorem fault?_eq_none_iff {settings : Settings} : settings.fault? = none ↔ settings.IsUsable := by
  constructor
  · intro well
    unfold fault? at well
    split_ifs at well with directory size removals workers
    obtain ⟨upgrade, inventory⟩ := not_or.mp workers
    exact ⟨directory, size, removals, upgrade, inventory⟩
  · intro usable
    rw [fault?, if_neg usable.baseDirectory, if_neg usable.maxSize, if_neg usable.maxRemovals,
      if_neg (not_or.mpr ⟨usable.upgradeWorkers, usable.inventoryWorkers⟩)]

theorem checked_eq_ok_iff {settings checked : Settings} :
    settings.checked = .ok checked ↔ checked = settings ∧ checked.IsUsable := by
  rw [Settings.checked]
  cases fault : settings.fault? with
  | some fault =>
    refine iff_of_false nofun ?_
    rintro ⟨rfl, usable⟩
    rw [fault?_eq_none_iff.mpr usable] at fault
    cases fault
  | none =>
    have usable := fault?_eq_none_iff.mp fault
    constructor
    · rintro ⟨⟩
      exact ⟨rfl, usable⟩
    · rintro ⟨rfl, -⟩
      rfl

theorem max_one_toNat {count : UInt64} (positive : count ≠ 0) :
    max 1 count.toNat = count.toNat := by
  apply Nat.max_eq_right
  rw [Nat.one_le_iff_ne_zero, Ne, ← UInt64.toNat_zero, UInt64.toNat_inj]
  exact positive

theorem IsUsable.effectiveUpgradeWorkers_eq {settings : Settings} (usable : settings.IsUsable)
    (available : Nat) :
    settings.effectiveUpgradeWorkers available =
      (settings.upgradeWorkers.map UInt64.toNat).getD (max 1 available) := by
  rw [effectiveUpgradeWorkers]
  cases set : settings.upgradeWorkers with
  | none => rfl
  | some count => exact max_one_toNat fun zero => usable.upgradeWorkers (zero ▸ set)

/-- A number of workers for an inventory is taken as it is where it is set, and otherwise the
hardware decides within bounds. -/
theorem IsUsable.effectiveInventoryWorkers_eq {settings : Settings} (usable : settings.IsUsable)
    (available : Nat) :
    settings.effectiveInventoryWorkers available =
      (settings.inventoryWorkers.map UInt64.toNat).getD (max 4 (min available 16)) := by
  rw [effectiveInventoryWorkers]
  cases set : settings.inventoryWorkers with
  | none =>
    simp only [Option.map_none, Option.getD_none, clampWorkers, fewestInventoryWorkers,
      mostInventoryWorkers]
    omega
  | some count => exact max_one_toNat fun zero => usable.inventoryWorkers (zero ▸ set)

/-! ## Loading -/

theorem load_of_gives {environment : Environment} {file : SettingsFile}
    {fromFile fromEnvironment : Patch} (gives : file.Gives fromFile)
    (overrides : EnvironmentGives environment fromEnvironment) :
    load environment file =
      ((fromEnvironment.or fromFile).onto (default environment)).checked.mapError .ofSettings := by
  have read := ofFile_of_gives gives (default environment)
  have merged := override_of_gives overrides (fromFile.onto (default environment))
  rw [load, read, Patch.onto_or]
  exact congrArg (· >>= fun settings => settings.checked.mapError Failure.ofSettings) merged

theorem exists_gives_of_load {environment : Environment} {file : SettingsFile}
    {settings : Settings} (loaded : load environment file = .ok settings) :
    ∃ fromFile fromEnvironment, file.Gives fromFile ∧
      EnvironmentGives environment fromEnvironment := by
  obtain ⟨merged, read, rest⟩ := bind_eq_ok_iff.mp loaded
  obtain ⟨_, overrides, -⟩ := bind_eq_ok_iff.mp rest
  obtain ⟨fromFile, gives⟩ := exists_gives_of_ofFile read
  obtain ⟨fromEnvironment, overrides⟩ := exists_gives_of_override overrides
  exact ⟨fromFile, fromEnvironment, gives, overrides⟩

theorem mapError_eq_ok_iff {result : Except SettingsFault Settings} {settings : Settings} :
    result.mapError Failure.ofSettings = .ok settings ↔ result = .ok settings := by
  cases result <;> simp [Except.mapError]

/-- Loading succeeds exactly if both sources can be read and the merged settings can be used. -/
theorem load_eq_ok_iff {environment : Environment} {file : SettingsFile} {settings : Settings} :
    load environment file = .ok settings ↔
      ∃ fromFile fromEnvironment, file.Gives fromFile ∧
        EnvironmentGives environment fromEnvironment ∧
        settings = fromEnvironment.onto (fromFile.onto (default environment)) ∧
        settings.IsUsable := by
  constructor
  · intro loaded
    obtain ⟨fromFile, fromEnvironment, gives, overrides⟩ := exists_gives_of_load loaded
    rw [load_of_gives gives overrides, mapError_eq_ok_iff, checked_eq_ok_iff, Patch.onto_or]
      at loaded
    exact ⟨fromFile, fromEnvironment, gives, overrides, loaded⟩
  · rintro ⟨fromFile, fromEnvironment, gives, overrides, merged⟩
    rw [load_of_gives gives overrides, mapError_eq_ok_iff, checked_eq_ok_iff, Patch.onto_or]
    exact merged

theorem build_eq_ok_iff {environment : Environment} {changes : List Change}
    {settings : Settings} :
    build environment changes = .ok settings ↔
      settings = changes.foldl change (default environment) ∧ settings.IsUsable :=
  checked_eq_ok_iff

/-- What it means that the environment wins over the file and the file over the defaults. -/
structure LoadsByPrecedence (environment : Environment) (file : SettingsFile) : Prop where
  /-- Loading succeeds exactly if both sources can be read and the merged settings can be used,
  and then it gives the merged settings. -/
  loads : ∀ settings, load environment file = .ok settings ↔
    ∃ fromFile fromEnvironment, file.Gives fromFile ∧
      EnvironmentGives environment fromEnvironment ∧
      settings = fromEnvironment.onto (fromFile.onto (default environment)) ∧ settings.IsUsable
  /-- What a file sets makes no difference where the environment overrides it. -/
  overridden : ∀ other fromFile fromOther fromEnvironment, file.Gives fromFile →
    SettingsFile.Gives fromOther other → EnvironmentGives environment fromEnvironment →
    fromEnvironment.or fromOther = fromEnvironment.or fromFile →
    load environment other = load environment file
  missing : ∀ path, load environment (.missing path) = load environment .notGiven
  /-- An object in a file sets the fields of its members and no others. -/
  written : ∀ (assignments : List Assignment) path, (assignments.map Assignment.name).Nodup →
    ∃ patch, SettingsFile.Gives patch (.content path
        (Utf8.encode (Json.writtenObject (assignments.map Assignment.member)).toList)) ∧
      ∀ assignment, patch.Sets assignment ↔ assignment ∈ assignments
  builds : ∀ changes settings, build environment changes = .ok settings ↔
    settings = changes.foldl change (default environment) ∧ settings.IsUsable
  /-- All settings that are given can be used, and there is always somebody to do the work. -/
  valid : ∀ settings, (load environment file = .ok settings ∨
      ∃ changes, build environment changes = .ok settings) →
    settings.checked = .ok settings ∧ ∀ available,
      1 ≤ settings.effectiveUpgradeWorkers available ∧
      1 ≤ settings.effectiveInventoryWorkers available ∧
      settings.effectiveUpgradeWorkers available =
        (settings.upgradeWorkers.map UInt64.toNat).getD (max 1 available) ∧
      settings.effectiveInventoryWorkers available =
        (settings.inventoryWorkers.map UInt64.toNat).getD (max 4 (min available 16))

/-- The environment wins over the settings file, and the file over the defaults; only the merged
settings are checked. -/
theorem load_follows_precedence (environment : Environment) (file : SettingsFile) :
    LoadsByPrecedence environment file := by
  refine
    { loads := fun _ => load_eq_ok_iff
      overridden := ?_
      missing := fun _ => rfl
      written := fun _ path distinct => exists_gives_written distinct path
      builds := fun _ _ => build_eq_ok_iff
      valid := ?_ }
  · intro other fromFile fromOther fromEnvironment gives gives' overrides same
    rw [load_of_gives gives overrides, load_of_gives gives' overrides, same]
  · intro settings given
    have usable : settings.IsUsable := by
      rcases given with loaded | ⟨changes, built⟩
      · obtain ⟨_, _, -, -, -, usable⟩ := load_eq_ok_iff.mp loaded
        exact usable
      · exact (build_eq_ok_iff.mp built).2
    refine ⟨checked_eq_ok_iff.mpr ⟨rfl, usable⟩, fun available => ⟨?_, ?_,
      usable.effectiveUpgradeWorkers_eq available, usable.effectiveInventoryWorkers_eq available⟩⟩
    · exact Nat.le_max_left _ _
    · exact Nat.le_max_left _ _

/-- An environment with a padded size, a blank directory, and a limit that is no text. -/
def sampleEnvironment : Environment where
  bindings := [(sizeVariable, DiskPath.nameOf " +7\t"), (directoryVariable, DiskPath.nameOf "  "),
    (removalsVariable, [0x35, 0xFF])]
  accountHome := none

/-- A settings file with a directory, a size that could not be used, and a number of workers. -/
def sampleFile : SettingsFile :=
  .content (.ofString "disk.json") (Utf8.encode (Json.writtenObject
    ([.maxSize 0, .inventoryWorkers (some 3), .baseDirectory "/c"].map Assignment.member)).toList)

/-- The size comes from the environment, the directory and the workers come from the file, and
everything else has its default. -/
theorem load_follows_precedence_three_sources :
    load sampleEnvironment sampleFile =
        .ok { baseDirectory := .ofString "/c", maxSize := 7, maxRemovals := 5000,
              upgradeWorkers := none, inventoryWorkers := some 3 } ∧
      LoadsByPrecedence sampleEnvironment sampleFile :=
  ⟨by rfl, load_follows_precedence _ _⟩

/-- A size that is no text is ignored like one that is not set, although it is neither blank nor
a number. -/
theorem load_ignores_malformed_size :
    let environment : Environment :=
      { bindings := [(sizeVariable, [0x35, 0xFF])], accountHome := none }
    environment.bindings.lookup sizeVariable = some [0x35, 0xFF] ∧
      (¬ ∃ text, Utf8.encode text = [0x35, 0xFF] ∧ ∀ c ∈ text, Text.isBlank c = true) ∧
      (¬ ∃ text body number, Utf8.encode text = [0x35, 0xFF] ∧ Text.IsPadded text body ∧
        Decimal.Writes body number) ∧
      load environment .notGiven = .ok (default environment) := by
  have noText : ∀ text, Utf8.encode text ≠ [0x35, 0xFF] := by
    intro text written
    have read := Utf8.decode?_encode text
    rw [written] at read
    cases read
  exact ⟨rfl, fun ⟨text, written, _⟩ => noText text written,
    fun ⟨text, _, _, written, _⟩ => noText text written, rfl⟩

end ArtifactCache.Settings
