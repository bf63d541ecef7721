import ArtifactCache.Proofs.Decimal.Word
import ArtifactCache.Proofs.Outcome
import ArtifactCache.Proofs.Settings.Patch
import Mathlib.Data.List.TakeWhile

/-! # What the environment sets

A variable takes part in the settings if it is set to a text that is not blank.  A directory is
taken as it stands.  A number may have blanks around it and a plus sign in front, and everything
else in its place is refused.
-/

namespace ArtifactCache

/-! ## Texts without the blanks around them -/

namespace Text

/-- Whether a text consists of another one with blanks around it. -/
def IsPadded (text body : List Char) : Prop :=
  ∃ before after, text = before ++ body ++ after ∧ ∀ c ∈ before ++ after, isBlank c = true

theorem isPadded_trim (text : List Char) : IsPadded text (trim text) := by
  refine ⟨text.takeWhile isBlank, ((text.dropWhile isBlank).reverse.takeWhile isBlank).reverse,
    ?_, ?_⟩
  · rw [trim, List.append_assoc, ← List.reverse_append, List.takeWhile_append_dropWhile,
      List.reverse_reverse, List.takeWhile_append_dropWhile]
  · intro c member
    rcases List.mem_append.mp member with front | back
    · exact List.mem_takeWhile_imp front
    · exact List.mem_takeWhile_imp (List.mem_reverse.mp back)

theorem dropWhile_of_head? {text : List Char} (starts : ∀ c ∈ text.head?, isBlank c = false) :
    text.dropWhile isBlank = text := by
  cases text with
  | nil => rfl
  | cons c text => exact List.dropWhile_cons_of_neg (by simp [starts c rfl])

/-- A text that neither starts nor ends with a blank is what is left of every padded one. -/
theorem trim_of_isPadded {text body : List Char} (padded : IsPadded text body)
    (nonempty : body ≠ []) (starts : ∀ c ∈ body.head?, isBlank c = false)
    (ends : ∀ c ∈ body.getLast?, isBlank c = false) : trim text = body := by
  obtain ⟨before, after, rfl, blank⟩ := padded
  obtain ⟨front, back⟩ := List.forall_mem_append.mp blank
  have starts' : ∀ c ∈ (body ++ after).head?, isBlank c = false := by
    rwa [List.head?_append_of_ne_nil _ nonempty]
  have ends' : ∀ c ∈ body.reverse.head?, isBlank c = false := by
    rwa [List.head?_reverse]
  rw [trim, List.append_assoc, List.dropWhile_append_of_pos front, dropWhile_of_head? starts',
    List.reverse_append, List.dropWhile_append_of_pos (by simpa using back),
    dropWhile_of_head? ends', List.reverse_reverse]

theorem trim_eq_nil_iff {text : List Char} : trim text = [] ↔ ∀ c ∈ text, isBlank c = true := by
  constructor
  · intro nothing
    obtain ⟨before, after, split, blank⟩ := isPadded_trim text
    rw [nothing, List.append_nil] at split
    rwa [split]
  · intro blank
    rw [trim, List.dropWhile_eq_nil_iff.mpr blank]
    rfl

end Text

/-! ## Numbers -/

namespace Decimal

theorem isBlank_of_isDigit {c : Char} (digit : c.isDigit = true) : Text.isBlank c = false := by
  obtain ⟨low, high⟩ := Char.isDigit_iff_toNat.mp digit
  simp only [Char.reduceToNat] at low high
  simp [Text.isBlank]
  omega

/-- What writes a word is left when the blanks around it are taken away. -/
theorem Writes.trim {text body : List Char} {word : UInt64} (writes : Writes body word)
    (padded : Text.IsPadded text body) : Text.trim text = body := by
  obtain ⟨digits, signed, nonempty, isDigit, -⟩ := writes
  have solid : ∀ c ∈ body, Text.isBlank c = false := by
    rcases signed with rfl | rfl
    · exact fun c member => isBlank_of_isDigit (isDigit c member)
    · exact List.forall_mem_cons.mpr ⟨rfl, fun c member => isBlank_of_isDigit (isDigit c member)⟩
  have nonempty : body ≠ [] := by
    rcases signed with rfl | rfl
    · exact nonempty
    · exact List.cons_ne_nil _ _
  exact Text.trim_of_isPadded padded nonempty (fun c first => solid c (List.mem_of_mem_head? first))
    (fun c last => solid c (List.mem_of_getLast? last))

end Decimal

/-! ## The environment -/

/-- Whether a variable is set to a text that is not blank. -/
def Environment.Sets (environment : Environment) (variableName value : String) : Prop :=
  environment.bindings.lookup variableName = some (DiskPath.nameOf value) ∧
    ∃ c ∈ value.toList, Text.isBlank c = false

theorem Environment.setting?_eq_some_iff {environment : Environment}
    {variableName value : String} :
    environment.setting? variableName = some value ↔ environment.Sets variableName value := by
  have solid : (!(Text.trim value.toList).isEmpty) = true ↔
      ∃ c ∈ value.toList, Text.isBlank c = false := by
    rw [Bool.not_eq_true', ← Bool.not_eq_true, List.isEmpty_iff, Text.trim_eq_nil_iff]
    push Not
    simp only [Bool.not_eq_true]
  rw [setting?, Option.filter_eq_some_iff, solid, text?, Option.bind_eq_some_iff, Sets]
  refine and_congr_left fun _ => ⟨?_, fun found => ⟨_, found, DiskPath.textOf?_nameOf value⟩⟩
  rintro ⟨bytes, found, spelled⟩
  rw [DiskPath.nameOf_of_textOf? spelled, found]

namespace Settings

/-- Whether a variable gives a number, or none if it does not take part. -/
def GivesNumber (environment : Environment) (variableName : String) : Option UInt64 → Prop
  | none => ∀ value, ¬ environment.Sets variableName value
  | some number => ∃ value body, environment.Sets variableName value ∧
      Text.IsPadded value.toList body ∧ Decimal.Writes body number

/-- Whether the environment sets certain fields. -/
structure EnvironmentGives (environment : Environment) (patch : Patch) : Prop where
  baseDirectory : ∀ path, patch.baseDirectory = some path ↔
    ∃ value, environment.Sets directoryVariable value ∧ .ofString value = path
  maxSize : GivesNumber environment sizeVariable patch.maxSize
  maxRemovals : GivesNumber environment removalsVariable patch.maxRemovals
  upgradeWorkers : patch.upgradeWorkers = none
  inventoryWorkers : patch.inventoryWorkers = none

theorem variableNumber?_eq_ok_iff {environment : Environment} {variableName : String}
    {number : Option UInt64} :
    variableNumber? environment variableName = .ok number ↔
      GivesNumber environment variableName number := by
  rw [variableNumber?]
  cases setting : environment.setting? variableName with
  | none =>
    have unset : ∀ value, ¬ environment.Sets variableName value := by
      intro value sets
      rw [← Environment.setting?_eq_some_iff, setting] at sets
      cases sets
    cases number with
    | none => exact iff_of_true rfl unset
    | some number => exact iff_of_false nofun fun ⟨value, _, sets, _⟩ => unset value sets
  | some value =>
    have sets := Environment.setting?_eq_some_iff.mp setting
    dsimp only
    cases number with
    | none =>
      refine iff_of_false ?_ fun unset => unset value sets
      split <;> exact nofun
    | some number =>
      constructor
      · intro read
        split at read
        · rename_i found readSigned
          obtain rfl : found = number := by simpa using read
          exact ⟨value, _, sets, Text.isPadded_trim _,
            Decimal.readSigned?_eq_some_iff.mp readSigned⟩
        · cases read
      · rintro ⟨other, body, sets', padded, writes⟩
        rw [← Environment.setting?_eq_some_iff, setting, Option.some_inj] at sets'
        subst sets'
        rw [writes.trim padded, Decimal.readSigned?_eq_some_iff.mpr writes]

/-- What the environment sets is put over the settings. -/
theorem override_of_gives {environment : Environment} {patch : Patch}
    (gives : EnvironmentGives environment patch) (settings : Settings) :
    override environment settings = .ok (patch.onto settings) := by
  have directory :
      patch.baseDirectory = (environment.setting? directoryVariable).map DiskPath.ofString := by
    ext path
    rw [gives.baseDirectory, Option.map_eq_some_iff]
    simp only [Environment.setting?_eq_some_iff]
  rw [override, variableNumber?_eq_ok_iff.mpr gives.maxSize,
    variableNumber?_eq_ok_iff.mpr gives.maxRemovals]
  simp only [Patch.onto, directory, gives.upgradeWorkers, gives.inventoryWorkers,
    Option.getD_none]
  rfl

theorem exists_gives_of_override {environment : Environment} {settings merged : Settings}
    (overrides : override environment settings = .ok merged) :
    ∃ patch, EnvironmentGives environment patch := by
  obtain ⟨maxSize, size, overrides⟩ := bind_eq_ok_iff.mp overrides
  obtain ⟨maxRemovals, removals, -⟩ := bind_eq_ok_iff.mp overrides
  refine ⟨{ baseDirectory := (environment.setting? directoryVariable).map DiskPath.ofString,
            maxSize, maxRemovals }, ?_, variableNumber?_eq_ok_iff.mp size,
    variableNumber?_eq_ok_iff.mp removals, rfl, rfl⟩
  intro path
  rw [Option.map_eq_some_iff]
  simp only [Environment.setting?_eq_some_iff]

end Settings

end ArtifactCache
