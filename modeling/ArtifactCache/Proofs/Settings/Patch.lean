import ArtifactCache.Proofs.Entry.Place
import ArtifactCache.Proofs.Json.Changes
import ArtifactCache.Proofs.Json.Objects
import ArtifactCache.Settings.Load

/-! # What a source of settings sets

Each source of settings sets some of the fields and leaves the others alone, so it can be put over
any settings.  A settings file that can be read at all sets the same fields to the same values
whatever the defaults are.  An object with one member for each of some fields, in any order, sets
these fields to the values of its members and no others.
-/

namespace ArtifactCache

namespace Settings

/-- The fields that a source sets, with their values.  A file may set a number of workers to
none. -/
structure Patch where
  baseDirectory : Option DiskPath := none
  maxSize : Option UInt64 := none
  maxRemovals : Option UInt64 := none
  upgradeWorkers : Option (Option UInt64) := none
  inventoryWorkers : Option (Option UInt64) := none

namespace Patch

/-- The settings with what a source sets. -/
def onto (patch : Patch) (settings : Settings) : Settings where
  baseDirectory := patch.baseDirectory.getD settings.baseDirectory
  maxSize := patch.maxSize.getD settings.maxSize
  maxRemovals := patch.maxRemovals.getD settings.maxRemovals
  upgradeWorkers := patch.upgradeWorkers.getD settings.upgradeWorkers
  inventoryWorkers := patch.inventoryWorkers.getD settings.inventoryWorkers

/-- What two sources set together, the first of which wins. -/
def or (first second : Patch) : Patch where
  baseDirectory := first.baseDirectory.or second.baseDirectory
  maxSize := first.maxSize.or second.maxSize
  maxRemovals := first.maxRemovals.or second.maxRemovals
  upgradeWorkers := first.upgradeWorkers.or second.upgradeWorkers
  inventoryWorkers := first.inventoryWorkers.or second.inventoryWorkers

theorem onto_or (first second : Patch) (settings : Settings) :
    (first.or second).onto settings = first.onto (second.onto settings) := by
  simp only [onto, or, Option.getD_or]

end Patch

def IsPatch (change : Settings → Settings) : Prop :=
  ∃ patch : Patch, change = patch.onto

theorem isClosed_isPatch : Json.IsClosed IsPatch where
  id := ⟨{}, rfl⟩
  comp := by
    rintro _ _ ⟨first, rfl⟩ ⟨second, rfl⟩
    exact ⟨second.or first, funext fun settings => (second.onto_or first settings).symm⟩

/-- Each field of a settings file sets the field that it is about. -/
theorem isPatch_of_fields : ∀ field ∈ fields, Json.Yields IsPatch field.read := by
  intro field member
  simp only [fields, List.mem_cons, List.not_mem_nil, or_false] at member
  rcases member with rfl | rfl | rfl | rfl | rfl
  · exact .bind fun path => .pure ⟨{ baseDirectory := some (.ofString path) }, rfl⟩
  · exact .bind fun bytes => .pure ⟨{ maxSize := some bytes }, rfl⟩
  · exact .bind fun count => .pure ⟨{ maxRemovals := some count }, rfl⟩
  · exact .bind fun count => .pure ⟨{ upgradeWorkers := some count }, rfl⟩
  · exact .bind fun count => .pure ⟨{ inventoryWorkers := some count }, rfl⟩

/-- A text is refused over all settings, or it is a source that sets the same fields over all of
them. -/
theorem parse_alike (bytes : List UInt8) :
    (∃ failure, ∀ defaults, parse defaults bytes = .error failure) ∨
      ∃ patch : Patch, ∀ defaults, parse defaults bytes = .ok (patch.onto defaults) := by
  have alike : Json.ChangesAlike IsPatch reader :=
    Json.record_alike isClosed_isPatch isPatch_of_fields _
  rcases alike.run isClosed_isPatch bytes with ⟨fault, refused⟩ | ⟨_, ⟨patch, rfl⟩, read⟩
  · exact .inl ⟨.ofSettings (.malformed fault.message),
      fun defaults => congrArg _ (refused defaults)⟩
  · exact .inr ⟨patch, fun defaults => congrArg _ (read defaults)⟩

end Settings

/-! ## Files -/

open Settings

/-- Whether a settings file sets certain fields.  One that cannot be read sets nothing that could
be used. -/
def SettingsFile.Gives (patch : Patch) : SettingsFile → Prop
  | .notGiven | .missing _ => patch = {}
  | .unreadable _ _ => False
  | .content _ bytes => (Utf8.decode? bytes).isSome ∧
      ∀ defaults, parse defaults bytes = .ok (patch.onto defaults)

namespace Settings

theorem ofFile_of_gives {file : SettingsFile} {patch : Patch} (gives : file.Gives patch)
    (defaults : Settings) : ofFile defaults file = .ok (patch.onto defaults) := by
  cases file with
  | notGiven | missing =>
    obtain rfl := gives
    rfl
  | unreadable => exact gives.elim
  | content path bytes =>
    obtain ⟨text, read⟩ := gives
    rw [ofFile, if_neg (by simp [Option.isSome_iff_ne_none.mp text]), read]

theorem exists_gives_of_ofFile {file : SettingsFile} {defaults settings : Settings}
    (read : ofFile defaults file = .ok settings) : ∃ patch, file.Gives patch := by
  cases file with
  | notGiven | missing => exact ⟨{}, rfl⟩
  | unreadable => cases read
  | content path bytes =>
    rw [ofFile] at read
    split at read
    · cases read
    · rename_i text
      rcases parse_alike bytes with ⟨failure, refused⟩ | ⟨patch, reads⟩
      · rw [refused] at read
        cases read
      · exact ⟨patch, by simpa [Option.isNone_iff_eq_none, Option.isSome_iff_ne_none] using text,
          reads⟩

/-! ## Written objects -/

/-- A field of the settings with a value that a file can give it. -/
inductive Assignment where
  | baseDirectory (text : String)
  | maxSize (bytes : UInt64)
  | maxRemovals (count : UInt64)
  | upgradeWorkers (count : Option UInt64)
  | inventoryWorkers (count : Option UInt64)

namespace Assignment

def name : Assignment → String
  | .baseDirectory _ => "baseDir"
  | .maxSize _ => "maxSizeBytes"
  | .maxRemovals _ => "maxConcurrentRemovals"
  | .upgradeWorkers _ => "migrationWorkers"
  | .inventoryWorkers _ => "scanWorkers"

/-- The value as it is written in a file. -/
def written : Assignment → String
  | .baseDirectory text => Json.writtenText text
  | .maxSize number | .maxRemovals number => Decimal.render number
  | .upgradeWorkers count | .inventoryWorkers count => Json.writtenOptional count

/-- The member of an object that sets the field. -/
def member (assignment : Assignment) : String × String :=
  (assignment.name, assignment.written)

end Assignment

/-- The source that also sets a field to a value. -/
def Patch.set (patch : Patch) : Assignment → Patch
  | .baseDirectory text => { patch with baseDirectory := some (.ofString text) }
  | .maxSize bytes => { patch with maxSize := some bytes }
  | .maxRemovals count => { patch with maxRemovals := some count }
  | .upgradeWorkers count => { patch with upgradeWorkers := some count }
  | .inventoryWorkers count => { patch with inventoryWorkers := some count }

def Patch.Sets (patch : Patch) : Assignment → Prop
  | .baseDirectory text => patch.baseDirectory = some (.ofString text)
  | .maxSize bytes => patch.maxSize = some bytes
  | .maxRemovals count => patch.maxRemovals = some count
  | .upgradeWorkers count => patch.upgradeWorkers = some count
  | .inventoryWorkers count => patch.inventoryWorkers = some count

theorem ofString_inj {text other : String} :
    DiskPath.ofString text = DiskPath.ofString other ↔ text = other := by
  rw [DiskPath.ofString, DiskPath.ofString, DiskPath.mk.injEq, DiskPath.nameOf_injective.eq_iff]

theorem Patch.sets_set {patch : Patch} {assignment other : Assignment} :
    (patch.set assignment).Sets other ↔
      other = assignment ∨ other.name ≠ assignment.name ∧ patch.Sets other := by
  cases assignment <;> cases other <;>
    simp [Patch.set, Patch.Sets, Assignment.name, ofString_inj, eq_comm]

theorem Patch.sets_foldl {assignments : List Assignment}
    (distinct : (assignments.map Assignment.name).Nodup) (patch : Patch) {other : Assignment} :
    (assignments.foldl set patch).Sets other ↔
      other ∈ assignments ∨ other.name ∉ assignments.map Assignment.name ∧ patch.Sets other := by
  induction assignments generalizing patch with
  | nil => simp
  | cons assignment assignments ih =>
    obtain ⟨fresh, distinct⟩ := List.nodup_cons.mp distinct
    -- What is set first is not overwritten, because no name comes twice.
    have own : other = assignment → other.name ∉ assignments.map Assignment.name := by
      rintro rfl
      exact fresh
    rw [List.foldl_cons, ih distinct, sets_set, List.map_cons, List.mem_cons, List.mem_cons]
    tauto

/-- Every assignment is read as a change that sets its field. -/
theorem exists_field (assignment : Assignment) : ∃ field change,
    fields.find? (fun field => field.name = assignment.name) = some field ∧
      (∀ {byte}, Json.ClosesValue byte → ∀ rest,
        Json.Takes field.read (Utf8.encode assignment.written.toList) (byte :: rest) change) ∧
      ∀ (patch : Patch) settings,
        change (patch.onto settings) = (patch.set assignment).onto settings := by
  cases assignment with
  | baseDirectory text =>
    exact ⟨_, _, rfl, fun _ rest => (Json.takes_text text _ _).map _, fun _ _ => rfl⟩
  | maxSize bytes =>
    exact ⟨_, _, rfl, fun closes rest => (Json.takes_unsigned bytes _ closes rest).map _,
      fun _ _ => rfl⟩
  | maxRemovals count =>
    exact ⟨_, _, rfl, fun closes rest => (Json.takes_unsigned count _ closes rest).map _,
      fun _ _ => rfl⟩
  | upgradeWorkers count | inventoryWorkers count =>
    exact ⟨_, _, rfl, fun closes rest => (Json.takes_optional count _ closes rest).map _,
      fun _ _ => rfl⟩

theorem readsMembers_assignments {assignments : List Assignment} {seen : List String}
    (distinct : (assignments.map Assignment.name).Nodup)
    (fresh : ∀ assignment ∈ assignments, assignment.name ∉ seen) (patch : Patch)
    (settings : Settings) :
    Json.ReadsMembers fields seen (assignments.map Assignment.member) (patch.onto settings)
      ((assignments.foldl Patch.set patch).onto settings) := by
  induction assignments generalizing seen patch with
  | nil => exact .done rfl
  | cons assignment assignments ih =>
    obtain ⟨new, distinct⟩ := List.nodup_cons.mp distinct
    obtain ⟨unseen, fresh⟩ := List.forall_mem_cons.mp fresh
    obtain ⟨field, change, known, reads, sets⟩ := exists_field assignment
    refine .field known (by simpa using unseen) reads (sets patch settings ▸ ih distinct ?_ _)
    intro other member seenAlready
    rcases List.mem_cons.mp seenAlready with same | old
    · exact new (same ▸ List.mem_map_of_mem member)
    · exact fresh other member old

/-- An object with members for some fields, in any order, sets these fields and no others. -/
theorem exists_gives_written {assignments : List Assignment}
    (distinct : (assignments.map Assignment.name).Nodup) (path : DiskPath) : ∃ patch : Patch,
      (SettingsFile.content path
        (Utf8.encode (Json.writtenObject (assignments.map Assignment.member)).toList)).Gives patch ∧
      ∀ assignment, patch.Sets assignment ↔ assignment ∈ assignments := by
  refine ⟨assignments.foldl Patch.set {}, ⟨?_, fun defaults => ?_⟩, fun assignment => ?_⟩
  · rw [Utf8.decode?_encode, Option.isSome_some]
  · have reads : Json.ReadsMembers fields [] (assignments.map Assignment.member) defaults _ :=
      readsMembers_assignments distinct (fun _ _ => List.not_mem_nil) {} defaults
    rw [parse, reader, reads.run]
    rfl
  · rw [Patch.sets_foldl distinct]
    cases assignment <;> simp [Patch.Sets]

end Settings

end ArtifactCache
