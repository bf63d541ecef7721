import ArtifactCache.Entry.Json
import ArtifactCache.Proofs.Entry.Location
import ArtifactCache.Proofs.Json.Objects

/-! # Tokens that keep files in their shard

The place of an entry is written from the token of its file, and whoever writes it does not look
at the token again.  Without a slash in the token the place is a name in the shard of the entry.
With a slash it is not, and from there the token can lead anywhere.

A token that has been checked, drawn, or read in a file name consists of letters and digits.  A
stored file that is read from JSON has whatever token stands there, and any token can stand there.
-/

namespace ArtifactCache

open DiskPath Json

/-! ## How stored files come into being -/

theorem EntryName.Spells.isToken {text : List Char} {name : EntryName}
    (spells : Spells text name) : isToken name.token = true := by
  cases spells with
  | plain digest legacy segment => exact isToken_iff.mpr segment
  | sized digest legacy writes segment => exact isToken_iff.mpr segment

namespace StoredFile

/-- Whether a stored file has a token that was checked or drawn, or bears a name that was read. -/
inductive IsChecked : StoredFile → Prop
  | created {logicalSize diskSize legacy token file}
      (created : create? logicalSize diskSize legacy token = some file) : IsChecked file
  | drawn (logicalSize diskSize : UInt64) (legacy : Bool) {draws : List Nat}
      (enough : tokenLength ≤ draws.length) :
    IsChecked (.drawn logicalSize diskSize legacy draws)
  | named {text name} (parsed : EntryName.parse text = .ok name) (diskSize : UInt64) :
    IsChecked (.ofName name diskSize)

theorem isAlphanum_of_mem_tokenAlphabet {c : Char} (member : c ∈ tokenAlphabet) :
    c.isAlphanum = true :=
  List.all_eq_true.mp (by decide : tokenAlphabet.all Char.isAlphanum = true) c member

theorem isToken_drawnToken {draws : List Nat} (enough : tokenLength ≤ draws.length) :
    isToken (drawnToken draws) = true := by
  rw [isToken_iff, drawnToken, String.toList_ofList]
  constructor
  · intro nothing
    have length := congrArg List.length nothing
    rw [List.length_map, List.length_take, Nat.min_eq_left enough] at length
    cases length
  · intro c member
    obtain ⟨draw, -, rfl⟩ := List.mem_map.mp member
    have inside : draw % tokenAlphabet.length < tokenAlphabet.length :=
      Nat.mod_lt draw (by decide)
    rw [List.getD_eq_getElem?_getD, List.getElem?_eq_getElem inside, Option.getD_some]
    exact isAlphanum_of_mem_tokenAlphabet (List.getElem_mem inside)

theorem IsChecked.isToken {file : StoredFile} (checked : file.IsChecked) :
    isToken file.token = true := by
  cases checked with
  | created created =>
    rw [create?] at created
    split_ifs at created with valid
    cases created
    exact valid
  | drawn logicalSize diskSize legacy enough => exact isToken_drawnToken enough
  | named parsed diskSize => exact (EntryName.parse_eq_ok_iff.mp parsed).isToken

/-- A stored file is read from its own JSON, whatever token it has. -/
theorem run_toJson (file : StoredFile) :
    reader.run (Utf8.encode file.toJson.toList) = .ok file := by
  have reads : ReadsMembers fields []
      [("logical_size", Decimal.render file.logicalSize),
       ("size_on_disk", Decimal.render file.diskSize),
       ("legacy", writtenBoolean file.legacy),
       ("random", writtenText file.token),
       ("sized_name", writtenBoolean file.sizedName)]
      { logicalSize := 0, diskSize := 0, legacy := false, token := "", sizedName := false } file :=
    .field rfl rfl (fun closes rest => (takes_unsigned file.logicalSize _ closes rest).map _) <|
    .field rfl rfl (fun closes rest => (takes_unsigned file.diskSize _ closes rest).map _) <|
    .field rfl rfl (fun _ rest => (takes_boolean file.legacy _).map _) <|
    .field rfl rfl (fun _ rest => (takes_text file.token _ _).map _) <|
    .field rfl rfl (fun _ rest => (takes_boolean file.sizedName _).map _) <|
    .done rfl
  exact reads.run

end StoredFile

/-! ## Places in the shard -/

theorem components_placeOf_iff {key : Key} {file : StoredFile} :
    (placeOf key file).components = [.named key.kind.directoryName,
        .named (nameOf key.digest.shard), .named (nameOf (file.fileName key))] ↔
      '/' ∉ file.token.toList := by
  rw [← @StoredFile.slash_mem_fileName_iff file key]
  refine ⟨fun components => ?_, components_placeOf⟩
  have last : .named (nameOf (file.fileName key)) ∈ (placeOf key file).components := by
    simp [components]
  exact slash_notMem_of_named_mem last

/-- Whether the steps from a root to the place of an entry lead through the directory of its kind
and its shard to its file name, and nowhere else. -/
def Entry.StaysInShard (root : DiskPath) (entry : Entry) : Prop :=
  (root.join entry.place).steps = root.steps ++ entry.location.map .into

theorem Entry.staysInShard_iff {root : DiskPath} {entry : Entry} :
    entry.StaysInShard root ↔ '/' ∉ entry.2.token.toList := by
  rw [← @StoredFile.slash_mem_fileName_iff entry.2 entry.1, StaysInShard, place,
    steps_join (isAbsolute_placeOf _ _), List.append_cancel_left_eq]
  refine ⟨fun steps => ?_, steps_placeOf⟩
  have last : .into (nameOf entry.fileName) ∈ (placeOf entry.1 entry.2).steps := by
    simp [steps, location]
  exact slash_notMem_of_into_mem last

end ArtifactCache
