import ArtifactCache.Entry.Place
import ArtifactCache.Index.Basic
import ArtifactCache.Proofs.Disk.Paths
import ArtifactCache.Proofs.Text.Utf8

/-! # Different entries lie at different places

The directory of a place tells the kind, and the file name starts with the digest, so a
place determines the key of its entry and the file name.  This holds for every token,
also for one that could not be read again: whatever the token holds comes behind the
digest, and the digest has a fixed length.
-/

namespace ArtifactCache

/-! ## Names as bytes -/

theorem DiskPath.nameOf_injective : Function.Injective DiskPath.nameOf := by
  intro first second same
  exact String.toList_inj.mp (Utf8.encode_injective same)

theorem DiskPath.nameOf_of_textOf? {name : Name} {text : String}
    (spelled : textOf? name = some text) : nameOf text = name := by
  obtain ⟨characters, decoded, rfl⟩ := Option.map_eq_some_iff.mp spelled
  rw [nameOf, String.toList_ofList]
  exact Utf8.encode_of_decode? decoded

theorem DiskPath.textOf?_nameOf (text : String) : textOf? (nameOf text) = some text := by
  rw [textOf?, nameOf, Utf8.decode?_encode, Option.map_some, String.ofList_toList]

theorem DiskPath.slash_mem_nameOf_iff {text : String} :
    slash ∈ nameOf text ↔ '/' ∈ text.toList := by
  have single : ∀ c : Char, slash ∈ String.utf8EncodeChar c ↔ '/' = c := by
    intro c
    by_cases small : c.toNat < 0x80
    · rw [Utf8.utf8EncodeChar_of_lt small, List.mem_singleton, ← UInt8.toNat_inj,
        UInt8.toNat_ofNat_of_lt' (Nat.lt_trans small (by decide)), ← Char.toNat_inj]
      rfl
    · have wide := Utf8.le_of_mem_utf8EncodeChar (Nat.le_of_not_lt small)
      refine iff_of_false (fun member => absurd (wide slash member) (by decide)) ?_
      rintro rfl
      exact small (by decide)
  simp only [nameOf, Utf8.encode, List.mem_flatMap, single, exists_eq_right']

theorem isHexDigit_iff {c : Char} :
    isHexDigit c = true ↔
      (0x30 ≤ c.toNat ∧ c.toNat ≤ 0x39) ∨ (0x61 ≤ c.toNat ∧ c.toNat ≤ 0x66) := by
  simp only [isHexDigit, Char.isDigit, Bool.or_eq_true, Bool.and_eq_true, decide_eq_true_eq,
    UInt32.le_iff_toNat_le, Char.le_def, ge_iff_le]
  rfl

theorem toNat_lt_of_isHexDigit {c : Char} (hex : isHexDigit c = true) : c.toNat < 0x80 := by
  rcases isHexDigit_iff.mp hex with digit | letter <;> omega

theorem byte_ne_slash_of_isHexDigit {c : Char} (hex : isHexDigit c = true) :
    UInt8.ofNat c.toNat ≠ DiskPath.slash := by
  intro same
  have number := congrArg UInt8.toNat same
  rw [UInt8.toNat_ofNat_of_lt' (Nat.lt_trans (toNat_lt_of_isHexDigit hex) (by decide))] at number
  rcases isHexDigit_iff.mp hex with digit | letter
  · exact absurd (number ▸ digit.1) (by decide)
  · exact absurd (number ▸ letter.1) (by decide)

namespace Digest

theorem ext {first second : Digest} (same : first.text = second.text) : first = second := by
  cases first
  cases second
  cases same
  rfl

/-- The digest that repeats one digit. -/
def uniform (digit : Char) (hex : isHexDigit digit = true) : Digest where
  text := String.ofList (List.replicate digestLength digit)
  valid := by simp [isDigestText, hex]

theorem exists_text (digest : Digest) : ∃ first second rest,
    digest.text.toList = first :: second :: rest ∧ isHexDigit first = true ∧
      isHexDigit second = true := by
  have length := digest.length_text
  have hex : ∀ c ∈ digest.text.toList, isHexDigit c = true := fun _ => isHexDigit_of_mem
  match split : digest.text.toList with
  | [] | [_] => rw [split] at length; cases length
  | first :: second :: rest =>
    rw [split] at hex
    exact ⟨first, second, rest, rfl, hex first (by simp), hex second (by simp)⟩

theorem exists_nameOf_shard (digest : Digest) : ∃ first second,
    DiskPath.nameOf digest.shard = [first, second] ∧ first ≠ DiskPath.slash ∧
      second ≠ DiskPath.slash := by
  obtain ⟨first, second, rest, text, hexFirst, hexSecond⟩ := digest.exists_text
  refine ⟨_, _, ?_, byte_ne_slash_of_isHexDigit hexFirst,
    byte_ne_slash_of_isHexDigit hexSecond⟩
  rw [DiskPath.nameOf, shard, text, String.toList_ofList]
  simp only [List.take_succ_cons, List.take_zero, Utf8.encode_cons, Utf8.encode_nil,
    Utf8.utf8EncodeChar_of_lt (toNat_lt_of_isHexDigit hexFirst),
    Utf8.utf8EncodeChar_of_lt (toNat_lt_of_isHexDigit hexSecond)]
  rfl

end Digest

theorem StoredFile.exists_fileName (file : StoredFile) (key : Key) :
    ∃ rest, (file.fileName key).toList = key.digest.text.toList ++ rest := by
  simp only [fileName, EntryName.render, name, String.toList_append, List.append_assoc]
  exact ⟨_, rfl⟩

theorem StoredFile.exists_nameOf_fileName (file : StoredFile) (key : Key) :
    ∃ first rest, DiskPath.nameOf (file.fileName key) = first :: rest ∧
      first ≠ DiskPath.slash := by
  obtain ⟨behind, split⟩ := file.exists_fileName key
  obtain ⟨first, second, rest, text, hexFirst, -⟩ := key.digest.exists_text
  refine ⟨_, Utf8.encode (second :: rest ++ behind), ?_, byte_ne_slash_of_isHexDigit hexFirst⟩
  rw [DiskPath.nameOf, split, text, List.cons_append, Utf8.encode_cons,
    Utf8.utf8EncodeChar_of_lt (toNat_lt_of_isHexDigit hexFirst), List.singleton_append]

/-! ## Places -/

namespace Kind

def directoryName (kind : Kind) : Name :=
  DiskPath.nameOf kind.directory

theorem isPlain_directoryName (kind : Kind) : DiskPath.IsPlain kind.directoryName :=
  DiskPath.isPlainName_iff.mp (by cases kind <;> decide +kernel)

theorem directory_injective : Function.Injective directory := by
  intro first second same
  have found := ofDirectory?_directory first
  rw [same, ofDirectory?_directory] at found
  exact (Option.some.inj found).symm

end Kind

theorem bytes_placeOf (key : Key) (file : StoredFile) :
    (placeOf key file).bytes =
      key.kind.directoryName ++ DiskPath.slash :: (DiskPath.nameOf key.digest.shard ++
        DiskPath.slash :: DiskPath.nameOf (file.fileName key)) := by
  have plain := key.kind.isPlain_directoryName
  obtain ⟨first, second, shard, firstOther, secondOther⟩ := key.digest.exists_nameOf_shard
  obtain ⟨head, tail, fileName, headOther⟩ := file.exists_nameOf_fileName key
  have shardRelative : (DiskPath.ofString key.digest.shard).isAbsolute = false := by
    rw [DiskPath.ofString, shard, DiskPath.isAbsolute, beq_eq_false_iff_ne]
    exact fun same => firstOther (Option.some.inj same)
  have nameRelative : (DiskPath.ofString (file.fileName key)).isAbsolute = false := by
    rw [DiskPath.ofString, fileName, DiskPath.isAbsolute, beq_eq_false_iff_ne]
    exact fun same => headOther (Option.some.inj same)
  have kindUnready : ((DiskPath.ofString key.kind.directory).bytes.isEmpty ||
      (DiskPath.ofString key.kind.directory).endsInSlash) = false :=
    Bool.or_eq_false_iff.mpr
      ⟨List.isEmpty_eq_false_iff.mpr plain.nonempty, plain.endsInSlash_append []⟩
  have shardUnready : ∀ before : List UInt8,
      ((before ++ DiskPath.slash :: [first, second]).isEmpty ||
        DiskPath.endsInSlash ⟨before ++ DiskPath.slash :: [first, second]⟩) = false := by
    intro before
    refine Bool.or_eq_false_iff.mpr ⟨by simp, ?_⟩
    rw [DiskPath.endsInSlash, beq_eq_false_iff_ne, List.getLast?_append]
    exact fun same => secondOther (Option.some.inj same)
  rw [placeOf, DiskPath.join_of_not_ready shardRelative kindUnready, DiskPath.join_of_not_ready]
  · simp only [DiskPath.ofString, Kind.directoryName, List.append_assoc, List.cons_append]
  · exact nameRelative
  · rw [DiskPath.ofString, DiskPath.ofString, shard]
    exact shardUnready _

theorem digest_eq_of_fileName_eq {key other : Key} {file file' : StoredFile}
    (same : file.fileName key = file'.fileName other) : key.digest = other.digest := by
  obtain ⟨rest, split⟩ := file.exists_fileName key
  obtain ⟨rest', split'⟩ := file'.exists_fileName other
  rw [same, split'] at split
  have text := (List.append_inj split (by rw [Digest.length_text, Digest.length_text])).1
  exact Digest.ext (String.toList_inj.mp text).symm

theorem placeOf_eq_placeOf_iff {key other : Key} {file file' : StoredFile} :
    placeOf key file = placeOf other file' ↔
      key.kind = other.kind ∧ file.fileName key = file'.fileName other := by
  constructor
  · intro same
    have bytes := congrArg DiskPath.bytes same
    rw [bytes_placeOf, bytes_placeOf] at bytes
    have parts := congrArg DiskPath.segments bytes
    simp only [DiskPath.segments_append_slash, List.singleton_append, List.cons.injEq,
      DiskPath.segments_of_notMem (Kind.isPlain_directoryName _).single] at parts
    have kinds : key.kind = other.kind :=
      Kind.directory_injective (DiskPath.nameOf_injective parts.1)
    rw [kinds, List.append_cancel_left_eq, List.cons.injEq] at bytes
    obtain ⟨first, second, shard, -, -⟩ := key.digest.exists_nameOf_shard
    obtain ⟨first', second', shard', -, -⟩ := other.digest.exists_nameOf_shard
    have names := (List.append_inj bytes.2 (by rw [shard, shard']; rfl)).2
    exact ⟨kinds, DiskPath.nameOf_injective (List.cons.inj names).2⟩
  · rintro ⟨kinds, names⟩
    have bytes : (placeOf key file).bytes = (placeOf other file').bytes := by
      rw [bytes_placeOf, bytes_placeOf, kinds, names, digest_eq_of_fileName_eq names]
    exact congrArg DiskPath.mk bytes

def Entry.place (entry : Entry) : DiskPath :=
  placeOf entry.1 entry.2

/-- Entries share a place only if they share the key, and then the file name decides. -/
theorem Entry.place_eq_place_iff {entry other : Entry} :
    entry.place = other.place ↔ entry.1 = other.1 ∧ entry.fileName = other.fileName := by
  rw [place, place, placeOf_eq_placeOf_iff]
  constructor
  · rintro ⟨kinds, names⟩
    have digests := digest_eq_of_fileName_eq names
    obtain ⟨⟨kind, digest⟩, file⟩ := entry
    obtain ⟨⟨kind', digest'⟩, file'⟩ := other
    cases kinds
    cases digests
    exact ⟨rfl, names⟩
  · rintro ⟨keys, names⟩
    exact ⟨congrArg Key.kind keys, names⟩

end ArtifactCache
