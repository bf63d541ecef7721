import ArtifactCache.Proofs.Entry.Grammar
import ArtifactCache.Proofs.Entry.Place

/-! # Reading and writing places are inverse

A path is read as the place of an entry exactly if it leads through the directory of a kind
and a shard to a name that belongs there, and then the entry is written to the same place.
Conversely an entry is read back from its place, with all that its name can carry.  Only
the size of a blob cannot be carried if it is zero.
-/

namespace ArtifactCache

open DiskPath

/-! ## The names of files -/

theorem isToken_iff {token : String} :
    isToken token = true ↔ EntryName.IsSegment token.toList := by
  rw [isToken, Option.isNone_iff_eq_none, EntryName.tokenFault?_eq_none_iff]

theorem Kind.recordsSize_iff {kind : Kind} : kind.recordsSize = true ↔ kind = .content := by
  cases kind <;> decide

namespace StoredFile

/-- Whether the name of a file would have to carry the size zero. -/
def NamesZero (file : StoredFile) (key : Key) : Prop :=
  key.kind = .content ∧ file.sizedName = true ∧ file.logicalSize = 0

instance (file : StoredFile) (key : Key) : Decidable (file.NamesZero key) :=
  inferInstanceAs (Decidable (_ ∧ _ ∧ _))

theorem logicalSize_name (file : StoredFile) (key : Key) :
    (file.name key).logicalSize =
      if key.kind = .content ∧ file.sizedName = true then some file.logicalSize else none := by
  simp only [name, Bool.and_eq_true, Kind.recordsSize_iff]

theorem namesZero_iff {file : StoredFile} {key : Key} :
    file.NamesZero key ↔ (file.name key).logicalSize = some 0 := by
  rw [logicalSize_name, NamesZero]
  split <;> simp_all

/-- The name of a file with a proper token can be read, unless it carries the size zero. -/
theorem spells_fileName {file : StoredFile} {key : Key} (valid : isToken file.token = true)
    (positive : ¬ file.NamesZero key) :
    EntryName.Spells (file.fileName key).toList (file.name key) :=
  EntryName.spells_render (isToken_iff.mp valid) (mt namesZero_iff.mpr positive)

theorem parse_fileName {file : StoredFile} {key : Key} (valid : isToken file.token = true) :
    EntryName.parse (file.fileName key) =
      if file.NamesZero key then .error { input := file.fileName key, fault := .size }
      else .ok (file.name key) := by
  split
  next zero =>
    have refused := EntryName.read_render_of_zero (isToken_iff.mp valid) (namesZero_iff.mp zero)
    rw [EntryName.parse, fileName, refused]
    rfl
  next positive => exact EntryName.parse_eq_ok_iff.mpr (spells_fileName valid positive)

theorem name_ofName {name : EntryName} {key : Key} (size : UInt64)
    (digest : name.digest = key.digest) (sized : name.logicalSize.isSome → key.kind = .content) :
    (ofName name size).name key = name := by
  obtain ⟨nameDigest, logicalSize, token, legacy⟩ := name
  obtain rfl : nameDigest = key.digest := digest
  cases logicalSize with
  | none => simp [StoredFile.name, ofName]
  | some logicalSize =>
    have records : key.kind.recordsSize = true := Kind.recordsSize_iff.mpr (sized rfl)
    simp [StoredFile.name, ofName, records]

theorem ofName_name {file : StoredFile} {key : Key} :
    .ofName (file.name key) file.diskSize =
      if key.kind = .content ∧ file.sizedName = true then file
      else { file with logicalSize := file.diskSize, sizedName := false } := by
  rw [ofName, logicalSize_name]
  split
  next sized =>
    obtain ⟨logicalSize, diskSize, legacy, token, sizedName⟩ := file
    obtain ⟨-, rfl⟩ := sized
    rfl
  next => rfl

end StoredFile

/-! ## The characters of names -/

/-- A name consists of letters, digits, dashes and dots. -/
theorem EntryName.Spells.characters {text : List Char} {name : EntryName}
    (spells : Spells text name) {c : Char} (member : c ∈ text) :
    c.isAlphanum = true ∨ c = '-' ∨ c = '.' := by
  have ofDigest : ∀ digest : Digest, c ∈ digest.text.toList → c.isAlphanum = true :=
    fun digest inside => isAlphanum_of_isHexDigit (Digest.isHexDigit_of_mem inside)
  have ofMark : ∀ legacy, c ∈ mark legacy → c.isAlphanum = true ∨ c = '.' := by
    intro legacy inside
    cases legacy with
    | false => cases inside
    | true =>
      have among : c ∈ ['.', 'v', '1'] := inside
      simp only [List.mem_cons, List.not_mem_nil, or_false] at among
      rcases among with rfl | rfl | rfl
      · exact .inr rfl
      · exact .inl rfl
      · exact .inl rfl
  cases spells with
  | plain digest legacy isToken =>
    simp only [List.mem_append, List.mem_cons] at member
    rcases member with (inDigest | rfl | inToken) | inMark
    · exact .inl (ofDigest digest inDigest)
    · exact .inr (.inl rfl)
    · exact .inl (isToken.2 c inToken)
    · exact (ofMark legacy inMark).imp_right .inr
  | sized digest legacy writes isToken =>
    simp only [List.mem_append, List.mem_cons] at member
    rcases member with ((inDigest | rfl | inSize) | rfl | inToken) | inMark
    · exact .inl (ofDigest digest inDigest)
    · exact .inr (.inl rfl)
    · exact .inl (writes.isSegment.2 c inSize)
    · exact .inr (.inl rfl)
    · exact .inl (isToken.2 c inToken)
    · exact (ofMark legacy inMark).imp_right .inr

theorem EntryName.Spells.ascii {text : List Char} {name : EntryName} (spells : Spells text name)
    {c : Char} (member : c ∈ text) : c.toNat < 0x80 ∧ c ≠ '/' := by
  rcases spells.characters member with alphanumeric | rfl | rfl
  · exact ascii_of_isAlphanum alphanumeric
  · decide
  · decide

theorem slash_notMem_nameOf {text : String}
    (ascii : ∀ c ∈ text.toList, c.toNat < 0x80 ∧ c ≠ '/') : slash ∉ nameOf text :=
  fun present => (ascii '/' (slash_mem_nameOf_iff.mp present)).2 rfl

theorem StoredFile.slash_mem_fileName_iff {file : StoredFile} {key : Key} :
    slash ∈ nameOf (file.fileName key) ↔ '/' ∈ file.token.toList := by
  have digest : '/' ∉ key.digest.text.toList := fun member =>
    absurd (Digest.isHexDigit_of_mem member) (by decide)
  have digits : ∀ size : UInt64, '/' ∉ (Decimal.render size).toList := fun size member =>
    absurd (Decimal.isDigit_of_mem_render member) (by decide)
  have mark : ∀ legacy, '/' ∉ EntryName.mark legacy := by decide
  rw [slash_mem_nameOf_iff, fileName, EntryName.toList_render, name]
  dsimp only
  generalize (if key.kind.recordsSize && file.sizedName then some file.logicalSize else none) = size
  cases size <;> simp [digest, digits, mark]

theorem slash_notMem_of_isToken {token : String} (valid : isToken token = true) :
    '/' ∉ token.toList :=
  fun member => (ascii_of_isAlphanum ((isToken_iff.mp valid).2 _ member)).2 rfl

theorem StoredFile.slash_notMem_fileName {file : StoredFile} {key : Key}
    (valid : isToken file.token = true) : slash ∉ nameOf (file.fileName key) :=
  mt slash_mem_fileName_iff.mp (slash_notMem_of_isToken valid)

theorem component?_nameOf {text : String} {first : Char} {rest : List Char}
    (starts : text.toList = first :: rest) (hex : isHexDigit first = true) :
    component? (nameOf text) = some (.named (nameOf text)) := by
  have small := toNat_lt_of_isHexDigit hex
  have spelled : nameOf text = UInt8.ofNat first.toNat :: Utf8.encode rest := by
    rw [nameOf, starts, Utf8.encode_cons, Utf8.utf8EncodeChar_of_lt small, List.singleton_append]
  have noDot : UInt8.ofNat first.toNat ≠ 0x2E := by
    intro same
    have number := congrArg UInt8.toNat same
    rw [UInt8.toNat_ofNat_of_lt' (Nat.lt_trans small (by decide))] at number
    rcases isHexDigit_iff.mp hex with digit | letter
    · exact absurd (number ▸ digit.1) (by decide)
    · exact absurd (number ▸ letter.1) (by decide)
  rw [spelled, component?, if_neg (by simp [dot, noDot]), if_neg (by simp [dotDot, noDot])]

/-! ## Places -/

theorem isAbsolute_placeOf (key : Key) (file : StoredFile) :
    (placeOf key file).isAbsolute = false := by
  have plain := key.kind.isPlain_directoryName
  rw [isAbsolute, bytes_placeOf, List.head?_append,
    Option.or_of_isSome (List.isSome_head?.mpr plain.nonempty)]
  exact isAbsolute_of_notMem plain.single

theorem segments_placeOf {key : Key} {file : StoredFile}
    (single : slash ∉ nameOf (file.fileName key)) :
    segments (placeOf key file).bytes =
      [key.kind.directoryName, nameOf key.digest.shard, nameOf (file.fileName key)] := by
  obtain ⟨first, second, shard, firstOther, secondOther⟩ := key.digest.exists_nameOf_shard
  rw [bytes_placeOf, segments_append_slash, segments_append_slash,
    segments_of_notMem key.kind.isPlain_directoryName.single, segments_of_notMem single,
    segments_of_notMem]
  · rfl
  · rw [shard]
    simp [firstOther.symm, secondOther.symm]

theorem component?_shard (digest : Digest) :
    component? (nameOf digest.shard) = some (.named (nameOf digest.shard)) := by
  obtain ⟨high, low, behind, text, isHigh, isLow⟩ := digest.exists_text
  have shardText : digest.shard.toList = [high, low] := by
    rw [Digest.shard, text, String.toList_ofList]
    rfl
  exact component?_nameOf shardText isHigh

theorem component?_fileName (file : StoredFile) (key : Key) :
    component? (nameOf (file.fileName key)) = some (.named (nameOf (file.fileName key))) := by
  obtain ⟨high, low, behind, text, isHigh, isLow⟩ := key.digest.exists_text
  obtain ⟨rest, fileName⟩ := file.exists_fileName key
  rw [text] at fileName
  exact component?_nameOf fileName isHigh

theorem components_placeOf {key : Key} {file : StoredFile}
    (single : slash ∉ nameOf (file.fileName key)) :
    (placeOf key file).components =
      [.named key.kind.directoryName, .named (nameOf key.digest.shard),
        .named (nameOf (file.fileName key))] := by
  have plain := key.kind.isPlain_directoryName
  have front : some key.kind.directoryName ≠ some dot :=
    fun same => plain.ne_dot (Option.some.inj same)
  rw [components, segments_placeOf single, isAbsolute_placeOf]
  simp only [List.head?_cons, front, if_false, List.filterMap_cons, plain.component?,
    component?_shard, component?_fileName, List.filterMap_nil, Bool.false_eq_true]

theorem steps_placeOf {key : Key} {file : StoredFile}
    (single : slash ∉ nameOf (file.fileName key)) :
    (placeOf key file).steps =
      [.into key.kind.directoryName, .into (nameOf key.digest.shard),
        .into (nameOf (file.fileName key))] := by
  rw [steps, segments_placeOf single]
  simp only [List.filterMap_cons, List.filterMap_nil, key.kind.isPlain_directoryName.step?,
    step?_of_component? (component?_shard key.digest),
    step?_of_component? (component?_fileName file key)]

theorem endsInSlash_join_placeOf (root : DiskPath) {key : Key} {file : StoredFile}
    (single : slash ∉ nameOf (file.fileName key)) :
    (root.join (placeOf key file)).endsInSlash = false := by
  obtain ⟨first, rest, fileName, -⟩ := file.exists_nameOf_fileName key
  have nonempty : nameOf (file.fileName key) ≠ [] := by
    rw [fileName]
    exact List.cons_ne_nil _ _
  have relative := isAbsolute_placeOf key file
  cases ready : root.bytes.isEmpty || root.endsInSlash with
  | true =>
    rw [join_of_ready relative ready, bytes_placeOf]
    simpa using endsInSlash_append nonempty single
      (root.bytes ++ key.kind.directoryName ++ slash :: nameOf key.digest.shard ++ [slash])
  | false =>
    rw [join_of_not_ready relative ready, bytes_placeOf]
    simpa using endsInSlash_append nonempty single
      (root.bytes ++ slash :: key.kind.directoryName ++ slash :: nameOf key.digest.shard ++ [slash])

theorem eq_named_of_text? {component : Component} {text : String}
    (spelled : component.text? = some text) : component = .named (nameOf text) := by
  cases component with
  | named name => rw [nameOf_of_textOf? spelled]
  | top | here | above => cases spelled

theorem eq_map_named_of_texts {components : List Component} {texts : List String}
    (spelled : components.map Component.text? = texts.map some) :
    components = texts.map fun text => .named (nameOf text) := by
  induction texts generalizing components with
  | nil => exact List.map_eq_nil_iff.mp spelled
  | cons text rest ih =>
    obtain ⟨component, others, rfl, first, later⟩ := List.map_eq_cons_iff.mp spelled
    rw [List.map_cons, eq_named_of_text? first, ih later]

theorem text?_named (text : String) : (Component.named (nameOf text)).text? = some text :=
  textOf?_nameOf text

theorem exists_texts_of_readPlace {path : DiskPath} {size : UInt64} {key : Key}
    {file : StoredFile} (read : readPlace path size = .ok (key, file)) :
    ∃ directory shard fileName : String,
      path.components.map Component.text? = [directory, shard, fileName].map some := by
  unfold readPlace at read
  split at read
  next directory shard fileName texts => exact ⟨directory, shard, fileName, texts⟩
  next => cases read

/-- What is read from the three parts of a path. -/
theorem readPlace_eq_ok_iff_of_texts {path : DiskPath} {size : UInt64}
    {directory shard fileName : String} {key : Key} {file : StoredFile}
    (texts : path.components.map Component.text? = [directory, shard, fileName].map some) :
    readPlace path size = .ok (key, file) ↔
      ∃ name : EntryName, EntryName.parse fileName = .ok name ∧
        key.kind.directory = directory ∧ name.digest.shard = shard ∧ name.digest = key.digest ∧
        (name.logicalSize.isSome → key.kind = .content) ∧ file = .ofName name size := by
  rw [readPlace, texts]
  constructor
  · -- Each fault of a part is ruled out in the order in which they are looked for.
    intro read
    cases found : Kind.ofDirectory? directory with
    | none => simp [found] at read
    | some kind =>
      cases parsed : EntryName.parse fileName with
      | error error => simp [found, parsed, Except.mapError, bind, Except.bind] at read
      | ok name =>
        simp only [List.map_cons, List.map_nil, found, parsed, Except.mapError, bind,
          Except.bind] at read
        split at read
        · cases read
        · rename_i sameShard
          split at read
          · cases read
          · rename_i sized
            cases read
            refine ⟨name, rfl, Kind.directory_of_ofDirectory? found, not_not.mp sameShard, rfl,
              fun isSome => ?_, rfl⟩
            by_contra other
            exact sized ⟨isSome, fun records => other (Kind.recordsSize_iff.mp records)⟩
  · rintro ⟨name, parsed, rfl, rfl, digest, sized, rfl⟩
    obtain ⟨kind, _⟩ := key
    obtain rfl := digest
    have placed : ¬ (name.logicalSize.isSome ∧ ¬ kind.recordsSize) := by
      rintro ⟨isSome, other⟩
      exact other (Kind.recordsSize_iff.mpr (sized isSome))
    simp only [List.map_cons, List.map_nil, Kind.ofDirectory?_directory, parsed, Except.mapError,
      bind, Except.bind, ne_eq, not_true_eq_false, if_false, placed, pure, Except.pure]

/-- A path is read as the place of an entry exactly if its components are those of the place,
where the file has the name that the path ends with. -/
theorem readPlace_eq_ok_iff {path : DiskPath} {size : UInt64} {key : Key} {file : StoredFile} :
    readPlace path size = .ok (key, file) ↔
      ∃ name : EntryName, EntryName.Spells name.render.toList name ∧ name.digest = key.digest ∧
        (name.logicalSize.isSome → key.kind = .content) ∧ file = .ofName name size ∧
        path.components = [.named key.kind.directoryName, .named (nameOf key.digest.shard),
          .named (nameOf name.render)] := by
  constructor
  · intro read
    obtain ⟨directory, shard, fileName, texts⟩ := exists_texts_of_readPlace read
    obtain ⟨name, parsed, rfl, rfl, digest, sized, rfl⟩ :=
      (readPlace_eq_ok_iff_of_texts texts).mp read
    obtain rfl := EntryName.render_of_parse parsed
    exact ⟨name, EntryName.parse_eq_ok_iff.mp parsed, digest, sized, rfl,
      digest ▸ eq_map_named_of_texts texts⟩
  · rintro ⟨name, spells, digest, sized, rfl, components⟩
    have texts : path.components.map Component.text? =
        [key.kind.directory, name.digest.shard, name.render].map some := by
      rw [components, ← digest, Kind.directoryName]
      simp only [List.map_cons, List.map_nil, text?_named]
    exact (readPlace_eq_ok_iff_of_texts texts).mpr
      ⟨name, EntryName.parse_eq_ok_iff.mpr spells, rfl, rfl, digest, sized, rfl⟩

/-- Whether a path leads through the directory of a kind and the shard of a digest to a file
name with this digest.  A size may stand in the name only where entries are addressed by their
content. -/
def DiskPath.IsPlace (path : DiskPath) : Prop :=
  ∃ (directory shard fileName : String) (name : EntryName),
    path.components = [.named (nameOf directory), .named (nameOf shard),
      .named (nameOf fileName)] ∧
    directory ∈ ["ac.v2", "cas.v2", "raw.v2"] ∧
    EntryName.Spells fileName.toList name ∧
    shard.toList = name.digest.text.toList.take 2 ∧
    (name.logicalSize.isSome → directory = "cas.v2")

theorem mem_directories_iff {directory : String} :
    directory ∈ ["ac.v2", "cas.v2", "raw.v2"] ↔ ∃ kind : Kind, kind.directory = directory := by
  constructor
  · intro member
    simp only [List.mem_cons, List.not_mem_nil, or_false] at member
    rcases member with rfl | rfl | rfl
    · exact ⟨.action, rfl⟩
    · exact ⟨.content, rfl⟩
    · exact ⟨.raw, rfl⟩
  · rintro ⟨kind, rfl⟩
    cases kind <;> decide

theorem Kind.directory_eq_iff {kind : Kind} : kind.directory = "cas.v2" ↔ kind = .content := by
  cases kind <;> decide

theorem exists_readPlace_iff {path : DiskPath} {size : UInt64} :
    (∃ key file, readPlace path size = .ok (key, file)) ↔ path.IsPlace := by
  constructor
  · rintro ⟨key, file, read⟩
    obtain ⟨name, spells, digest, sized, -, components⟩ := readPlace_eq_ok_iff.mp read
    refine ⟨key.kind.directory, key.digest.shard, name.render, name, components,
      mem_directories_iff.mpr ⟨key.kind, rfl⟩, spells, ?_, ?_⟩
    · rw [digest, Digest.shard, String.toList_ofList]
    · exact fun isSome => Kind.directory_eq_iff.mpr (sized isSome)
  · rintro ⟨directory, shard, fileName, name, components, isDirectory, spells, prefixed, sized⟩
    obtain ⟨kind, rfl⟩ := mem_directories_iff.mp isDirectory
    obtain rfl : fileName = name.render := String.toList_inj.mp spells.eq_render
    obtain rfl : shard = name.digest.shard := by
      rw [Digest.shard, ← prefixed, String.ofList_toList]
    exact ⟨{ kind, digest := name.digest }, .ofName name size, readPlace_eq_ok_iff.mpr
      ⟨name, spells, rfl, fun isSome => Kind.directory_eq_iff.mp (sized isSome), rfl,
        components⟩⟩

theorem components_of_readPlace {path : DiskPath} {size : UInt64} {key : Key} {file : StoredFile}
    (read : readPlace path size = .ok (key, file)) :
    path.components = [.named key.kind.directoryName, .named (nameOf key.digest.shard),
      .named (nameOf (file.fileName key))] ∧
    slash ∉ nameOf (file.fileName key) ∧ file.diskSize = size := by
  obtain ⟨name, spells, digest, sized, rfl, components⟩ := readPlace_eq_ok_iff.mp read
  have written : (StoredFile.ofName name size).fileName key = name.render := by
    rw [StoredFile.fileName, StoredFile.name_ofName size digest sized]
  rw [written]
  exact ⟨components, slash_notMem_nameOf fun c => spells.ascii, rfl⟩

theorem components_placeOf_of_readPlace {path : DiskPath} {size : UInt64} {key : Key}
    {file : StoredFile} (read : readPlace path size = .ok (key, file)) :
    (placeOf key file).components = path.components ∧ file.diskSize = size := by
  obtain ⟨components, single, occupied⟩ := components_of_readPlace read
  exact ⟨by rw [components_placeOf single, components], occupied⟩

theorem readPlace_placeOf {key : Key} {file : StoredFile} (valid : isToken file.token = true)
    (positive : ¬ file.NamesZero key) :
    readPlace (placeOf key file) file.diskSize =
      .ok (key, if key.kind = .content ∧ file.sizedName = true then file
        else { file with logicalSize := file.diskSize, sizedName := false }) := by
  have spells := StoredFile.spells_fileName valid positive
  rw [readPlace_eq_ok_iff]
  refine ⟨file.name key, spells, rfl, fun isSome => ?_, StoredFile.ofName_name.symm,
    components_placeOf (slash_notMem_nameOf fun c => spells.ascii)⟩
  rw [StoredFile.logicalSize_name] at isSome
  split at isSome
  next sized => exact sized.1
  next => cases isSome

theorem readPlace_of_namesZero {key : Key} {file : StoredFile} (valid : isToken file.token = true)
    (zero : file.NamesZero key) (size : UInt64) :
    readPlace (placeOf key file) size =
      .error (.name { input := file.fileName key, fault := .size }) := by
  have texts : (placeOf key file).components.map Component.text? =
      [key.kind.directory, key.digest.shard, file.fileName key].map some := by
    rw [components_placeOf (StoredFile.slash_notMem_fileName valid), Kind.directoryName]
    simp only [List.map_cons, List.map_nil, text?_named]
  have refused : EntryName.parse (file.fileName key) =
      .error { input := file.fileName key, fault := .size } := by
    rw [StoredFile.parse_fileName valid, if_pos zero]
  rw [readPlace, texts]
  simp only [List.map_cons, List.map_nil, Kind.ofDirectory?_directory, refused, Except.mapError,
    bind, Except.bind]

/-- Reading and writing places are inverse.  A path can be read exactly if it is a place, and
then what is read belongs to this place.  What is written with a proper token, and without the
size zero in its name, is read again as far as the name carries it. -/
theorem readPlace_inverts_placeOf :
    (∀ (path : DiskPath) (size : UInt64),
      ((∃ key file, readPlace path size = .ok (key, file)) ↔ path.IsPlace) ∧
      ∀ key file, readPlace path size = .ok (key, file) →
        (placeOf key file).components = path.components ∧ file.diskSize = size) ∧
    ∀ (key : Key) (file : StoredFile), isToken file.token = true →
      ¬ (key.kind = .content ∧ file.sizedName = true ∧ file.logicalSize = 0) →
      readPlace (placeOf key file) file.diskSize =
        .ok (key, if key.kind = .content ∧ file.sizedName = true then file
          else { file with logicalSize := file.diskSize, sizedName := false }) :=
  ⟨fun _ _ => ⟨exists_readPlace_iff, fun _ _ => components_placeOf_of_readPlace⟩,
    fun _ _ => readPlace_placeOf⟩

/-- A path with idle parts is read as the place of a blob of seven bytes, and the file of an
action that says nothing of its size is read from its place with the size that it occupies. -/
theorem readPlace_inverts_placeOf_idle_parts :
    let digest : Digest := .uniform 'a' rfl
    let blob : Key := { kind := .content, digest }
    let stored : StoredFile :=
      { logicalSize := 7, diskSize := 5, legacy := true, token := "0", sizedName := true }
    let path : DiskPath := .ofString ("cas.v2//aa/./" ++ digest.text ++ "-7-0.v1/")
    let action : Key := { kind := .action, digest }
    (readPlace path 5 = .ok (blob, stored) ∧
      (placeOf blob stored).components = path.components ∧ stored.diskSize = 5) ∧
    (isToken stored.token = true ∧
      ¬ (action.kind = .content ∧ stored.sizedName = true ∧ stored.logicalSize = 0) ∧
      readPlace (placeOf action stored) stored.diskSize =
        .ok (action, { stored with logicalSize := 5, sizedName := false })) := by
  intro digest blob stored path action
  have read : readPlace path 5 = .ok (blob, stored) := by decide +kernel
  have isToken : isToken stored.token = true := by decide
  have positive : ¬ (action.kind = .content ∧ stored.sizedName = true ∧ stored.logicalSize = 0) :=
    by decide
  exact ⟨⟨read, (readPlace_inverts_placeOf.1 path 5).2 blob stored read⟩, isToken, positive,
    readPlace_inverts_placeOf.2 action stored isToken positive⟩

end ArtifactCache
