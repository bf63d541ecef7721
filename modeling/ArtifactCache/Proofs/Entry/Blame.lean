import ArtifactCache.Proofs.Entry.Grammar

/-! # A refused text is blamed on one element of the grammar

A text that is no file name may depart from the grammar in several places.  Which element it is
blamed on can be told without any regard to how names are read.  It is the first of these:

    digest      the text does not start with just 64 hexadecimal digits
    separator   something else than a dash follows them
    token       nothing follows them, or a dash without a letter or a digit behind it
    size        the text would be a name if any letters and digits were a size
    trailing    this holds of a proper part from the front of the text only

The last two look at the whole text, so a fault of the shape wins over a fault of the size.  For
each text that is no name there is just one element to blame, and the token is never blamed for
the characters in it.
-/

namespace ArtifactCache

/-- Whether a text consists of a longest run of hexadecimal digits and a rest. -/
structure StartsWithHex (text run rest : List Char) : Prop where
  split : text = run ++ rest
  digits : ∀ c ∈ run, '0' ≤ c ∧ c ≤ '9' ∨ 'a' ≤ c ∧ c ≤ 'f'
  longest : ∀ c ∈ rest.head?, ¬ ('0' ≤ c ∧ c ≤ '9' ∨ 'a' ≤ c ∧ c ≤ 'f')

theorem startsWithHex_takeWhile (text : List Char) :
    StartsWithHex text (text.takeWhile isHexDigit) (text.dropWhile isHexDigit) where
  split := List.takeWhile_append_dropWhile.symm
  digits c member := isHexDigit_iff_range.mp (List.all_eq_true.mp List.all_takeWhile c member)
  longest c first hex := by
    have stops := List.head?_dropWhile_not isHexDigit text
    rw [first] at stops
    simp [isHexDigit_iff_range.mpr hex] at stops

theorem StartsWithHex.eq {text run rest : List Char} (starts : StartsWithHex text run rest) :
    run = text.takeWhile isHexDigit ∧ rest = text.dropWhile isHexDigit := by
  obtain ⟨rfl, digits, longest⟩ := starts
  have hex : ∀ c ∈ run, isHexDigit c = true :=
    fun c member => isHexDigit_iff_range.mpr (digits c member)
  rw [List.takeWhile_append_of_pos hex, List.dropWhile_append_of_pos hex]
  cases rest with
  | nil => simp
  | cons c rest =>
    have stops : ¬ isHexDigit c = true := fun hex => longest c rfl (isHexDigit_iff_range.mp hex)
    rw [List.takeWhile_cons_of_neg stops, List.dropWhile_cons_of_neg stops]
    simp

namespace EntryName

/-- Whether each of some pieces follows the grammar, where any letters and digits count as a
size. -/
structure Pieces.IsShaped (pieces : Pieces) : Prop where
  digest : SpellsDigest pieces.digest
  size : ∀ written, pieces.size = some written → SpellsToken written
  token : SpellsToken pieces.token

def IsName (text : List Char) : Prop :=
  ∃ pieces : Pieces, pieces.IsGrammatical ∧ pieces.text = text

/-- Whether a text is a file name but for its size. -/
def IsLooseName (text : List Char) : Prop :=
  ∃ pieces : Pieces, pieces.IsShaped ∧ pieces.text = text

/-- Which element of the grammar a text departs from. -/
inductive Blames (text : List Char) : NameFault → Prop
  | digest {run rest} (starts : StartsWithHex text run rest) (length : run.length ≠ 64) :
    Blames text .digest
  | separator {run c rest} (starts : StartsWithHex text run (c :: rest)) (length : run.length = 64)
      (other : c ≠ '-') : Blames text .separator
  | tokenAtEnd {run} (starts : StartsWithHex text run []) (length : run.length = 64) :
    Blames text .missingToken
  | tokenBehindDash {run rest} (starts : StartsWithHex text run ('-' :: rest))
      (length : run.length = 64)
      (missing : ∀ c ∈ rest.head?,
        ¬ ('0' ≤ c ∧ c ≤ '9' ∨ 'A' ≤ c ∧ c ≤ 'Z' ∨ 'a' ≤ c ∧ c ≤ 'z')) :
    Blames text .missingToken
  | size (loose : IsLooseName text) (refused : ¬ IsName text) : Blames text .size
  | trailing {front rest} (refused : ¬ IsLooseName text) (split : text = front ++ rest)
      (proper : rest ≠ []) (loose : IsLooseName front) : Blames text .trailing

/-! ## Names and loose names -/

theorem isName_iff {text : List Char} : IsName text ↔ ∃ name, read text = .ok name := by
  simp only [read_eq_ok_iff]
  constructor
  · rintro ⟨pieces, grammatical, rfl⟩
    obtain ⟨name, spells, -⟩ := grammatical.exists_spells
    exact ⟨name, spells⟩
  · rintro ⟨name, spells⟩
    exact Pieces.exists_of_spells spells

theorem isLooseName_iff {text : List Char} : IsLooseName text ↔ Shaped text := by
  constructor
  · rintro ⟨⟨digestText, size, token, legacy⟩, ⟨isDigest, isSize, isToken⟩, rfl⟩
    obtain ⟨digest, rfl⟩ := isDigest.exists_digest
    rw [Pieces.text, ← Pieces.mark_eq]
    cases size with
    | none =>
      rw [List.append_nil]
      exact .plain digest legacy (spellsToken_iff.mp isToken)
    | some written =>
      exact .sized digest legacy (spellsToken_iff.mp (isSize written rfl))
        (spellsToken_iff.mp isToken)
  · rintro (⟨digest, legacy, isToken⟩ | ⟨digest, legacy, isSize, isToken⟩)
    · rename_i token
      refine ⟨⟨digest.text.toList, none, token, legacy⟩,
        ⟨spellsDigest_iff.mpr digest.valid, by simp, spellsToken_iff.mpr isToken⟩, ?_⟩
      rw [Pieces.text, ← Pieces.mark_eq, List.append_nil]
    · rename_i size token
      refine ⟨⟨digest.text.toList, some size, token, legacy⟩,
        ⟨spellsDigest_iff.mpr digest.valid, ?_, spellsToken_iff.mpr isToken⟩, ?_⟩
      · intro written same
        exact Option.some.inj same ▸ spellsToken_iff.mpr isSize
      · rw [Pieces.text, ← Pieces.mark_eq]

/-- A text of the right shape is a name, or its size is at fault. -/
theorem Shaped.read_eq {text : List Char} (shaped : Shaped text) :
    (∃ name, read text = .ok name) ∨ read text = .error .size := by
  cases shaped with
  | plain digest legacy isToken => exact .inl ⟨_, read_plain digest legacy isToken⟩
  | sized digest legacy isSize isToken =>
    rename_i size token
    rw [read_sized digest legacy isSize isToken]
    cases size? size with
    | some number => exact .inl ⟨_, rfl⟩
    | none => exact .inr rfl

/-- A text of the right shape starts with a digest, a dash, and a letter or a digit. -/
theorem Shaped.exists_start {text : List Char} (shaped : Shaped text) :
    ∃ (digest : Digest) (c : Char) (rest : List Char),
      text = digest.text.toList ++ '-' :: c :: rest ∧ c.isAlphanum = true := by
  cases shaped with
  | plain digest legacy isToken =>
    obtain ⟨c, rest, rfl⟩ := List.exists_cons_of_ne_nil isToken.1
    exact ⟨digest, c, rest ++ mark legacy, by simp, isToken.2 c List.mem_cons_self⟩
  | sized digest legacy isSize isToken =>
    rename_i token
    obtain ⟨c, rest, rfl⟩ := List.exists_cons_of_ne_nil isSize.1
    exact ⟨digest, c, rest ++ '-' :: token ++ mark legacy, by simp, isSize.2 c List.mem_cons_self⟩

/-! ## What is read before the fault -/

section Faults

variable {text rest : List Char} {digest : Digest} {fault : NameFault}

theorem takeFront?_eq_none_iff :
    Digest.takeFront? text = none ↔ (text.takeWhile isHexDigit).length ≠ 64 := by
  have lengthEq : digestLength = 64 := rfl
  rw [Digest.takeFront?, ← lengthEq, dite_eq_right_iff]
  simp

theorem startsWithHex_of_takeFront? (taken : Digest.takeFront? text = some (digest, rest)) :
    StartsWithHex text digest.text.toList rest := by
  unfold Digest.takeFront? at taken
  dsimp only at taken
  split at taken
  · obtain ⟨rfl, rfl⟩ := Prod.mk.inj (Option.some.inj taken)
    rw [String.toList_ofList]
    exact startsWithHex_takeWhile text
  · cases taken

theorem takeFront?_of_startsWithHex {run : List Char} (starts : StartsWithHex text run rest)
    (length : run.length = 64) : ∃ digest, Digest.takeFront? text = some (digest, rest) := by
  obtain ⟨rfl, rfl⟩ := starts.eq
  cases taken : Digest.takeFront? text with
  | none => exact absurd length (takeFront?_eq_none_iff.mp taken)
  | some parts =>
    obtain ⟨digest, behind⟩ := parts
    obtain ⟨-, rfl⟩ := (startsWithHex_of_takeFront? taken).eq
    exact ⟨digest, rfl⟩

theorem read_of_takeFront?_eq_none (taken : Digest.takeFront? text = none) :
    read text = .error .digest := by
  rw [read, taken]
  rfl

theorem read_of_segment_eq_error (taken : Digest.takeFront? text = some (digest, rest))
    (front : segment rest = .error fault) : read text = .error fault := by
  rw [read, taken]
  simp only [front, bind, Except.bind]

theorem segment_of_not_alphanum (missing : ∀ c ∈ rest.head?, ¬ c.isAlphanum = true) :
    segment ('-' :: rest) = .error .missingToken := by
  cases rest with
  | nil => rfl
  | cons c rest => rw [segment, List.takeWhile_cons_of_neg (missing c rfl)]

theorem segment_of_ne_dash {c : Char} (other : c ≠ '-') :
    segment (c :: rest) = .error .separator := by
  unfold segment
  split
  · contradiction
  · rename_i same
    exact absurd (List.cons.inj same).1 other
  · rfl

theorem blames_of_segment {run : List Char} (starts : StartsWithHex text run rest)
    (length : run.length = 64) (refused : segment rest = .error fault) : Blames text fault := by
  unfold segment at refused
  split at refused
  · obtain rfl := Except.error.inj refused
    exact .tokenAtEnd starts length
  · rename_i behind
    split at refused
    · rename_i nothing
      obtain rfl := Except.error.inj refused
      refine .tokenBehindDash starts length fun c first alphanumeric => ?_
      obtain ⟨others, rfl⟩ := List.head?_eq_some_iff.mp first
      rw [List.takeWhile_cons_of_pos (isAlphanum_iff.mpr alphanumeric)] at nothing
      cases nothing
    · cases refused
  · rename_i c others other
    obtain rfl := Except.error.inj refused
    exact .separator starts length other

/-- Behind a digest and a first segment a text of the right shape ends, and it is the whole text
or else something trails. -/
theorem exists_shaped_front {first behind : List Char}
    (taken : Digest.takeFront? text = some (digest, rest))
    (front : segment rest = .ok (first, behind)) :
    ∃ consumed left, text = consumed ++ left ∧ Shaped consumed ∧
      (left ≠ [] → read text = .error .trailing) := by
  have whole := Digest.text_of_takeFront? taken
  obtain ⟨split, isFirst⟩ := segment_eq_ok front
  have trails : (legacyMark (segment? behind).2).2 ≠ [] → read text = .error .trailing := by
    intro more
    rw [read_of_segment taken front]
    dsimp only
    rw [if_neg (by simpa using more)]
  have marked := text_of_legacyMark (segment? behind).2
  rcases segment?_eq behind with ⟨token, left, second, splitBehind, isToken⟩ | single
  · rw [second] at trails marked
    refine ⟨_, _, ?_, .sized digest (legacyMark left).1 isFirst isToken, trails⟩
    rw [whole, split, splitBehind]
    dsimp only at marked
    rw [List.append_assoc _ _ (legacyMark left).2, ← marked]
    simp
  · rw [single] at trails marked
    refine ⟨_, _, ?_, .plain digest (legacyMark behind).1 isFirst, trails⟩
    rw [whole, split]
    dsimp only at marked
    rw [List.append_assoc _ _ (legacyMark behind).2, ← marked]
    simp

/-- A text that is refused departs from the element that is blamed. -/
theorem blames_of_read (refused : read text = .error fault) : Blames text fault := by
  cases taken : Digest.takeFront? text with
  | none =>
    rw [read_of_takeFront?_eq_none taken] at refused
    obtain rfl := Except.error.inj refused
    exact .digest (startsWithHex_takeWhile text) (takeFront?_eq_none_iff.mp taken)
  | some parts =>
    obtain ⟨digest, rest⟩ := parts
    have starts := startsWithHex_of_takeFront? taken
    have length := digest.length_text
    cases front : segment rest with
    | error other =>
      rw [read_of_segment_eq_error taken front] at refused
      obtain rfl := Except.error.inj refused
      exact blames_of_segment starts length front
    | ok parts =>
      obtain ⟨first, behind⟩ := parts
      obtain ⟨consumed, left, split, shaped, trails⟩ := exists_shaped_front taken front
      by_cases ended : left = []
      · -- The whole text has the right shape.
        rw [ended, List.append_nil] at split
        subst split
        rcases shaped.read_eq with ⟨name, done⟩ | unsized
        · rw [done] at refused
          cases refused
        · rw [unsized] at refused
          obtain rfl := Except.error.inj refused
          refine .size (isLooseName_iff.mpr shaped) fun isName => ?_
          obtain ⟨name, done⟩ := isName_iff.mp isName
          rw [done] at unsized
          cases unsized
      · rw [trails ended] at refused
        obtain rfl := Except.error.inj refused
        refine .trailing (fun loose => ?_) split ended (isLooseName_iff.mpr shaped)
        rcases (isLooseName_iff.mp loose).read_eq with ⟨name, done⟩ | unsized
        · rw [trails ended] at done
          cases done
        · rw [trails ended] at unsized
          cases unsized

/-- A text that goes on behind a shorter one of the right shape starts in the same way. -/
theorem Shaped.start_append {front more run : List Char} (shaped : Shaped front)
    (starts : StartsWithHex (front ++ more) run rest) :
    run.length = 64 ∧ ∃ c others, rest = '-' :: c :: others ∧ c.isAlphanum = true := by
  obtain ⟨digest, c, others, rfl, alphanumeric⟩ := shaped.exists_start
  have hex : ∀ c ∈ digest.text.toList, isHexDigit c = true := fun _ => Digest.isHexDigit_of_mem
  have dash : ¬ isHexDigit '-' = true := by decide
  obtain ⟨rfl, rfl⟩ := starts.eq
  rw [List.append_assoc, List.takeWhile_append_of_pos hex, List.dropWhile_append_of_pos hex,
    List.cons_append, List.takeWhile_cons_of_neg dash, List.dropWhile_cons_of_neg dash,
    List.append_nil]
  exact ⟨digest.length_text, c, others ++ more, rfl, alphanumeric⟩

theorem read_of_blames (blames : Blames text fault) : read text = .error fault := by
  cases blames with
  | digest starts length =>
    obtain ⟨rfl, -⟩ := starts.eq
    exact read_of_takeFront?_eq_none (takeFront?_eq_none_iff.mpr length)
  | separator starts length other =>
    obtain ⟨digest, taken⟩ := takeFront?_of_startsWithHex starts length
    exact read_of_segment_eq_error taken (segment_of_ne_dash other)
  | tokenAtEnd starts length =>
    obtain ⟨digest, taken⟩ := takeFront?_of_startsWithHex starts length
    exact read_of_segment_eq_error taken rfl
  | tokenBehindDash starts length missing =>
    obtain ⟨digest, taken⟩ := takeFront?_of_startsWithHex starts length
    exact read_of_segment_eq_error taken
      (segment_of_not_alphanum fun c first => mt isAlphanum_iff.mp (missing c first))
  | size loose refused =>
    rcases (isLooseName_iff.mp loose).read_eq with done | unsized
    · exact absurd (isName_iff.mpr done) refused
    · exact unsized
  | trailing refused split proper loose =>
    have shaped := isLooseName_iff.mp loose
    subst split
    cases outcome : read (_ ++ _) with
    | ok name => exact absurd (isLooseName_iff.mpr (spells_of_read outcome).shaped) refused
    | error fault =>
      -- Up to the first letter behind the dash there is no fault.
      cases blames_of_read outcome with
      | digest starts length => exact absurd (shaped.start_append starts).1 length
      | separator starts length other =>
        obtain ⟨-, c, others, rest, -⟩ := shaped.start_append starts
        exact absurd (List.cons.inj rest).1 other
      | tokenAtEnd starts length =>
        obtain ⟨-, c, others, rest, -⟩ := shaped.start_append starts
        cases rest
      | tokenBehindDash starts length missing =>
        obtain ⟨-, c, others, rest, alphanumeric⟩ := shaped.start_append starts
        obtain rfl := (List.cons.inj rest).2
        exact absurd (isAlphanum_iff.mp alphanumeric) (missing c rfl)
      | size loose' refused' => exact absurd loose' refused
      | trailing => rfl

end Faults

/-- A text that is no file name is refused as it stands, and it is blamed on the element that it
departs from.  There is just one such element for it, and there is none for a file name.  The
characters of a token are never blamed. -/
theorem parse_blames_one_element (input : String) :
    (IsName input.toList ↔ ∃ name, parse input = .ok name) ∧
    (∀ error, parse input = .error error ↔
      error.input = input ∧ Blames input.toList error.fault) ∧
    (¬ IsName input.toList → ∃! fault, Blames input.toList fault) ∧
    (IsName input.toList → ∀ fault, ¬ Blames input.toList fault) ∧
    ¬ Blames input.toList .token := by
  have read_iff : ∀ fault, read input.toList = .error fault ↔ Blames input.toList fault :=
    fun fault => ⟨blames_of_read, read_of_blames⟩
  refine ⟨?_, fun error => ?_, fun refused => ?_, fun isName fault blames => ?_, nofun⟩
  · rw [isName_iff, parse]
    cases read input.toList <;> simp [Except.mapError]
  · obtain ⟨text, fault⟩ := error
    rw [parse, ← read_iff]
    cases read input.toList <;> simp [Except.mapError, eq_comm]
  · cases outcome : read input.toList with
    | ok name => exact absurd (isName_iff.mpr ⟨name, outcome⟩) refused
    | error fault =>
      refine ⟨fault, (read_iff fault).mp outcome, fun other blames => ?_⟩
      exact Except.error.inj (((read_iff other).mpr blames).symm.trans outcome)
  · obtain ⟨name, done⟩ := isName_iff.mp isName
    rw [(read_iff fault).mpr blames] at done
    cases done

/-- A text with a padded size and a mark that nobody knows is blamed on what trails, the same
text without that mark on its size, and without the padding on nothing. -/
theorem parse_blames_one_element_two_faults :
    let sound := String.ofList (List.replicate 64 'a' ++ "-12-tok".toList)
    let padded := String.ofList (List.replicate 64 'a' ++ "-012-tok".toList)
    let marked := String.ofList (List.replicate 64 'a' ++ "-012-tok.v2".toList)
    (∃! fault, Blames marked.toList fault) ∧
      parse marked = .error { input := marked, fault := .trailing } ∧
      parse padded = .error { input := padded, fault := .size } ∧
      ∀ fault, ¬ Blames sound.toList fault := by
  intro sound padded marked
  have readSound : (read sound.toList).toOption.isSome = true := by decide +kernel
  have readPadded : read padded.toList = .error .size := by decide +kernel
  have readMarked : read marked.toList = .error .trailing := by decide +kernel
  clear_value sound padded marked
  have refused : ¬ IsName marked.toList := by
    rw [isName_iff, readMarked]
    simp
  have accepted : IsName sound.toList := by
    rw [isName_iff]
    cases outcome : read sound.toList with
    | ok name => exact ⟨name, rfl⟩
    | error fault =>
      rw [outcome] at readSound
      cases readSound
  refine ⟨(parse_blames_one_element marked).2.2.1 refused, ?_, ?_, ?_⟩
  · exact ((parse_blames_one_element marked).2.1 _).mpr ⟨rfl, blames_of_read readMarked⟩
  · exact ((parse_blames_one_element padded).2.1 _).mpr ⟨rfl, blames_of_read readPadded⟩
  · exact (parse_blames_one_element sound).2.2.2.1 accepted

end EntryName

end ArtifactCache
