import ArtifactCache.Entry.Grammar
import ArtifactCache.Entry.StoredFile
import ArtifactCache.Proofs.Decimal.Word

/-! # File names follow their grammar

Reading a file name takes its text apart into a digest, one or two segments, and the mark
of the older format.  Nothing is dropped on the way, so a text that is read is spelled by
the grammar.  It is also the only text of its name, because a size without leading zeros is
the only text of its value: a name that was read is written again as it was.

Conversely a text that the grammar spells is read.  Every part ends where the next one
begins, since neither a dash nor a dot is a letter or a digit, so that no part can take
what belongs to another one.
-/

namespace ArtifactCache

namespace Digest

theorem text_of_takeFront? {text rest : List Char} {digest : Digest}
    (taken : takeFront? text = some (digest, rest)) : text = digest.text.toList ++ rest := by
  unfold takeFront? at taken
  dsimp only at taken
  split at taken
  · obtain ⟨rfl, rfl⟩ := Prod.mk.inj (Option.some.inj taken)
    rw [String.toList_ofList, List.takeWhile_append_dropWhile]
  · cases taken

theorem parse_eq_ok_iff {input : String} {digest : Digest} :
    parse input = .ok digest ↔ digest.text = input := by
  constructor
  · intro parsed
    rw [parse, read] at parsed
    cases taken : takeFront? input.toList with
    | none => rw [taken] at parsed; cases parsed
    | some parts =>
      obtain ⟨front, rest⟩ := parts
      rw [taken] at parsed
      cases rest with
      | nil =>
        cases parsed
        have whole := text_of_takeFront? taken
        rw [List.append_nil] at whole
        exact String.toList_inj.mp whole.symm
      | cons c rest => cases parsed
  · rintro rfl
    have taken : takeFront? (digest.text.toList ++ []) = some (digest, []) :=
      digest.takeFront?_append (by simp)
    rw [List.append_nil] at taken
    rw [parse, read, taken]
    rfl

end Digest

namespace EntryName

/-! ## The parts of a file name -/

/-- A segment is a dash and a run of letters and digits that ends where the rest begins. -/
theorem segment_eq_ok {text run rest : List Char} (read : segment text = .ok (run, rest)) :
    text = '-' :: run ++ rest ∧ IsSegment run := by
  unfold segment at read
  split at read
  · cases read
  · rename_i behind
    have parts : behind.takeWhile Char.isAlphanum ++ behind.dropWhile Char.isAlphanum = behind :=
      List.takeWhile_append_dropWhile
    split at read
    · cases read
    · obtain ⟨rfl, rfl⟩ := Prod.mk.inj (Except.ok.inj read)
      rename_i nonempty
      refine ⟨by rw [List.cons_append, parts], fun empty => nonempty empty, fun c member => ?_⟩
      exact List.all_eq_true.mp List.all_takeWhile c member
  · cases read

theorem segment?_eq (text : List Char) :
    (∃ run rest, segment? text = (some run, rest) ∧ text = '-' :: run ++ rest ∧ IsSegment run) ∨
      segment? text = (none, text) := by
  unfold segment?
  cases read : segment text with
  | error fault => exact .inr rfl
  | ok parts => exact .inl ⟨_, _, rfl, segment_eq_ok read⟩

theorem text_of_legacyMark (text : List Char) :
    text = mark (legacyMark text).1 ++ (legacyMark text).2 := by
  unfold legacyMark
  split <;> rfl

theorem segment_append {run rest : List Char} (isSegment : IsSegment run)
    (stops : ∀ c ∈ rest.head?, c.isAlphanum = false) :
    segment ('-' :: run ++ rest) = .ok (run, rest) := by
  obtain ⟨nonempty, alphanumeric⟩ := isSegment
  have stopped : rest.takeWhile Char.isAlphanum = [] ∧ rest.dropWhile Char.isAlphanum = rest := by
    cases rest with
    | nil => exact ⟨rfl, rfl⟩
    | cons c tail => simp [stops c rfl]
  have taken : (run ++ rest).takeWhile Char.isAlphanum = run := by
    rw [List.takeWhile_append_of_pos alphanumeric, stopped.1, List.append_nil]
  have dropped : (run ++ rest).dropWhile Char.isAlphanum = rest := by
    rw [List.dropWhile_append_of_pos alphanumeric, stopped.2]
  rw [List.cons_append, segment, taken, dropped]
  cases run with
  | nil => exact absurd rfl nonempty
  | cons first others => rfl

theorem stops_mark (legacy : Bool) : ∀ c ∈ (mark legacy).head?, c.isAlphanum = false := by
  intro c first
  cases legacy with
  | false => cases first
  | true =>
    obtain rfl : '.' = c := Option.some.inj first
    rfl

theorem segment?_mark (legacy : Bool) : segment? (mark legacy) = (none, mark legacy) := by
  cases legacy <;> rfl

theorem legacyMark_mark (legacy : Bool) : legacyMark (mark legacy) = (legacy, []) := by
  cases legacy <;> rfl

theorem tokenFault?_eq_none_iff {token : List Char} :
    tokenFault? token = none ↔ IsSegment token := by
  rw [tokenFault?, IsSegment, ← List.all_eq_true]
  split_ifs with empty alphanumeric
  · exact iff_of_false (by simp) fun isSegment => isSegment.1 empty
  · exact iff_of_true rfl ⟨empty, alphanumeric⟩
  · exact iff_of_false (by simp) fun isSegment => alphanumeric isSegment.2

theorem size?_eq_some_iff {text : List Char} {size : UInt64} :
    size? text = some size ↔ WritesSize text size := by
  constructor
  · intro read
    unfold size? at read
    split at read
    · cases read
    · cases read
    · rename_i leading
      obtain ⟨nonempty, digits, value⟩ := Decimal.read?_eq_some_iff.mp read
      obtain ⟨first, rest, rfl⟩ := List.exists_cons_of_ne_nil nonempty
      refine ⟨digits, ⟨first, rest, rfl, ?_⟩, value⟩
      rintro rfl
      exact leading rest rfl
  · rintro ⟨digits, ⟨first, rest, rfl, leading⟩, value⟩
    have unpadded : size? (first :: rest) = Decimal.read? (first :: rest) := by
      unfold size?
      split
      · contradiction
      · simp_all
      · rfl
    rw [unpadded]
    exact Decimal.read?_eq_some_iff.mpr ⟨List.cons_ne_nil _ _, digits, value⟩

/-- A size has only one text. -/
theorem WritesSize.eq_render {text : List Char} {size : UInt64} (writes : WritesSize text size) :
    text = (Decimal.render size).toList := by
  obtain ⟨digits, ⟨first, rest, rfl, leading⟩, value⟩ := writes
  rw [Decimal.render, String.toList_ofList, Decimal.digits, ← value,
    Decimal.toDigits_ofDigitChars (List.cons_ne_nil _ _) digits]
  simpa using leading

theorem writesSize_render {size : UInt64} (positive : size ≠ 0) :
    WritesSize (Decimal.render size).toList size := by
  obtain ⟨first, rest, split, leading⟩ := Decimal.exists_render size
  exact ⟨fun c member => Decimal.isDigit_of_mem_render member,
    ⟨first, rest, split, leading positive⟩, Decimal.ofDigitChars_render size⟩

/-! ## The whole name -/

theorem toList_render (name : EntryName) :
    name.render.toList = name.digest.text.toList ++
      ((match name.logicalSize with
        | some size => '-' :: (Decimal.render size).toList
        | none => []) ++ '-' :: name.token.toList ++ mark name.legacy) := by
  obtain ⟨digest, logicalSize, token, legacy⟩ := name
  cases logicalSize <;> cases legacy <;> simp [render, mark]

/-- What is read behind a digest and a first segment.  A segment can always stand as a token,
so the token is never at fault. -/
theorem read_of_segment {text rest first behind : List Char} {digest : Digest}
    (taken : Digest.takeFront? text = some (digest, rest))
    (front : segment rest = .ok (first, behind)) :
    read text =
      let (second, left) := segment? behind
      let (legacy, left) := legacyMark left
      if left.isEmpty then
        match second with
        | none => .ok { digest, logicalSize := none, token := String.ofList first, legacy }
        | some token =>
          match size? first with
          | some size =>
            .ok { digest, logicalSize := some size, token := String.ofList token, legacy }
          | none => .error .size
      else .error .trailing := by
  have token : tokenFault? first = none := tokenFault?_eq_none_iff.mpr (segment_eq_ok front).2
  unfold read
  simp only [taken, front, bind, Except.bind]
  rcases segment?_eq behind with ⟨run, left, second, -, isSegment⟩ | single
  · simp only [second]
    split
    · cases size? first with
      | none => rfl
      | some size => simp only [tokenFault?_eq_none_iff.mpr isSegment, pure, Except.pure]
    · rfl
  · simp only [single]
    split
    · simp only [token, pure, Except.pure]
    · rfl

theorem spells_of_read {text : List Char} {name : EntryName} (wasRead : read text = .ok name) :
    Spells text name := by
  cases taken : Digest.takeFront? text with
  | none => rw [read, taken] at wasRead; cases wasRead
  | some parts =>
    obtain ⟨digest, rest⟩ := parts
    cases front : segment rest with
    | error fault =>
      simp only [read, taken, front, bind, Except.bind] at wasRead
      cases wasRead
    | ok parts =>
      obtain ⟨first, behind⟩ := parts
      have whole := Digest.text_of_takeFront? taken
      obtain ⟨split, isSegment⟩ := segment_eq_ok front
      rw [read_of_segment taken front] at wasRead
      have marked := text_of_legacyMark (segment? behind).2
      dsimp only at wasRead
      split at wasRead
      · rename_i ended
        rw [List.isEmpty_iff.mp ended, List.append_nil] at marked
        rcases segment?_eq behind with ⟨run, left, second, splitBehind, isToken⟩ | single
        · rw [second] at wasRead marked
          dsimp only at wasRead marked
          cases sized : size? first with
          | none => rw [sized] at wasRead; cases wasRead
          | some size =>
            rw [sized] at wasRead
            cases wasRead
            have spells := @Spells.sized digest first size (String.ofList run) (legacyMark left).1
              (size?_eq_some_iff.mp sized) (by rwa [String.toList_ofList])
            rw [String.toList_ofList, ← marked] at spells
            rw [whole, split, splitBehind]
            simpa only [List.append_assoc, List.cons_append] using spells
        · rw [single] at wasRead marked
          cases wasRead
          have spells := @Spells.plain digest (String.ofList first) (legacyMark behind).1
            (by rwa [String.toList_ofList])
          rw [String.toList_ofList, ← marked] at spells
          rw [whole, split]
          simpa only [List.append_assoc, List.cons_append] using spells
      · cases wasRead

theorem read_plain (digest : Digest) {token : List Char} (legacy : Bool)
    (isToken : IsSegment token) :
    read (digest.text.toList ++ '-' :: token ++ mark legacy) =
      .ok { digest, logicalSize := none, token := String.ofList token, legacy } := by
  have taken : Digest.takeFront? (digest.text.toList ++ ('-' :: token ++ mark legacy)) =
      some (digest, '-' :: token ++ mark legacy) :=
    digest.takeFront?_append (by simp [isHexDigit])
  have front := segment_append isToken (stops_mark legacy)
  rw [List.append_assoc, read_of_segment taken front, segment?_mark]
  simp only [legacyMark_mark, List.isEmpty_nil, if_true]

theorem read_sized (digest : Digest) {first token : List Char} (legacy : Bool)
    (isFirst : IsSegment first) (isToken : IsSegment token) :
    read (digest.text.toList ++ '-' :: first ++ '-' :: token ++ mark legacy) =
      match size? first with
      | some size => .ok { digest, logicalSize := some size, token := String.ofList token, legacy }
      | none => .error .size := by
  have taken : Digest.takeFront?
      (digest.text.toList ++ ('-' :: first ++ ('-' :: token ++ mark legacy))) =
        some (digest, '-' :: first ++ ('-' :: token ++ mark legacy)) :=
    digest.takeFront?_append (by simp [isHexDigit])
  have front : segment ('-' :: first ++ ('-' :: token ++ mark legacy)) =
      .ok (first, '-' :: token ++ mark legacy) := segment_append isFirst (by simp)
  have second : segment? ('-' :: token ++ mark legacy) = (some token, mark legacy) := by
    rw [segment?, segment_append isToken (stops_mark legacy)]
  rw [List.append_assoc, List.append_assoc, read_of_segment taken front, second]
  simp only [legacyMark_mark, List.isEmpty_nil, if_true]

theorem read_of_spells {text : List Char} {name : EntryName} (spells : Spells text name) :
    read text = .ok name := by
  cases spells with
  | plain digest legacy isToken => rw [read_plain digest legacy isToken, String.ofList_toList]
  | sized digest legacy writes isToken =>
    rw [read_sized digest legacy writes.isSegment isToken, size?_eq_some_iff.mpr writes,
      String.ofList_toList]

theorem read_eq_ok_iff {text : List Char} {name : EntryName} :
    read text = .ok name ↔ Spells text name :=
  ⟨spells_of_read, read_of_spells⟩

/-- A name has only one text. -/
theorem Spells.eq_render {text : List Char} {name : EntryName} (spells : Spells text name) :
    text = name.render.toList := by
  rw [toList_render]
  cases spells with
  | plain digest legacy isToken => rw [List.nil_append, List.append_assoc]
  | sized digest legacy writes isToken =>
    rw [writes.eq_render]
    simp only [List.append_assoc, List.cons_append]

/-- The written form of a name spells it, unless it would have to write the size zero. -/
theorem spells_render {name : EntryName} (isToken : IsSegment name.token.toList)
    (positive : name.logicalSize ≠ some 0) : Spells name.render.toList name := by
  obtain ⟨digest, logicalSize, token, legacy⟩ := name
  rw [toList_render]
  cases logicalSize with
  | none =>
    simpa only [List.nil_append, List.append_assoc] using Spells.plain digest legacy isToken
  | some size =>
    have writes : WritesSize (Decimal.render size).toList size :=
      writesSize_render fun zero => positive (congrArg some zero)
    simpa only [List.append_assoc, List.cons_append] using
      Spells.sized digest legacy writes isToken

/-- A name of size zero cannot be read back, and the fault is the size. -/
theorem read_render_of_zero {name : EntryName} (isToken : IsSegment name.token.toList)
    (zero : name.logicalSize = some 0) : read name.render.toList = .error .size := by
  have digit : (Decimal.render 0).toList = ['0'] := by decide
  have written : IsSegment (Decimal.render 0).toList := by
    rw [digit]
    exact ⟨List.cons_ne_nil _ _, List.forall_mem_singleton.mpr rfl⟩
  have noSize : size? (Decimal.render 0).toList = none := by decide
  have refused := read_sized name.digest name.legacy written isToken
  rw [noSize] at refused
  rw [toList_render, zero]
  simpa only [List.append_assoc, List.cons_append] using refused

theorem parse_eq_ok_iff {input : String} {name : EntryName} :
    parse input = .ok name ↔ Spells input.toList name := by
  rw [← read_eq_ok_iff, parse]
  cases read input.toList <;> simp [Except.mapError]

theorem render_of_parse {text : String} {name : EntryName} (parsed : parse text = .ok name) :
    name.render = text :=
  String.toList_inj.mp (parse_eq_ok_iff.mp parsed).eq_render.symm

end EntryName

end ArtifactCache
