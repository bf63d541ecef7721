import ArtifactCache.Json.Typed
import ArtifactCache.Json.Written
import ArtifactCache.Proofs.Decimal.Word
import ArtifactCache.Proofs.Text.Utf8

/-! # Values that are read as they were written

A reader that gives a value has taken some bytes from the front of the text, and it leaves the
others.  Readers that are put together take what their parts take, one after the other.  A reader
may look at the bytes that it leaves, so it is said which ones they are.

Words, texts and truth values are taken as they were written.  What a text consists of does not
matter: a character that is escaped is read from its escape, and any other one from its own bytes.
-/

namespace ArtifactCache.Json

open Reader

variable {α β : Type}

theorem bind_of_ok {reader : Reader α} {next : α → Reader β} {cursor after : Cursor} {value : α}
    (ended : reader cursor = (.ok value, after)) : (reader >>= next) cursor = next value after := by
  simp only [bind, ExceptT.bind, ExceptT.mk, StateT.bind, ended]
  rfl

/-- Whether a reader gives a value and takes certain bytes where they are followed by certain
others, at whatever place it starts. -/
def Takes (reader : Reader α) (taken rest : List UInt8) (value : α) : Prop :=
  ∀ position, ∃ reached,
    reader { rest := taken ++ rest, position } = (.ok value, { rest, position := reached })

namespace Takes

variable {reader : Reader α} {next : α → Reader β} {taken more rest : List UInt8} {value : α}
  {result : β}

theorem pure (value : α) (rest : List UInt8) : Takes (pure value) [] rest value :=
  fun position => ⟨position, rfl⟩

theorem bind (first : Takes reader taken (more ++ rest) value)
    (second : Takes (next value) more rest result) :
    Takes (reader >>= next) (taken ++ more) rest result := by
  intro position
  obtain ⟨middle, ended⟩ := first position
  obtain ⟨reached, ended'⟩ := second middle
  refine ⟨reached, ?_⟩
  rw [List.append_assoc, bind_of_ok ended, ended']

/-- A reader that only looks at the bytes leaves them to the next one. -/
theorem look (first : Takes reader [] (taken ++ rest) value)
    (second : Takes (next value) taken rest result) : Takes (reader >>= next) taken rest result :=
  Takes.bind first second

/-- A reader may be followed by one that only looks at the bytes behind it. -/
theorem settle (first : Takes reader taken rest value) (second : Takes (next value) [] rest result) :
    Takes (reader >>= next) taken rest result := by
  have both := Takes.bind (first : Takes reader taken ([] ++ rest) value) second
  rwa [List.append_nil] at both

theorem map (first : Takes reader taken rest value) (change : α → β) :
    Takes (do return change (← reader)) taken rest (change value) :=
  first.settle (.pure (change value) rest)

theorem placing (inside : Takes reader taken rest value) :
    Takes (Reader.placing reader) taken rest value := by
  intro position
  obtain ⟨reached, ended⟩ := inside position
  exact ⟨reached, by rw [Reader.placing, ended]⟩

theorem closing {close : Reader Unit} (inside : Takes reader taken (more ++ rest) value)
    (closes : Takes close more rest ()) :
    Takes (Reader.closing reader close) (taken ++ more) rest value := by
  intro position
  obtain ⟨middle, ended⟩ := inside position
  obtain ⟨reached, ended'⟩ := closes middle
  refine ⟨reached, ?_⟩
  rw [List.append_assoc, Reader.closing, ended]
  dsimp only
  rw [ended']

end Takes

/-! ## Single bytes -/

theorem takes_peek (byte : UInt8) (rest : List UInt8) :
    Takes peek [] (byte :: rest) (some (Char.ofNat byte.toNat)) :=
  fun position => ⟨position, rfl⟩

theorem takes_eat (byte : UInt8) (rest : List UInt8) : Takes eat [byte] rest () :=
  fun position => ⟨position.after byte, rfl⟩

theorem Takes.afterByte {reader : Reader α} {taken rest : List UInt8} {value : α} (byte : UInt8)
    (later : Takes reader taken rest value) :
    Takes (do eat; reader) ([byte] ++ taken) rest value :=
  (takes_eat byte _).bind later

theorem takes_remaining (rest : List UInt8) : Takes remaining [] rest rest.length :=
  fun position => ⟨position, rfl⟩

def IsBlank (byte : UInt8) : Prop :=
  byte = 0x20 ∨ byte = 0x0A ∨ byte = 0x09 ∨ byte = 0x0D

instance (byte : UInt8) : Decidable (IsBlank byte) :=
  inferInstanceAs (Decidable (_ ∨ _ ∨ _ ∨ _))

theorem takes_peekToken {byte : UInt8} (solid : ¬ IsBlank byte) (rest : List UInt8) :
    Takes peekToken [] (byte :: rest) (some (Char.ofNat byte.toNat)) := by
  intro position
  refine ⟨position, ?_⟩
  have stays : skipBlanks (byte :: rest) position = { rest := byte :: rest, position } :=
    if_neg solid
  have moved : (modify fun cursor => skipBlanks cursor.rest cursor.position : Reader Unit)
      { rest := byte :: rest, position } = (.ok (), { rest := byte :: rest, position }) :=
    congrArg (Prod.mk _) stays
  rw [List.nil_append, peekToken, bind_of_ok moved]
  rfl

theorem takes_peekValue {byte : UInt8} (solid : ¬ IsBlank byte) (rest : List UInt8) :
    Takes peekValue [] (byte :: rest) (Char.ofNat byte.toNat) := by
  intro position
  obtain ⟨reached, ended⟩ := takes_peekToken solid rest position
  refine ⟨reached, ?_⟩
  rw [peekValue, bind_of_ok ended]
  rfl

theorem get_bind {next : Cursor → Reader β} (cursor : Cursor) :
    (get >>= next) cursor = next cursor cursor :=
  bind_of_ok rfl

/-! ## Texts -/

/-- Whether a byte stands for itself inside a text. -/
structure IsPlainByte (byte : UInt8) : Prop where
  printable : ¬ byte < 0x20
  ne_quote : byte ≠ 0x22
  ne_backslash : byte ≠ 0x5C

section TextBytes

variable {bound : Nat} {reversed taken more rest result : List UInt8}

theorem takes_textBytes_end : Takes (textBytes (bound + 1) reversed) [0x22] rest reversed.reverse :=
  fun position => ⟨position.after 0x22, rfl⟩

theorem takes_textBytes_plain {byte : UInt8} (plain : IsPlainByte byte)
    (later : Takes (textBytes bound (byte :: reversed)) more rest result) :
    Takes (textBytes (bound + 1) reversed) (byte :: more) rest result := by
  intro position
  obtain ⟨reached, ended⟩ := later (position.after byte)
  refine ⟨reached, ?_⟩
  have eaten : eat { rest := byte :: (more ++ rest), position } =
      (.ok (), { rest := more ++ rest, position := position.after byte }) := rfl
  rw [textBytes, get_bind]
  simp only [List.cons_append, plain.ne_quote, plain.ne_backslash, imp_self]
  rw [bind_of_ok eaten, if_neg plain.printable, ended]

theorem takes_textBytes_escape {c : Char} (escaped : Takes escape taken (more ++ rest) c)
    (later : Takes (textBytes bound ((String.utf8EncodeChar c).reverse ++ reversed)) more rest
      result) :
    Takes (textBytes (bound + 1) reversed) (0x5C :: (taken ++ more)) rest result := by
  intro position
  obtain ⟨middle, ended⟩ := escaped (position.after 0x5C)
  obtain ⟨reached, ended'⟩ := later middle
  refine ⟨reached, ?_⟩
  have eaten : eat { rest := 0x5C :: (taken ++ (more ++ rest)), position } =
      (.ok (), { rest := taken ++ (more ++ rest), position := position.after 0x5C }) := rfl
  rw [textBytes, get_bind]
  simp only [List.cons_append, List.append_assoc]
  rw [bind_of_ok eaten, bind_of_ok ended, ended']

theorem takes_textBytes_plains {bytes : List UInt8} (plain : ∀ byte ∈ bytes, IsPlainByte byte)
    (later : Takes (textBytes bound (bytes.reverse ++ reversed)) more rest result) :
    Takes (textBytes (bound + bytes.length) reversed) (bytes ++ more) rest result := by
  induction bytes generalizing reversed with
  | nil => exact later
  | cons byte bytes ih =>
    obtain ⟨first, others⟩ := List.forall_mem_cons.mp plain
    refine takes_textBytes_plain first (ih others ?_)
    rwa [List.reverse_cons, List.append_assoc] at later

end TextBytes

/-! ### Escapes -/

theorem hexValue?_digitChar {value : Nat} (small : value < 16) :
    hexValue? (Char.ofNat (UInt8.ofNat (Nat.digitChar value).toNat).toNat) = some value := by
  revert value
  decide

theorem takes_fourHex {first second : UInt8} {high low : Nat}
    (isHigh : hexValue? (Char.ofNat first.toNat) = some high)
    (isLow : hexValue? (Char.ofNat second.toNat) = some low) (rest : List UInt8) :
    Takes fourHex [0x30, 0x30, first, second] rest (high * 16 + low) := by
  intro position
  refine ⟨(((position.after 0x30).after 0x30).after first).after second, ?_⟩
  have zero : hexValue? (Char.ofNat (0x30 : UInt8).toNat) = some 0 := by decide
  have values : ([0x30, 0x30, first, second] : List UInt8).mapM
      (fun byte => hexValue? (Char.ofNat byte.toNat)) = some [0, 0, high, low] := by
    simp only [List.mapM_cons, List.mapM_nil, zero, isHigh, isLow, Option.bind_eq_bind,
      Option.bind_some, Option.pure_def]
  have value : [0, 0, high, low].foldl (fun value digit => value * 16 + digit) 0 =
      high * 16 + low := by simp
  rw [fourHex, get_bind]
  simp only [List.cons_append, List.nil_append, values]
  rw [value]
  rfl

/-- A control character is read from its number in hexadecimal digits. -/
theorem takes_escape_control {c : Char} (control : c.toNat < 0x20) (rest : List UInt8) :
    Takes escape [0x75, 0x30, 0x30, UInt8.ofNat (Nat.digitChar (c.toNat / 16)).toNat,
      UInt8.ofNat (Nat.digitChar (c.toNat % 16)).toNat] rest c := by
  have isHigh := @hexValue?_digitChar (c.toNat / 16) (by omega)
  have isLow := @hexValue?_digitChar (c.toNat % 16) (by omega)
  generalize UInt8.ofNat (Nat.digitChar (c.toNat / 16)).toNat = first at isHigh ⊢
  generalize UInt8.ofNat (Nat.digitChar (c.toNat % 16)).toNat = second at isLow ⊢
  intro position
  obtain ⟨reached, ended⟩ := takes_fourHex isHigh isLow rest (position.after 0x75)
  refine ⟨reached, ?_⟩
  have mark : escapeByte { rest := [0x75, 0x30, 0x30, first, second] ++ rest, position } =
      (.ok 'u', { rest := [0x30, 0x30, first, second] ++ rest
                  position := position.after 0x75 }) := rfl
  rw [Nat.div_add_mod'] at ended
  rw [escape, bind_of_ok mark, if_pos rfl, codePoint, bind_of_ok ended, if_neg (by omega),
    if_pos (by omega), Char.ofNat_toNat]
  rfl

theorem isPlainByte_of_mem {c : Char} (printable : ¬ c.toNat < 0x20) (ne_quote : c ≠ '"')
    (ne_backslash : c ≠ '\\') : ∀ byte ∈ String.utf8EncodeChar c, IsPlainByte byte := by
  intro byte member
  by_cases small : c.toNat < 0x80
  · rw [Utf8.utf8EncodeChar_of_lt small, List.mem_singleton] at member
    have number : byte.toNat = c.toNat := by
      rw [member, UInt8.toNat_ofNat_of_lt' (Nat.lt_trans small (by decide))]
    refine ⟨fun less => printable ?_, fun same => ne_quote ?_, fun same => ne_backslash ?_⟩
    · exact number ▸ UInt8.lt_iff_toNat_lt.mp less
    · exact Char.toNat_inj.mp (number.symm.trans (congrArg UInt8.toNat same))
    · exact Char.toNat_inj.mp (number.symm.trans (congrArg UInt8.toNat same))
  · have wide := Utf8.le_of_mem_utf8EncodeChar (Nat.le_of_not_lt small) byte member
    refine ⟨fun less => ?_, ?_, ?_⟩
    · exact absurd (UInt8.lt_iff_toNat_lt.mp less) (by simp only [UInt8.reduceToNat]; omega)
    · rintro rfl
      exact absurd wide (by decide)
    · rintro rfl
      exact absurd wide (by decide)

/-- A character inside a text is taken as it was written. -/
theorem takes_textBytes_writtenChar (c : Char) {bound : Nat} {reversed more rest result : List UInt8}
    (later : ∀ bound', bound ≤ bound' →
      Takes (textBytes bound' ((String.utf8EncodeChar c).reverse ++ reversed)) more rest result) :
    Takes (textBytes (bound + (Utf8.encode (writtenChar c)).length) reversed)
      (Utf8.encode (writtenChar c) ++ more) rest result := by
  -- An escape is taken in one round, so a round is left for each of its other bytes.
  have escaped : ∀ {code : List UInt8}, Takes escape code (more ++ rest) c →
      Takes (textBytes (bound + (0x5C :: code).length) reversed) (0x5C :: code ++ more) rest
        result := by
    intro code taken
    exact takes_textBytes_escape taken (later _ (Nat.le_add_right _ _))
  unfold writtenChar
  split_ifs with quote backspace feed newline ret tab control
  · rcases Bool.or_eq_true_iff.mp quote with same | same
    · obtain rfl := of_decide_eq_true same
      exact @escaped [0x22] fun position => ⟨_, rfl⟩
    · obtain rfl := of_decide_eq_true same
      exact @escaped [0x5C] fun position => ⟨_, rfl⟩
  · subst backspace
    exact @escaped [0x62] fun position => ⟨_, rfl⟩
  · subst feed
    exact @escaped [0x66] fun position => ⟨_, rfl⟩
  · subst newline
    exact @escaped [0x6E] fun position => ⟨_, rfl⟩
  · subst ret
    exact @escaped [0x72] fun position => ⟨_, rfl⟩
  · subst tab
    exact @escaped [0x74] fun position => ⟨_, rfl⟩
  · have digit : ∀ value < 16, (Nat.digitChar value).toNat < 0x80 := by decide
    have high := digit (c.toNat / 16) (by omega)
    have low := digit (c.toNat % 16) (by omega)
    rw [Utf8.encode_of_ascii (by simp [high, low])]
    exact escaped (takes_escape_control control _)
  · have plain := isPlainByte_of_mem control (fun same => quote (by simp [same]))
      (fun same => quote (by simp [same]))
    have single : Utf8.encode [c] = String.utf8EncodeChar c := List.append_nil _
    rw [single]
    exact takes_textBytes_plains plain (later bound (Nat.le_refl bound))

/-- The inside of a text and its closing quote are taken as they were written. -/
theorem takes_textBytes_written {text : List Char} {bound : Nat} {reversed : List UInt8}
    (enough : (Utf8.encode (text.flatMap writtenChar)).length < bound) (rest : List UInt8) :
    Takes (textBytes bound reversed) (Utf8.encode (text.flatMap writtenChar) ++ [0x22]) rest
      (reversed.reverse ++ Utf8.encode text) := by
  induction text generalizing bound reversed with
  | nil =>
    obtain ⟨bound, rfl⟩ := Nat.exists_eq_add_one_of_ne_zero (Nat.ne_of_gt enough)
    rw [Utf8.encode_nil, List.append_nil]
    exact takes_textBytes_end
  | cons c text ih =>
    rw [List.flatMap_cons, Utf8.encode_append] at enough ⊢
    rw [List.length_append] at enough
    -- What the first character leaves of the bound is enough for the others.
    obtain ⟨spare, rfl⟩ := Nat.exists_eq_add_of_le (Nat.le_of_lt (Nat.lt_of_le_of_lt
      (Nat.le_add_right _ _) enough))
    rw [List.append_assoc, Nat.add_comm]
    refine takes_textBytes_writtenChar c fun bound' more => ?_
    have tail := @ih bound' ((String.utf8EncodeChar c).reverse ++ reversed) (by omega)
    rwa [List.reverse_append, List.reverse_reverse, List.append_assoc, ← Utf8.encode_cons] at tail

theorem takes_textBody (text : String) (rest : List UInt8) :
    Takes textBody (Utf8.encode (text.toList.flatMap writtenChar) ++ [0x22]) rest text := by
  generalize whole : Utf8.encode (text.toList.flatMap writtenChar) ++ [0x22] = taken
  have enough : (Utf8.encode (text.toList.flatMap writtenChar)).length <
      (taken ++ rest).length + 1 := by
    rw [← whole]
    simp only [List.length_append]
    omega
  have inside := (@takes_textBytes_written text.toList _ [] enough rest).map Utf8.display
  rw [whole, List.reverse_nil, List.nil_append, Utf8.display_encode,
    String.ofList_toList] at inside
  exact Takes.look (takes_remaining _) inside

/-! ## Whole numbers -/

theorem ofNat_byte {c : Char} (ascii : c.toNat < 0x80) :
    Char.ofNat (UInt8.ofNat c.toNat).toNat = c := by
  rw [UInt8.toNat_ofNat_of_lt' (Nat.lt_trans ascii (by decide)), Char.ofNat_toNat]

theorem encode_cons_of_ascii {c : Char} (ascii : c.toNat < 0x80) (text : List Char) :
    Utf8.encode (c :: text) = UInt8.ofNat c.toNat :: Utf8.encode text := by
  rw [Utf8.encode_cons, Utf8.utf8EncodeChar_of_lt ascii, List.singleton_append]

theorem ascii_of_isDigit {c : Char} (isDigit : c.isDigit = true) : c.toNat < 0x80 := by
  simp only [Char.isDigit, Bool.and_eq_true, decide_eq_true_eq] at isDigit
  exact Nat.lt_of_le_of_lt (UInt32.le_iff_toNat_le.mp isDigit.2) (by decide)

theorem takes_digits {digits : List Char} (isDigit : ∀ c ∈ digits, c.isDigit = true)
    {rest : List UInt8} (ends : digitsOf rest = []) :
    Takes Reader.digits (Utf8.encode digits) rest digits := by
  have found : digitsOf (Utf8.encode digits ++ rest) = digits := by
    induction digits with
    | nil => exact ends
    | cons c digits ih =>
      obtain ⟨first, others⟩ := List.forall_mem_cons.mp isDigit
      have ascii := ascii_of_isDigit first
      rw [encode_cons_of_ascii ascii, List.cons_append, digitsOf, ofNat_byte ascii, if_pos first,
        ih others]
  have moved : ∀ position, ∃ reached,
      digits.foldl (fun (cursor : Cursor) _ => cursor.advance)
        { rest := Utf8.encode digits ++ rest, position } = { rest, position := reached } := by
    clear found
    induction digits with
    | nil => exact fun position => ⟨position, rfl⟩
    | cons c digits ih =>
      intro position
      obtain ⟨first, others⟩ := List.forall_mem_cons.mp isDigit
      obtain ⟨reached, ended⟩ := ih others (position.after (UInt8.ofNat c.toNat))
      refine ⟨reached, ?_⟩
      rw [encode_cons_of_ascii (ascii_of_isDigit first), List.foldl_cons]
      exact ended
  intro position
  obtain ⟨reached, ended⟩ := moved position
  refine ⟨reached, ?_⟩
  rw [Reader.digits, get_bind, found]
  exact congrArg (Prod.mk _) ended

theorem le_ofDigitChars (digits : List Char) (significand : Nat) :
    significand ≤ Nat.ofDigitChars 10 digits significand := by
  induction digits generalizing significand with
  | nil => exact Nat.le_refl _
  | cons digit digits ih =>
    rw [Nat.ofDigitChars_cons]
    exact Nat.le_trans (by omega) (ih _)

/-- Digits are added up as long as their value is a word. -/
theorem accumulate_eq {digits : List Char} {significand : Nat}
    (small : Nat.ofDigitChars 10 digits significand < UInt64.size) :
    accumulate significand digits = (Nat.ofDigitChars 10 digits significand, []) := by
  induction digits generalizing significand with
  | nil => rfl
  | cons digit digits ih =>
    have commuted : significand * 10 + (digit.toNat - '0'.toNat) =
        10 * significand + (digit.toNat - '0'.toNat) := by rw [Nat.mul_comm]
    rw [Nat.ofDigitChars_cons] at small ⊢
    rw [accumulate, commuted, if_pos (Nat.lt_of_le_of_lt (le_ofDigitChars digits _) small), ih small]

/-- Whether a byte may follow a value in an object. -/
def ClosesValue (byte : UInt8) : Prop :=
  byte = 0x2C ∨ byte = 0x7D

theorem takes_afterWhole (significand : Nat) {byte : UInt8} (closes : ClosesValue byte)
    (rest : List UInt8) :
    Takes (afterWhole true significand 0) [] (byte :: rest)
      (.unsigned (UInt64.ofNat significand)) := by
  rcases closes with rfl | rfl
  · exact fun position => ⟨position, rfl⟩
  · exact fun position => ⟨position, rfl⟩

/-- A word starts with a digit, and with another one than zero unless it is zero. -/
theorem exists_encode_render (word : UInt64) :
    ∃ byte rest, Utf8.encode (Decimal.render word).toList = byte :: rest ∧ ¬ IsBlank byte ∧
      (Char.ofNat byte.toNat).isDigit = true ∧ (word ≠ 0 → Char.ofNat byte.toNat ≠ '0') := by
  obtain ⟨first, rest, split, leading⟩ := Decimal.exists_render word
  have isDigit : first.isDigit = true :=
    Decimal.isDigit_of_mem_render (by simp [split] : first ∈ (Decimal.render word).toList)
  have ascii := ascii_of_isDigit isDigit
  have solid : ¬ IsBlank (UInt8.ofNat first.toNat) := by
    have low : 48 ≤ first.toNat := (Char.isDigit_iff_toNat.mp isDigit).1
    have number := UInt8.toNat_ofNat_of_lt' (Nat.lt_trans ascii (by decide))
    simp only [IsBlank, ← UInt8.toNat_inj, number, UInt8.reduceToNat]
    omega
  rw [split, encode_cons_of_ascii ascii]
  refine ⟨_, _, rfl, solid, ?_⟩
  rw [ofNat_byte ascii]
  exact ⟨isDigit, leading⟩

theorem takes_number (word : UInt64) {byte : UInt8} (closes : ClosesValue byte)
    (rest : List UInt8) :
    Takes (number true) (Utf8.encode (Decimal.render word).toList) (byte :: rest)
      (.unsigned word) := by
  rcases eq_or_ne word 0 with rfl | positive
  · have zero : Utf8.encode (Decimal.render 0).toList = [0x30] := by decide
    rw [zero]
    rcases closes with rfl | rfl
    · exact fun position => ⟨position.after 0x30, rfl⟩
    · exact fun position => ⟨position.after 0x30, rfl⟩
  have ends : digitsOf (byte :: rest) = [] := by
    rcases closes with rfl | rfl <;> rfl
  have value := Decimal.ofDigitChars_render word
  have sum : accumulate 0 (Decimal.render word).toList = (word.toNat, []) := by
    rw [accumulate_eq (value.symm ▸ word.toNat_lt_size), value]
  have after := takes_afterWhole word.toNat closes rest
  rw [UInt64.ofNat_toNat] at after
  obtain ⟨first, others, split, -, isDigit, leading⟩ := exists_encode_render word
  have leading := leading positive
  have looks := takes_peek first (others ++ byte :: rest)
  rw [← List.cons_append, ← split] at looks
  rw [number]
  refine looks.look ?_
  simp only [isDigit, if_true]
  refine (takes_digits (fun c => Decimal.isDigit_of_mem_render) ends).settle ?_
  rw [sum]
  exact after

theorem takes_unsigned (word : UInt64) (expected : String) {byte : UInt8}
    (closes : ClosesValue byte) (rest : List UInt8) :
    Takes (unsigned expected) (Utf8.encode (Decimal.render word).toList) (byte :: rest) word := by
  obtain ⟨first, others, split, solid, isDigit, -⟩ := exists_encode_render word
  have looks := takes_peekValue solid (others ++ byte :: rest)
  rw [← List.cons_append, ← split] at looks
  have ne_minus : Char.ofNat first.toNat ≠ '-' := by
    intro minus
    rw [minus] at isDigit
    cases isDigit
  rw [unsigned]
  refine looks.look ?_
  simp only [isDigit, if_true]
  exact ((takes_number word closes rest).settle (.pure word _)).placing

theorem takes_optional (count : Option UInt64) (expected : String) {byte : UInt8}
    (closes : ClosesValue byte) (rest : List UInt8) :
    Takes (Reader.optional (unsigned expected))
      (Utf8.encode (writtenOptional count).toList) (byte :: rest) count := by
  cases count with
  | none => exact fun position => ⟨_, rfl⟩
  | some count =>
    obtain ⟨first, others, split, solid, isDigit, -⟩ := exists_encode_render count
    have looks := takes_peekToken solid (others ++ byte :: rest)
    rw [← List.cons_append, ← split] at looks
    rw [Reader.optional]
    refine looks.look ?_
    split
    · rename_i null
      rw [Option.some_inj] at null
      rw [null] at isDigit
      cases isDigit
    · exact (takes_unsigned count expected closes rest).map some

theorem takes_boolean (value : Bool) (rest : List UInt8) :
    Takes boolean (Utf8.encode (writtenBoolean value).toList) rest value := by
  cases value with
  | false => exact fun position => ⟨_, rfl⟩
  | true => exact fun position => ⟨_, rfl⟩

theorem encode_writtenText (text : String) :
    Utf8.encode (writtenText text).toList =
      [0x22] ++ (Utf8.encode (text.toList.flatMap writtenChar) ++ [0x22]) := by
  rw [writtenText, String.toList_ofList, List.cons_append, Utf8.encode_cons, Utf8.encode_append]
  rfl

theorem takes_text (text expected : String) (rest : List UInt8) :
    Takes (Reader.text expected) (Utf8.encode (writtenText text).toList) rest text := by
  rw [encode_writtenText, Reader.text, textWith]
  have inside := ((takes_textBody text rest).settle (.pure text rest)).afterByte 0x22
  refine (takes_peekValue (by decide) _).look ?_
  exact inside.placing

end ArtifactCache.Json
