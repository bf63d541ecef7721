import ArtifactCache.Text.Utf8
import Mathlib.Data.List.Basic

/-! # Text that is written and read as bytes

Different texts are written as different bytes, and bytes that were read as a text are
the bytes that write it.  For the second half each piece that is read is shown to stand
for its own bytes.  While a character is under way this is a promise: whichever bytes
may still complete it, the character that comes out is written as all of them.

Conversely every text is read as it was written.  The first byte of a character announces
as many bytes as it is written with, and none of them is out of the announced range.
-/

namespace ArtifactCache.Utf8

/-! ## Characters -/

theorem val_ofNat {value : Nat} (valid : value.isValidChar) :
    (Char.ofNat value).val.toNat = value := by
  rw [Char.ofNat, dif_pos valid]
  rfl

theorem utf8EncodeChar_of_lt {c : Char} (small : c.toNat < 0x80) :
    String.utf8EncodeChar c = [UInt8.ofNat c.toNat] :=
  if_pos (Nat.le_of_lt_succ small)

/-- The bytes of a character that is not ASCII are no ASCII characters either. -/
theorem le_of_mem_utf8EncodeChar {c : Char} (wide : 0x80 ≤ c.toNat) :
    ∀ byte ∈ String.utf8EncodeChar c, 0x80 ≤ byte.toNat := by
  have wide : ¬ c.val.toNat ≤ 127 := Nat.not_le.mpr wide
  rw [String.utf8EncodeChar, if_neg wide]
  split_ifs
  all_goals
    simp only [List.mem_cons, List.not_mem_nil, or_false, forall_eq_or_imp, forall_eq,
      UInt8.toNat_ofNat']
    omega

/-- Whether a byte continues a character. -/
def IsTail (byte : UInt8) : Prop :=
  0x80 ≤ byte ∧ byte ≤ 0xBF

theorem IsTail.bounds {byte : UInt8} (tail : IsTail byte) :
    0x80 ≤ byte.toNat ∧ byte.toNat ≤ 0xBF :=
  ⟨UInt8.le_iff_toNat_le.mp tail.1, UInt8.le_iff_toNat_le.mp tail.2⟩

theorem ofNat_eq_of_toNat {value : Nat} (byte : UInt8) (same : value = byte.toNat) :
    UInt8.ofNat value = byte := by
  rw [same, UInt8.ofNat_toNat]

theorem utf8EncodeChar_two {first second : UInt8} (low : 0xC2 ≤ first.toNat)
    (high : first.toNat < 0xE0) (tail : IsTail second) :
    String.utf8EncodeChar
      (Char.ofNat ((first.toNat - 0xC0) * 64 + (second.toNat - 0x80))) = [first, second] := by
  have bounds := tail.bounds
  have valid : ((first.toNat - 0xC0) * 64 + (second.toNat - 0x80)).isValidChar :=
    .inl (by omega)
  rw [String.utf8EncodeChar]
  simp only [val_ofNat valid]
  rw [if_neg (by omega), if_pos (by omega), ofNat_eq_of_toNat first (by omega),
    ofNat_eq_of_toNat second (by omega)]

theorem utf8EncodeChar_three {first second third : UInt8} (low : 0xE0 ≤ first.toNat)
    (high : first.toNat < 0xF0) (shortest : first.toNat = 0xE0 → 0xA0 ≤ second.toNat)
    (scalar : first.toNat = 0xED → second.toNat ≤ 0x9F) (tail : IsTail second)
    (tail' : IsTail third) :
    String.utf8EncodeChar
      (Char.ofNat (((first.toNat - 0xE0) * 64 + (second.toNat - 0x80)) * 64 +
        (third.toNat - 0x80))) = [first, second, third] := by
  have bounds := tail.bounds
  have bounds' := tail'.bounds
  have valid : (((first.toNat - 0xE0) * 64 + (second.toNat - 0x80)) * 64 +
      (third.toNat - 0x80)).isValidChar := by
    rw [Nat.isValidChar]
    omega
  rw [String.utf8EncodeChar]
  simp only [val_ofNat valid]
  rw [if_neg (by omega), if_neg (by omega), if_pos (by omega),
    ofNat_eq_of_toNat first (by omega), ofNat_eq_of_toNat second (by omega),
    ofNat_eq_of_toNat third (by omega)]

theorem utf8EncodeChar_four {first second third fourth : UInt8} (low : 0xF0 ≤ first.toNat)
    (high : first.toNat < 0xF5) (shortest : first.toNat = 0xF0 → 0x90 ≤ second.toNat)
    (scalar : first.toNat = 0xF4 → second.toNat ≤ 0x8F) (tail : IsTail second)
    (tail' : IsTail third) (tail'' : IsTail fourth) :
    String.utf8EncodeChar
      (Char.ofNat ((((first.toNat - 0xF0) * 64 + (second.toNat - 0x80)) * 64 +
        (third.toNat - 0x80)) * 64 + (fourth.toNat - 0x80))) = [first, second, third, fourth] := by
  have bounds := tail.bounds
  have bounds' := tail'.bounds
  have bounds'' := tail''.bounds
  have valid : ((((first.toNat - 0xF0) * 64 + (second.toNat - 0x80)) * 64 +
      (third.toNat - 0x80)) * 64 + (fourth.toNat - 0x80)).isValidChar :=
    .inr ⟨by omega, by omega⟩
  rw [String.utf8EncodeChar]
  simp only [val_ofNat valid]
  rw [if_neg (by omega), if_neg (by omega), if_neg (by omega),
    ofNat_eq_of_toNat first (by omega), ofNat_eq_of_toNat second (by omega),
    ofNat_eq_of_toNat third (by omega), ofNat_eq_of_toNat fourth (by omega)]

/-! ## Writing -/

@[simp]
theorem encode_nil : encode [] = [] := rfl

@[simp]
theorem encode_cons (c : Char) (text : List Char) :
    encode (c :: text) = String.utf8EncodeChar c ++ encode text := rfl

@[simp]
theorem encode_append (first second : List Char) :
    encode (first ++ second) = encode first ++ encode second :=
  List.flatMap_append

theorem encode_of_ascii {text : List Char} (ascii : ∀ c ∈ text, c.toNat < 0x80) :
    encode text = text.map fun c => UInt8.ofNat c.toNat := by
  induction text with
  | nil => rfl
  | cons c text ih =>
    rw [encode_cons, utf8EncodeChar_of_lt (ascii c (by simp)),
      ih fun other member => ascii other (by simp [member])]
    rfl

theorem encode_injective : Function.Injective encode := by
  intro first second same
  have bytes : first.utf8Encode = second.utf8Encode := by
    rw [List.utf8Encode, List.utf8Encode]
    exact congrArg List.toByteArray same
  have read := congrArg ByteArray.utf8Decode? bytes
  simp only [List.utf8Decode?_utf8Encode, Option.some.injEq] at read
  simpa using congrArg Array.toList read

/-! ## Reading -/

/-- The value of a character once further bytes have been read. -/
def valueAfter (value : Nat) (bytes : List UInt8) : Nat :=
  bytes.foldl (fun value byte => value * 64 + (byte.toNat - 0x80)) value

/-- Whether a character under way keeps the promise to be written as the bytes that were
read for it, whichever bytes complete it. -/
structure Partial.Faithful (under : Partial) : Prop where
  owes : 0 < under.owed
  spells : ∀ byte rest, under.low ≤ byte → byte ≤ under.high → (∀ tail ∈ rest, IsTail tail) →
    rest.length + 1 = under.owed →
      String.utf8EncodeChar (Char.ofNat (valueAfter under.value (byte :: rest))) =
        under.seen ++ byte :: rest

def Piece.bytes : Piece → List UInt8
  | .character c => String.utf8EncodeChar c
  | .malformed bytes => bytes

theorem faithful_two {first : UInt8} (start : 0xC2 ≤ first.toNat) (stop : first.toNat < 0xE0) :
    Partial.Faithful
      { owed := 1, low := 0x80, high := 0xBF, value := first.toNat - 0xC0, seen := [first] } where
  owes := Nat.one_pos
  spells second rest low high tails length := by
    obtain rfl : rest = [] := List.eq_nil_of_length_eq_zero (by simpa using length)
    exact utf8EncodeChar_two start stop ⟨low, high⟩

theorem faithful_three {first low high : UInt8} (start : 0xE0 ≤ first.toNat)
    (stop : first.toNat < 0xF0) (tail : 0x80 ≤ low.toNat ∧ high.toNat ≤ 0xBF)
    (shortest : first.toNat = 0xE0 → 0xA0 ≤ low.toNat)
    (scalar : first.toNat = 0xED → high.toNat ≤ 0x9F) :
    Partial.Faithful
      { owed := 2, low, high, value := first.toNat - 0xE0, seen := [first] } where
  owes := Nat.two_pos
  spells second rest above below tails length := by
    obtain ⟨third, rfl⟩ := List.length_eq_one_iff.mp (Nat.succ.inj length)
    have above := UInt8.le_iff_toNat_le.mp above
    have below := UInt8.le_iff_toNat_le.mp below
    refine utf8EncodeChar_three start stop (fun same => ?_) (fun same => ?_) ⟨?_, ?_⟩
      (tails third (by simp))
    · exact Nat.le_trans (shortest same) above
    · exact Nat.le_trans below (scalar same)
    · exact UInt8.le_iff_toNat_le.mpr (Nat.le_trans tail.1 above)
    · exact UInt8.le_iff_toNat_le.mpr (Nat.le_trans below tail.2)

theorem faithful_four {first low high : UInt8} (start : 0xF0 ≤ first.toNat)
    (stop : first.toNat < 0xF5) (tail : 0x80 ≤ low.toNat ∧ high.toNat ≤ 0xBF)
    (shortest : first.toNat = 0xF0 → 0x90 ≤ low.toNat)
    (scalar : first.toNat = 0xF4 → high.toNat ≤ 0x8F) :
    Partial.Faithful
      { owed := 3, low, high, value := first.toNat - 0xF0, seen := [first] } where
  owes := Nat.succ_pos 2
  spells second rest above below tails length := by
    obtain ⟨third, fourth, rfl⟩ := List.length_eq_two.mp (Nat.succ.inj length)
    have above := UInt8.le_iff_toNat_le.mp above
    have below := UInt8.le_iff_toNat_le.mp below
    refine utf8EncodeChar_four start stop (fun same => ?_) (fun same => ?_) ⟨?_, ?_⟩
      (tails third (by simp)) (tails fourth (by simp))
    · exact Nat.le_trans (shortest same) above
    · exact Nat.le_trans below (scalar same)
    · exact UInt8.le_iff_toNat_le.mpr (Nat.le_trans tail.1 above)
    · exact UInt8.le_iff_toNat_le.mpr (Nat.le_trans below tail.2)

/-- Whether what a first byte announces is true to it: a piece stands for the byte, and a
character under way keeps its promise. -/
def Announces (byte : UInt8) : Piece ⊕ Partial → Prop
  | .inl piece => piece.bytes = [byte]
  | .inr under => under.Faithful ∧ under.seen = [byte]

theorem announces_character {byte : UInt8} (ascii : byte.toNat < 0x80) :
    Announces byte (.inl (.character (Char.ofNat byte.toNat))) := by
  have valid : byte.toNat.isValidChar := .inl (Nat.lt_trans ascii (by decide))
  have same : (Char.ofNat byte.toNat).toNat = byte.toNat := val_ofNat valid
  change String.utf8EncodeChar (Char.ofNat byte.toNat) = [byte]
  rw [utf8EncodeChar_of_lt (same.symm ▸ ascii), same, UInt8.ofNat_toNat]

theorem announces_begin (byte : UInt8) : Announces byte (begin byte) := by
  unfold begin
  simp only [UInt8.lt_iff_toNat_lt, ← UInt8.toNat_inj, UInt8.reduceToNat]
  by_cases ascii : byte.toNat < 0x80
  · rw [if_pos ascii]
    exact announces_character ascii
  rw [if_neg ascii]
  by_cases stray : byte.toNat < 0xC2
  · rw [if_pos stray]
    exact rfl
  rw [if_neg stray]
  by_cases two : byte.toNat < 0xE0
  · rw [if_pos two]
    exact ⟨faithful_two (by omega) two, rfl⟩
  rw [if_neg two]
  by_cases three : byte.toNat < 0xF0
  · split_ifs
    all_goals
      exact ⟨faithful_three (by omega) three (by decide) (by simp <;> omega)
        (by simp <;> omega), rfl⟩
  split_ifs
  all_goals first
    | omega
    | exact rfl
    | exact ⟨faithful_four (by omega) (by omega) (by decide) (by simp <;> omega)
        (by simp <;> omega), rfl⟩

/-- A byte that does not complete a character keeps its promise. -/
theorem Partial.Faithful.next {under : Partial} (faithful : under.Faithful) {byte : UInt8}
    (inRange : under.low ≤ byte ∧ byte ≤ under.high) (more : 1 < under.owed) :
    Faithful { owed := under.owed - 1, low := 0x80, high := 0xBF,
               value := under.value * 64 + (byte.toNat - 0x80), seen := under.seen ++ [byte] } where
  owes := Nat.sub_pos_of_lt more
  spells next rest low high tails length := by
    have complete := faithful.spells byte (next :: rest) inRange.1 inRange.2
      (List.forall_mem_cons.mpr ⟨⟨low, high⟩, tails⟩) (by
        simp only [List.length_cons] at length ⊢
        omega)
    simpa [valueAfter] using complete

/-- The byte that completes a character completes what it is written as. -/
theorem Partial.Faithful.last {under : Partial} (faithful : under.Faithful) {byte : UInt8}
    (inRange : under.low ≤ byte ∧ byte ≤ under.high) (single : under.owed ≤ 1) :
    String.utf8EncodeChar (Char.ofNat (under.value * 64 + (byte.toNat - 0x80))) =
      under.seen ++ [byte] := by
  have owes := faithful.owes
  exact faithful.spells byte [] inRange.1 inRange.2 (by simp)
    (by simp only [List.length_nil]; omega)

/-- The pieces of a byte string stand for all of its bytes. -/
theorem flatMap_bytes_piecesFrom (bytes : List UInt8) :
    (piecesFrom none bytes).flatMap Piece.bytes = bytes ∧
      ∀ under : Partial, under.Faithful →
        (piecesFrom (some under) bytes).flatMap Piece.bytes = under.seen ++ bytes := by
  induction bytes with
  | nil =>
    refine ⟨rfl, fun under _ => ?_⟩
    simp [piecesFrom, Piece.bytes]
  | cons byte rest ih =>
    have afresh : (piecesFrom none (byte :: rest)).flatMap Piece.bytes = byte :: rest := by
      rw [piecesFrom]
      have announced := announces_begin byte
      cases begun : begin byte with
      | inl piece =>
        rw [begun] at announced
        rw [List.flatMap_cons, announced, ih.1, List.singleton_append]
      | inr under =>
        rw [begun] at announced
        rw [ih.2 under announced.1, announced.2, List.singleton_append]
    refine ⟨afresh, fun under faithful => ?_⟩
    rw [piecesFrom]
    split
    next inRange =>
      dsimp only
      split
      next single =>
        rw [List.flatMap_cons, Piece.bytes, faithful.last inRange single, ih.1,
          List.append_assoc]
        rfl
      next more =>
        rw [ih.2 _ (faithful.next inRange (Nat.not_le.mp more)), List.append_assoc]
        rfl
    next =>
      rw [piecesFrom] at afresh
      rw [List.flatMap_cons, Piece.bytes]
      exact congrArg (under.seen ++ ·) afresh

theorem encode_of_mapM_character? {pieces : List Piece} {text : List Char}
    (read : pieces.mapM Piece.character? = some text) :
    encode text = pieces.flatMap Piece.bytes := by
  induction pieces generalizing text with
  | nil =>
    obtain rfl : [] = text := by simpa using read
    rfl
  | cons piece pieces ih =>
    simp only [List.mapM_cons, Option.bind_eq_bind, Option.bind_eq_some_iff, Option.pure_def,
      Option.some.injEq] at read
    obtain ⟨c, isCharacter, rest, readRest, rfl⟩ := read
    cases piece with
    | malformed bytes => cases isCharacter
    | character same =>
      obtain rfl : same = c := Option.some.inj isCharacter
      rw [encode_cons, ih readRest, List.flatMap_cons, Piece.bytes]

theorem encode_of_decode? {bytes : List UInt8} {text : List Char}
    (read : decode? bytes = some text) : encode text = bytes := by
  rw [encode_of_mapM_character? read, pieces, (flatMap_bytes_piecesFrom bytes).1]

/-! ## Reading what was written -/

theorem begin_two {byte : UInt8} (low : 0xC2 ≤ byte.toNat) (high : byte.toNat < 0xE0) :
    begin byte = .inr { owed := 1, low := 0x80, high := 0xBF, value := byte.toNat - 0xC0,
                        seen := [byte] } := by
  unfold begin
  simp only [UInt8.lt_iff_toNat_lt, ← UInt8.toNat_inj, UInt8.reduceToNat]
  rw [if_neg (by omega), if_neg (by omega), if_pos high]

theorem begin_three {byte second : UInt8} (start : 0xE0 ≤ byte.toNat) (stop : byte.toNat < 0xF0)
    (tail : IsTail second) (shortest : byte.toNat = 0xE0 → 0xA0 ≤ second.toNat)
    (scalar : byte.toNat = 0xED → second.toNat ≤ 0x9F) :
    ∃ low high, begin byte = .inr { owed := 2, low, high, value := byte.toNat - 0xE0,
                                    seen := [byte] } ∧ low ≤ second ∧ second ≤ high := by
  obtain ⟨above, below⟩ := tail
  unfold begin
  simp only [UInt8.lt_iff_toNat_lt, UInt8.le_iff_toNat_le, ← UInt8.toNat_inj,
    UInt8.reduceToNat] at above below ⊢
  rw [if_neg (by omega), if_neg (by omega), if_neg (by omega)]
  split_ifs with first last
  · exact ⟨_, _, rfl, shortest first, below⟩
  · exact ⟨_, _, rfl, above, scalar last⟩
  · exact ⟨_, _, rfl, above, below⟩

theorem begin_four {byte second : UInt8} (start : 0xF0 ≤ byte.toNat) (stop : byte.toNat < 0xF5)
    (tail : IsTail second) (shortest : byte.toNat = 0xF0 → 0x90 ≤ second.toNat)
    (scalar : byte.toNat = 0xF4 → second.toNat ≤ 0x8F) :
    ∃ low high, begin byte = .inr { owed := 3, low, high, value := byte.toNat - 0xF0,
                                    seen := [byte] } ∧ low ≤ second ∧ second ≤ high := by
  obtain ⟨above, below⟩ := tail
  unfold begin
  simp only [UInt8.lt_iff_toNat_lt, UInt8.le_iff_toNat_le, ← UInt8.toNat_inj,
    UInt8.reduceToNat] at above below ⊢
  rw [if_neg (by omega), if_neg (by omega), if_neg (by omega), if_neg (by omega),
    if_neg (by omega), if_neg (by omega)]
  split_ifs with first middle last
  · exact ⟨_, _, rfl, shortest first, below⟩
  · exact ⟨_, _, rfl, above, below⟩
  · exact ⟨_, _, rfl, above, scalar last⟩
  · omega

theorem piecesFrom_of_owes {under : Partial} {byte : UInt8} (rest : List UInt8)
    (low : under.low ≤ byte) (high : byte ≤ under.high) (more : 1 < under.owed) :
    piecesFrom (some under) (byte :: rest) =
      piecesFrom (some { owed := under.owed - 1, low := 0x80, high := 0xBF,
                         value := under.value * 64 + (byte.toNat - 0x80),
                         seen := under.seen ++ [byte] }) rest := by
  rw [piecesFrom, if_pos ⟨low, high⟩]
  dsimp only
  rw [if_neg (Nat.not_le.mpr more)]

theorem piecesFrom_of_last {under : Partial} {byte : UInt8} (rest : List UInt8)
    (low : under.low ≤ byte) (high : byte ≤ under.high) (last : under.owed ≤ 1) :
    piecesFrom (some under) (byte :: rest) =
      .character (Char.ofNat (under.value * 64 + (byte.toNat - 0x80))) :: piecesFrom none rest := by
  rw [piecesFrom, if_pos ⟨low, high⟩]
  dsimp only
  rw [if_pos last]

theorem piecesFrom_of_begin {byte : UInt8} (rest : List UInt8) {under : Partial}
    (begun : begin byte = .inr under) :
    piecesFrom none (byte :: rest) = piecesFrom (some under) rest := by
  rw [piecesFrom, begun]

theorem isTail_ofNat {value : Nat} (small : value < 64) : IsTail (UInt8.ofNat (value + 128)) := by
  simp only [IsTail, UInt8.le_iff_toNat_le, UInt8.toNat_ofNat', UInt8.reduceToNat]
  omega

theorem piecesFrom_two {first second : UInt8} (low : 0xC2 ≤ first.toNat)
    (high : first.toNat < 0xE0) (tail : IsTail second) (rest : List UInt8) :
    piecesFrom none (first :: second :: rest) =
      .character (Char.ofNat ((first.toNat - 0xC0) * 64 + (second.toNat - 0x80))) ::
        piecesFrom none rest := by
  rw [piecesFrom_of_begin _ (begin_two low high),
    piecesFrom_of_last _ tail.1 tail.2 (Nat.le_refl 1)]

theorem piecesFrom_three {first second third : UInt8} (low : 0xE0 ≤ first.toNat)
    (high : first.toNat < 0xF0) (shortest : first.toNat = 0xE0 → 0xA0 ≤ second.toNat)
    (scalar : first.toNat = 0xED → second.toNat ≤ 0x9F) (tail : IsTail second)
    (tail' : IsTail third) (rest : List UInt8) :
    piecesFrom none (first :: second :: third :: rest) =
      .character (Char.ofNat (((first.toNat - 0xE0) * 64 + (second.toNat - 0x80)) * 64 +
        (third.toNat - 0x80))) :: piecesFrom none rest := by
  obtain ⟨least, greatest, begun, above, below⟩ := begin_three low high tail shortest scalar
  rw [piecesFrom_of_begin _ begun, piecesFrom_of_owes _ above below (Nat.lt_succ_self 1),
    piecesFrom_of_last _ tail'.1 tail'.2 (Nat.le_refl 1)]

theorem piecesFrom_four {first second third fourth : UInt8} (low : 0xF0 ≤ first.toNat)
    (high : first.toNat < 0xF5) (shortest : first.toNat = 0xF0 → 0x90 ≤ second.toNat)
    (scalar : first.toNat = 0xF4 → second.toNat ≤ 0x8F) (tail : IsTail second)
    (tail' : IsTail third) (tail'' : IsTail fourth) (rest : List UInt8) :
    piecesFrom none (first :: second :: third :: fourth :: rest) =
      .character (Char.ofNat ((((first.toNat - 0xF0) * 64 + (second.toNat - 0x80)) * 64 +
        (third.toNat - 0x80)) * 64 + (fourth.toNat - 0x80))) :: piecesFrom none rest := by
  obtain ⟨least, greatest, begun, above, below⟩ := begin_four low high tail shortest scalar
  rw [piecesFrom_of_begin _ begun, piecesFrom_of_owes _ above below (show 1 < 3 by decide),
    piecesFrom_of_owes _ tail'.1 tail'.2 (Nat.lt_succ_self 1),
    piecesFrom_of_last _ tail''.1 tail''.2 (Nat.le_refl 1)]

theorem piecesFrom_utf8EncodeChar (c : Char) (rest : List UInt8) :
    piecesFrom none (String.utf8EncodeChar c ++ rest) = .character c :: piecesFrom none rest := by
  have valid : c.toNat < 0xD800 ∨ 0xDFFF < c.toNat ∧ c.toNat < 0x110000 := c.valid
  have decoded : ∀ {value}, value = c.toNat →
      Piece.character (Char.ofNat value) :: piecesFrom none rest =
        .character c :: piecesFrom none rest := by
    rintro _ rfl
    rw [Char.ofNat_toNat]
  have number : c.val.toNat = c.toNat := rfl
  rw [String.utf8EncodeChar, number]
  -- A character is written with as many bytes as it needs.
  split_ifs with one two three
  · have lead : (UInt8.ofNat c.toNat).toNat = c.toNat :=
      UInt8.toNat_ofNat_of_lt' (Nat.lt_of_le_of_lt one (by decide))
    have single : begin (UInt8.ofNat c.toNat) = .inl (.character c) := by
      rw [begin, if_pos (UInt8.lt_iff_toNat_lt.mpr (lead.symm ▸ Nat.lt_succ_of_le one)), lead,
        Char.ofNat_toNat]
    rw [List.singleton_append, piecesFrom, single]
  · have lead := @UInt8.toNat_ofNat' (c.toNat / 64 % 32 + 192)
    have last := @UInt8.toNat_ofNat' (c.toNat % 64 + 128)
    refine (piecesFrom_two ?_ ?_ (isTail_ofNat (Nat.mod_lt _ (by decide))) rest).trans
      (decoded ?_)
    all_goals omega
  · have lead := @UInt8.toNat_ofNat' (c.toNat / 4096 % 16 + 224)
    have middle := @UInt8.toNat_ofNat' (c.toNat / 64 % 64 + 128)
    have last := @UInt8.toNat_ofNat' (c.toNat % 64 + 128)
    refine (piecesFrom_three ?_ ?_ ?_ ?_ (isTail_ofNat (Nat.mod_lt _ (by decide)))
      (isTail_ofNat (Nat.mod_lt _ (by decide))) rest).trans (decoded ?_)
    all_goals omega
  · have lead := @UInt8.toNat_ofNat' (c.toNat / 262144 % 8 + 240)
    have second := @UInt8.toNat_ofNat' (c.toNat / 4096 % 64 + 128)
    have third := @UInt8.toNat_ofNat' (c.toNat / 64 % 64 + 128)
    have last := @UInt8.toNat_ofNat' (c.toNat % 64 + 128)
    refine (piecesFrom_four ?_ ?_ ?_ ?_ (isTail_ofNat (Nat.mod_lt _ (by decide)))
      (isTail_ofNat (Nat.mod_lt _ (by decide))) (isTail_ofNat (Nat.mod_lt _ (by decide)))
      rest).trans (decoded ?_)
    all_goals omega

theorem pieces_encode (text : List Char) : pieces (encode text) = text.map .character := by
  induction text with
  | nil => rfl
  | cons c text ih =>
    rw [pieces, encode_cons, piecesFrom_utf8EncodeChar, ← pieces, ih, List.map_cons]

theorem decode?_encode (text : List Char) : decode? (encode text) = some text := by
  rw [decode?, pieces_encode, List.mapM_map]
  induction text with
  | nil => rfl
  | cons c text ih => simp_all [Piece.character?]

theorem display_encode (text : List Char) : display (encode text) = String.ofList text := by
  rw [display, pieces_encode, List.map_map]
  exact congrArg String.ofList (List.map_id text)

end ArtifactCache.Utf8
