/-! # Text inside byte strings

The names on a disk are byte strings.  Most of them are UTF-8 text, and this
module reads a byte string as a sequence of pieces: characters, and short runs
of bytes that belong to no character.  A byte string is text exactly when all of
its pieces are characters, and it can always be shown by putting a replacement
character in the place of each malformed run.
-/

namespace ArtifactCache.Utf8

/-- The bytes that write a text. -/
def encode (text : List Char) : List UInt8 :=
  text.flatMap String.utf8EncodeChar

/-- One step of reading: a character, or the longest run of bytes that starts
like a character and is none. -/
inductive Piece where
  | character (c : Char)
  | malformed (bytes : List UInt8)
  deriving DecidableEq, Repr

/-- The part of a character that has been read so far.  The next byte must lie
between `low` and `high`; `owed` bytes are missing. -/
structure Partial where
  owed : Nat
  low : UInt8
  high : UInt8
  value : Nat
  seen : List UInt8
  deriving DecidableEq, Repr

/-- What the first byte of a character announces.  The narrower ranges after
`E0`, `ED`, `F0` and `F4` exclude overlong forms, surrogates and values past the
last code point. -/
def begin (byte : UInt8) : Piece ⊕ Partial :=
  let owing (owed : Nat) (low high : UInt8) (offset : Nat) : Piece ⊕ Partial :=
    .inr { owed, low, high, value := byte.toNat - offset, seen := [byte] }
  if byte < 0x80 then .inl (.character (Char.ofNat byte.toNat))
  else if byte < 0xC2 then .inl (.malformed [byte])
  else if byte < 0xE0 then owing 1 0x80 0xBF 0xC0
  else if byte = 0xE0 then owing 2 0xA0 0xBF 0xE0
  else if byte = 0xED then owing 2 0x80 0x9F 0xE0
  else if byte < 0xF0 then owing 2 0x80 0xBF 0xE0
  else if byte = 0xF0 then owing 3 0x90 0xBF 0xF0
  else if byte < 0xF4 then owing 3 0x80 0xBF 0xF0
  else if byte = 0xF4 then owing 3 0x80 0x8F 0xF0
  else .inl (.malformed [byte])

/-- Read the remaining bytes, given the character that is under way.  A byte that
does not continue it closes a malformed run and is read afresh. -/
def piecesFrom : Option Partial → List UInt8 → List Piece
  | none, [] => []
  | some under, [] => [.malformed under.seen]
  | none, byte :: rest =>
    match begin byte with
    | .inl piece => piece :: piecesFrom none rest
    | .inr under => piecesFrom (some under) rest
  | some under, byte :: rest =>
    if under.low ≤ byte ∧ byte ≤ under.high then
      let value := under.value * 64 + (byte.toNat - 0x80)
      if under.owed ≤ 1 then
        .character (Char.ofNat value) :: piecesFrom none rest
      else
        piecesFrom (some { owed := under.owed - 1, low := 0x80, high := 0xBF, value,
                           seen := under.seen ++ [byte] }) rest
    else
      .malformed under.seen ::
        match begin byte with
        | .inl piece => piece :: piecesFrom none rest
        | .inr again => piecesFrom (some again) rest

def pieces (bytes : List UInt8) : List Piece :=
  piecesFrom none bytes

def Piece.character? : Piece → Option Char
  | .character c => some c
  | .malformed _ => none

/-- The text of a byte string that is UTF-8 throughout. -/
def decode? (bytes : List UInt8) : Option (List Char) :=
  (pieces bytes).mapM Piece.character?

/-- The text that shows any byte string: every malformed run becomes one
replacement character. -/
def display (bytes : List UInt8) : String :=
  String.ofList ((pieces bytes).map fun piece => piece.character?.getD '\uFFFD')

end ArtifactCache.Utf8
