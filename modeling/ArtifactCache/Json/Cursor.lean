import ArtifactCache.Text.Utf8

/-! # Reading positions and faults

A text is read byte by byte, and the position of a fault is given by its line and
by the number of bytes that were read in that line.  Some faults are found only
when a value is judged as a whole; these start without a position and receive one
from the reader around them.
-/

namespace ArtifactCache.Json

structure Position where
  line : Nat
  column : Nat
  deriving DecidableEq, Repr

/-- The bytes that are still to be read, and the place that has been reached. -/
structure Cursor where
  rest : List UInt8
  position : Position
  deriving DecidableEq, Repr

def Cursor.start (bytes : List UInt8) : Cursor :=
  { rest := bytes, position := { line := 1, column := 0 } }

def Position.after (position : Position) (byte : UInt8) : Position :=
  if byte = 0x0A then { line := position.line + 1, column := 0 }
  else { position with column := position.column + 1 }

/-- The cursor behind the next byte, if there is one. -/
def Cursor.advance (cursor : Cursor) : Cursor :=
  match cursor.rest with
  | [] => cursor
  | byte :: rest => { rest, position := cursor.position.after byte }

/-- What a value looked like, for faults that say what was found. -/
inductive Found where
  | null
  | boolean (value : Bool)
  | integer (value : Int)
  | float (text : String)
  | text (value : String)
  | sequence
  | map
  deriving DecidableEq, Repr

/-- Why a text could not be read. -/
inductive Cause where
  | endInValue
  | endInList
  | endInObject
  | endInString
  | expectedColon
  | expectedListCommaOrEnd
  | expectedObjectCommaOrEnd
  | expectedWord
  | expectedValue
  | invalidEscape
  | invalidNumber
  | numberOutOfRange
  | controlCharacter
  | keyNotText
  | loneSurrogate
  | endOfSurrogatePair
  | trailingComma
  | trailingCharacters
  | wrongType (found : Found) (expected : String)
  | wrongValue (found : Found) (expected : String)
  | wrongLength (length : Nat) (expected : String)
  | missingField (name : String)
  | duplicateField (name : String)
  | unknownVariant (name : String) (known : List String)
  | refused (reason : String)
  deriving DecidableEq, Repr

/-- A fault with its place, where that is known. -/
structure Fault where
  cause : Cause
  position : Option Position
  deriving DecidableEq, Repr

end ArtifactCache.Json
