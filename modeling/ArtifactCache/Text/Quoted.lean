import ArtifactCache.Text.Printable
import ArtifactCache.Text.Utf8

/-! # Quoted text

Messages show a text between double quotes, so that blanks, control characters
and combining marks inside it can be seen.  A quote or a backslash gets a
backslash; the tabulator, the two line ends and the null character have short
forms; any other character that would not show becomes its code point in braces.
-/

namespace ArtifactCache.Text

/-- The code point of a character in lowercase hexadecimal, without padding. -/
def codePoint (c : Char) : List Char :=
  ['\\', 'u', '\x7b'] ++ Nat.toDigits 16 c.toNat ++ ['\x7d']

/-- How a character stands inside a quoted text. -/
def quotedChar (c : Char) : List Char :=
  if c = '"' || c = '\\' then ['\\', c]
  else if c = '\t' then ['\\', 't']
  else if c = '\r' then ['\\', 'r']
  else if c = '\n' then ['\\', 'n']
  else if c = '\x00' then ['\\', '0']
  else if isPrintable c then [c]
  else codePoint c

/-- A text between double quotes. -/
def quoted (text : String) : String :=
  String.ofList ('"' :: text.toList.flatMap quotedChar ++ ['"'])

/-- A byte in two uppercase hexadecimal digits. -/
def byteCode (byte : UInt8) : List Char :=
  let digit (value : Nat) : Char := (Nat.digitChar value).toUpper
  ['\\', 'x', digit (byte.toNat / 16), digit (byte.toNat % 16)]

/-- How a piece of a byte string stands inside a quoted path: malformed bytes are
spelled out. -/
def quotedPiece : Utf8.Piece → List Char
  | .character c => quotedChar c
  | .malformed bytes => bytes.flatMap byteCode

/-- A byte string between double quotes. -/
def quotedBytes (bytes : List UInt8) : String :=
  String.ofList ('"' :: (Utf8.pieces bytes).flatMap quotedPiece ++ ['"'])

end ArtifactCache.Text
