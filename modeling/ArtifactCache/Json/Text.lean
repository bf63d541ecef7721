import ArtifactCache.Json.Reader

/-! # Texts in quotes

A text stands between quotes.  A backslash starts an escape, and control characters
may not stand for themselves.  Characters past the first plane are written as a
pair of surrogates, and no surrogate may stand alone.
-/

namespace ArtifactCache.Json.Reader

/-- Take the next byte of an escape. -/
def escapeByte : Reader Char := do
  match ← peek with
  | some c => eat; return c
  | none => fail .endInString

/-- The value of a hexadecimal digit of either case. -/
def hexValue? (c : Char) : Option Nat :=
  if '0' ≤ c ∧ c ≤ '9' then some (c.toNat - '0'.toNat)
  else if 'a' ≤ c ∧ c ≤ 'f' then some (c.toNat - 'a'.toNat + 10)
  else if 'A' ≤ c ∧ c ≤ 'F' then some (c.toNat - 'A'.toNat + 10)
  else none

/-- Take all bytes that are left. -/
def eatAll : Reader Unit :=
  modify fun cursor => cursor.rest.foldl (fun cursor _ => cursor.advance) cursor

/-- Read four hexadecimal digits.  All four bytes are taken before any is judged. -/
def fourHex : Reader Nat := do
  match (← get).rest with
  | first :: second :: third :: fourth :: _ =>
    eat
    eat
    eat
    eat
    let values := [first, second, third, fourth].mapM fun byte =>
      hexValue? (Char.ofNat byte.toNat)
    match values with
    | some digits => return digits.foldl (fun value digit => value * 16 + digit) 0
    | none => fail .invalidEscape
  | _ =>
    eatAll
    fail .endInString

/-- Read one character that must follow between the halves of a pair. -/
def pairMark (expected : Char) : Reader Unit := do
  match ← peek with
  | none => fail .endInString
  | some c =>
    eat
    if c = expected then return () else fail .endOfSurrogatePair

/-- Read a code point in hexadecimal digits. -/
def codePoint : Reader Char := do
  let first ← fourHex
  if 0xDC00 ≤ first ∧ first ≤ 0xDFFF then fail .loneSurrogate
  else if first < 0xD800 ∨ 0xDBFF < first then return Char.ofNat first
  else
    pairMark '\\'
    pairMark 'u'
    let second ← fourHex
    if second < 0xDC00 ∨ 0xDFFF < second then fail .loneSurrogate
    else return Char.ofNat ((first - 0xD800) * 0x400 + (second - 0xDC00) + 0x10000)

/-- The character that a short escape stands for. -/
def shortEscape? : Char → Option Char
  | '"' => some '"'
  | '\\' => some '\\'
  | '/' => some '/'
  | 'b' => some '\x08'
  | 'f' => some '\x0c'
  | 'n' => some '\n'
  | 'r' => some '\r'
  | 't' => some '\t'
  | _ => none

/-- Read an escape behind its backslash. -/
def escape : Reader Char := do
  let c ← escapeByte
  if c = 'u' then codePoint
  else match shortEscape? c with
    | some plain => return plain
    | none => fail .invalidEscape

/-- Read up to the closing quote, given the bytes so far in reverse.  The first
argument bounds the number of characters. -/
def textBytes : Nat → List UInt8 → Reader (List UInt8)
  | 0, _ => fail .endInString
  | bound + 1, reversed => do
    match (← get).rest with
    | [] => fail .endInString
    | 0x22 :: _ =>
      eat
      return reversed.reverse
    | 0x5C :: _ =>
      eat
      let c ← escape
      textBytes bound ((String.utf8EncodeChar c).reverse ++ reversed)
    | byte :: _ =>
      eat
      if byte < 0x20 then fail .controlCharacter else textBytes bound (byte :: reversed)

def textBody : Reader String := do
  let bytes ← textBytes ((← remaining) + 1) []
  return Utf8.display bytes

/-- Skip an escape behind its backslash.  Surrogates are not judged. -/
def skipEscape : Reader Unit := do
  let c ← escapeByte
  if c = 'u' then
    let _ ← fourHex
    return ()
  else if (shortEscape? c).isSome then return ()
  else fail .invalidEscape

def skipTextBytes : Nat → Reader Unit
  | 0 => fail .endInString
  | bound + 1 => do
    match (← get).rest with
    | [] => fail .endInString
    | 0x22 :: _ => eat
    | 0x5C :: _ =>
      eat
      skipEscape
      skipTextBytes bound
    | byte :: _ =>
      if byte < 0x20 then fail .controlCharacter
      else
        eat
        skipTextBytes bound

def skipText : Reader Unit := do
  skipTextBytes ((← remaining) + 1)

end ArtifactCache.Json.Reader
