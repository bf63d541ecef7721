import ArtifactCache.Json.Cursor

/-! # Readers

A reader takes bytes from a cursor and gives a value or a fault.  The cursor keeps
its place after a fault, because a reader around it may still close a bracket
before it says where the fault was.
-/

namespace ArtifactCache.Json

/-- A computation that reads from a cursor. -/
abbrev Reader := ExceptT Fault (StateM Cursor)

namespace Reader

/-- The next byte as a character of the same number, without taking it. -/
def peek : Reader (Option Char) := do
  return (← get).rest.head?.map fun byte => Char.ofNat byte.toNat

def eat : Reader Unit :=
  modify Cursor.advance

/-- The number of bytes that are left. -/
def remaining : Reader Nat := do
  return (← get).rest.length

def fail {α : Type} (cause : Cause) : Reader α := do
  throw { cause, position := some (← get).position }

/-- Fail at the byte that was only looked at. -/
def failAhead {α : Type} (cause : Cause) : Reader α := do
  throw { cause, position := some (← get).advance.position }

def failUnplaced {α : Type} (cause : Cause) : Reader α :=
  throw { cause, position := none }

/-- Give a fault without a place the one that has been reached. -/
def placing {α : Type} (reader : Reader α) : Reader α := fun cursor =>
  match reader cursor with
  | (.error { cause, position := none }, cursor) =>
    (.error { cause, position := some cursor.position }, cursor)
  | result => result

/-- Read the inside of a bracket and then its end.  The end is looked for also after
a fault inside, and that fault wins. -/
def closing {α : Type} (inside : Reader α) (close : Reader Unit) : Reader α := fun cursor =>
  match inside cursor with
  | (.error fault, cursor) => (.error fault, (close cursor).2)
  | (.ok value, cursor) =>
    match close cursor with
    | (.ok (), cursor) => (.ok value, cursor)
    | (.error fault, cursor) => (.error fault, cursor)

/-- The cursor behind any blanks at its front. -/
def skipBlanks : List UInt8 → Position → Cursor
  | [], position => { rest := [], position }
  | byte :: rest, position =>
    if byte = 0x20 ∨ byte = 0x0A ∨ byte = 0x09 ∨ byte = 0x0D then
      skipBlanks rest (position.after byte)
    else { rest := byte :: rest, position }

/-- Skip blanks and look at the byte behind them. -/
def peekToken : Reader (Option Char) := do
  modify fun cursor => skipBlanks cursor.rest cursor.position
  peek

/-- Read the given characters, which finish a word. -/
def word : List Char → Reader Unit
  | [] => pure ()
  | expected :: rest => do
    match ← peek with
    | none => fail .endInValue
    | some c =>
      eat
      if c = expected then word rest else fail .expectedWord

def endObject : Reader Unit := do
  match ← peekToken with
  | some '\x7d' => eat
  | some ',' => failAhead .trailingComma
  | some _ => failAhead .trailingCharacters
  | none => failAhead .endInObject

def endList : Reader Unit := do
  match ← peekToken with
  | some ']' => eat
  | some ',' =>
    eat
    match ← peekToken with
    | some ']' => failAhead .trailingComma
    | _ => failAhead .trailingCharacters
  | some _ => failAhead .trailingCharacters
  | none => failAhead .endInList

/-- The colon between a key and its value. -/
def colon : Reader Unit := do
  match ← peekToken with
  | some ':' => eat
  | some _ => failAhead .expectedColon
  | none => failAhead .endInObject

/-- Whether a list has another element, which is then next. -/
def hasElement (first : Bool) : Reader Bool := do
  match ← peekToken with
  | some ']' => return false
  | some c =>
    if first then return true
    else if c = ',' then
      eat
      match ← peekToken with
      | some ']' => failAhead .trailingComma
      | some _ => return true
      | none => failAhead .endInValue
    else failAhead .expectedListCommaOrEnd
  | none => failAhead .endInList

/-- Whether an object has another member, whose key is then next. -/
def hasMember (first : Bool) : Reader Bool := do
  match ← peekToken with
  | some '\x7d' => return false
  | some c =>
    if first then
      if c = '"' then return true else failAhead .keyNotText
    else if c = ',' then
      eat
      match ← peekToken with
      | some '"' => return true
      | some '\x7d' => failAhead .trailingComma
      | some _ => failAhead .keyNotText
      | none => failAhead .endInValue
    else failAhead .expectedObjectCommaOrEnd
  | none => failAhead .endInObject

/-- Read a whole text, behind whose value only blanks may follow. -/
def document {α : Type} (reader : Reader α) : Reader α := do
  let value ← reader
  match ← peekToken with
  | some _ => failAhead .trailingCharacters
  | none => return value

/-- The value that a reader finds in a text. -/
def run {α : Type} (reader : Reader α) (bytes : List UInt8) : Except Fault α :=
  (document reader (Cursor.start bytes)).1

end Reader

end ArtifactCache.Json
