import ArtifactCache.Json.Skip

/-! # Values of a known type

Readers for the types that records are made of.  A value of another type is read as
far as is needed to say what was found in its place.
-/

namespace ArtifactCache.Json.Reader

/-- Fail because the next value is of another type. -/
def wrongType {α : Type} (expected : String) : Reader α := placing do
  let mismatch (found : Found) : Reader α := failUnplaced (.wrongType found expected)
  match ← peek with
  | some 'n' => do eat; word "ull".toList; mismatch .null
  | some 't' => do eat; word "rue".toList; mismatch (.boolean true)
  | some 'f' => do eat; word "alse".toList; mismatch (.boolean false)
  | some '-' => do eat; mismatch (← number false).found
  | some '"' => do eat; mismatch (.text (← textBody))
  | some '[' => mismatch .sequence
  | some '\x7b' => mismatch .map
  | some c =>
    if c.isDigit then mismatch (← number true).found else failAhead .expectedValue
  | none => failAhead .expectedValue

/-- Look at the first byte of a value that must be there. -/
def peekValue : Reader Char := do
  match ← peekToken with
  | some c => return c
  | none => failAhead .endInValue

def boolean : Reader Bool := do
  match ← peekValue with
  | 't' => do eat; word "rue".toList; return true
  | 'f' => do eat; word "alse".toList; return false
  | _ => wrongType "a boolean"

/-- Read a text and judge it.  The judgement may refuse it without saying where. -/
def textWith {α : Type} (expected : String) (judge : String → Reader α) : Reader α := do
  match ← peekValue with
  | '"' => placing do
    eat
    judge (← textBody)
  | _ => wrongType expected

def text (expected : String) : Reader String :=
  textWith expected pure

/-- Judge a number that must be a word. -/
def wordOf (expected : String) : Number → Reader UInt64
  | .unsigned value => return value
  | .negative magnitude =>
    failUnplaced (.wrongValue (.integer (-(magnitude : Int))) expected)
  | .float value => failUnplaced (.wrongType (.float (floatText value)) expected)

/-- Read a whole number that fits into a word. -/
def unsigned (expected : String) : Reader UInt64 := do
  match ← peekValue with
  | '-' => placing do
    eat
    wordOf expected (← number false)
  | c =>
    if c.isDigit then placing do wordOf expected (← number true) else wrongType expected

def null (expected : String) : Reader Unit := do
  match ← peekValue with
  | 'n' => do eat; word "ull".toList
  | _ => wrongType expected

def optional {α : Type} (reader : Reader α) : Reader (Option α) := do
  match ← peekToken with
  | some 'n' => do eat; word "ull".toList; return none
  | _ => return some (← reader)

/-- Read one of several names, as a text or as the only key of an object whose value is
`null`. -/
def variant {α : Type} (known : List (String × α)) : Reader α := do
  let name : Reader α := textWith "variant identifier" fun text =>
    match known.lookup text with
    | some value => pure value
    | none => failUnplaced (.unknownVariant text (known.map Prod.fst))
  match ← peekToken with
  | some '"' => name
  | some '\x7b' =>
    eat
    unless ← hasMember true do failAhead .expectedValue
    let value ← name
    colon
    null "unit"
    match ← peekToken with
    | some '\x7d' => do eat; return value
    | some _ => fail .expectedValue
    | none => fail .endInObject
  | some _ => failAhead .expectedValue
  | none => failAhead .endInValue

end ArtifactCache.Json.Reader
