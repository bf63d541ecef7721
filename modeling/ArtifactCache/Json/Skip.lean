import ArtifactCache.Json.Number
import ArtifactCache.Json.Text

/-! # Skipping values

The value of a member that nobody asked for is read to its end and forgotten.  Its
brackets may be nested to any depth, so those that are open are kept on a list.
-/

namespace ArtifactCache.Json.Reader

inductive Bracket where
  | list
  | object
  deriving DecidableEq, Repr

def Bracket.closer : Bracket → Char
  | .list => ']'
  | .object => '\x7d'

/-- The fault of a text that ends inside a bracket. -/
def Bracket.atEnd : Bracket → Cause
  | .list => .endInList
  | .object => .endInObject

/-- The fault of something that stands where a comma was expected. -/
def Bracket.unseparated : Bracket → Cause
  | .list => .expectedListCommaOrEnd
  | .object => .expectedObjectCommaOrEnd

/-- Skip a value that has no parts, or the opening of one that has. -/
def skipOpening : Reader (Option Bracket) := do
  match ← peekToken with
  | none => failAhead .endInValue
  | some 'n' => do eat; word "ull".toList; return none
  | some 't' => do eat; word "rue".toList; return none
  | some 'f' => do eat; word "alse".toList; return none
  | some '-' => do eat; skipNumber; return none
  | some '"' => do eat; skipText; return none
  | some '[' => do eat; return some .list
  | some '\x7b' => do eat; return some .object
  | some c =>
    if c.isDigit then
      skipNumber
      return none
    else failAhead .expectedValue

def skipKey : Reader Unit := do
  match ← peekToken with
  | some '"' =>
    eat
    skipText
  | some _ => failAhead .keyNotText
  | none => failAhead .endInObject
  colon

/-- Skip closing brackets up to the next value.  The result is the brackets that are
still open; none are left once the outermost value has ended. -/
def skipClosings (separated : Bool) : List Bracket → Reader (List Bracket)
  | [] => return []
  | bracket :: outer => do
    match ← peekToken with
    | none => failAhead bracket.atEnd
    | some c =>
      if c = ',' ∧ separated then
        eat
        return bracket :: outer
      else if c = bracket.closer then
        eat
        skipClosings true outer
      else if separated then failAhead bracket.unseparated
      else return bracket :: outer

/-- Skip values until no bracket is open.  The first argument bounds their number. -/
def skipNested : Nat → List Bracket → Reader Unit
  | 0, _ => fail .endInValue
  | bound + 1, brackets => do
    let next ← match ← skipOpening with
      | none => skipClosings true brackets
      | some bracket => skipClosings false (bracket :: brackets)
    match next with
    | [] => return ()
    | .list :: _ => skipNested bound next
    | .object :: _ =>
      skipKey
      skipNested bound next

def skipValue : Reader Unit := do
  skipNested ((← remaining) + 1) []

end ArtifactCache.Json.Reader
