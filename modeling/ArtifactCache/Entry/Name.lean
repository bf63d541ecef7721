import ArtifactCache.Decimal.Word
import ArtifactCache.Entry.Digest

/-! # File names of entries

A file name is a digest, an optional logical size, a token, and an optional
marker for the older uncompressed format:

    digest ['-' size] '-' token ['.v1']

A size is a positive decimal number without leading zeros that fits into 64
bits, and a token is a nonempty run of ASCII letters and digits.  Reading is
strict: a text that departs from the grammar in any way is refused, with the
element that did not match.
-/

namespace ArtifactCache

/-- The mark of a file in the older uncompressed format. -/
def legacySuffix : String := ".v1"

def tokenLength : Nat := 16

/-- Why a text is no token, if it is none. -/
def tokenFault? (token : List Char) : Option NameFault :=
  if token = [] then some .missingToken
  else if token.all Char.isAlphanum then none
  else some .token

/-- Whether a text may stand as the token of a file name. -/
def isToken (token : String) : Bool :=
  (tokenFault? token.toList).isNone

/-- What a file name says. -/
structure EntryName where
  digest : Digest
  logicalSize : Option UInt64
  token : String
  legacy : Bool
  deriving DecidableEq, Repr

namespace EntryName

def render (name : EntryName) : String :=
  let size := match name.logicalSize with
    | some size => "-" ++ Decimal.render size
    | none => ""
  name.digest.text ++ size ++ "-" ++ name.token ++ (if name.legacy then legacySuffix else "")

/-- A dash and the letters and digits after it, together with what follows. -/
def segment : List Char → Except NameFault (List Char × List Char)
  | [] => .error .missingToken
  | '-' :: rest =>
    match rest.takeWhile Char.isAlphanum with
    | [] => .error .missingToken
    | run => .ok (run, rest.dropWhile Char.isAlphanum)
  | _ :: _ => .error .separator

/-- A second segment, where one follows. -/
def segment? (text : List Char) : Option (List Char) × List Char :=
  match segment text with
  | .ok (run, rest) => (some run, rest)
  | .error _ => (none, text)

/-- The mark of the older format, where it follows. -/
def legacyMark : List Char → Bool × List Char
  | '.' :: 'v' :: '1' :: rest => (true, rest)
  | text => (false, text)

/-- A segment as a logical size. -/
def size? : List Char → Option UInt64
  | [] => none
  | '0' :: _ => none
  | digits => Decimal.read? digits

/-- Read a file name.  The whole text is taken apart before the size and the
token are looked at, so a fault of the shape wins over a fault of the size. -/
def read (text : List Char) : Except NameFault EntryName := do
  let some (digest, rest) := Digest.takeFront? text | throw .digest
  let (first, rest) ← segment rest
  let (second, rest) := segment? rest
  let (legacy, rest) := legacyMark rest
  unless rest.isEmpty do throw .trailing
  let (logicalSize, token) ← match second with
    | none => pure (none, first)
    | some token =>
      match size? first with
      | some size => pure (some size, token)
      | none => throw .size
  if let some fault := tokenFault? token then throw fault
  return { digest, logicalSize, token := String.ofList token, legacy }

/-- Read a file name, keeping the text for the report of a fault. -/
def parse (input : String) : Except NameError EntryName :=
  (read input.toList).mapError fun fault => { input, fault }

end EntryName

end ArtifactCache
