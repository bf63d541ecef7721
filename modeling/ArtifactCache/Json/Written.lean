import ArtifactCache.Decimal.Word

/-! # Written values

Values in their most compact form: no blanks, members in the order in which they are
given, and escapes only where they are needed.
-/

namespace ArtifactCache.Json

def writtenChar (c : Char) : List Char :=
  if c = '"' || c = '\\' then ['\\', c]
  else if c = '\x08' then ['\\', 'b']
  else if c = '\x0c' then ['\\', 'f']
  else if c = '\n' then ['\\', 'n']
  else if c = '\r' then ['\\', 'r']
  else if c = '\t' then ['\\', 't']
  else if c.toNat < 0x20 then
    ['\\', 'u', '0', '0', Nat.digitChar (c.toNat / 16), Nat.digitChar (c.toNat % 16)]
  else [c]

/-- A text between quotes. -/
def writtenText (text : String) : String :=
  String.ofList ('"' :: text.toList.flatMap writtenChar ++ ['"'])

def writtenBoolean (value : Bool) : String :=
  if value then "true" else "false"

/-- A word, or `null` for none. -/
def writtenOptional : Option UInt64 → String
  | none => "null"
  | some value => Decimal.render value

/-- An object, given its keys and their written values. -/
def writtenObject (members : List (String × String)) : String :=
  let written := members.map fun (name, value) => writtenText name ++ ":" ++ value
  "\x7b" ++ ",".intercalate written ++ "\x7d"

end ArtifactCache.Json
