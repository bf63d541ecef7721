import ArtifactCache.Json.Typed

/-! # Records

A record is written as an object, or as a list of its values in the order of its
fields.  Members of an object may come in any order; those with unknown names are
skipped.  A field is either required, or it keeps its first value where it is
missing.
-/

namespace ArtifactCache.Json

/-- A field of a record that is built up in a value of type `σ`. -/
structure FieldReader (σ : Type) where
  name : String
  required : Bool
  read : Reader (σ → σ)

/-- A field that must be there. -/
def FieldReader.needed {σ α : Type} (name : String) (reader : Reader α) (set : α → σ → σ) :
    FieldReader σ :=
  { name, required := true, read := do return set (← reader) }

/-- A field that may be missing. -/
def FieldReader.defaulted {σ α : Type} (name : String) (reader : Reader α) (set : α → σ → σ) :
    FieldReader σ :=
  { name, required := false, read := do return set (← reader) }

namespace Reader

/-- The number of fields in words. -/
def countElements (count : Nat) : String :=
  toString count ++ (if count = 1 then " element" else " elements")

/-- Read the values of a list for the given fields. -/
def elements {σ : Type} (expected : String) :
    (index : Nat) → (first : Bool) → List (FieldReader σ) → σ → Reader σ
  | _, _, [], value => return value
  | index, first, field :: rest, value => do
    if ← hasElement first then
      let change ← field.read
      elements expected (index + 1) false rest (change value)
    else if field.required then failUnplaced (.wrongLength index expected)
    else elements expected (index + 1) first rest value

/-- Read the members of an object.  The first argument bounds their number, and `seen`
holds the names of the fields that have been read. -/
def members {σ : Type} (fields : List (FieldReader σ)) :
    Nat → (first : Bool) → (seen : List String) → σ → Reader σ
  | 0, _, _, _ => fail .endInObject
  | bound + 1, first, seen, value => do
    if ← hasMember first then
      eat
      let name ← textBody
      match fields.find? fun field => field.name = name with
      | none =>
        colon
        skipValue
        members fields bound false seen value
      | some field =>
        if seen.contains name then failUnplaced (.duplicateField name)
        else
          colon
          let change ← field.read
          members fields bound false (name :: seen) (change value)
    else
      match fields.find? fun field => field.required && !seen.contains field.name with
      | some field => failUnplaced (.missingField field.name)
      | none => return value

/-- Read a record with a given title. -/
def record {σ : Type} (title : String) (fields : List (FieldReader σ)) (initial : σ) :
    Reader σ := do
  let expected := "struct " ++ title
  match ← peekValue with
  | '[' => placing do
    eat
    let expected := expected ++ " with " ++ countElements fields.length
    closing (elements expected 0 true fields initial) endList
  | '\x7b' => placing do
    eat
    let bound ← remaining
    closing (members fields (bound + 1) true [] initial) endObject
  | _ => wrongType expected

end Reader

end ArtifactCache.Json
