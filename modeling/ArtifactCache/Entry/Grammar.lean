import ArtifactCache.Entry.Name

/-! # The grammar of entry names

The texts that spell an entry name, said without reading them:

    name  = digest [ '-' size ] '-' token [ '.v1' ]
    size  = a positive number without leading zeros that fits into 64 bits
    token = letters and digits, at least one

Beside the grammar stands a looser one, in which any letters and digits may take
the place of the size.  A text of the looser grammar has the right shape, and only
its size can be wrong.
-/

namespace ArtifactCache.EntryName

/-- Whether a text consists of ASCII letters and digits and is not empty. -/
def IsSegment (text : List Char) : Prop :=
  text ≠ [] ∧ ∀ c ∈ text, c.isAlphanum = true

/-- Whether a text writes a logical size. -/
def WritesSize (text : List Char) (size : UInt64) : Prop :=
  (∀ c ∈ text, c.isDigit = true) ∧ (∃ first rest, text = first :: rest ∧ first ≠ '0') ∧
    Nat.ofDigitChars 10 text 0 = size.toNat

/-- What may stand at the end of a name. -/
def mark (legacy : Bool) : List Char :=
  if legacy then legacySuffix.toList else []

inductive Spells : List Char → EntryName → Prop
  | plain (digest : Digest) {token : String} (legacy : Bool) (segment : IsSegment token.toList) :
    Spells (digest.text.toList ++ '-' :: token.toList ++ mark legacy)
      { digest, logicalSize := none, token, legacy }
  | sized (digest : Digest) {written : List Char} {size : UInt64} {token : String} (legacy : Bool)
      (writes : WritesSize written size) (segment : IsSegment token.toList) :
    Spells (digest.text.toList ++ '-' :: written ++ '-' :: token.toList ++ mark legacy)
      { digest, logicalSize := some size, token, legacy }

/-- Whether a text has the shape of a name, whatever stands in the place of the size. -/
inductive Shaped : List Char → Prop
  | plain (digest : Digest) {token : List Char} (legacy : Bool) (segment : IsSegment token) :
    Shaped (digest.text.toList ++ '-' :: token ++ mark legacy)
  | sized (digest : Digest) {size token : List Char} (legacy : Bool)
      (inPlaceOfSize : IsSegment size) (segment : IsSegment token) :
    Shaped (digest.text.toList ++ '-' :: size ++ '-' :: token ++ mark legacy)

theorem WritesSize.isSegment {text : List Char} {size : UInt64} (writes : WritesSize text size) :
    IsSegment text := by
  obtain ⟨digits, ⟨first, rest, rfl, -⟩, -⟩ := writes
  exact ⟨List.cons_ne_nil _ _, fun c member => by simp [Char.isAlphanum, digits c member]⟩

theorem Spells.shaped {text : List Char} {name : EntryName} (spells : Spells text name) :
    Shaped text := by
  cases spells with
  | plain digest legacy segment => exact .plain digest legacy segment
  | sized digest legacy writes segment => exact .sized digest legacy writes.isSegment segment

end ArtifactCache.EntryName
