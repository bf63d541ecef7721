/-! # Blank characters

The characters that separate words without being visible, by the property
`White_Space`, and the removal of blanks from both ends of a text.
-/

namespace ArtifactCache.Text

/-- Whether a character has the property `White_Space`. -/
def isBlank (c : Char) : Bool :=
  let code := c.toNat
  (0x09 ≤ code && code ≤ 0x0D) || code == 0x20 || code == 0x85 || code == 0xA0 ||
  code == 0x1680 || (0x2000 ≤ code && code ≤ 0x200A) || code == 0x2028 ||
  code == 0x2029 || code == 0x202F || code == 0x205F || code == 0x3000

/-- The text without the blanks at its two ends. -/
def trim (text : List Char) : List Char :=
  ((text.dropWhile isBlank).reverse.dropWhile isBlank).reverse

end ArtifactCache.Text
