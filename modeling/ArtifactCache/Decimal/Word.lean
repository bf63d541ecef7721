/-! # Decimal texts of 64-bit words

Sizes and counts are words of 64 bits.  They are written without padding and
without a sign.  Two readers accept them: the strict one wants digits only, and
the lenient one also takes a plus sign in front.  Neither accepts a value that
does not fit into a word.
-/

namespace ArtifactCache.Decimal

/-- The digits of a number, most significant first, without leading zeros. -/
def digits (value : Nat) : List Char :=
  Nat.toDigits 10 value

def render (word : UInt64) : String :=
  String.ofList (digits word.toNat)

def word? (value : Nat) : Option UInt64 :=
  if value < UInt64.size then some (UInt64.ofNat value) else none

/-- Read a nonempty run of digits whose value is a word. -/
def read? (text : List Char) : Option UInt64 :=
  if text ≠ [] ∧ text.all Char.isDigit then word? (Nat.ofDigitChars 10 text 0) else none

/-- Read digits with or without a plus sign in front of them. -/
def readSigned? : List Char → Option UInt64
  | '+' :: text => read? text
  | text => read? text

theorem word?_toNat (word : UInt64) : word? word.toNat = some word := by
  simp [word?, UInt64.toNat_lt_size]

theorem toNat_of_word? {value : Nat} {word : UInt64} (fits : word? value = some word) :
    word.toNat = value := by
  unfold word? at fits
  split at fits
  next small =>
    obtain rfl := Option.some.inj fits
    exact UInt64.toNat_ofNat_of_lt' small
  next => cases fits

end ArtifactCache.Decimal
