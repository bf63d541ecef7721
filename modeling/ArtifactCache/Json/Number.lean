import ArtifactCache.Decimal.Shortest
import ArtifactCache.Decimal.Word
import ArtifactCache.Json.Reader

/-! # Numbers

A whole number that fits into a word is kept exactly, and so is a negative one that
fits into a signed word.  Every other number becomes a double: as many digits as
fit into a word are scaled by a power of ten.  Reports show doubles by their
shortest decimals.
-/

namespace ArtifactCache.Json

inductive Number where
  | unsigned (value : UInt64)
  /-- A negative whole number, given by its magnitude. -/
  | negative (magnitude : Nat)
  | float (value : Float)

/-- How reports write doubles: positional between the two exponents, with a point in
any case, and otherwise with an exponent that always has a sign. -/
structure FloatFormat where
  leastPositional : Int
  greatestPositional : Int

def reportFormat : FloatFormat := { leastPositional := -5, greatestPositional := 15 }

/-- Write nonzero digits whose first one stands at a decimal exponent. -/
def FloatFormat.write (format : FloatFormat) (digits : List Char) (exponent : Int) : List Char :=
  let zeros (count : Int) : List Char := List.replicate count.toNat '0'
  if exponent < format.leastPositional ∨ format.greatestPositional < exponent then
    let fraction := match digits.tail with
      | [] => []
      | rest => '.' :: rest
    let sign := if exponent < 0 then '-' else '+'
    digits.take 1 ++ fraction ++ ['e', sign] ++ Decimal.digits exponent.natAbs
  else if exponent < 0 then ['0', '.'] ++ zeros (-exponent - 1) ++ digits
  else
    let whole := digits ++ zeros (exponent + 1 - digits.length)
    let fraction := whole.drop (exponent.toNat + 1)
    whole.take (exponent.toNat + 1) ++ ['.'] ++ (if fraction.isEmpty then ['0'] else fraction)

/-- The digits of a decimal without zeros at their end, and the decimal exponent of the
first one. -/
def leadingForm (decimal : Decimal.Scaled) : List Char × Int :=
  let digits := Decimal.digits decimal.digits
  ((digits.reverse.dropWhile (· = '0')).reverse, decimal.place + (digits.length : Int) - 1)

/-- The bit of a double that is set if it is negative.  It is also the magnitude of the
least signed word. -/
def signBit : Nat := 9223372036854775808

/-- A finite double as reports show it. -/
def floatText (value : Float) : String :=
  let bits := value.toBits.toNat
  let sign := if signBit ≤ bits then ['-'] else []
  let magnitude := bits % signBit
  if magnitude = 0 then String.ofList (sign ++ ['0', '.', '0'])
  else
    let (digits, exponent) := leadingForm (Decimal.Binary.ofBits magnitude).shortest
    String.ofList (sign ++ reportFormat.write digits exponent)

def Number.found : Number → Found
  | .unsigned value => .integer value.toNat
  | .negative magnitude => .integer (-(magnitude : Int))
  | .float value => .float (floatText value)

/-- The greatest power of ten that is a double. -/
def greatestPower : Nat := 308

/-- Divide by a power of ten, in steps that are doubles themselves. -/
def shrink (value : Float) (power : Nat) : Float :=
  if power ≤ greatestPower then value / Float.ofScientific 1 false power
  else if value == 0.0 then value
  else shrink (value / Float.ofScientific 1 false greatestPower) (power - greatestPower)
termination_by power
decreasing_by
  unfold greatestPower at *
  omega

/-- A word times a power of ten, if that is finite. -/
def scale? (significand : UInt64) (exponent : Int) : Option Float :=
  let value := significand.toFloat
  if exponent < 0 then some (shrink value exponent.natAbs)
  else if exponent.toNat ≤ greatestPower then
    let product := value * Float.ofScientific 1 false exponent.toNat
    if product.isInf then none else some product
  else if significand = 0 then some value
  else none

/-- Append digits to a word as long as the result is one.  The remaining digits are
given back. -/
def accumulate (significand : Nat) : List Char → Nat × List Char
  | [] => (significand, [])
  | digit :: rest =>
    let next := significand * 10 + (digit.toNat - '0'.toNat)
    if next < UInt64.size then accumulate next rest else (significand, digit :: rest)

namespace Reader

/-- The digits at the front of the bytes. -/
def digitsOf : List UInt8 → List Char
  | [] => []
  | byte :: rest =>
    let c := Char.ofNat byte.toNat
    if c.isDigit then c :: digitsOf rest else []

def digits : Reader (List Char) := do
  let digits := digitsOf (← get).rest
  modify fun cursor => digits.foldl (fun cursor _ => cursor.advance) cursor
  return digits

/-- The largest exponent that is added up. -/
def exponentLimit : Nat := 2147483647

/-- A sum kept within the range of exponents. -/
def saturated (sum : Int) : Int :=
  max (-(exponentLimit : Int) - 1) (min sum exponentLimit)

/-- Build a double with the given sign. -/
def float (positive : Bool) (significand : Nat) (exponent : Int) : Reader Number := do
  match scale? (UInt64.ofNat significand) exponent with
  | some value => return .float (if positive then value else -value)
  | none => fail .numberOutOfRange

/-- The value of an exponent, or the number of its digits at which it grows too
large. -/
def exponentValue (digits : List Char) : Nat ⊕ Nat :=
  let rec go (value taken : Nat) : List Char → Nat ⊕ Nat
    | [] => .inl value
    | digit :: rest =>
      let next := value * 10 + (digit.toNat - '0'.toNat)
      if exponentLimit < next then .inr (taken + 1) else go next (taken + 1) rest
  go 0 0 digits

/-- Read an exponent behind its mark. -/
def exponent (positive : Bool) (significand : Nat) (start : Int) : Reader Number := do
  let upwards ← match ← peek with
    | some '+' => do eat; pure true
    | some '-' => do eat; pure false
    | _ => pure true
  match ← peek with
  | none => fail .endInValue
  | some c =>
    if !c.isDigit then
      eat
      fail .invalidNumber
    else
      match exponentValue (digitsOf (← get).rest) with
      | .inl value =>
        let _ ← digits
        let final := if upwards then start + value else start - value
        float positive significand (saturated final)
      | .inr taken =>
        if significand ≠ 0 ∧ upwards then
          modify fun cursor => (List.range taken).foldl (fun cursor _ => cursor.advance) cursor
          fail .numberOutOfRange
        else
          let _ ← digits
          return .float (if positive then 0.0 else -0.0)

/-- Read what may follow the last digit of a mantissa. -/
def exponentOrEnd (positive : Bool) (significand : Nat) (start : Int) : Reader Number := do
  match ← peek with
  | some 'e' | some 'E' =>
    eat
    exponent positive significand start
  | _ => float positive significand start

/-- Read the digits behind a point. -/
def fraction (positive : Bool) (significand : Nat) (start : Int) : Reader Number := do
  let places ← digits
  if places.isEmpty then
    match ← peek with
    | some _ => failAhead .invalidNumber
    | none => failAhead .endInValue
  else
    let (significand, beyond) := accumulate significand places
    exponentOrEnd positive significand (start - (places.length - beyond.length : Nat))

/-- Read what follows the whole part of a number. -/
def afterWhole (positive : Bool) (significand : Nat) (dropped : Nat) : Reader Number := do
  match ← peek with
  | some '.' =>
    eat
    fraction positive significand dropped
  | some 'e' | some 'E' =>
    eat
    exponent positive significand dropped
  | _ =>
    if dropped ≠ 0 then float positive significand dropped
    else if positive then return .unsigned (UInt64.ofNat significand)
    else if significand = 0 ∨ signBit < significand then
      return .float (-(UInt64.ofNat significand).toFloat)
    else return .negative significand

def number (positive : Bool) : Reader Number := do
  match ← peek with
  | none => fail .endInValue
  | some '0' =>
    eat
    match ← peek with
    | some c =>
      if c.isDigit then failAhead .invalidNumber else afterWhole positive 0 0
    | none => afterWhole positive 0 0
  | some c =>
    if c.isDigit then
      let whole ← digits
      let (significand, beyond) := accumulate 0 whole
      afterWhole positive significand beyond.length
    else
      eat
      fail .invalidNumber

/-- Skip the exponent of a number behind its mark. -/
def skipExponent : Reader Unit := do
  match ← peek with
  | some '+' | some '-' => eat
  | _ => pure ()
  match ← peek with
  | some c =>
    eat
    if c.isDigit then
      let _ ← digits
      return ()
    else fail .invalidNumber
  | none => fail .invalidNumber

/-- Skip what may follow the whole part of a number. -/
def skipAfterWhole : Reader Unit := do
  match ← peek with
  | some '.' =>
    eat
    if (← digits).isEmpty then failAhead .invalidNumber
    else match ← peek with
      | some 'e' | some 'E' =>
        eat
        skipExponent
      | _ => pure ()
  | some 'e' | some 'E' =>
    eat
    skipExponent
  | _ => pure ()

/-- Skip a number behind its sign. -/
def skipNumber : Reader Unit := do
  match ← peek with
  | some '0' =>
    eat
    match ← peek with
    | some c => if c.isDigit then failAhead .invalidNumber else skipAfterWhole
    | none => pure ()
  | some c =>
    if c.isDigit then
      let _ ← digits
      skipAfterWhole
    else
      eat
      fail .invalidNumber
  | none => fail .invalidNumber

end Reader

end ArtifactCache.Json
