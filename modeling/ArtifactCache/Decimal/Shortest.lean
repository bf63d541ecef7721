/-! # The shortest decimal of a binary number

A finite binary number stands for every real number that rounds to it, and these
form an interval.  Its shortest decimal is the one with the fewest digits inside
that interval, and among those the nearest to the number itself.  On the grid of
all decimals with a given last place only the two neighbours of the number need to
be looked at.
-/

namespace ArtifactCache.Decimal

/-- A positive binary number `mantissa * 2 ^ exponent`.  At a power of two the
numbers below lie closer together than those above. -/
structure Binary where
  mantissa : Nat
  exponent : Int
  closerBelow : Bool
  deriving DecidableEq, Repr

/-- A decimal `digits * 10 ^ place`. -/
structure Scaled where
  digits : Nat
  place : Int
  deriving DecidableEq, Repr

/-- A quotient of two natural numbers. -/
structure Quotient where
  numerator : Nat
  denominator : Nat

namespace Quotient

/-- `number * base ^ power` as a quotient. -/
def scaled (number base : Nat) (power : Int) : Quotient :=
  if 0 ≤ power then ⟨number * base.pow power.toNat, 1⟩ else ⟨number, base.pow (-power).toNat⟩

/-- Comparison by cross multiplication. -/
def le (first second : Quotient) : Bool :=
  first.numerator * second.denominator ≤ second.numerator * first.denominator

def lt (first second : Quotient) : Bool :=
  first.numerator * second.denominator < second.numerator * first.denominator

def distance (first second : Quotient) : Quotient :=
  let left := first.numerator * second.denominator
  let right := second.numerator * first.denominator
  ⟨(left - right) + (right - left), first.denominator * second.denominator⟩

end Quotient

namespace Binary

def value (number : Binary) : Quotient :=
  .scaled (4 * number.mantissa) 2 (number.exponent - 2)

/-- The lower end of the interval that rounds to the number. -/
def lower (number : Binary) : Quotient :=
  .scaled (4 * number.mantissa - (if number.closerBelow then 1 else 2)) 2 (number.exponent - 2)

/-- The upper end of the interval that rounds to the number. -/
def upper (number : Binary) : Quotient :=
  .scaled (4 * number.mantissa + 2) 2 (number.exponent - 2)

/-- Whether a decimal rounds to the number.  The ends belong to the interval when the
mantissa is even. -/
def covers (number : Binary) (decimal : Scaled) : Bool :=
  let point := Quotient.scaled decimal.digits 10 decimal.place
  if number.mantissa % 2 = 0 then number.lower.le point && point.le number.upper
  else number.lower.lt point && point.lt number.upper

/-- The decimal exponent of the leading digit of a quotient, searched downwards from a
bound. -/
def leadingPlace (value : Quotient) : Nat → Int → Int
  | 0, place => place
  | bound + 1, place =>
    if (Quotient.scaled 1 10 place).le value then place else leadingPlace value bound (place - 1)

/-- The largest decimal on a grid that is not above the number. -/
def floorAt (number : Binary) (place : Int) : Nat :=
  let unit := Quotient.scaled 1 10 place
  let value := number.value
  (value.numerator * unit.denominator) / (value.denominator * unit.numerator)

/-- The better of the two neighbours on a grid, if one of them rounds to the number.
Of two equally near ones the even one is taken. -/
def nearestAt? (number : Binary) (place : Int) : Option Scaled :=
  let below : Scaled := ⟨number.floorAt place, place⟩
  let above : Scaled := ⟨number.floorAt place + 1, place⟩
  let distance (decimal : Scaled) : Quotient :=
    number.value.distance (.scaled decimal.digits 10 decimal.place)
  match number.covers below, number.covers above with
  | false, false => none
  | true, false => some below
  | false, true => some above
  | true, true =>
    if (distance below).lt (distance above) then some below
    else if (distance above).lt (distance below) then some above
    else if below.digits % 2 = 0 then some below else some above

/-- Search grids from the coarsest to the finest. -/
def searchFrom (number : Binary) : Nat → Int → Scaled
  | 0, place => ⟨number.floorAt place, place⟩
  | bound + 1, place =>
    match number.nearestAt? place with
    | some decimal => decimal
    | none => searchFrom number bound (place - 1)

def mostDigits : Nat := 17

/-- The shortest decimal that rounds to the number. -/
def shortest (number : Binary) : Scaled :=
  searchFrom number mostDigits (leadingPlace number.value 700 330)

end Binary

/-- The bit that normal doubles do not store, which has 52 bits of fraction below it. -/
def hiddenBit : Nat := 4503599627370496

/-- The mantissa and exponent of a positive double, from its bits without the sign. -/
def Binary.ofBits (bits : Nat) : Binary :=
  let fraction := bits % hiddenBit
  let power := bits / hiddenBit
  if power = 0 then { mantissa := fraction, exponent := -1074, closerBelow := false }
  else
    { mantissa := hiddenBit + fraction
      exponent := Int.ofNat power - 1075
      closerBelow := fraction = 0 ∧ 1 < power }

end ArtifactCache.Decimal
