import MultiDispatch.Number.Width

/-!
# Binary floating-point words

A word is read as a sign with a magnitude.  A finite magnitude is an integer
significand times a power of two; rounding goes to the nearest word, and a tie
to the even one.
-/

namespace MultiDispatch

inductive Magnitude where
  | finite (significand : Nat) (exponent : Int)
  | infinite
  | notANumber

namespace FloatWidth

/-- The word of positive infinity. -/
def infinityWord (width : FloatWidth) : Nat :=
  ((1 <<< width.exponentBits) - 1) <<< width.fractionBits

def signWord (width : FloatWidth) : Nat := 1 <<< (width.bits - 1)

/-- A quiet word without a payload. -/
def nanWord (width : FloatWidth) : BitVec width.bits :=
  .ofNat _ (width.infinityWord + (1 <<< (width.fractionBits - 1)))

def isNegative (width : FloatWidth) (word : BitVec width.bits) : Bool := word.msb

def magnitude (width : FloatWidth) (word : BitVec width.bits) : Magnitude :=
  let unsigned := word.toNat % width.signWord
  let fraction := unsigned % (1 <<< width.fractionBits)
  let exponentField := unsigned >>> width.fractionBits
  if exponentField = 0 then
    .finite fraction width.leastExponent
  else if unsigned < width.infinityWord then
    .finite ((1 <<< width.fractionBits) + fraction) (width.leastExponent + (exponentField - 1))
  else if unsigned = width.infinityWord then
    .infinite
  else
    .notANumber

/-- Drops `count` binary digits, to the nearest and from a tie to the even integer. -/
def roundShift (value count : Nat) : Nat :=
  let unit := 1 <<< count
  let quotient := value >>> count
  let twice := 2 * (value % unit)
  if twice > unit ∨ (twice = unit ∧ quotient % 2 = 1) then quotient + 1 else quotient

/-- The nearest word to `significand * 2 ^ exponent` and its sign.  A carry out
of the significand moves into the exponent field by itself. -/
def nearestWord (width : FloatWidth) (negative : Bool) (significand : Nat) (exponent : Int) :
    BitVec width.bits :=
  let length : Int := significand.log2 + 1
  let unitExponent := max (exponent + length - (width.fractionBits + 1)) width.leastExponent
  let units :=
    if unitExponent ≤ exponent then significand <<< (exponent - unitExponent).toNat
    else roundShift significand (unitExponent - exponent).toNat
  let unsigned := ((unitExponent - width.leastExponent).toNat <<< width.fractionBits) + units
  let sign := if negative then width.signWord else 0
  if significand = 0 then .ofNat _ sign
  else .ofNat _ (sign + min unsigned width.infinityWord)

def ofInt (width : FloatWidth) (value : Int) : BitVec width.bits :=
  width.nearestWord (value < 0) value.natAbs 0

/-- The word of the same number in another format. -/
def convert (source target : FloatWidth) (word : BitVec source.bits) : BitVec target.bits :=
  match source.magnitude word with
  | .finite significand exponent =>
      target.nearestWord (source.isNegative word) significand exponent
  | .infinite =>
      .ofNat _ (target.infinityWord + if source.isNegative word then target.signWord else 0)
  | .notANumber => target.nanWord

/-- Numeric equality: a word that is no number differs from itself, and the two
zeros are equal. -/
def NumericallyEqual (width : FloatWidth) (left right : BitVec width.bits) : Prop :=
  match width.magnitude left, width.magnitude right with
  | .notANumber, _ | _, .notANumber => False
  | .finite 0 _, .finite 0 _ => True
  | _, _ => left = right

instance (width : FloatWidth) (left right : BitVec width.bits) :
    Decidable (width.NumericallyEqual left right) := by
  unfold NumericallyEqual
  split <;> infer_instance

end FloatWidth

end MultiDispatch
