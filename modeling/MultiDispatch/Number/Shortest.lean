import MultiDispatch.Number.Encoding

/-!
# The fewest decimal digits that read back

Every real number close enough to a finite word rounds to it.  Among the
decimals in that interval, those on the coarsest decimal grid have the fewest
digits; of the two grid points next to the word's number the nearer is taken,
and from a tie the larger.
-/

namespace MultiDispatch

/-- The number `digits * 10 ^ exponent`. -/
structure Decimal where
  digits : Nat
  exponent : Int
  deriving DecidableEq

/-- The numbers between `low` and `high` around `center`, all counted in one
unit of `1 / unit`. -/
structure RoundingInterval where
  low : Nat
  center : Nat
  high : Nat
  closed : Bool
  unit : Nat

namespace RoundingInterval

/-- The interval of the numbers that round to `significand * 2 ^ exponent`, with
a quarter unit in the last place as unit.  Below a power of two the words lie
twice as close, and an even significand takes the ends too. -/
def around (width : FloatWidth) (significand : Nat) (exponent : Int) : RoundingInterval :=
  let scale := 1 <<< (exponent - 2).toNat
  let closeBelow := significand = 1 <<< width.fractionBits ∧ exponent ≠ width.leastExponent
  { low := (4 * significand - if closeBelow then 1 else 2) * scale
    center := 4 * significand * scale
    high := (4 * significand + 2) * scale
    closed := significand % 2 = 0
    unit := 1 <<< (2 - exponent).toNat }

def Contains (interval : RoundingInterval) (point : Nat) : Prop :=
  if interval.closed then interval.low ≤ point ∧ point ≤ interval.high
  else interval.low < point ∧ point < interval.high

instance (interval : RoundingInterval) (point : Nat) : Decidable (interval.Contains point) := by
  unfold Contains
  split <;> infer_instance

/-- The number of decimal digits before the point, or minus the number of
zeros after it, of the center. -/
def magnitude (interval : RoundingInterval) : Int :=
  if interval.unit ≤ interval.center then
    decimalLength (interval.center / interval.unit)
  else
    1 - decimalLength ((interval.unit - 1) / interval.center)
where
  decimalLength (value : Nat) : Nat := if value = 0 then 0 else (Nat.toDigits 10 value).length

/-- The nearest point of the grid `10 ^ exponent` in the interval. -/
def onGrid? (interval : RoundingInterval) (exponent : Int) : Option Decimal :=
  let refine := Nat.pow 10 (-exponent).toNat
  let step := interval.unit * Nat.pow 10 exponent.toNat
  let fine : RoundingInterval :=
    { interval with
      low := interval.low * refine
      center := interval.center * refine
      high := interval.high * refine }
  let below := fine.center / step
  let above := below + 1
  let candidates := [above, below].filter fun point => fine.Contains (point * step)
  match candidates with
  | [] => none
  | [only] => some ⟨only, exponent⟩
  | _ =>
      let nearer := if 2 * (fine.center - below * step) < step then below else above
      some ⟨nearer, exponent⟩

/-- Seventeen digits tell any two words apart. -/
def shortest (interval : RoundingInterval) : Decimal :=
  let grids := (List.range 18).map fun (count : Nat) => interval.magnitude - (count : Int)
  (grids.findSome? interval.onGrid?).getD ⟨0, 0⟩

end RoundingInterval

namespace Decimal

def digitsText (decimal : Decimal) : String := toString decimal.digits

/-- The place of the point, counted from the first digit. -/
def point (decimal : Decimal) : Int := decimal.digitsText.length + decimal.exponent

def zeros (count : Nat) : String := String.ofList (List.replicate count '0')

/-- Digits without an exponent; `wholeEnding` follows a whole number. -/
def positional (decimal : Decimal) (wholeEnding : String) : String :=
  let digits := decimal.digitsText
  if decimal.point ≤ 0 then
    "0." ++ zeros (-decimal.point).toNat ++ digits
  else if 0 ≤ decimal.exponent then
    digits ++ zeros decimal.exponent.toNat ++ wholeEnding
  else
    let whole := decimal.point.toNat
    String.ofList (digits.toList.take whole) ++ "." ++ String.ofList (digits.toList.drop whole)

/-- One digit before the point and a power of ten. -/
def scientific (decimal : Decimal) : String :=
  let exponent := decimal.point - 1
  match decimal.digitsText.toList with
  | [] => ""
  | [only] => s!"{only}e{exponent}"
  | first :: rest => s!"{first}.{String.ofList rest}e{exponent}"

end Decimal

namespace FloatWidth

/-- Renders the magnitude by `finite` and the rest by its usual word. -/
def render (width : FloatWidth) (word : BitVec width.bits) (zero : String)
    (finite : Decimal → String) : String :=
  let sign := if width.isNegative word then "-" else ""
  match width.magnitude word with
  | .notANumber => "NaN"
  | .infinite => sign ++ "inf"
  | .finite 0 _ => sign ++ zero
  | .finite significand exponent =>
      sign ++ finite (RoundingInterval.around width significand exponent).shortest

def text (width : FloatWidth) (word : BitVec width.bits) : String :=
  width.render word "0" (·.positional "")

/-- From sixteen places on, and below four zeros, the inspection form counts in
powers of ten; a whole number keeps its point. -/
def inspect (width : FloatWidth) (word : BitVec width.bits) : String :=
  width.render word "0.0" fun decimal =>
    if decimal.point > 16 ∨ decimal.point < -3 then decimal.scientific
    else decimal.positional ".0"

end FloatWidth

end MultiDispatch
