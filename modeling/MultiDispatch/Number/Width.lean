/-!
# Widths of numbers

Integers are two's-complement words of five widths; floating-point numbers are
words of two binary formats, each with a sign bit, an exponent field and a
fraction field.
-/

namespace MultiDispatch

inductive IntWidth where
  | w8 | w16 | w32 | w64 | w128
  deriving DecidableEq

def IntWidth.bits : IntWidth → Nat
  | .w8 => 8
  | .w16 => 16
  | .w32 => 32
  | .w64 => 64
  | .w128 => 128

inductive FloatWidth where
  | w32 | w64
  deriving DecidableEq

def FloatWidth.bits : FloatWidth → Nat
  | .w32 => 32
  | .w64 => 64

namespace FloatWidth

def fractionBits : FloatWidth → Nat
  | .w32 => 23
  | .w64 => 52

def exponentBits : FloatWidth → Nat
  | .w32 => 8
  | .w64 => 11

theorem bits_eq (width : FloatWidth) :
    width.bits = 1 + width.exponentBits + width.fractionBits := by
  cases width <;> rfl

/-- The exponent of the unit in which the smallest numbers are counted. -/
def leastExponent (width : FloatWidth) : Int :=
  2 - ((1 <<< (width.exponentBits - 1) : Nat) : Int) - width.fractionBits

end FloatWidth

end MultiDispatch
