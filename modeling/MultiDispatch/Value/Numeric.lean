import MultiDispatch.Value

/-!
# Numbers carried by values

The integer that a value carries, its views in 128 bits, and its nearest
64-bit float.  Objects carry no number, whatever their type is called.
-/

namespace MultiDispatch.Value

/-- The integer carried, exactly. -/
def integer? : Value → Option Int
  | .scalar (.signed _) word => some word.toInt
  | .scalar (.unsigned _) word => some word.toNat
  | _ => none

/-- The integer as a signed word, unless it is too large. -/
def signed128? (value : Value) : Option (BitVec 128) :=
  value.integer?.bind fun integer =>
    let word : BitVec 128 := .ofInt _ integer
    if word.toInt = integer then some word else none

/-- The signed view of a signed integer; anything without one counts as zero. -/
def signed128 (value : Value) : BitVec 128 :=
  value.signed128?.getD 0

/-- The unsigned view of an unsigned integer; anything else counts as zero. -/
def unsigned128 : Value → BitVec 128
  | .scalar (.unsigned _) word => .ofNat _ word.toNat
  | _ => 0

/-- The nearest 64-bit float, which is no number for what carries none. -/
def float64 : Value → BitVec 64
  | .scalar (.signed _) word => FloatWidth.w64.ofInt word.toInt
  | .scalar (.unsigned _) word => FloatWidth.w64.ofInt word.toNat
  | .scalar (.float width) word => width.convert .w64 word
  | _ => FloatWidth.w64.nanWord

end MultiDispatch.Value
