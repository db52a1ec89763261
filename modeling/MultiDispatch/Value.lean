import MultiDispatch.Number.Shortest
import MultiDispatch.Text.Quoted
import MultiDispatch.Ty

/-!
# Values

A value is a scalar with its data or an object of a user type.  Objects are
handles: the library never looks behind one, and two objects are equal exactly
when they are the same handle under the same declared name.  A user type may
declare any name, even a builtin one, so the type of an object is what its
declared name stands for.
-/

namespace MultiDispatch

abbrev Scalar.Data : Scalar → Type
  | .nil => Unit
  | .bool => Bool
  | .char => Char
  | .signed width | .unsigned width => BitVec width.bits
  | .float width => BitVec width.bits
  | .string | .symbol => String

/-- A host type behind objects.  Distinct host types may declare one name. -/
structure ObjectType where
  key : Nat
  name : String
  deriving DecidableEq

namespace ObjectType

def ty (type : ObjectType) : Ty := .ofName type.name

end ObjectType

structure Object where
  type : ObjectType
  handle : Nat
  deriving DecidableEq

inductive Value where
  | scalar (scalar : Scalar) (data : scalar.Data)
  | object (object : Object)

namespace Value

@[match_pattern]
def nil : Value := .scalar .nil ()

@[match_pattern]
def bool (flag : Bool) : Value := .scalar .bool flag

@[match_pattern]
def char (character : Char) : Value := .scalar .char character

@[match_pattern]
def string (text : String) : Value := .scalar .string text

@[match_pattern]
def symbol (name : String) : Value := .scalar .symbol name

def signed (width : IntWidth) (value : Int) : Value := .scalar (.signed width) (.ofInt _ value)

def unsigned (width : IntWidth) (value : Int) : Value := .scalar (.unsigned width) (.ofInt _ value)

/-- The type by which the value is dispatched. -/
def ty : Value → Ty
  | .scalar s _ => .scalar s
  | .object o => o.type.ty

/-- The text of a string or symbol. -/
def text? : Value → Option String
  | .string text | .symbol text => some text
  | _ => none

/-- Equality of values.  Floats compare as numbers, so the relation is not
reflexive. -/
def Equal : Value → Value → Prop
  | .scalar (.float left) leftWord, .scalar (.float right) rightWord =>
      ∃ same : left = right, left.NumericallyEqual leftWord (same ▸ rightWord)
  | .scalar left leftData, .scalar right rightData =>
      ∃ same : left = right, leftData = same ▸ rightData
  | .object left, .object right => left.type.name = right.type.name ∧ left.handle = right.handle
  | .scalar _ _, .object _ | .object _, .scalar _ _ => False

instance Scalar.instDecidableEqData : (s : Scalar) → DecidableEq s.Data
  | .nil => inferInstanceAs (DecidableEq Unit)
  | .bool => inferInstanceAs (DecidableEq Bool)
  | .char => inferInstanceAs (DecidableEq Char)
  | .signed width | .unsigned width => inferInstanceAs (DecidableEq (BitVec width.bits))
  | .float width => inferInstanceAs (DecidableEq (BitVec width.bits))
  | .string | .symbol => inferInstanceAs (DecidableEq String)

instance (left right : Value) : Decidable (left.Equal right) := by
  unfold Equal
  split <;> infer_instance

def text : Value → String
  | .nil => "nil"
  | .bool flag => toString flag
  | .char character => toString character
  | .scalar (.signed _) word => toString word.toInt
  | .scalar (.unsigned _) word => toString word.toNat
  | .scalar (.float width) word => width.text word
  | .string text => text
  | .symbol name => ":" ++ name
  | .object o => "#<" ++ o.type.ty.name ++ ">"

/-- The inspection form names the width of a number, except of the two default
ones, and gives an object's declared name as it is. -/
def inspect : Value → String
  | .char character => Text.quotedChar character
  | .scalar (.signed .w32) word => toString word.toInt
  | .scalar (.signed width) word => s!"{word.toInt}_i{width.bits}"
  | .scalar (.unsigned width) word => s!"{word.toNat}_u{width.bits}"
  | .scalar (.float .w32) word => FloatWidth.w32.inspect word ++ "_f32"
  | .scalar (.float .w64) word => FloatWidth.w64.inspect word
  | .string text => Text.quoted text
  | .object o => "#<" ++ o.type.name ++ ">"
  | value => value.text

end Value

/-- The value fits the slot without conversion. -/
def Slot.Admits : Slot → Value → Prop
  | .scalar expected, .scalar actual _ => expected = actual
  | .handle name, .object o => o.type.ty = .named name
  | .scalar _, .object _ | .handle _, .scalar _ _ => False

instance (slot : Slot) (value : Value) : Decidable (slot.Admits value) := by
  unfold Slot.Admits
  split <;> infer_instance

/-- A slot takes only values of the type that it stores. -/
theorem Slot.Admits.ty_eq {ty : Ty} {slot : Slot} {value : Value} (stores : ty.slot? = some slot)
    (admits : slot.Admits value) : value.ty = ty := by
  cases ty with
  | family _ => cases stores
  | scalar _ =>
      cases stores
      cases value with
      | scalar _ _ => exact congrArg Ty.scalar (Eq.symm admits)
      | object _ => cases admits
  | named _ =>
      cases stores
      cases value with
      | scalar _ _ => cases admits
      | object _ => exact admits

end MultiDispatch
