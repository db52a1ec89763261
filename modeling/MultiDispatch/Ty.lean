import MultiDispatch.Number.Width
import MultiDispatch.Text.Blank

/-!
# Parameter types

A type is a scalar with a fixed representation, an abstract family, or a user
type known by its name.  Families nest: the families strictly around a type are
listed from the narrowest to the widest, and a type accepts another exactly
when the two are equal or the first is a family around the second.
-/

namespace MultiDispatch

inductive Scalar where
  | nil
  | bool
  | char
  | signed (width : IntWidth)
  | unsigned (width : IntWidth)
  | float (width : FloatWidth)
  | string
  | symbol
  deriving DecidableEq

inductive Family where
  | number
  | int
  | signedInt
  | unsignedInt
  | float
  | object
  deriving DecidableEq

inductive Ty where
  | scalar (scalar : Scalar)
  | family (family : Family)
  | named (name : String)
  deriving DecidableEq

def Scalar.name : Scalar → String
  | .nil => "Nil"
  | .bool => "Bool"
  | .char => "Char"
  | .signed .w8 => "Int8"
  | .signed .w16 => "Int16"
  | .signed .w32 => "Int32"
  | .signed .w64 => "Int64"
  | .signed .w128 => "Int128"
  | .unsigned .w8 => "UInt8"
  | .unsigned .w16 => "UInt16"
  | .unsigned .w32 => "UInt32"
  | .unsigned .w64 => "UInt64"
  | .unsigned .w128 => "UInt128"
  | .float .w32 => "Float32"
  | .float .w64 => "Float64"
  | .string => "String"
  | .symbol => "Symbol"

def Family.name : Family → String
  | .number => "Number"
  | .int => "Int"
  | .signedInt => "Int::Signed"
  | .unsignedInt => "Int::Unsigned"
  | .float => "Float"
  | .object => "Object"

def Scalar.all : List Scalar :=
  [.nil, .bool, .char,
    .signed .w8, .signed .w16, .signed .w32, .signed .w64, .signed .w128,
    .unsigned .w8, .unsigned .w16, .unsigned .w32, .unsigned .w64, .unsigned .w128,
    .float .w32, .float .w64, .string, .symbol]

theorem Scalar.mem_all (scalar : Scalar) : scalar ∈ Scalar.all := by
  rcases scalar with _ | _ | _ | (_ | _ | _ | _ | _) | (_ | _ | _ | _ | _) | (_ | _) | _ | _ <;>
    decide

def Family.all : List Family :=
  [.number, .int, .signedInt, .unsignedInt, .float, .object]

theorem Family.mem_all (family : Family) : family ∈ Family.all := by
  cases family <;> decide

namespace Ty

/-- The types that have a name of their own, in the order of types. -/
def builtins : List Ty :=
  Scalar.all.map .scalar ++ Family.all.map .family

@[simp]
theorem scalar_mem_builtins (s : Scalar) : .scalar s ∈ builtins :=
  List.mem_append_left _ (List.mem_map_of_mem s.mem_all)

@[simp]
theorem family_mem_builtins (f : Family) : .family f ∈ builtins :=
  List.mem_append_right _ (List.mem_map_of_mem f.mem_all)

@[simp]
theorem named_not_mem_builtins (name : String) : .named name ∉ builtins := by
  simp [builtins]

def name : Ty → String
  | .scalar s => s.name
  | .family f => f.name
  | .named name => name

/-- Blanks in a type name have no meaning.  A name that no builtin type has
names a user type. -/
def ofName (text : String) : Ty :=
  let name := String.ofList (Text.withoutBlanks text.toList)
  (builtins.find? fun builtin => builtin.name = name).getD (.named name)

theorem ofName_name {builtin : Ty} (member : builtin ∈ builtins) :
    ofName builtin.name = builtin := by
  revert member builtin
  cbv
  decide

end Ty

/-- The families around a scalar, narrowest first. -/
def Scalar.enclosing : Scalar → List Family
  | .signed _ => [.signedInt, .int, .number, .object]
  | .unsigned _ => [.unsignedInt, .int, .number, .object]
  | .float _ => [.float, .number, .object]
  | .nil | .bool | .char | .string | .symbol => [.object]

/-- The families strictly around a family, narrowest first. -/
def Family.enclosing : Family → List Family
  | .signedInt | .unsignedInt => [.int, .number, .object]
  | .int | .float => [.number, .object]
  | .number => [.object]
  | .object => []

/-- How wide a family is; it grows with each enclosing family. -/
def Family.breadth : Family → Nat
  | .signedInt | .unsignedInt | .float => 1
  | .int => 2
  | .number => 3
  | .object => 4

theorem Family.breadth_lt_of_mem_enclosing {inner outer : Family}
    (encloses : outer ∈ inner.enclosing) : inner.breadth < outer.breadth := by
  cases inner <;> cases outer <;> revert encloses <;> decide

theorem Family.mem_enclosing_trans {inner middle outer : Family}
    (first : middle ∈ inner.enclosing) (second : outer ∈ middle.enclosing) :
    outer ∈ inner.enclosing := by
  cases inner <;> cases middle <;> cases outer <;> revert first second <;> decide

namespace Ty

/-- The families strictly around a type, narrowest first. -/
def enclosing : Ty → List Family
  | .scalar s => s.enclosing
  | .family f => f.enclosing
  | .named _ => [.object]

def breadth : Ty → Nat
  | .family f => f.breadth
  | .scalar _ | .named _ => 0

/-- An argument of type `argument` can be passed where `expected` stands. -/
def Accepts (expected argument : Ty) : Prop :=
  expected = argument ∨ ∃ f ∈ argument.enclosing, expected = .family f

instance (expected argument : Ty) : Decidable (expected.Accepts argument) :=
  inferInstanceAs (Decidable (_ ∨ ∃ f ∈ argument.enclosing, _))

@[refl, simp]
theorem accepts_refl (ty : Ty) : ty.Accepts ty := .inl rfl

theorem Accepts.trans {outer middle inner : Ty}
    (first : outer.Accepts middle) (second : middle.Accepts inner) : outer.Accepts inner := by
  rcases first with rfl | ⟨widest, encloses, rfl⟩
  · exact second
  rcases second with rfl | ⟨between, inside, rfl⟩
  · exact .inr ⟨widest, encloses, rfl⟩
  refine .inr ⟨widest, ?_, rfl⟩
  cases inner with
  | family innermost => exact Family.mem_enclosing_trans inside encloses
  | named _ =>
      simp only [enclosing, List.mem_singleton] at inside
      subst inside
      simp [enclosing, Family.enclosing] at encloses
  | scalar innermost =>
      cases innermost <;> cases between <;> cases widest <;>
        simp_all [enclosing, Family.enclosing, Scalar.enclosing]

def IsAbstract (ty : Ty) : Prop := ∃ f, ty = .family f

instance : DecidablePred IsAbstract
  | .family f => isTrue ⟨f, rfl⟩
  | .scalar _ => isFalse fun ⟨_, equal⟩ => nomatch equal
  | .named _ => isFalse fun ⟨_, equal⟩ => nomatch equal

/-- A scalar that lies in `family`.  Families inside `family` are no members. -/
def IsMemberOf (ty : Ty) (family : Family) : Prop :=
  ∃ s, ty = .scalar s ∧ family ∈ s.enclosing

instance (family : Family) : DecidablePred (IsMemberOf · family)
  | .scalar s =>
      decidable_of_iff (family ∈ s.enclosing) (by simp [IsMemberOf])
  | .family _ => isFalse fun ⟨_, equal, _⟩ => nomatch equal
  | .named _ => isFalse fun ⟨_, equal, _⟩ => nomatch equal

end Ty

/-- Fixed storage for one argument.  Families have none. -/
inductive Slot where
  | scalar (scalar : Scalar)
  | handle (name : String)
  deriving DecidableEq

def Ty.slot? : Ty → Option Slot
  | .scalar s => some (.scalar s)
  | .named name => some (.handle name)
  | .family _ => none

@[simp]
theorem Ty.slot?_eq_none_iff {ty : Ty} : ty.slot? = none ↔ ty.IsAbstract := by
  cases ty <;> simp [Ty.slot?, Ty.IsAbstract]

def Slot.text : Slot → String
  | .scalar .nil => "Unit"
  | .scalar .bool => "Bool"
  | .scalar .char => "Char"
  | .scalar (.signed width) => s!"Signed({width.bits})"
  | .scalar (.unsigned width) => s!"Unsigned({width.bits})"
  | .scalar (.float width) => s!"Float({width.bits})"
  | .scalar .string => "Str"
  | .scalar .symbol => "Sym"
  | .handle name => s!"Handle({name})"

end MultiDispatch
