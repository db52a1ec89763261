import MultiDispatch.Constraint
import MultiDispatch.Value

/-!
# Typed parameters

The types that a handler's parameter can have, with the data that it decodes
to.  Each parameter type declares the constraint under which it is dispatched,
and decodes from the values that satisfy it.
-/

namespace MultiDispatch

/-- The types whose values a family parameter takes.  The number family also
takes the families inside it; the narrower ones take scalars only. -/
def Family.Takes : Family → Ty → Prop
  | .object, _ => True
  | .number, ty => (Ty.family .number).Accepts ty
  | family, ty => ty.IsMemberOf family

instance (family : Family) (ty : Ty) : Decidable (family.Takes ty) := by
  unfold Family.Takes
  split <;> infer_instance

inductive ParamType where
  | scalar (scalar : Scalar)
  | family (family : Family)
  | handle (type : ObjectType)
  /-- Any value, without a constraint. -/
  | any
  | or (left right : ParamType)

namespace ParamType

abbrev Data : ParamType → Type
  | .scalar s => s.Data
  | .family _ => Value
  | .handle _ => Object
  | .any => Value
  | .or left right => left.Data ⊕ right.Data

/-- The declared constraint; a parameter that can take any value has none. -/
def constraint? : ParamType → Option Constraint
  | .scalar s => some (.single (.scalar s))
  | .family f => some (.single (.family f))
  | .handle type => some (.single type.ty)
  | .any => none
  | .or left right => do return (← left.constraint?).join (← right.constraint?)

/-- Of two alternatives the left one is tried first. -/
def decode : (type : ParamType) → Value → Option type.Data
  | .scalar expected, .scalar actual data =>
      if same : actual = expected then some (same ▸ data) else none
  | .scalar _, .object _ => none
  | .family f, value => if f.Takes value.ty then some value else none
  | .handle type, .object o => if o.type = type then some o else none
  | .handle _, .scalar _ _ => none
  | .any, value => some value
  | .or left right, value =>
      ((left.decode value).map Sum.inl).or ((right.decode value).map Sum.inr)

def toValue : (type : ParamType) → type.Data → Value
  | .scalar s, data => .scalar s data
  | .family _, value => value
  | .handle _, o => .object o
  | .any, value => value
  | .or left _, .inl data => left.toValue data
  | .or _ right, .inr data => right.toValue data

theorem toValue_of_decode {type : ParamType} {value : Value} {data : type.Data}
    (decodes : type.decode value = some data) : type.toValue data = value := by
  induction type with
  | scalar expected =>
      cases value with
      | object _ => cases decodes
      | scalar actual data =>
          simp only [decode] at decodes
          split at decodes
          · rename_i same
            subst same
            cases decodes
            rfl
          · cases decodes
  | family f =>
      simp only [decode] at decodes
      split at decodes
      · cases decodes
        rfl
      · cases decodes
  | handle type =>
      cases value with
      | scalar _ _ => cases decodes
      | object o =>
          simp only [decode] at decodes
          split at decodes
          · cases decodes
            rfl
          · cases decodes
  | any =>
      cases decodes
      rfl
  | or left right leftHypothesis rightHypothesis =>
      simp only [decode] at decodes
      rcases Option.or_eq_some_iff.1 decodes with found | ⟨_, found⟩ <;>
        obtain ⟨inner, innerDecodes, rfl⟩ := Option.map_eq_some_iff.1 found
      · exact leftHypothesis innerDecodes
      · exact rightHypothesis innerDecodes

end ParamType

end MultiDispatch
