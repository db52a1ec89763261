import MultiDispatch.Proofs.Constraint.Collected
import MultiDispatch.Proofs.Decoding

/-!
# Parameters with alternatives

What a parameter decodes to keeps the whole value, and it decodes just the values that its
constraint accepts.  Alternatives can stand in any order and be grouped in any way:
which of them is tried first does not matter for either.
-/

namespace MultiDispatch.ParamType

/-- Scalars, families, and alternatives of these. -/
def IsRestricted : ParamType → Prop
  | .scalar _ | .family _ => True
  | .handle _ | .any => False
  | .or left right => left.IsRestricted ∧ right.IsRestricted

namespace IsRestricted

variable {type : ParamType}

theorem isBuiltin (restricted : type.IsRestricted) : type.IsBuiltin := by
  induction type with
  | scalar | family => trivial
  | handle | any => cases restricted
  | or left right leftHypothesis rightHypothesis =>
      exact ⟨leftHypothesis restricted.1, rightHypothesis restricted.2⟩

theorem exists_constraint? (restricted : type.IsRestricted) :
    ∃ constraint, type.constraint? = some constraint := by
  induction type with
  | scalar | family => exact ⟨_, rfl⟩
  | handle | any => cases restricted
  | or left right leftHypothesis rightHypothesis =>
      rcases leftHypothesis restricted.1 with ⟨leftConstraint, leftDeclares⟩
      rcases rightHypothesis restricted.2 with ⟨rightConstraint, rightDeclares⟩
      refine ⟨leftConstraint.join rightConstraint, ?_⟩
      rw [constraint?, leftDeclares, rightDeclares]
      rfl

end IsRestricted

/-- The same alternatives, exchanged and grouped in other ways. -/
inductive Rearranges : ParamType → ParamType → Prop where
  | refl (type : ParamType) : Rearranges type type
  | symm {type other : ParamType} (rearranges : Rearranges type other) : Rearranges other type
  | trans {type between other : ParamType} (first : Rearranges type between)
      (second : Rearranges between other) : Rearranges type other
  | swap (left right : ParamType) : Rearranges (.or left right) (.or right left)
  | regroup (left middle right : ParamType) :
      Rearranges (.or (.or left middle) right) (.or left (.or middle right))
  | inside {left left' right right' : ParamType} (inLeft : Rearranges left left')
      (inRight : Rearranges right right') : Rearranges (.or left right) (.or left' right')

theorem isSome_decode_or (left right : ParamType) (value : Value) :
    ((ParamType.or left right).decode value).isSome =
      ((left.decode value).isSome || (right.decode value).isSome) := by
  rw [decode, Option.isSome_or, Option.isSome_map, Option.isSome_map]

theorem constraint?_swap (left right : ParamType) :
    (ParamType.or left right).constraint? = (ParamType.or right left).constraint? := by
  simp only [constraint?]
  cases left.constraint? <;> cases right.constraint? <;>
    simp [Constraint.join_comm]

theorem constraint?_regroup (left middle right : ParamType) :
    (ParamType.or (.or left middle) right).constraint? =
      (ParamType.or left (.or middle right)).constraint? := by
  simp only [constraint?]
  cases left.constraint? <;> cases middle.constraint? <;> cases right.constraint? <;>
    simp [Constraint.join_assoc]

namespace Rearranges

variable {type other : ParamType}

theorem constraint?_eq (rearranges : Rearranges type other) :
    other.constraint? = type.constraint? := by
  induction rearranges with
  | refl => rfl
  | symm _ inductionHypothesis => exact inductionHypothesis.symm
  | trans _ _ firstHypothesis secondHypothesis => exact secondHypothesis.trans firstHypothesis
  | swap left right => exact constraint?_swap right left
  | regroup left middle right => exact (constraint?_regroup left middle right).symm
  | inside _ _ leftHypothesis rightHypothesis =>
      rw [constraint?, constraint?, leftHypothesis, rightHypothesis]

theorem isSome_decode_eq (rearranges : Rearranges type other) (value : Value) :
    (other.decode value).isSome = (type.decode value).isSome := by
  induction rearranges with
  | refl => rfl
  | symm _ inductionHypothesis => exact inductionHypothesis.symm
  | trans _ _ firstHypothesis secondHypothesis => exact secondHypothesis.trans firstHypothesis
  | swap left right => rw [isSome_decode_or, isSome_decode_or, Bool.or_comm]
  | regroup left middle right =>
      rw [isSome_decode_or, isSome_decode_or, isSome_decode_or, isSome_decode_or, Bool.or_assoc]
  | inside _ _ leftHypothesis rightHypothesis =>
      rw [isSome_decode_or, isSome_decode_or, leftHypothesis, rightHypothesis]

end Rearranges

/-- The declared constraint is what decodes: a value that some member accepts comes back
unchanged, any other is refused, and neither depends on how the alternatives stand. -/
theorem constraint_describes_decode {type : ParamType} (restricted : type.IsRestricted) :
    ∃ constraint, type.constraint? = some constraint ∧
      (∀ value : Value, value.IsScalar →
        ((type.decode value).isSome ↔ ∃ ty ∈ constraint.members, ty.Accepts value.ty) ∧
        ∀ data, type.decode value = some data → type.toValue data = value) ∧
      ∀ other, Rearranges type other →
        other.constraint? = some constraint ∧
        ∀ value, (other.decode value).isSome = (type.decode value).isSome := by
  rcases restricted.exists_constraint? with ⟨constraint, declares⟩
  refine ⟨constraint, declares, ?_, ?_⟩
  · intro value isScalar
    apply And.intro
    · exact decode_isSome_iff restricted.isBuiltin declares isScalar
    · intro data decodes
      exact toValue_of_decode decodes
  · intro other rearranges
    apply And.intro
    · rw [rearranges.constraint?_eq, declares]
    · exact rearranges.isSome_decode_eq

/-- A word that is no number, where one alternative shadows another. -/
theorem constraint_describes_decode_nan :
    let number : ParamType := .family .number
    let float : ParamType := .scalar (.float .w64)
    let text : ParamType := .scalar .string
    let nan : Value := .scalar (.float .w64) (FloatWidth.nanWord .w64)
    (∀ data, (ParamType.or (.or number text) float).decode nan = some data →
      (ParamType.or (.or number text) float).toValue data = nan) ∧
      (ParamType.or number (.or text float)).constraint? =
        (ParamType.or (.or number text) float).constraint? ∧
      ((ParamType.or number (.or text float)).decode nan).isSome := by
  intro number float text nan
  have restricted : (ParamType.or (.or number text) float).IsRestricted :=
    ⟨⟨trivial, trivial⟩, trivial⟩
  rcases constraint_describes_decode restricted with ⟨constraint, declares, agrees, stable⟩
  rcases stable _ (.regroup number text float) with ⟨redeclares, redecodes⟩
  refine ⟨(agrees nan ⟨_, _, rfl⟩).2, redeclares.trans declares.symm, ?_⟩
  rw [redecodes]
  rfl

end MultiDispatch.ParamType
