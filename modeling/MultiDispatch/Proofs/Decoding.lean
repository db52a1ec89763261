import MultiDispatch.Handler
import MultiDispatch.Proofs.Pointwise

/-!
# Decoding

A builtin parameter type takes exactly the scalars that its declared constraint
accepts.  So arguments that are accepted position by position decode together.
-/

namespace MultiDispatch

/-- Any value but an object. -/
def Value.IsScalar (value : Value) : Prop := ∃ s data, value = .scalar s data

theorem Family.takes_scalar_iff {family : Family} {s : Scalar} :
    family.Takes (.scalar s) ↔ (Ty.family family).Accepts (.scalar s) := by
  have encloses : (Ty.family family).Accepts (.scalar s) ↔ family ∈ s.enclosing := by
    simp [Ty.Accepts, Ty.enclosing]
  have isMember : (Ty.scalar s).IsMemberOf family ↔ family ∈ s.enclosing := by
    simp [Ty.IsMemberOf]
  cases family with
  | object =>
      rw [encloses]
      cases s <;> simp [Takes, Scalar.enclosing]
  | number => rfl
  | int | signedInt | unsignedInt | float =>
      rw [encloses]
      exact isMember

namespace ParamType

/-- No host type of objects occurs in the parameter type. -/
def IsBuiltin : ParamType → Prop
  | .scalar _ | .family _ | .any => True
  | .handle _ => False
  | .or left right => left.IsBuiltin ∧ right.IsBuiltin

instance : DecidablePred IsBuiltin
  | .scalar _ | .family _ | .any => isTrue trivial
  | .handle _ => isFalse id
  | .or left right =>
      have := instDecidablePredIsBuiltin left
      have := instDecidablePredIsBuiltin right
      inferInstanceAs (Decidable (_ ∧ _))

theorem decode_isSome_iff {type : ParamType} (builtin : type.IsBuiltin) {constraint : Constraint}
    (declares : type.constraint? = some constraint) {value : Value} (isScalar : value.IsScalar) :
    (type.decode value).isSome ↔ ∃ ty ∈ constraint.members, ty.Accepts value.ty := by
  obtain ⟨s, data, rfl⟩ := isScalar
  induction type generalizing constraint with
  | scalar expected =>
      cases declares
      simp only [decode, Constraint.members, Value.ty, Ty.Accepts, List.mem_singleton,
        exists_eq_left]
      by_cases same : s = expected
      · subst same
        simp
      · have differs : expected ≠ s := fun equal => same equal.symm
        simp [same, differs]
  | family f =>
      cases declares
      simp only [decode, Constraint.members, Value.ty, List.mem_singleton, exists_eq_left]
      rw [← Family.takes_scalar_iff]
      by_cases takes : f.Takes (.scalar s) <;> simp [takes]
  | handle _ => cases builtin
  | any => cases declares
  | or left right leftHypothesis rightHypothesis =>
      obtain ⟨leftConstraint, leftDeclares, rest⟩ := Option.bind_eq_some_iff.mp declares
      obtain ⟨rightConstraint, rightDeclares, joined⟩ := Option.bind_eq_some_iff.mp rest
      cases joined
      have leftDecodes := leftHypothesis builtin.1 leftDeclares
      have rightDecodes := rightHypothesis builtin.2 rightDeclares
      simp only [decode, Option.isSome_or, Option.isSome_map, Bool.or_eq_true, leftDecodes,
        rightDecodes, Constraint.mem_members_join, or_and_right, exists_or]

end ParamType

namespace Arguments

theorem exists_decode_iff {types : List ParamType} {values : List Value} :
    (∃ arguments, decode types values = some arguments) ↔
      List.Forall₂ (fun type value => (ParamType.decode type value).isSome) types values := by
  induction types generalizing values with
  | nil => cases values <;> simp [decode]
  | cons type types inductionHypothesis =>
      cases values with
      | nil => simp [decode]
      | cons value values =>
          rw [List.forall₂_cons, ← inductionHypothesis, decode]
          cases type.decode value with
          | none => simp
          | some data => cases decode types values <;> simp

end Arguments

end MultiDispatch
