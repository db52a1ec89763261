import Mathlib.Data.List.Forall2
import MultiDispatch.Combination

/-!
# Specificity

The number of families and the summed breadth measure how specific a combination
is.  Both grow along acceptance, and the breadth grows strictly unless the types
are the same, so a combination that accepts other types by a family is never
preferred to the combination of just these types.
-/

namespace MultiDispatch

theorem Family.breadth_pos (family : Family) : 0 < family.breadth := by
  cases family <;> decide

namespace Ty

theorem breadth_lt_of_mem_enclosing {argument : Ty} {outer : Family}
    (encloses : outer ∈ argument.enclosing) : argument.breadth < outer.breadth := by
  cases argument with
  | scalar _ => exact outer.breadth_pos
  | named _ => exact outer.breadth_pos
  | family _ => exact Family.breadth_lt_of_mem_enclosing encloses

namespace Accepts

variable {expected argument : Ty}

theorem breadth_lt_of_ne (accepts : expected.Accepts argument) (differ : expected ≠ argument) :
    argument.breadth < expected.breadth := by
  rcases accepts with same | ⟨outer, encloses, rfl⟩
  · exact absurd same differ
  · exact breadth_lt_of_mem_enclosing encloses

theorem breadth_le (accepts : expected.Accepts argument) :
    argument.breadth ≤ expected.breadth := by
  by_cases same : expected = argument
  · exact Nat.le_of_eq (congrArg breadth same.symm)
  · exact Nat.le_of_lt (accepts.breadth_lt_of_ne same)

theorem isAbstract (accepts : expected.Accepts argument) (abstract : argument.IsAbstract) :
    expected.IsAbstract := by
  rcases accepts with rfl | ⟨outer, _, rfl⟩
  · exact abstract
  · exact ⟨outer, rfl⟩

/-- A type that is no family accepts only itself. -/
theorem eq_of_not_isAbstract (accepts : expected.Accepts argument)
    (concrete : ¬expected.IsAbstract) : expected = argument := by
  rcases accepts with same | ⟨outer, _, rfl⟩
  · exact same
  · exact absurd ⟨outer, rfl⟩ concrete

end Accepts

end Ty

namespace Combination

theorem eq_of_types_eq {left right : Combination} (same : left.types = right.types) :
    left = right :=
  congrArg Combination.mk same

theorem accepts_iff_forall₂ {combination : Combination} {arguments : List Ty} :
    combination.Accepts arguments ↔ List.Forall₂ Ty.Accepts combination.types arguments := by
  simp only [Accepts, List.forall₂_iff_zip, Prod.forall]

@[simp]
theorem accepts_refl (types : List Ty) : (Combination.mk types).Accepts types :=
  accepts_iff_forall₂.mpr (List.forall₂_same.mpr fun ty _ => Ty.accepts_refl ty)

@[simp]
theorem breadth_cons (ty : Ty) (types : List Ty) :
    (Combination.mk (ty :: types)).breadth = ty.breadth + (Combination.mk types).breadth := rfl

theorem abstractPositions_cons (ty : Ty) (types : List Ty) :
    (Combination.mk (ty :: types)).abstractPositions =
      (Combination.mk types).abstractPositions + if ty.IsAbstract then 1 else 0 := by
  simp [abstractPositions, List.countP_cons]

namespace Accepts

variable {combination : Combination} {arguments : List Ty}

theorem abstractPositions_le (accepts : combination.Accepts arguments) :
    (Combination.mk arguments).abstractPositions ≤ combination.abstractPositions := by
  obtain ⟨types⟩ := combination
  have pointwise : List.Forall₂ Ty.Accepts types arguments := accepts_iff_forall₂.mp accepts
  clear accepts
  induction pointwise with
  | nil => exact Nat.le_refl _
  | @cons expected argument _ _ head _ inductionHypothesis =>
      simp only [abstractPositions_cons]
      by_cases abstract : argument.IsAbstract
      · have expectedAbstract := head.isAbstract abstract
        simpa only [if_pos abstract, if_pos expectedAbstract] using
          Nat.add_le_add_right inductionHypothesis 1
      · rw [if_neg abstract]
        exact Nat.le_add_right_of_le inductionHypothesis

theorem breadth_le (accepts : combination.Accepts arguments) :
    (Combination.mk arguments).breadth ≤ combination.breadth := by
  obtain ⟨types⟩ := combination
  have pointwise : List.Forall₂ Ty.Accepts types arguments := accepts_iff_forall₂.mp accepts
  clear accepts
  induction pointwise with
  | nil => exact Nat.le_refl _
  | cons head _ inductionHypothesis =>
      exact Nat.add_le_add head.breadth_le inductionHypothesis

/-- The first position that differs makes the combination strictly broader; the
others cannot make up for it. -/
theorem breadth_lt_of_ne (accepts : combination.Accepts arguments)
    (differ : combination.types ≠ arguments) :
    (Combination.mk arguments).breadth < combination.breadth := by
  obtain ⟨types⟩ := combination
  have pointwise : List.Forall₂ Ty.Accepts types arguments := accepts_iff_forall₂.mp accepts
  clear accepts
  induction pointwise with
  | nil => exact absurd rfl differ
  | @cons expected argument _ _ head tail inductionHypothesis =>
      simp only [breadth_cons]
      by_cases same : expected = argument
      · subst same
        apply Nat.add_lt_add_left
        apply inductionHypothesis
        intro sameTail
        exact differ (congrArg (expected :: ·) sameTail)
      · exact Nat.add_lt_add_of_lt_of_le (head.breadth_lt_of_ne same)
          (breadth_le (accepts_iff_forall₂.mpr tail))

/-- Without families only the very same types are accepted. -/
theorem eq_of_forall_not_isAbstract (accepts : combination.Accepts arguments)
    (concrete : ∀ ty ∈ combination.types, ¬ty.IsAbstract) : combination.types = arguments := by
  obtain ⟨types⟩ := combination
  have pointwise : List.Forall₂ Ty.Accepts types arguments := accepts_iff_forall₂.mp accepts
  clear accepts
  induction pointwise with
  | nil => rfl
  | cons head _ inductionHypothesis =>
      rw [List.forall_mem_cons] at concrete
      exact congrArg₂ List.cons (head.eq_of_not_isAbstract concrete.1)
        (inductionHypothesis concrete.2)

end Accepts

end Combination

end MultiDispatch
