import MultiDispatch.Combination
import MultiDispatch.Proofs.Pointwise

/-!
# Layouts

A combination has a layout exactly when none of its types is a family, and then
every position has the slot of its type; else it is the leftmost family that stands
against it.
-/

namespace MultiDispatch

namespace Combination

theorem layout_eq_ok_iff {combination : Combination} {slots : List Slot} :
    combination.layout = .ok slots ↔
      List.Forall₂ (fun ty slot => ty.slot? = some slot) combination.types slots := by
  have step : ∀ (ty : Ty) (slot : Slot),
      (ty.slot?.elim (throw ty) pure : Except Ty Slot) = .ok slot ↔ ty.slot? = some slot := by
    intro ty slot
    cases ty.slot? <;> simp [throw, throwThe, MonadExceptOf.throw, pure, Except.pure]
  simp only [layout, List.mapM_eq_ok_iff, step]

theorem exists_layout_iff {combination : Combination} :
    (∃ slots, combination.layout = .ok slots) ↔ ∀ ty ∈ combination.types, ¬ty.IsAbstract := by
  simp only [layout_eq_ok_iff, List.exists_forall₂_iff, ← Ty.slot?_eq_none_iff,
    ← Option.ne_none_iff_exists']

/-- The fault of a layout is its leftmost family. -/
theorem layout_eq_error_iff {combination : Combination} {fault : Ty} :
    combination.layout = .error fault ↔
      combination.types.find? (fun ty => ty.IsAbstract) = some fault := by
  have step : ∀ ty : Ty, (ty.slot?.elim (throw ty) pure : Except Ty Slot) = .error fault ↔
      ty.IsAbstract ∧ ty = fault := by
    intro ty
    rw [← Ty.slot?_eq_none_iff]
    cases ty.slot? <;> simp [throw, throwThe, MonadExceptOf.throw, pure, Except.pure]
  have passes : ∀ ty : Ty, (∃ slot, (ty.slot?.elim (throw ty) pure : Except Ty Slot) = .ok slot) ↔
      ¬ty.IsAbstract := by
    intro ty
    rw [← Ty.slot?_eq_none_iff]
    cases ty.slot? <;> simp [throw, throwThe, MonadExceptOf.throw, pure, Except.pure]
  simp only [layout, List.mapM_eq_error_iff, step, passes, List.find?_eq_some_iff_append,
    decide_eq_true_eq, Bool.not_eq_eq_eq_not, Bool.not_true, decide_eq_false_iff_not]
  constructor
  · intro failed
    rcases failed with ⟨before, _, after, split, concrete, isAbstract, rfl⟩
    exact ⟨isAbstract, before, after, split, concrete⟩
  · intro found
    rcases found with ⟨isAbstract, before, after, split, concrete⟩
    exact ⟨before, fault, after, split, concrete, isAbstract, rfl⟩

end Combination

end MultiDispatch
