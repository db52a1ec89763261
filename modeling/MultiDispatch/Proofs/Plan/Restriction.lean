import MultiDispatch.Proofs.Plan.Compilation

/-!
# Restrictions of a declaration

A declaration restricts another when each of its methods is a method of the other
that stands at a place of its own there, and is skipped here if it is skipped there.
Leaving methods out, skipping more of them and listing them in another order all
restrict a declaration, and none of them keeps it from compiling.
-/

namespace MultiDispatch

namespace Retained

/-- The method is the original, which stands at the place that `place` gives, except
that it may be skipped where the original is not. -/
structure StandsFor (place : Nat → Nat) (method original : Retained) : Prop where
  index_eq : original.index = place method.index
  signature_eq : original.signature = method.signature
  name_eq : original.name = method.name
  strategy_eq : original.declared.strategy = method.declared.strategy
  kept : method.skip = false → original.skip = false

theorem StandsFor.clashes {place : Nat → Nat} {first second firstOriginal secondOriginal : Retained}
    (isFirst : first.StandsFor place firstOriginal)
    (isSecond : second.StandsFor place secondOriginal) (clash : first.Clashes second) :
    firstOriginal.Clashes secondOriginal := by
  obtain ⟨sameName, firstKept, secondKept, overlap⟩ := clash
  refine ⟨?_, isFirst.kept firstKept, isSecond.kept secondKept, ?_⟩
  · rw [isFirst.name_eq, isSecond.name_eq, sameName]
  · rwa [isFirst.signature_eq, isSecond.signature_eq]

end Retained

namespace TypeDecl

/-- Every method of the part stands for a method of the whole, no two for the same. -/
structure Restricts (place : Nat → Nat) (part whole : TypeDecl) : Prop where
  strategy_eq : part.strategy = whole.strategy
  injective : Function.Injective place
  exists_original : ∀ method ∈ part.retained, ∃ original ∈ whole.retained,
    method.StandsFor place original

/-- A restriction of what compiles compiles. -/
theorem Compilable.restrict {place : Nat → Nat} {part whole : TypeDecl} {options : CompileOptions}
    (compilable : whole.Compilable options) (restricts : part.Restricts place whole) :
    part.Compilable options where
  withinLimit := by
    intro method inside limit isLimit
    obtain ⟨original, isOriginal, stands⟩ := restricts.exists_original method inside
    rw [← stands.signature_eq]
    exact compilable.withinLimit original isOriginal limit isLimit
  unambiguous := by
    intro first isFirst second isSecond differ clash
    obtain ⟨firstOriginal, firstInside, firstStands⟩ := restricts.exists_original first isFirst
    obtain ⟨secondOriginal, secondInside, secondStands⟩ :=
      restricts.exists_original second isSecond
    apply compilable.unambiguous firstOriginal firstInside secondOriginal secondInside ?_
      (firstStands.clashes secondStands clash)
    intro sameOriginal
    apply differ
    apply eq_of_index_eq isFirst isSecond
    apply restricts.injective
    rw [← firstStands.index_eq, ← secondStands.index_eq, sameOriginal]
  storable := by
    intro method inside kept valueObject
    obtain ⟨original, isOriginal, stands⟩ := restricts.exists_original method inside
    have originalStores : whole.resolvedStrategy options original = .valueObject := by
      rwa [resolvedStrategy, stands.strategy_eq, ← restricts.strategy_eq]
    rw [← stands.signature_eq]
    exact compilable.storable original isOriginal (stands.kept kept) originalStores

end TypeDecl

end MultiDispatch
