import MultiDispatch.Proofs.Label.Signature
import MultiDispatch.Proofs.Text.Letters

/-!
# Identifiers of call sites

One underscore joins the name of the method to the label of its signature, and
every escape begins with one.  Words begin with a lower-case letter, so the
place can still be found when the names of the types are capitalised.
-/

namespace MultiDispatch

/-- The name begins with a capital letter. -/
def Ty.IsCapitalised (ty : Ty) : Prop :=
  ∃ first rest, ty.name.toList = first :: rest ∧ first.isUpper

namespace Label

/-- A constraint in the form that manifests give it. -/
structure IsWritten (constraint : Constraint) : Prop extends IsLabelled constraint where
  capitalised : ∀ ty ∈ constraint.members, ty.IsCapitalised

theorem exists_ofConstraint_eq_cons {constraint : Constraint} (written : IsWritten constraint) :
    ∃ first rest, first.isUpper ∧ (ofConstraint constraint).toList = first :: rest := by
  obtain ⟨ty, member, tail, _, label⟩ := exists_ofConstraint_eq_append written.toIsLabelled
  obtain ⟨first, rest, name, upper⟩ := written.capitalised ty member
  have plain := Text.isAlphanum_of_isUpper upper
  have notColon : first ≠ ':' := by
    rintro rfl
    cases upper
  refine ⟨first, escapeChars rest ++ tail, upper, ?_⟩
  rw [label, name, escapeChars, escapeChar, if_pos plain]
  · rfl
  · rintro _ rfl
    exact absurd rfl notColon

theorem nameEnds_underscore_ofSignature {signature : Signature}
    (written : ∀ constraint ∈ signature.constraints, IsWritten constraint) :
    NameEnds ('_' :: (ofSignature signature).toList) := by
  rw [toList_ofSignature]
  match same : signature.constraints with
  | [] => exact nameEnds_cons_cons (by decide) _
  | constraint :: constraints =>
      obtain ⟨first, rest, upper, label⟩ :=
        exists_ofConstraint_eq_cons (written constraint (same ▸ List.mem_cons_self))
      obtain ⟨tail, _, joined⟩ := exists_joinPositions_cons (ofConstraint constraint).toList
        (constraints.map fun constraint => (ofConstraint constraint).toList)
      rw [List.map_cons, joined, label]
      apply nameEnds_cons_cons
      exact Text.not_isLower_of_isUpper upper

theorem callSite_injective {method other : String} {signature otherSignature : Signature}
    (solid : Text.withoutBlanks method.toList = method.toList)
    (otherSolid : Text.withoutBlanks other.toList = other.toList)
    (written : ∀ constraint ∈ signature.constraints, IsWritten constraint)
    (otherWritten : ∀ constraint ∈ otherSignature.constraints, IsWritten constraint)
    (same : callSite method signature = callSite other otherSignature) :
    method = other ∧ signature = otherSignature := by
  have sameChars := congrArg String.toList same
  simp only [callSite, toString, String.toList_append, List.append_assoc, toList_escape solid,
    toList_escape otherSolid] at sameChars
  have sameRest := List.append_cancel_left sameChars
  obtain ⟨sameName, sameTail⟩ := unambiguous_escapeChars trivial trivial
    (nameEnds_underscore_ofSignature written)
    (nameEnds_underscore_ofSignature otherWritten) sameRest
  have sameLabel := String.toList_inj.mp (List.cons.inj sameTail).2
  exact ⟨String.toList_inj.mp sameName, ofSignature_injective
    (fun constraint inside => (written constraint inside).toIsLabelled)
    (fun constraint inside => (otherWritten constraint inside).toIsLabelled) sameLabel⟩

end Label

end MultiDispatch
