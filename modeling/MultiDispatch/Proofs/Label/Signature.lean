import MultiDispatch.Proofs.Constraint.Collected
import MultiDispatch.Proofs.Label.Combination

/-!
# Labels of signatures

The separator of alternatives ends a name like the separator of positions, and
neither is mistaken for the other.  So a signature of collected constraints can
be read back from its label.
-/

namespace MultiDispatch.Label

open Text (Unambiguous)

/-- A constraint that its label determines. -/
structure IsLabelled (constraint : Constraint) : Prop where
  collected : constraint.IsCollected
  spelled : ∀ ty ∈ constraint.members, ty.HasSpelling

/-- What can follow a constraint: no name and no further alternative. -/
def ConstraintEnds (tail : List Char) : Prop :=
  NameEnds tail ∧ ∀ rest, tail ≠ "_or_".toList ++ rest

theorem toList_ofConstraint (constraint : Constraint) :
    (ofConstraint constraint).toList =
      "_or_".toList.intercalate (constraint.members.map fun ty => (ofTy ty).toList) := by
  rw [ofConstraint, String.toList_intercalate, List.map_map]
  rfl

theorem nameEnds_alternativeSeparator (rest : List Char) : NameEnds ("_or_".toList ++ rest) :=
  nameEnds_reserved List.mem_cons_self rest

theorem unambiguous_ofConstraint :
    Unambiguous (fun constraint => (ofConstraint constraint).toList) IsLabelled ConstraintEnds := by
  intro first second firstTail secondTail firstLabelled secondLabelled firstEnds secondEnds same
  simp only [toList_ofConstraint] at same
  obtain ⟨sameMembers, sameTail⟩ :=
    unambiguous_ofTy.intercalate nameEnds_alternativeSeparator
      ⟨firstLabelled.collected.members_ne_nil, firstLabelled.spelled⟩
      ⟨secondLabelled.collected.members_ne_nil, secondLabelled.spelled⟩ firstEnds secondEnds same
  have firstCollapsed := firstLabelled.collected.isCollapsed
  exact ⟨firstCollapsed.eq_of_members_eq secondLabelled.collected.isCollapsed sameMembers, sameTail⟩

/-- The label of a constraint begins with the name of its first alternative. -/
theorem exists_ofConstraint_eq_append {constraint : Constraint} (labelled : IsLabelled constraint) :
    ∃ ty ∈ constraint.members, ∃ tail, Text.SeparatedTail "_or_".toList tail ∧
      (ofConstraint constraint).toList = escapeChars ty.name.toList ++ tail := by
  rw [toList_ofConstraint]
  match same : constraint.members with
  | [] => exact absurd same labelled.collected.members_ne_nil
  | ty :: others =>
      have spelled : ty.HasSpelling := labelled.spelled ty (same ▸ List.mem_cons_self)
      refine ⟨ty, List.mem_cons_self, ?_⟩
      rw [← toList_escape spelled.withoutBlanks_name]
      exact Text.exists_intercalate_cons _ _ _

theorem ofConstraint_append_ne_empty {constraint : Constraint} {tail : List Char}
    (labelled : IsLabelled constraint) (isTail : PositionTail tail) :
    (ofConstraint constraint).toList ++ tail ≠ empty.toList := by
  obtain ⟨ty, _, between, separated, label⟩ := exists_ofConstraint_eq_append labelled
  rw [label, List.append_assoc]
  cases separated with
  | last =>
      apply escapeChars_append_ne_empty isTail.nameEnds
      cases isTail <;> simp [empty]
  | more rest =>
      rw [List.append_assoc]
      apply escapeChars_append_ne_empty (nameEnds_alternativeSeparator _)
      simp [empty]

theorem toList_ofSignature (signature : Signature) :
    (ofSignature signature).toList =
      joinPositions (signature.constraints.map fun constraint =>
        (ofConstraint constraint).toList) := by
  obtain ⟨constraints⟩ := signature
  cases constraints with
  | nil => rfl
  | cons constraint constraints =>
      rw [ofSignature, String.toList_intercalate, List.map_map]
      rfl

theorem ofSignature_injective {left right : Signature}
    (leftLabelled : ∀ constraint ∈ left.constraints, IsLabelled constraint)
    (rightLabelled : ∀ constraint ∈ right.constraints, IsLabelled constraint)
    (same : ofSignature left = ofSignature right) : left = right := by
  have ends : ∀ ⦃tail⦄, PositionTail tail → ConstraintEnds tail := by
    intro tail isTail
    refine ⟨isTail.nameEnds, ?_⟩
    cases isTail <;> simp
  have sameLabel := congrArg String.toList same
  rw [toList_ofSignature, toList_ofSignature] at sameLabel
  have sameConstraints := joinPositions_injective unambiguous_ofConstraint ends
    (fun _ _ => ofConstraint_append_ne_empty) leftLabelled rightLabelled sameLabel
  exact congrArg Signature.mk sameConstraints

/-- Signatures of collected constraints differ in their labels, and so overloads of one
method that take different arguments differ in the identifiers of their call sites. -/
theorem signature_determined_by_label {left right : Signature}
    (leftLabelled : ∀ constraint ∈ left.constraints, IsLabelled constraint)
    (rightLabelled : ∀ constraint ∈ right.constraints, IsLabelled constraint) :
    (ofSignature left = ofSignature right → left = right) ∧
      ∀ method, left ≠ right → callSite method left ≠ callSite method right := by
  constructor
  · exact ofSignature_injective leftLabelled rightLabelled
  · intro method differ sameCallSite
    have sameLabel : ofSignature left = ofSignature right := by
      simpa only [callSite, toString, String.append_right_inj] using sameCallSite
    exact differ (ofSignature_injective leftLabelled rightLabelled sameLabel)

theorem isLabelled_ofNames {names : List String} (nonempty : names ≠ []) :
    IsLabelled (.ofNames names) where
  collected := Constraint.isCollected_ofNames nonempty
  spelled := by
    intro ty inside
    rcases Constraint.mem_members_ofNames.mp inside with ⟨name, _, isName⟩
    exact ⟨name, isName⟩

/-- One position with alternatives, one with a name that reads like them, none at all, and
positions that read like none. -/
theorem signature_determined_by_label_lookalikes :
    ofSignature ⟨[.ofNames ["A", "B"]]⟩ ≠ ofSignature ⟨[.ofNames ["A_or_B"]]⟩ ∧
      ofSignature ⟨[]⟩ ≠ ofSignature ⟨[.ofNames [""], .ofNames ["none"], .ofNames [""]]⟩ ∧
      callSite "draw" ⟨[.ofNames ["A"], .ofNames ["", "B"]]⟩ ≠
        callSite "draw" ⟨[.ofNames ["A"], .ofNames [""], .ofNames ["B"]]⟩ := by
  refine ⟨?_, ?_, ?_⟩
  · intro sameLabel
    have same := (signature_determined_by_label ?_ ?_).1 sameLabel
    · revert same
      decide
    · simp [isLabelled_ofNames]
    · simp [isLabelled_ofNames]
  · intro sameLabel
    have same := (signature_determined_by_label ?_ ?_).1 sameLabel
    · cases same
    · simp
    · simp [isLabelled_ofNames]
  · apply (signature_determined_by_label ?_ ?_).2
    · simp
    · simp [isLabelled_ofNames]
    · simp [isLabelled_ofNames]

end MultiDispatch.Label
