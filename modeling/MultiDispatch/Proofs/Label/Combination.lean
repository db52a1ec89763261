import MultiDispatch.Proofs.Label.Escape
import MultiDispatch.Proofs.Ty.Spelling

/-!
# Labels of positions

A type with a spelling can be read back from its label, and the separator of the
positions ends every name.  So no two combinations share a label, however many
underscores stand in the names, and no two share the identifier of a table.
-/

namespace MultiDispatch.Label

open Text (Unambiguous)

theorem toList_escape {name : String} (solid : Text.withoutBlanks name.toList = name.toList) :
    (escape name).toList = escapeChars name.toList := by
  rw [escape, solid, String.toList_ofList]

theorem unambiguous_ofTy : Unambiguous (fun ty => (ofTy ty).toList) Ty.HasSpelling NameEnds := by
  intro first second firstTail secondTail spelled otherSpelled firstEnds secondEnds same
  simp only [ofTy, toList_escape spelled.withoutBlanks_name,
    toList_escape otherSpelled.withoutBlanks_name] at same
  obtain ⟨sameName, sameTail⟩ :=
    unambiguous_escapeChars trivial trivial firstEnds secondEnds same
  exact ⟨spelled.eq_of_name_eq otherSpelled (String.toList_inj.mp sameName), sameTail⟩

/-- What can follow the label of one position. -/
abbrev PositionTail : List Char → Prop := Text.SeparatedTail "__".toList

theorem PositionTail.nameEnds {tail : List Char} (isTail : PositionTail tail) : NameEnds tail := by
  cases isTail with
  | last => exact nameEnds_nil
  | more rest => exact nameEnds_cons_cons (by decide) rest

/-- No name leads up to the label of the empty combination and the empty signature. -/
theorem escapeChars_append_ne_empty {name tail : List Char} (ends : NameEnds tail)
    (differs : tail ≠ empty.toList) : escapeChars name ++ tail ≠ empty.toList := by
  intro same
  have emptyEnds : NameEnds empty.toList :=
    nameEnds_reserved (List.mem_cons_of_mem _ (List.mem_singleton_self _)) []
  have sameTail : tail = empty.toList :=
    (@unambiguous_escapeChars name [] tail empty.toList trivial trivial ends emptyEnds same).2
  exact differs sameTail

/-- The labels of the positions in one. -/
def joinPositions : List (List Char) → List Char
  | [] => empty.toList
  | label :: labels => "__".toList.intercalate (label :: labels)

theorem exists_joinPositions_cons (label : List Char) (labels : List (List Char)) :
    ∃ tail, PositionTail tail ∧ joinPositions (label :: labels) = label ++ tail :=
  Text.exists_intercalate_cons _ label labels

section

variable {α : Type} {encode : α → List Char} {Valid : α → Prop} {Ends : List Char → Prop}

theorem joinPositions_injective (unambiguous : Unambiguous encode Valid Ends)
    (ends : ∀ ⦃tail⦄, PositionTail tail → Ends tail)
    (avoids : ∀ ⦃value tail⦄, Valid value → PositionTail tail → encode value ++ tail ≠ empty.toList)
    {first second : List α} (firstValid : ∀ value ∈ first, Valid value)
    (secondValid : ∀ value ∈ second, Valid value)
    (same : joinPositions (first.map encode) = joinPositions (second.map encode)) :
    first = second := by
  cases first with
  | nil =>
      cases second with
      | nil => rfl
      | cons value values =>
          obtain ⟨tail, isTail, joined⟩ :=
            exists_joinPositions_cons (encode value) (values.map encode)
          rw [List.map_cons, joined] at same
          exact absurd same.symm (avoids (secondValid value List.mem_cons_self) isTail)
  | cons value values =>
      cases second with
      | nil =>
          obtain ⟨tail, isTail, joined⟩ :=
            exists_joinPositions_cons (encode value) (values.map encode)
          rw [List.map_cons, joined] at same
          exact absurd same (avoids (firstValid value List.mem_cons_self) isTail)
      | cons other others =>
          have separates := fun rest => ends (.more rest)
          have endsEmpty : Ends [] ∧ ∀ rest, ([] : List Char) ≠ "__".toList ++ rest :=
            ⟨ends .last, by simp⟩
          exact (unambiguous.intercalate separates).eq_of_encode_eq endsEmpty
            ⟨List.cons_ne_nil _ _, firstValid⟩ ⟨List.cons_ne_nil _ _, secondValid⟩ same

end

theorem toList_ofCombination (combination : Combination) :
    (ofCombination combination).toList =
      joinPositions (combination.types.map fun ty => (ofTy ty).toList) := by
  obtain ⟨types⟩ := combination
  cases types with
  | nil => rfl
  | cons ty types =>
      rw [ofCombination, String.toList_intercalate, List.map_map]
      rfl

theorem ofCombination_injective {left right : Combination}
    (leftSpelled : ∀ ty ∈ left.types, ty.HasSpelling)
    (rightSpelled : ∀ ty ∈ right.types, ty.HasSpelling)
    (same : ofCombination left = ofCombination right) : left = right := by
  have avoids : ∀ ⦃ty : Ty⦄ ⦃tail : List Char⦄, ty.HasSpelling → PositionTail tail →
      (ofTy ty).toList ++ tail ≠ empty.toList := by
    intro ty tail spelled isTail
    rw [ofTy, toList_escape spelled.withoutBlanks_name]
    apply escapeChars_append_ne_empty isTail.nameEnds
    cases isTail <;> simp [empty]
  have sameLabel := congrArg String.toList same
  rw [toList_ofCombination, toList_ofCombination] at sameLabel
  have sameTypes := joinPositions_injective unambiguous_ofTy (fun _ => PositionTail.nameEnds) avoids
    leftSpelled rightSpelled sameLabel
  exact congrArg Combination.mk sameTypes

/-- Combinations of types that have a spelling differ in their labels, and so in the
identifiers of their tables. -/
theorem combination_determined_by_label {left right : Combination}
    (leftSpelled : ∀ ty ∈ left.types, ty.HasSpelling)
    (rightSpelled : ∀ ty ∈ right.types, ty.HasSpelling) :
    (ofCombination left = ofCombination right → left = right) ∧
      (left ≠ right → table left ≠ table right) := by
  constructor
  · exact ofCombination_injective leftSpelled rightSpelled
  · intro differ sameTable
    have sameLabel : ofCombination left = ofCombination right := by
      simpa only [table, toString, String.append_right_inj] using sameTable
    exact differ (ofCombination_injective leftSpelled rightSpelled sameLabel)

theorem combination_determined_by_label_lookalikes :
    table ⟨[.ofName "A__B"]⟩ ≠ table ⟨[.ofName "A", .ofName "B"]⟩ ∧
      ofCombination ⟨[.ofName ":: :", .ofName ""]⟩ ≠
        ofCombination ⟨[.ofName "_cc_colon", .ofName ""]⟩ := by
  constructor
  · apply (combination_determined_by_label ?_ ?_).2
    · simp
    · simp [Ty.HasSpelling]
    · simp [Ty.HasSpelling]
  · intro sameLabel
    have same := (combination_determined_by_label ?_ ?_).1 sameLabel
    · have sameName := congrArg Ty.name (List.cons.inj (congrArg Combination.types same)).1
      rw [Ty.name_ofName, Ty.name_ofName] at sameName
      revert sameName
      decide
    · simp [Ty.HasSpelling]
    · simp [Ty.HasSpelling]

end MultiDispatch.Label
