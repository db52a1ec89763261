import MultiDispatch.Ty

/-!
# Spellings of types

The name of a type is its spelling without the blanks, and it spells the same
type.  So a type that has a spelling at all is determined by its name.
-/

namespace MultiDispatch.Ty

@[simp]
theorem name_ofName (text : String) :
    (ofName text).name = String.ofList (Text.withoutBlanks text.toList) := by
  rw [ofName]
  cases found : builtins.find? fun builtin =>
      builtin.name = String.ofList (Text.withoutBlanks text.toList) with
  | some builtin => simpa using List.find?_some found
  | none => rfl

theorem ofName_congr {first second : String}
    (same : Text.withoutBlanks first.toList = Text.withoutBlanks second.toList) :
    ofName first = ofName second := by
  simp only [ofName, same]

/-- Two texts name one type when they differ in blanks only. -/
theorem ofName_eq_iff {first second : String} :
    ofName first = ofName second ↔
      Text.withoutBlanks first.toList = Text.withoutBlanks second.toList := by
  constructor
  · intro same
    have sameName := congrArg Ty.name same
    rwa [name_ofName, name_ofName, String.ofList_inj] at sameName
  · exact ofName_congr

@[simp]
theorem ofName_name_ofName (text : String) : ofName (ofName text).name = ofName text :=
  ofName_congr (by simp)

/-- Some text names the type. -/
def HasSpelling (ty : Ty) : Prop := ∃ text, ofName text = ty

namespace HasSpelling

variable {ty : Ty}

theorem ofName_name (spelled : ty.HasSpelling) : ofName ty.name = ty := by
  obtain ⟨text, rfl⟩ := spelled
  exact ofName_name_ofName text

theorem withoutBlanks_name (spelled : ty.HasSpelling) :
    Text.withoutBlanks ty.name.toList = ty.name.toList := by
  obtain ⟨text, rfl⟩ := spelled
  simp

theorem eq_of_name_eq {other : Ty} (spelled : ty.HasSpelling) (otherSpelled : other.HasSpelling)
    (same : ty.name = other.name) : ty = other := by
  rw [← spelled.ofName_name, same, otherSpelled.ofName_name]

end HasSpelling

end MultiDispatch.Ty
