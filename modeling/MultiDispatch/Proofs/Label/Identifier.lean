import MultiDispatch.Proofs.Label.Signature
import MultiDispatch.Proofs.Text.Intercalate

/-!
# Identifiers

Whatever a name is made of, its signs are written in letters, digits and
underscores.  The separators and the label of nothing are made of the same
characters, and an identifier begins with a letter of its own, so every call site
and every table has an identifier that is safe.
-/

namespace MultiDispatch.Label

/-- The characters that an identifier goes on with. -/
def IsIdentifierChar (character : Char) : Prop := character.isAlphanum ∨ character = '_'

instance : DecidablePred IsIdentifierChar := fun _ => inferInstanceAs (Decidable (_ ∨ _))

/-- A text that can stand anywhere in an identifier but in front. -/
def Continues (text : List Char) : Prop := ∀ character ∈ text, IsIdentifierChar character

instance : DecidablePred Continues := List.decidableBAll IsIdentifierChar

theorem Continues.append {first second : List Char} (firstContinues : Continues first)
    (secondContinues : Continues second) : Continues (first ++ second) :=
  List.forall_mem_append.mpr ⟨firstContinues, secondContinues⟩

theorem Continues.intercalate {separator : List Char} {texts : List (List Char)}
    (between : Continues separator) (each : ∀ text ∈ texts, Continues text) :
    Continues (separator.intercalate texts) :=
  Text.forall_mem_intercalate between each

/-- A text that begins with a letter or an underscore is an identifier if it goes on as one. -/
theorem isIdentifier_of_continues {text : String} {first : Char} {rest : List Char}
    (begins : text.toList = first :: rest) (starts : first.isAlpha ∨ first = '_')
    (continues : Continues rest) : IsIdentifier text := by
  unfold IsIdentifier
  rw [begins]
  exact ⟨starts, continues⟩

theorem Sign.continues_written (sign : Sign) : Continues sign.written := by
  by_cases plain : sign.IsPlain
  · obtain ⟨letter, isLetter, _, written⟩ := Sign.exists_written_of_isPlain plain
    rw [written]
    intro character inside
    rw [List.mem_singleton.mp inside]
    exact .inl isLetter
  · have onWord : Continues sign.word := fun _ inside => .inl (Sign.isAlphanum_of_mem_word inside)
    have onUnderscore : Continues ['_'] := by decide
    rw [Sign.written_of_not_isPlain plain]
    exact onUnderscore.append (onWord.append onUnderscore)

theorem continues_escapeChars (name : List Char) : Continues (escapeChars name) := by
  rw [← Sign.flatMap_written_ofName]
  intro character inside
  obtain ⟨sign, _, written⟩ := List.mem_flatMap.mp inside
  exact sign.continues_written character written

theorem continues_escape (name : String) : Continues (escape name).toList := by
  rw [escape, String.toList_ofList]
  exact continues_escapeChars _

theorem continues_ofConstraint (constraint : Constraint) :
    Continues (ofConstraint constraint).toList := by
  rw [toList_ofConstraint]
  apply Continues.intercalate (by decide)
  intro text inside
  obtain ⟨ty, _, rfl⟩ := List.mem_map.mp inside
  exact continues_escape ty.name

theorem continues_joinPositions {labels : List (List Char)}
    (each : ∀ label ∈ labels, Continues label) : Continues (joinPositions labels) := by
  cases labels with
  | nil => exact (by decide : Continues empty.toList)
  | cons first others => exact Continues.intercalate (by decide) each

theorem continues_ofCombination (combination : Combination) :
    Continues (ofCombination combination).toList := by
  rw [toList_ofCombination]
  apply continues_joinPositions
  intro label inside
  obtain ⟨ty, _, rfl⟩ := List.mem_map.mp inside
  exact continues_escape ty.name

theorem continues_ofSignature (signature : Signature) :
    Continues (ofSignature signature).toList := by
  rw [toList_ofSignature]
  apply continues_joinPositions
  intro label inside
  obtain ⟨constraint, _, rfl⟩ := List.mem_map.mp inside
  exact continues_ofConstraint constraint

/-- The identifiers of call sites and tables are safe, whatever the names in them. -/
theorem isIdentifier_callSite_and_table (method : String) (signature : Signature)
    (combination : Combination) :
    IsIdentifier (callSite method signature) ∧ IsIdentifier (table combination) := by
  constructor
  · have begins : (callSite method signature).toList =
        'S' :: ("end_".toList ++ ((escape method).toList ++
          ("_".toList ++ (ofSignature signature).toList))) := by
      simp [callSite, toString, String.toList_append]
    apply isIdentifier_of_continues begins (by decide)
    have front : Continues "end_".toList := by decide
    have joint : Continues "_".toList := by decide
    exact front.append ((continues_escape method).append
      (joint.append (continues_ofSignature signature)))
  · have begins : (table combination).toList =
        'S' :: ("endLookup___".toList ++ (ofCombination combination).toList) := by
      simp [table, toString, String.toList_append]
    apply isIdentifier_of_continues begins (by decide)
    have front : Continues "endLookup___".toList := by decide
    exact front.append (continues_ofCombination combination)

/-- Nothing at all, a digit in front and letters beyond ASCII are all written safely. -/
example :
    callSite "" ⟨[.ofNames []]⟩ = "Send__" ∧ callSite "1λ" ⟨[]⟩ = "Send_1_u3bb___none_" ∧
      table ⟨[.named "a\"b", .named " "]⟩ = "SendLookup___a_u22_b__" := by
  decide +kernel

end MultiDispatch.Label
