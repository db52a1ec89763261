import Mathlib.Data.List.TakeWhile
import MultiDispatch.Proofs.Manifest.Gap
import MultiDispatch.Proofs.Text.Letters

/-!
# Words

What names are made of: words go on as long as letters, digits and underscores do,
a path begins with a capital letter, and none of them has a blank in it.
-/

namespace MultiDispatch.Manifest.Scan

section WordChars

variable {character : Char}

theorem isWordChar_iff : isWordChar character ↔ character.isAlphanum ∨ character = '_' := by
  rw [isWordChar, Bool.or_eq_true_iff, decide_eq_true_iff]

theorem isWordChar_of_isAlpha (alpha : character.isAlpha) : isWordChar character :=
  isWordChar_iff.mpr (.inl (Text.isAlphanum_iff.mpr (.inl alpha)))

theorem isWordChar_of_isUpper (upper : character.isUpper) : isWordChar character :=
  isWordChar_of_isAlpha (Text.isAlpha_iff.mpr (.inl upper))

theorem isWordChar_of_isLower_or (isFirst : (character.isLower || character = '_') = true) :
    isWordChar character := by
  rcases Bool.or_eq_true_iff.mp isFirst with lower | underscore
  · exact isWordChar_of_isAlpha (Text.isAlpha_iff.mpr (.inr lower))
  · exact isWordChar_iff.mpr (.inr (of_decide_eq_true underscore))

theorem isBlank_eq_false_of_isWordChar (wordChar : isWordChar character) :
    Text.isBlank character = false := by
  rcases isWordChar_iff.mp wordChar with alphanum | rfl
  · exact Text.isBlank_eq_false_of_isAlphanum alphanum
  · decide

end WordChars

theorem word_eq_some_iff {isFirst : Char → Bool} {text rest : List Char} :
    word isFirst text = some rest ↔
      ∃ first others, text = first :: others ∧ isFirst first ∧
        others.dropWhile isWordChar = rest := by
  cases text with
  | nil => simp [word]
  | cons first others => simp [word]

theorem exists_of_word {isFirst : Char → Bool} {text rest : List Char}
    (found : word isFirst text = some rest) :
    ∃ taken, text = taken ++ rest ∧ word isFirst taken = some [] ∧
      Avoids (fun character => isWordChar character) rest := by
  obtain ⟨first, others, rfl, firstHolds, rfl⟩ := word_eq_some_iff.mp found
  refine ⟨first :: others.takeWhile isWordChar, by simp [List.takeWhile_append_dropWhile], ?_, ?_⟩
  · simpa [word, firstHolds] using fun _ => List.mem_takeWhile_imp
  · intro next isNext
    have ends := List.head?_dropWhile_not isWordChar others
    rw [isNext] at ends
    simpa using ends

theorem forall_isWordChar_of_word {isFirst : Char → Bool}
    (isWord : ∀ character, isFirst character → isWordChar character) {text : List Char}
    (all : word isFirst text = some []) : ∀ character ∈ text, isWordChar character := by
  obtain ⟨first, others, rfl, firstHolds, ends⟩ := word_eq_some_iff.mp all
  exact List.forall_mem_cons.mpr ⟨isWord first firstHolds, List.dropWhile_eq_nil_iff.mp ends⟩

theorem exists_of_typePath {text rest : List Char} (found : typePath text = some rest) :
    ∃ first others, text = first :: others ∧ first.isUpper := by
  obtain ⟨_, isSegment, _⟩ := Option.map_eq_some_iff.mp found
  obtain ⟨first, others, rfl, upper, _⟩ := word_eq_some_iff.mp isSegment
  exact ⟨first, others, rfl, upper⟩

theorem methodSuffix_cases (text : List Char) :
    methodSuffix text = text ∨ ∃ mark ∈ ['?', '!', '='], text = mark :: methodSuffix text := by
  unfold methodSuffix
  split <;> simp

end MultiDispatch.Manifest.Scan
