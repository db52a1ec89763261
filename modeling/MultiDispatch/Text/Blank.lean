/-!
# Blank characters

The characters with the `White_Space` property.  Type names lose every blank
before they are looked up, so two spellings of a name that differ only in
blanks name one type.
-/

namespace MultiDispatch.Text

/-- The characters with the `White_Space` property. -/
def isBlank (character : Char) : Bool :=
  let point := character.toNat
  (0x9 ≤ point && point ≤ 0xD) || point == 0x20 || point == 0x85 || point == 0xA0 ||
    point == 0x1680 || (0x2000 ≤ point && point ≤ 0x200A) || point == 0x2028 ||
    point == 0x2029 || point == 0x202F || point == 0x205F || point == 0x3000

theorem isBlank_of_isWhitespace {character : Char} (white : character.isWhitespace = true) :
    isBlank character = true := by
  simp only [Char.isWhitespace, Bool.or_eq_true, decide_eq_true_eq] at white
  obtain (((rfl | rfl) | rfl) | rfl) := white <;> decide

def withoutBlanks (characters : List Char) : List Char :=
  characters.filter fun character => !isBlank character

@[simp]
theorem mem_withoutBlanks {character : Char} {characters : List Char} :
    character ∈ withoutBlanks characters ↔ character ∈ characters ∧ isBlank character = false := by
  simp [withoutBlanks]

@[simp]
theorem withoutBlanks_withoutBlanks (characters : List Char) :
    withoutBlanks (withoutBlanks characters) = withoutBlanks characters := by
  simp [withoutBlanks]

/-- Removes the blanks at both ends. -/
def trim (characters : List Char) : List Char :=
  ((characters.dropWhile isBlank).reverse.dropWhile isBlank).reverse

end MultiDispatch.Text
