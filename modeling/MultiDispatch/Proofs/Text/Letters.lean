import MultiDispatch.Text.Blank

/-!
# Letters

Where the capital and the small letters lie among the code points, and how the
classes of characters lie to one another.
-/

namespace MultiDispatch.Text

variable {character : Char}

theorem isUpper_iff_toNat :
    character.isUpper ↔ 'A'.toNat ≤ character.toNat ∧ character.toNat ≤ 'Z'.toNat :=
  decide_eq_true_iff

theorem isLower_iff_toNat :
    character.isLower ↔ 'a'.toNat ≤ character.toNat ∧ character.toNat ≤ 'z'.toNat :=
  Bool.and_eq_true_iff.trans (and_congr decide_eq_true_iff decide_eq_true_iff)

theorem isAlpha_iff : character.isAlpha ↔ character.isUpper ∨ character.isLower :=
  Bool.or_eq_true_iff

theorem isAlphanum_iff : character.isAlphanum ↔ character.isAlpha ∨ character.isDigit :=
  Bool.or_eq_true_iff

theorem isAlphanum_of_isUpper (upper : character.isUpper) : character.isAlphanum :=
  isAlphanum_iff.mpr (.inl (isAlpha_iff.mpr (.inl upper)))

theorem not_isLower_of_isUpper (upper : character.isUpper) : ¬character.isLower := by
  intro lower
  have above := (isLower_iff_toNat.mp lower).1
  have below := (isUpper_iff_toNat.mp upper).2
  exact absurd (Nat.le_trans above below) (by decide)

/-- Letters, digits and everything else that is printed in ASCII. -/
theorem isBlank_eq_false_of_printed (above : 0x20 < character.toNat)
    (below : character.toNat < 0x7F) : isBlank character = false := by
  simp only [isBlank, Bool.or_eq_false_iff, Bool.and_eq_false_iff, decide_eq_false_iff_not,
    beq_eq_false_iff_ne]
  omega

theorem isBlank_eq_false_of_isAlphanum (alphanum : character.isAlphanum) :
    isBlank character = false := by
  have bounds : '0'.toNat ≤ character.toNat ∧ character.toNat ≤ 'z'.toNat := by
    rw [isAlphanum_iff, isAlpha_iff, isUpper_iff_toNat, isLower_iff_toNat,
      Char.isDigit_iff_toNat] at alphanum
    rcases alphanum with (upper | lower) | digit
    · exact ⟨Nat.le_trans (by decide) upper.1, Nat.le_trans upper.2 (by decide)⟩
    · exact ⟨Nat.le_trans (by decide) lower.1, lower.2⟩
    · exact ⟨digit.1, Nat.le_trans digit.2 (by decide)⟩
  exact isBlank_eq_false_of_printed (Nat.lt_of_lt_of_le (by decide) bounds.1)
    (Nat.lt_of_le_of_lt bounds.2 (by decide))

end MultiDispatch.Text
