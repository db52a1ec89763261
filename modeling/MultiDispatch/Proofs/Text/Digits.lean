import Mathlib.Logic.Function.Basic

/-!
# Digits that tell numbers apart

Up to base 16 every digit has a character of its own, so a number is determined
by the characters of its digits.
-/

namespace MultiDispatch.Text

theorem digitChar_inj {first second : Nat} (firstSmall : first < 16) (secondSmall : second < 16)
    (same : first.digitChar = second.digitChar) : first = second := by
  have distinct : ∀ first < 16, ∀ second < 16,
      Nat.digitChar first = Nat.digitChar second → first = second := by decide
  exact distinct first firstSmall second secondSmall same

theorem digitChar_mem {digit : Nat} (small : digit < 16) :
    digit.digitChar ∈ "0123456789abcdef".toList := by
  revert digit
  decide

variable {base : Nat}

theorem mem_of_mem_toDigits (large : 1 < base) (small : base ≤ 16) {number : Nat}
    {character : Char} (inside : character ∈ Nat.toDigits base number) :
    character ∈ "0123456789abcdef".toList := by
  induction number using Nat.strongRecOn with
  | ind number inductionHypothesis =>
      rw [Nat.toDigits_eq_if large] at inside
      split at inside
      · rename_i isDigit
        rw [List.mem_singleton.mp inside]
        exact digitChar_mem (Nat.lt_of_lt_of_le isDigit small)
      · rename_i isLarge
        rcases List.mem_append.mp inside with inFront | isLast
        · exact inductionHypothesis _ (Nat.div_lt_self (by omega) large) inFront
        · rw [List.mem_singleton.mp isLast]
          exact digitChar_mem (Nat.lt_of_lt_of_le (Nat.mod_lt _ (by omega)) small)

theorem toDigits_injective (large : 1 < base) (small : base ≤ 16) :
    Function.Injective (Nat.toDigits base) := by
  intro first
  induction first using Nat.strongRecOn with
  | ind first inductionHypothesis =>
      intro second same
      rw [Nat.toDigits_eq_if large, Nat.toDigits_eq_if (n := second) large] at same
      split at same <;> split at same
      · exact digitChar_inj (by omega) (by omega) (List.singleton_inj.mp same)
      · simp [List.singleton_eq_append_iff] at same
      · simp [List.append_eq_singleton_iff] at same
      · obtain ⟨sameFront, sameLast⟩ := List.append_inj' same rfl
        have sameQuotient : first / base = second / base :=
          inductionHypothesis _ (Nat.div_lt_self (by omega) large) sameFront
        have sameRemainder : first % base = second % base :=
          digitChar_inj (Nat.lt_of_lt_of_le (Nat.mod_lt _ (by omega)) small)
            (Nat.lt_of_lt_of_le (Nat.mod_lt _ (by omega)) small) (List.singleton_inj.mp sameLast)
        rw [← Nat.div_add_mod first base, ← Nat.div_add_mod second base, sameQuotient,
          sameRemainder]

end MultiDispatch.Text
