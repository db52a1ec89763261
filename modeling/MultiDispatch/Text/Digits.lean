/-!
# Digits

Numbers from their digits in some base.
-/

namespace MultiDispatch.Text

/-- The value of a digit, where the letters of either case count from ten on. -/
def digitValue (character : Char) : Nat :=
  if character.isDigit then character.toNat - '0'.toNat
  else character.toLower.toNat - 'a'.toNat + 10

def digit? (base : Nat) (character : Char) : Option Nat :=
  if character.isAlphanum ∧ digitValue character < base then some (digitValue character) else none

theorem lt_of_digit? {base digit : Nat} {character : Char}
    (isDigit : digit? base character = some digit) : digit < base := by
  unfold digit? at isDigit
  split at isDigit
  · rename_i small
    exact Option.some.inj isDigit ▸ small.2
  · cases isDigit

/-- The number with these digits, the most significant first. -/
def ofDigits (base : Nat) (digits : List Nat) : Nat :=
  digits.foldl (fun value digit => base * value + digit) 0

@[simp]
theorem ofDigits_append_singleton (base : Nat) (digits : List Nat) (last : Nat) :
    ofDigits base (digits ++ [last]) = base * ofDigits base digits + last := by
  simp [ofDigits]

end MultiDispatch.Text
