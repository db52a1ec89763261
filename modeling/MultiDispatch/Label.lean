import MultiDispatch.Signature

/-!
# Identifier-safe labels

Letters and digits of a name stand for themselves; every other character is
written as a word between two underscores, and blanks are dropped.  Positions
are joined by `__` and alternatives by `_or_`; neither `none` nor `or` is the
word of a character.
-/

namespace MultiDispatch.Label

def word? : Char → Option String
  | '(' => some "lp"
  | ')' => some "rp"
  | '<' => some "lt"
  | '>' => some "gt"
  | '=' => some "eq"
  | '!' => some "bang"
  | '~' => some "tilde"
  | '+' => some "plus"
  | '-' => some "minus"
  | '*' => some "star"
  | '/' => some "slash"
  | '%' => some "pct"
  | '&' => some "amp"
  | '?' => some "qm"
  | '[' => some "lb"
  | ']' => some "rb"
  | ',' => some "comma"
  | '|' => some "bar"
  | '_' => some "us"
  | ':' => some "colon"
  | '.' => some "dot"
  | '^' => some "caret"
  | _ => none

/-- A character without a word of its own is written by its code point. -/
def word (character : Char) : List Char :=
  match word? character with
  | some word => word.toList
  | none => 'u' :: Nat.toDigits 16 character.toNat

def escapeChar (character : Char) : List Char :=
  if character.isAlphanum then [character] else '_' :: word character ++ ['_']

/-- Two colons in a row are one separator with a word of its own. -/
def escapeChars : List Char → List Char
  | ':' :: ':' :: rest => ['_', 'c', 'c', '_'] ++ escapeChars rest
  | character :: rest => escapeChar character ++ escapeChars rest
  | [] => []

def escape (name : String) : String :=
  String.ofList (escapeChars (Text.withoutBlanks name.toList))

def empty : String := "_none_"

def ofTy (ty : Ty) : String := escape ty.name

def ofCombination (combination : Combination) : String :=
  match combination.types with
  | [] => empty
  | types => "__".intercalate (types.map ofTy)

def ofConstraint (constraint : Constraint) : String :=
  "_or_".intercalate (constraint.members.map ofTy)

def ofSignature (signature : Signature) : String :=
  match signature.constraints with
  | [] => empty
  | constraints => "__".intercalate (constraints.map ofConstraint)

/-- The identifier of the call site of `method` declared with `signature`. -/
def callSite (method : String) (signature : Signature) : String :=
  s!"Send_{escape method}_{ofSignature signature}"

/-- The identifier of the table of `combination`. -/
def table (combination : Combination) : String :=
  s!"SendLookup___{ofCombination combination}"

/-- ASCII letters, digits and underscores, with no digit in front. -/
def IsIdentifier (text : String) : Prop :=
  match text.toList with
  | [] => False
  | first :: rest =>
      (first.isAlpha ∨ first = '_') ∧ ∀ character ∈ rest, character.isAlphanum ∨ character = '_'

instance (text : String) : Decidable (IsIdentifier text) := by
  unfold IsIdentifier
  split
  · exact inferInstanceAs (Decidable False)
  · exact @instDecidableAnd _ _ _ (List.decidableBAll _ _)

end MultiDispatch.Label
