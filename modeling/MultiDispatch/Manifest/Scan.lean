/-!
# Scanning tokens

A scan takes one token off the front of a text and leaves the rest, or finds no
token there.  Inside a token nothing is skipped.
-/

namespace MultiDispatch.Manifest

abbrev Scan := List Char → Option (List Char)

namespace Scan

/-- Every token takes at least one character. -/
def Shortens (scan : Scan) : Prop :=
  ∀ ⦃characters rest⦄, scan characters = some rest → rest.length < characters.length

def isWordChar (character : Char) : Bool :=
  character.isAlphanum || character = '_'

/-- A word whose first character satisfies `isFirst`. -/
def word (isFirst : Char → Bool) : Scan
  | first :: rest => if isFirst first then some (rest.dropWhile isWordChar) else none
  | [] => none

theorem shortens_word (isFirst : Char → Bool) : (word isFirst).Shortens := by
  intro characters rest found
  unfold word at found
  split at found
  · split at found
    · cases found
      exact Nat.lt_succ_of_le (List.dropWhile_sublist _).length_le
    · cases found
  · cases found

def exactly (text : String) : Scan := text.toList.isPrefixOf?

/-- `text` where no word goes on behind it. -/
def keyword (text : String) : Scan := fun characters => do
  let rest ← exactly text characters
  if rest.head?.any isWordChar then none else some rest

/-- As many items as there are. -/
def skipMany (item : Scan) (shortens : item.Shortens) (characters : List Char) : List Char :=
  match found : item characters with
  | some rest =>
      have := shortens found
      skipMany item shortens rest
  | none => characters
termination_by characters.length

theorem length_skipMany_le {item : Scan} (shortens : item.Shortens) (characters : List Char) :
    (skipMany item shortens characters).length ≤ characters.length := by
  fun_induction skipMany item shortens characters with
  | case1 _ _ _ shorter inductionHypothesis =>
      exact Nat.le_trans inductionHypothesis (Nat.le_of_lt shorter)
  | case2 => exact Nat.le_refl _

def attributeName : Scan := word Char.isAlpha

def parameterName : Scan := word fun character => character.isLower || character = '_'

def pathSegment : Scan := word Char.isUpper

def innerSegment : Scan
  | ':' :: ':' :: rest => pathSegment rest
  | _ => none

theorem shortens_innerSegment : innerSegment.Shortens := by
  intro characters rest found
  unfold innerSegment at found
  split at found
  · have shorter := shortens_word _ found
    simp only [List.length_cons]
    omega
  · cases found

def typePath : Scan := fun characters =>
  (pathSegment characters).map (skipMany innerSegment shortens_innerSegment)

/-- The operators, each before those it begins with. -/
def operators : List String :=
  ["[]?", "[]=", "[]", "<=>", "===", "==", "!=", "=~", "<<", ">>", "<=", ">=", "**", "<", ">",
    "+", "-", "*", "/", "%", "&", "|", "^", "~", "!"]

def methodSuffix (characters : List Char) : List Char :=
  match characters with
  | '?' :: rest | '!' :: rest | '=' :: rest => rest
  | _ => characters

def methodName : Scan := fun characters =>
  ((parameterName characters).map methodSuffix).or
    (operators.findSome? fun operator => exactly operator characters)

/-- What has to be closed before a bracket group or quoted text ends. -/
inductive Frame where
  | bracket (closer : Char)
  | text
  deriving DecidableEq

def closer? : Char → Option Char
  | '(' => some ')'
  | '[' => some ']'
  | '{' => some '}'
  | _ => none

def isCloser (character : Char) : Bool :=
  character = ')' || character = ']' || character = '}'

/-- Takes the beginning of an item: what it opens, and what follows.  A quoted
character is taken whole; a lone quote or closing bracket begins nothing. -/
def openItem : List Char → Option (List Frame × List Char)
  | [] => none
  | '"' :: rest => some ([.text], rest)
  | '\'' :: '\\' :: _ :: '\'' :: rest => some ([], rest)
  | '\'' :: character :: '\'' :: rest =>
      if character = '\'' || character = '\\' then none else some ([], rest)
  | '\'' :: _ => none
  | character :: rest =>
      match closer? character with
      | some closer => some ([.bracket closer], rest)
      | none => if isCloser character then none else some ([], rest)

theorem length_of_openItem {characters rest : List Char} {frames : List Frame}
    (opens : openItem characters = some (frames, rest)) : rest.length < characters.length := by
  unfold openItem at opens
  split at opens
  · cases opens
  · cases opens
    simp
  · cases opens
    simp
    omega
  · split at opens
    · cases opens
    · cases opens
      simp
      omega
  · cases opens
  · split at opens
    · cases opens
      simp
    · split at opens
      · cases opens
      · cases opens
        simp

/-- Goes on until every frame is closed.  Inside quoted text a backslash takes
the next character with it. -/
def closeAll : List Frame → List Char → Option (List Char)
  | [], characters => some characters
  | _ :: _, [] => none
  | .text :: frames, '\\' :: _ :: rest => closeAll (.text :: frames) rest
  | .text :: frames, character :: rest =>
      closeAll (if character = '"' then frames else .text :: frames) rest
  | .bracket closer :: frames, character :: rest =>
      if character = closer then closeAll frames rest
      else
        match opened : openItem (character :: rest) with
        | some (inner, after) =>
            have := length_of_openItem opened
            closeAll (inner ++ .bracket closer :: frames) after
        | none => none
termination_by _ characters => characters.length
decreasing_by
  all_goals simp only [List.length_cons] at *
  all_goals omega

theorem length_le_of_closeAll {frames : List Frame} {characters rest : List Char}
    (closes : closeAll frames characters = some rest) : rest.length ≤ characters.length := by
  fun_induction closeAll frames characters with
  | case1 =>
      cases closes
      exact Nat.le_refl _
  | case2 => cases closes
  | case3 _ _ _ inductionHypothesis =>
      have shorter := inductionHypothesis closes
      simp only [List.length_cons]
      omega
  | case4 _ _ _ _ inductionHypothesis => exact Nat.le_succ_of_le (inductionHypothesis closes)
  | case5 _ _ _ inductionHypothesis => exact Nat.le_succ_of_le (inductionHypothesis closes)
  | case6 _ _ _ _ _ _ _ _ shorter inductionHypothesis =>
      exact Nat.le_trans (inductionHypothesis closes) (Nat.le_of_lt shorter)
  | case7 => cases closes

/-- A bracket group, a quoted text or character, or one plain character; a comma
stands only inside brackets. -/
def defaultItem : Scan
  | ',' :: _ => none
  | characters => do
      let (frames, rest) ← openItem characters
      closeAll frames rest

theorem shortens_defaultItem : defaultItem.Shortens := by
  intro characters rest found
  unfold defaultItem at found
  split at found
  · cases found
  · obtain ⟨⟨frames, inside⟩, opens, closes⟩ := Option.bind_eq_some_iff.1 found
    exact Nat.lt_of_le_of_lt (length_le_of_closeAll closes) (length_of_openItem opens)

def defaultText : Scan := fun characters =>
  (defaultItem characters).map (skipMany defaultItem shortens_defaultItem)

end Scan

/-- Skips blanks, line ends and comments, which run from `#` to the end of the
line. -/
def skipGap (inComment : Bool) : List Char → List Char
  | [] => []
  | character :: rest =>
      if character = '\n' || character = '\r' then skipGap false rest
      else if inComment then skipGap true rest
      else if character = ' ' || character = '\t' then skipGap false rest
      else if character = '#' then skipGap true rest
      else character :: rest

end MultiDispatch.Manifest
