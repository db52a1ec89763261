import MultiDispatch.Proofs.Manifest.TypeText
import MultiDispatch.Proofs.Ty.Spelling

/-!
# Layouts

A manifest as its sequence of tokens, and the texts that lay such a sequence
out: the tokens one after the other, with a gap behind each.  The readers of
single tokens take a token with its gap wherever it is laid out.
-/

namespace MultiDispatch.Manifest

/-- The words that are not spelled as such. -/
inductive NameKind where
  | mark
  | path
  | method
  | parameter

def NameKind.scan : NameKind → Scan
  | .mark => Scan.attributeName
  | .path => Scan.typePath
  | .method => Scan.methodName
  | .parameter => Scan.parameterName

/-- The characters with which a name of the kind could go on. -/
def NameKind.Continues : NameKind → Char → Prop
  | .mark | .parameter => fun character => Scan.isWordChar character
  | .path => Scan.ContinuesPath
  | .method => Scan.ContinuesName

inductive Token where
  /-- A keyword or symbol. -/
  | symbol (text : String)
  | name (kind : NameKind) (text : String)
  /-- The name of a type, without what fills its gaps. -/
  | type (text : String)
  | default (text : String)

def keywords : List String := ["type", "def"]

def symbols : List String := ["@[", "]", "\x7b", "\x7d", "(", ")", ":", "|", ",", "="]

/-- What may fill gaps. -/
structure Filling where
  /-- Inside the parentheses of a type. -/
  inTypes : List Char → Prop
  behindDefaults : List Char → Prop

/-- A default text goes on through what reads as default text, so that only this can
stand behind it. -/
def Filling.readable : Filling where
  inTypes := IsGap
  behindDefaults gap := Scan.skipMany Scan.defaultItem Scan.shortens_defaultItem gap = []

namespace Token

/-- The token without what fills its gaps. -/
def text : Token → String
  | .symbol text | .name _ text | .type text | .default text => text

/-- How the token is written. -/
def WrittenAs (filling : Filling) : Token → List Char → Prop
  | .symbol text, written => text ∈ keywords ++ symbols ∧ written = text.toList
  | .name kind text, written => kind.scan text.toList = some [] ∧ written = text.toList
  | .type text, written =>
      TypeText filling.inTypes .name written ∧ Text.withoutBlanks written = text.toList
  | .default text, written => Scan.defaultText text.toList = some [] ∧
      Avoids OpensGap text.toList ∧ written = text.toList

/-- What stands behind the token. -/
def AllowsBehind (filling : Filling) : Token → List Char → Prop
  | .default _, gap => IsGap gap ∧ filling.behindDefaults gap
  | .symbol _, gap | .name _ _, gap | .type _, gap => IsGap gap

theorem AllowsBehind.isGap {filling : Filling} {token : Token} {gap : List Char}
    (allows : token.AllowsBehind filling gap) :
    IsGap gap := by
  cases token with
  | default => exact allows.1
  | symbol | name | type => exact allows

end Token

/-- The text is there, and does not begin as gaps do. -/
def IsSettled (text : List Char) : Prop := text ≠ [] ∧ Avoids OpensGap text

theorem isSettled_cons {character : Char} {text : List Char} (solid : ¬OpensGap character) :
    IsSettled (character :: text) :=
  ⟨List.cons_ne_nil _ _, Avoids.cons_iff.mpr solid⟩

theorem not_opensGap_of_isWordChar {character : Char} (wordChar : Scan.isWordChar character) :
    ¬OpensGap character :=
  fun opens => not_isWordChar_of_opensGap opens wordChar

theorem isSettled_of_word {isFirst : Char → Bool} {text rest : List Char}
    (isWord : ∀ character, isFirst character → Scan.isWordChar character)
    (found : Scan.word isFirst text = some rest) : IsSettled text := by
  obtain ⟨first, others, rfl, firstHolds, _⟩ := Scan.word_eq_some_iff.mp found
  exact isSettled_cons (not_opensGap_of_isWordChar (isWord first firstHolds))

theorem isSettled_of_methodName {text : List Char} (found : Scan.methodName text = some []) :
    IsSettled text := by
  rcases Option.or_eq_some_iff.mp found with isWord | ⟨_, isOperator⟩
  · obtain ⟨_, isWord, _⟩ := Option.map_eq_some_iff.mp isWord
    exact isSettled_of_word (fun _ => Scan.isWordChar_of_isLower_or) isWord
  · obtain ⟨operator, isOperator, found⟩ := List.exists_of_findSome?_eq_some isOperator
    obtain rfl : operator.toList = text := by
      simpa [Scan.exactly, List.isPrefixOf?_eq_some_iff_append_eq] using found
    revert operator
    simp [Scan.operators, IsSettled, OpensGap, IsSpacing, IsLineEnd]

theorem NameKind.isSettled {kind : NameKind} {text : List Char} (found : kind.scan text = some []) :
    IsSettled text := by
  cases kind with
  | mark => exact isSettled_of_word (fun _ => Scan.isWordChar_of_isAlpha) found
  | path =>
      obtain ⟨first, others, rfl, upper⟩ := Scan.exists_of_typePath found
      exact isSettled_cons (not_opensGap_of_isUpper upper)
  | method => exact isSettled_of_methodName found
  | parameter => exact isSettled_of_word (fun _ => Scan.isWordChar_of_isLower_or) found

theorem Token.WrittenAs.isSettled {filling : Filling} {token : Token} {written : List Char}
    (isWritten : token.WrittenAs filling written) : IsSettled written := by
  cases token with
  | symbol text =>
      obtain ⟨known, rfl⟩ := isWritten
      revert text
      simp [keywords, symbols, IsSettled, OpensGap, IsSpacing, IsLineEnd]
  | name kind text =>
      obtain ⟨found, rfl⟩ := isWritten
      exact kind.isSettled found
  | type name =>
      obtain ⟨first, others, rfl, upper⟩ := isWritten.1.exists_isUpper
      exact isSettled_cons (not_opensGap_of_isUpper upper)
  | default text =>
      obtain ⟨found, settled, rfl⟩ := isWritten
      refine ⟨?_, settled⟩
      intro none
      rw [none] at found
      cases found

/-- The text lays the tokens out in front of the rest: each with a gap behind it,
and none run together with the next. -/
inductive Layout (filling : Filling) : List Token → List Char → List Char → Prop where
  | nil (rest : List Char) : Layout filling [] rest rest
  | cons {token : Token} {tokens : List Token} {written gap text rest : List Char}
      (isWritten : token.WrittenAs filling written) (allowed : token.AllowsBehind filling gap)
      (apart : ¬Fuses written (gap ++ text)) (more : Layout filling tokens text rest) :
      Layout filling (token :: tokens) (written ++ (gap ++ text)) rest

namespace Layout

variable {filling : Filling} {tokens others : List Token} {text rest : List Char}

theorem mono {weaker : Filling} (inTypes : ∀ gap, filling.inTypes gap → weaker.inTypes gap)
    (behindDefaults : ∀ gap, filling.behindDefaults gap → weaker.behindDefaults gap)
    (layout : Layout filling tokens text rest) : Layout weaker tokens text rest := by
  induction layout with
  | nil rest => exact .nil rest
  | @cons token _ _ _ _ _ isWritten allowed apart _ inductionHypothesis =>
      refine .cons ?_ ?_ apart inductionHypothesis
      · cases token with
        | type => exact ⟨isWritten.1.mono inTypes, isWritten.2⟩
        | symbol | name | default => exact isWritten
      · cases token with
        | default => exact ⟨allowed.1, behindDefaults _ allowed.2⟩
        | symbol | name | type => exact allowed

theorem eq_of_nil (layout : Layout filling [] text rest) : rest = text := by
  cases layout
  rfl

theorem append_iff :
    Layout filling (tokens ++ others) text rest ↔
      ∃ middle, Layout filling tokens text middle ∧ Layout filling others middle rest := by
  constructor
  · intro layout
    induction tokens generalizing text with
    | nil => exact ⟨text, .nil text, layout⟩
    | cons token tokens inductionHypothesis =>
        cases layout with
        | cons isWritten allowed apart more =>
            obtain ⟨middle, first, second⟩ := inductionHypothesis more
            exact ⟨middle, .cons isWritten allowed apart first, second⟩
  · rintro ⟨middle, first, second⟩
    induction first with
    | nil => exact second
    | cons isWritten allowed apart _ inductionHypothesis =>
        exact .cons isWritten allowed apart (inductionHypothesis second)

theorem append {tail : List Char} (layout : Layout filling tokens text rest)
    (more : Layout filling others rest tail) : Layout filling (tokens ++ others) text tail :=
  append_iff.mpr ⟨rest, layout, more⟩

theorem writtenAs (layout : Layout filling tokens text rest) {token : Token}
    (inside : token ∈ tokens) : ∃ written, token.WrittenAs filling written := by
  induction layout with
  | nil => cases inside
  | cons isWritten _ _ _ inductionHypothesis =>
      rcases List.mem_cons.mp inside with rfl | inside
      · exact ⟨_, isWritten⟩
      · exact inductionHypothesis inside

theorem settled (layout : Layout filling tokens text rest) (settled : Avoids OpensGap rest) :
    Avoids OpensGap text := by
  cases layout with
  | nil => exact settled
  | cons isWritten _ _ _ => exact isWritten.isSettled.2.append isWritten.isSettled.1

theorem length_lt (layout : Layout filling tokens text rest) (nonempty : tokens ≠ []) :
    rest.length < text.length := by
  induction layout with
  | nil => contradiction
  | @cons _ tokens written _ _ _ isWritten _ _ more inductionHypothesis =>
      have positive : 0 < written.length := List.length_pos_iff.mpr isWritten.isSettled.1
      simp only [List.length_append]
      cases tokens with
      | nil =>
          cases more
          omega
      | cons =>
          have shorter := inductionHypothesis (List.cons_ne_nil _ _)
          omega

theorem length_le (layout : Layout filling tokens text rest) : rest.length ≤ text.length := by
  cases tokens with
  | nil => exact (congrArg List.length layout.eq_of_nil).le
  | cons => exact Nat.le_of_lt (layout.length_lt (List.cons_ne_nil _ _))

/-- Of what stands behind the tokens their layout sees no more than the first character. -/
theorem exists_taken (layout : Layout filling tokens text rest) :
    ∃ taken, text = taken ++ rest ∧
      ∀ other : List Char, other.head? = rest.head? →
        Layout filling tokens (taken ++ other) other := by
  induction layout with
  | nil rest => exact ⟨[], rfl, fun other _ => .nil other⟩
  | @cons _ _ written gap _ rest isWritten allowed apart _ inductionHypothesis =>
      rcases inductionHypothesis with ⟨taken, rfl, movable⟩
      refine ⟨written ++ (gap ++ taken), by simp only [List.append_assoc], ?_⟩
      intro other sameHead
      have stillApart : ¬Fuses written (gap ++ (taken ++ other)) := by
        simpa only [Fuses, List.head?_append, sameHead] using apart
      simpa only [List.append_assoc] using
        Layout.cons isWritten allowed stillApart (movable other sameHead)

/-- A symbol comes first in the text that is laid out from it. -/
theorem exists_of_symbol {mark : String}
    (layout : Layout filling (.symbol mark :: tokens) text rest) :
    ∃ others, text = mark.toList ++ others := by
  cases layout with
  | cons isWritten _ _ _ => exact ⟨_, congrArg (· ++ _) isWritten.2⟩

end Layout

namespace NameKind

theorem isLocal_scan (kind : NameKind) : kind.scan.IsLocal kind.Continues := by
  cases kind with
  | mark => exact Scan.isLocal_attributeName
  | path => exact Scan.isLocal_typePath
  | method => exact Scan.isLocal_methodName
  | parameter => exact Scan.isLocal_parameterName

theorem not_continues_of_opensGap {kind : NameKind} {character : Char}
    (opens : OpensGap character) :
    ¬kind.Continues character := by
  have notWord := not_isWordChar_of_opensGap opens
  cases kind with
  | mark => exact notWord
  | parameter => exact notWord
  | path =>
      rintro (isWord | rfl)
      · exact notWord isWord
      · exact absurd opens (by simp [OpensGap, IsSpacing, IsLineEnd])
  | method =>
      rintro (isWord | isOperator)
      · exact notWord isWord
      · rcases opens with (rfl | rfl | rfl | rfl) | rfl <;> revert isOperator <;> decide

/-- A name is taken off in front of its gap. -/
theorem scan_append {kind : NameKind} {name : String} {gap tail : List Char}
    (isName : kind.scan name.toList = some []) (isGap : IsGap gap)
    (ends : Avoids kind.Continues tail) :
    kind.scan (name.toList ++ (gap ++ tail)) = some (gap ++ tail) :=
  kind.isLocal_scan.eq_some isName
    (isGap.avoids_append (fun _ => not_continues_of_opensGap) fun _ => ends)

end NameKind

namespace Grammar

section Tokens

variable {tokens : List Token} {text rest : List Char}

theorem read_symbol_of_layout {mark : String}
    (layout : Layout .readable (.symbol mark :: tokens) text rest)
    (settled : Avoids OpensGap rest) :
    ∃ middle, (symbol mark).read text = some ((), middle) ∧
      Layout .readable tokens middle rest := by
  cases layout with
  | cons isWritten allowed _ more =>
      obtain ⟨_, rfl⟩ := isWritten
      exact ⟨_, read_symbol allowed.isGap (more.settled settled), more⟩

theorem any_getLast?_of_mem_keywords {text : String} (isKeyword : text ∈ keywords) :
    text.toList.getLast?.any Scan.isWordChar := by
  revert text
  decide

theorem read_keyword_of_layout {rule : Rule} {keywordText : String}
    (isKeyword : keywordText ∈ keywords)
    (layout : Layout .readable (.symbol keywordText :: tokens) text rest)
    (settled : Avoids OpensGap rest) :
    ∃ middle, (keyword rule keywordText).read text = some ((), middle) ∧
      Layout .readable tokens middle rest := by
  cases layout with
  | @cons _ _ _ gap middle _ isWritten allowed apart more =>
      obtain ⟨_, rfl⟩ := isWritten
      refine ⟨middle, ?_, more⟩
      have noWord := Fuses.avoids_of_not apart (any_getLast?_of_mem_keywords isKeyword)
      simp [keyword, Scan.keyword_append noWord, allowed.isGap.skipGap_append
        (more.settled settled)]

theorem read_token_append {rule : Rule} {scan : Scan} {taken gap middle : List Char}
    (found : scan (taken ++ (gap ++ middle)) = some (gap ++ middle)) (isGap : IsGap gap)
    (settled : Avoids OpensGap middle) :
    (token rule scan).read (taken ++ (gap ++ middle)) = some (String.ofList taken, middle) := by
  simp [token, Reader.read_taken_scan found, isGap.skipGap_append settled]

theorem read_name_of_layout {rule : Rule} {kind : NameKind} {name : String}
    (layout : Layout .readable (.name kind name :: tokens) text rest)
    (settled : Avoids OpensGap rest)
    (ends : ∀ middle, Layout .readable tokens middle rest → Avoids kind.Continues middle) :
    ∃ middle, (token rule kind.scan).read text = some (name, middle) ∧
      Layout .readable tokens middle rest := by
  cases layout with
  | cons isWritten allowed _ more =>
      obtain ⟨isName, rfl⟩ := isWritten
      refine ⟨_, ?_, more⟩
      rw [read_token_append (NameKind.scan_append isName allowed.isGap (ends _ more)) allowed.isGap
        (more.settled settled), String.ofList_toList]

theorem read_typeName_of_layout {name : String}
    (layout : Layout .readable (.type name :: tokens) text rest) (settled : Avoids OpensGap rest)
    (ends : ∀ middle, Layout .readable tokens middle rest → Avoids ContinuesTypeName middle) :
    ∃ written middle, (typeName <* Reader.gap).read text = some (written, middle) ∧
      Layout .readable tokens middle rest ∧ Ty.ofName written = Ty.ofName name := by
  cases layout with
  | @cons _ _ written gap middle _ isWritten allowed apart more =>
      obtain ⟨isName, solid⟩ := isWritten
      have avoids : Avoids ContinuesTypeName (gap ++ middle) :=
        allowed.isGap.avoids_append (fun _ => not_continuesTypeName_of_opensGap) fun _ =>
          ends _ more
      refine ⟨String.ofList written, middle, ?_, more, ?_⟩
      · simp [read_typeName_append isName apart avoids,
          allowed.isGap.skipGap_append (more.settled settled)]
      · apply Ty.ofName_congr
        rw [String.toList_ofList, ← solid, Text.withoutBlanks_withoutBlanks]

theorem read_default_of_layout {name : String}
    (layout : Layout .readable (.default name :: tokens) text rest) (settled : Avoids OpensGap rest)
    (ends : ∀ middle, Layout .readable tokens middle rest → Scan.defaultItem middle = none) :
    ∃ taken middle, (token .defaultText Scan.defaultText).read text = some (taken, middle) ∧
      Layout .readable tokens middle rest := by
  cases layout with
  | @cons _ _ written gap middle _ isWritten allowed _ more =>
      obtain ⟨isText, _, rfl⟩ := isWritten
      refine ⟨String.ofList (name.toList ++ gap), middle, ?_, more⟩
      have found := Scan.defaultText_append isText allowed.2 (ends _ more)
      have read := @read_token_append .defaultText _ (name.toList ++ gap) [] middle
        (by simpa using found) .nil (more.settled settled)
      simpa using read

end Tokens

end Grammar

end MultiDispatch.Manifest
