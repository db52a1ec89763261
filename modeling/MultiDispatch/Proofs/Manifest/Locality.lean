import MultiDispatch.Proofs.Manifest.Words

/-!
# Where tokens end

What a scan takes is decided by the text up to a character that cannot go on
with it.  So a whole token is taken off in front of any such character.  A
default text goes on through whatever reads as default text itself.
-/

namespace MultiDispatch.Manifest

namespace Scan

/-- What the scan takes does not depend on a tail behind the text, if the tail
does not begin with a character that the scan could go on with. -/
def IsLocal (scan : Scan) (GoesOn : Char → Prop) : Prop :=
  ∀ (text : List Char) ⦃tail⦄, Avoids GoesOn tail →
    scan (text ++ tail) = (scan text).map (· ++ tail)

/-- What the scan takes, it takes in front of any tail. -/
def IsExtensible (scan : Scan) : Prop :=
  ∀ ⦃text rest⦄, scan text = some rest → ∀ tail, scan (text ++ tail) = some (rest ++ tail)

variable {scan : Scan} {GoesOn : Char → Prop}

theorem IsLocal.eq_some (isLocal : scan.IsLocal GoesOn) {text tail : List Char}
    (taken : scan text = some []) (avoids : Avoids GoesOn tail) :
    scan (text ++ tail) = some tail := by
  rw [isLocal text avoids, taken]
  rfl

theorem IsLocal.eq_none (isLocal : scan.IsLocal GoesOn) (fails : scan [] = none) {tail : List Char}
    (avoids : Avoids GoesOn tail) : scan tail = none := by
  simpa [fails] using isLocal [] avoids

theorem dropWhile_append_of_avoids {P : Char → Bool} {tail : List Char}
    (avoids : Avoids (fun character => P character) tail) (text : List Char) :
    (text ++ tail).dropWhile P = text.dropWhile P ++ tail := by
  induction text with
  | nil =>
      cases tail with
      | nil => rfl
      | cons character tail =>
          rw [List.nil_append, List.dropWhile_cons_of_neg (by simpa using avoids)]
          rfl
  | cons character text inductionHypothesis =>
      by_cases holds : P character
      · rw [List.cons_append, List.dropWhile_cons_of_pos holds, List.dropWhile_cons_of_pos holds,
          inductionHypothesis]
      · rw [List.cons_append, List.dropWhile_cons_of_neg holds, List.dropWhile_cons_of_neg holds,
          List.cons_append]

theorem isLocal_word {isFirst : Char → Bool}
    (isWord : ∀ character, isFirst character → isWordChar character) :
    (word isFirst).IsLocal fun character => isWordChar character := by
  intro text tail avoids
  cases text with
  | nil =>
      cases tail with
      | nil => rfl
      | cons character tail =>
          have notFirst : ¬isFirst character := fun first =>
            avoids character rfl (isWord character first)
          simp [word, notFirst]
  | cons first others =>
      simp only [word, List.cons_append, dropWhile_append_of_avoids avoids]
      split <;> rfl

theorem isLocal_exactly (token : String) :
    (exactly token).IsLocal fun character => character ∈ token.toList := by
  intro text tail avoids
  have aux : ∀ token : List Char, Avoids (fun character => character ∈ token) tail →
      token.isPrefixOf? (text ++ tail) = (token.isPrefixOf? text).map (· ++ tail) := by
    induction text with
    | nil =>
        intro token avoids
        cases token with
        | nil => rfl
        | cons first others =>
            cases tail with
            | nil => rfl
            | cons character tail =>
                have differs : first ≠ character := by
                  rintro rfl
                  exact avoids first rfl List.mem_cons_self
                simp [List.isPrefixOf?, differs]
    | cons character text inductionHypothesis =>
        intro token avoids
        cases token with
        | nil => rfl
        | cons first others =>
            have avoidsOthers := avoids.mono (fun _ inside => List.mem_cons_of_mem first inside)
            simp only [List.cons_append, List.isPrefixOf?, inductionHypothesis others avoidsOthers]
            split <;> rfl
  exact aux token.toList avoids

theorem exactly_append (token : String) (tail : List Char) :
    exactly token (token.toList ++ tail) = some tail := by
  simp [exactly, List.isPrefixOf?_eq_some_iff_append_eq]

theorem keyword_append {token : String} {tail : List Char}
    (avoids : Avoids (fun character => isWordChar character) tail) :
    keyword token (token.toList ++ tail) = some tail := by
  have noWord : tail.head?.any isWordChar = false := by
    rw [Option.any_eq_false]
    exact fun character isNext => Bool.eq_false_iff.mpr (avoids character isNext)
  simp [keyword, exactly_append, noWord]

theorem skipMany_of_some {item : Scan} {shortens : item.Shortens} {text rest : List Char}
    (found : item text = some rest) :
    skipMany item shortens text = skipMany item shortens rest := by
  rw [skipMany]
  split
  · rename_i alsoFound
    rw [found] at alsoFound
    cases alsoFound
    rfl
  · simp_all

theorem skipMany_of_none {item : Scan} {shortens : item.Shortens} {text : List Char}
    (fails : item text = none) : skipMany item shortens text = text := by
  rw [skipMany]
  split <;> simp_all

theorem skipMany_append_of_isLocal {item : Scan} {shortens : item.Shortens}
    (isLocal : item.IsLocal GoesOn) {tail : List Char} (avoids : Avoids GoesOn tail)
    (text : List Char) :
    skipMany item shortens (text ++ tail) = skipMany item shortens text ++ tail := by
  fun_induction skipMany item shortens text with
  | case1 text rest found _ inductionHypothesis =>
      rw [← inductionHypothesis]
      exact skipMany_of_some (by rw [isLocal text avoids, found]; rfl)
  | case2 text fails => exact skipMany_of_none (by rw [isLocal text avoids, fails]; rfl)

/-- Items that make up a whole text are skipped in front of any tail. -/
theorem skipMany_append_of_isExtensible {item : Scan} {shortens : item.Shortens}
    (isExtensible : item.IsExtensible) {text : List Char} (all : skipMany item shortens text = [])
    (tail : List Char) :
    skipMany item shortens (text ++ tail) = skipMany item shortens tail := by
  fun_induction skipMany item shortens text with
  | case1 text rest found _ inductionHypothesis =>
      rw [skipMany_of_some (isExtensible found tail), inductionHypothesis all]
  | case2 => rw [all, List.nil_append]

section Words

theorem isLocal_attributeName : attributeName.IsLocal fun character => isWordChar character :=
  isLocal_word fun _ => isWordChar_of_isAlpha

theorem isLocal_parameterName : parameterName.IsLocal fun character => isWordChar character :=
  isLocal_word fun _ => isWordChar_of_isLower_or

/-- The characters with which a type path could go on. -/
def ContinuesPath (character : Char) : Prop := isWordChar character ∨ character = ':'

theorem innerSegment_eq_none {text : List Char} (noColons : ∀ rest, text ≠ ':' :: ':' :: rest) :
    innerSegment text = none :=
  innerSegment.eq_2 text noColons

theorem isLocal_innerSegment : innerSegment.IsLocal ContinuesPath := by
  intro text tail avoids
  cases tail with
  | nil => simp
  | cons next tail =>
      have noColon : next ≠ ':' := fun colon => avoids next rfl (.inr colon)
      match text with
      | [] => simp [innerSegment_eq_none, noColon]
      | [only] => simp [innerSegment_eq_none, noColon]
      | first :: second :: text =>
          by_cases colons : first = ':' ∧ second = ':'
          · obtain ⟨rfl, rfl⟩ := colons
            exact isLocal_word (fun _ => isWordChar_of_isUpper) text
              (avoids.mono fun _ isWord => .inl isWord)
          · have noColons : ∀ text rest : List Char,
                first :: second :: text ≠ ':' :: ':' :: rest := by
              rintro _ _ same
              cases same
              exact colons ⟨rfl, rfl⟩
            rw [List.cons_append, List.cons_append, innerSegment_eq_none (noColons _),
              innerSegment_eq_none (noColons _)]
            rfl

theorem isLocal_typePath : typePath.IsLocal ContinuesPath := by
  intro text tail avoids
  have avoidsWord := avoids.mono fun character (isWord : isWordChar character) => .inl isWord
  have isLocal : pathSegment.IsLocal _ := isLocal_word fun _ => isWordChar_of_isUpper
  rw [typePath, isLocal text avoidsWord, typePath, Option.map_map, Option.map_map]
  congr 1
  funext rest
  exact skipMany_append_of_isLocal isLocal_innerSegment avoids rest

/-- If there is a last character, it is one of a word. -/
def EndsInWord (text : List Char) : Prop := ∀ last ∈ text.getLast?, isWordChar last

theorem EndsInWord.append {text tail : List Char} (ends : EndsInWord text)
    (tailEnds : EndsInWord tail) :
    EndsInWord (text ++ tail) := by
  intro last isLast
  rw [List.getLast?_append] at isLast
  rcases Option.or_eq_some_iff.mp isLast with isLast | ⟨_, isLast⟩
  · exact tailEnds last isLast
  · exact ends last isLast

theorem exists_of_pathSegment {text rest : List Char} (found : pathSegment text = some rest) :
    ∃ taken, text = taken ++ rest ∧ taken ≠ [] ∧ EndsInWord taken := by
  obtain ⟨first, others, rfl, upper, rfl⟩ := word_eq_some_iff.mp found
  refine ⟨first :: others.takeWhile isWordChar,
    by simp [List.takeWhile_append_dropWhile], by simp, ?_⟩
  intro last isLast
  rcases List.mem_cons.mp (List.mem_of_getLast? isLast) with rfl | inside
  · exact isWordChar_of_isUpper upper
  · exact List.mem_takeWhile_imp inside

theorem exists_of_skipMany_innerSegment (text : List Char) :
    ∃ taken, text = taken ++ skipMany innerSegment shortens_innerSegment text ∧
      EndsInWord taken := by
  fun_induction skipMany innerSegment shortens_innerSegment text with
  | case1 text rest found _ inductionHypothesis =>
      obtain ⟨more, same, moreEnds⟩ := inductionHypothesis
      unfold innerSegment at found
      split at found
      · obtain ⟨segment, rfl, nonempty, ends⟩ := exists_of_pathSegment found
        refine ⟨(':' :: ':' :: segment) ++ more, ?_, EndsInWord.append ?_ moreEnds⟩
        · rw [List.append_assoc, ← same]
          rfl
        · intro last isLast
          apply ends last
          rwa [List.getLast?_cons_of_ne_nil (List.cons_ne_nil _ _),
            List.getLast?_cons_of_ne_nil nonempty] at isLast
      · cases found
  | case2 text => exact ⟨[], rfl, by simp [EndsInWord]⟩

/-- A path ends with a character of a word. -/
theorem any_getLast?_of_typePath {text : List Char} (found : typePath text = some []) :
    text.getLast?.any isWordChar := by
  obtain ⟨left, isSegment, all⟩ := Option.map_eq_some_iff.mp found
  obtain ⟨segment, rfl, nonempty, ends⟩ := exists_of_pathSegment isSegment
  obtain ⟨more, same, moreEnds⟩ := exists_of_skipMany_innerSegment left
  rw [all, List.append_nil] at same
  subst same
  obtain ⟨last, isLast⟩ := Option.isSome_iff_exists.mp
    (List.getLast?_isSome.mpr (List.append_ne_nil_of_left_ne_nil nonempty left))
  exact (Option.any_eq_true _ _).mpr ⟨last, isLast, ends.append moreEnds last isLast⟩

/-- The characters with which a method name could go on. -/
def ContinuesName (character : Char) : Prop :=
  isWordChar character ∨ ∃ operator ∈ operators, character ∈ operator.toList

theorem continuesName_of_mem_suffixes {mark : Char} (isMark : mark ∈ ['?', '!', '=']) :
    ContinuesName mark :=
  .inr (by simp [operators] at *; grind)

theorem methodSuffix_append {tail : List Char} (avoids : Avoids ContinuesName tail)
    (text : List Char) : methodSuffix (text ++ tail) = methodSuffix text ++ tail := by
  cases text with
  | nil =>
      rcases methodSuffix_cases tail with same | ⟨mark, isMark, same⟩
      · exact same
      · rw [same] at avoids
        exact absurd (continuesName_of_mem_suffixes isMark) (Avoids.cons_iff.mp avoids)
  | cons character text =>
      simp only [methodSuffix, List.cons_append]
      split <;> split <;> simp_all

theorem isLocal_methodName : methodName.IsLocal ContinuesName := by
  intro text tail avoids
  have avoidsWord := avoids.mono fun character (isWord : isWordChar character) => .inl isWord
  have avoidsOperator : ∀ operator ∈ operators, Avoids (· ∈ operator.toList) tail :=
    fun operator isOperator => avoids.mono fun _ inside => .inr ⟨operator, isOperator, inside⟩
  have sameOperators : ∀ candidates : List String,
      (∀ operator ∈ candidates, Avoids (· ∈ operator.toList) tail) →
      candidates.findSome? (exactly · (text ++ tail)) =
        (candidates.findSome? (exactly · text)).map (· ++ tail) := by
    intro candidates
    induction candidates with
    | nil => intro _; rfl
    | cons operator candidates inductionHypothesis =>
        intro avoids
        obtain ⟨here, later⟩ := List.forall_mem_cons.mp avoids
        simp only [List.findSome?_cons, isLocal_exactly operator text here,
          inductionHypothesis later]
        cases exactly operator text <;> rfl
  simp only [methodName, isLocal_parameterName text avoidsWord,
    sameOperators operators avoidsOperator,
    Option.map_or, Option.map_map]
  congr 2
  funext rest
  exact methodSuffix_append avoids rest

/-- A word with or without a mark behind it, or an operator. -/
def IsMethodName (name : List Char) : Prop :=
  (∃ word mark, parameterName word = some [] ∧ mark ∈ [[], ['?'], ['!'], ['=']] ∧
    name = word ++ mark) ∨
    ∃ operator ∈ operators, name = operator.toList

/-- A method name has no blanks. -/
theorem IsMethodName.isBlank_eq_false {name : List Char} (isName : IsMethodName name) :
    ∀ character ∈ name, Text.isBlank character = false := by
  rcases isName with ⟨word, mark, isWord, isMark, rfl⟩ | ⟨operator, isOperator, rfl⟩
  · have wordChars := forall_isWordChar_of_word (fun _ => isWordChar_of_isLower_or) isWord
    have marksSolid : ∀ mark ∈ [[], ['?'], ['!'], ['=']],
        ∀ character ∈ mark, Text.isBlank character = false := by simp [Text.isBlank]
    exact List.forall_mem_append.mpr
      ⟨fun character inside => isBlank_eq_false_of_isWordChar (wordChars character inside),
        marksSolid mark isMark⟩
  · have solid : ∀ operator ∈ operators, ∀ character ∈ operator.toList,
        Text.isBlank character = false := by simp [operators, Text.isBlank]
    exact solid operator isOperator

theorem IsMethodName.methodName_eq {name : List Char} (isName : IsMethodName name) :
    methodName name = some [] := by
  rcases isName with ⟨word, mark, isWord, isMark, rfl⟩ | ⟨operator, isOperator, rfl⟩
  · have noWord : ∀ mark ∈ [[], ['?'], ['!'], ['=']],
        Avoids (fun character => isWordChar character) mark := by
      have noMark : ¬isWordChar '?' ∧ ¬isWordChar '!' ∧ ¬isWordChar '=' := by decide
      simpa [Avoids.nil, Avoids.cons_iff] using noMark
    have noMore : ∀ mark ∈ [[], ['?'], ['!'], ['=']], methodSuffix mark = [] := by decide
    rw [methodName, isLocal_parameterName.eq_some isWord (noWord mark isMark)]
    simp [noMore mark isMark]
  · revert operator
    decide

end Words

section Defaults

variable {text rest : List Char}

theorem openItem_append {frames : List Frame} (opens : openItem text = some (frames, rest))
    (tail : List Char) : openItem (text ++ tail) = some (frames, rest ++ tail) := by
  unfold openItem at opens
  split at opens
  · cases opens
  · cases opens
    rfl
  · cases opens
    rfl
  · split at opens
    · cases opens
    · rename_i plain
      cases opens
      simp_all [openItem]
  · cases opens
  · split at opens
    · rename_i closes
      cases opens
      rw [List.cons_append, openItem]
      all_goals simp_all
    · split at opens
      · cases opens
      · cases opens
        rw [List.cons_append, openItem]
        all_goals simp_all

theorem closeAll_append {frames : List Frame} (closes : closeAll frames text = some rest)
    (tail : List Char) : closeAll frames (text ++ tail) = some (rest ++ tail) := by
  fun_induction closeAll frames text with
  | case1 =>
      cases closes
      rw [closeAll]
  | case2 => cases closes
  | case3 frames _ _ inductionHypothesis =>
      rw [List.cons_append, List.cons_append, closeAll]
      exact inductionHypothesis closes
  | case4 frames character text noEscape inductionHypothesis =>
      cases text with
      | nil =>
          -- a text that ends inside a quotation closes nothing
          split at closes <;> cases frames <;> simp_all [closeAll]
      | cons second text =>
          rw [List.cons_append, closeAll]
          · exact inductionHypothesis closes
          · intro _ _ backslash _
            exact noEscape second text backslash rfl
  | case5 frames character text inductionHypothesis =>
      rw [List.cons_append, closeAll, if_pos rfl]
      exact inductionHypothesis closes
  | case6 frames closer character text differs inner after opened _ inductionHypothesis =>
      have opensLonger := openItem_append opened tail
      rw [List.cons_append] at opensLonger ⊢
      rw [closeAll, if_neg differs]
      split
      · rename_i alsoOpened
        rw [opensLonger] at alsoOpened
        cases alsoOpened
        exact inductionHypothesis closes
      · simp_all
  | case7 => cases closes

theorem isExtensible_defaultItem : defaultItem.IsExtensible := by
  intro text rest found tail
  unfold defaultItem at found
  split at found
  · cases found
  · rename_i noComma
    obtain ⟨⟨frames, inside⟩, opens, closes⟩ := Option.bind_eq_some_iff.1 found
    cases text with
    | nil => cases opens
    | cons first text =>
        rw [List.cons_append, defaultItem]
        · rw [← List.cons_append, openItem_append opens tail]
          exact closeAll_append closes tail
        · rintro _ same
          cases same
          exact noComma _ rfl

/-- Neither a comma nor a quote nor a bracket. -/
def IsPlain (character : Char) : Prop :=
  character ∉ [',', '"', '\'', '(', ')', '[', ']', '\x7b', '\x7d']

theorem defaultItem_cons_of_isPlain {character : Char} (plain : IsPlain character)
    (text : List Char) :
    defaultItem (character :: text) = some text := by
  simp only [IsPlain, List.mem_cons, List.not_mem_nil, or_false, not_or] at plain
  obtain ⟨noComma, noQuote, noMark, plain⟩ := plain
  have opens : openItem (character :: text) = some ([], text) := by
    rw [openItem]
    · simp [closer?, isCloser, plain]
    all_goals simp_all
  have closes : closeAll [] text = some text := by rw [closeAll]
  rw [defaultItem, opens]
  · exact closes
  · simp_all

/-- Plain characters all belong to a default text. -/
theorem skipMany_defaultItem_of_isPlain {text : List Char}
    (plain : ∀ character ∈ text, IsPlain character) :
    skipMany defaultItem shortens_defaultItem text = [] := by
  induction text with
  | nil => exact skipMany_of_none rfl
  | cons character text inductionHypothesis =>
      obtain ⟨here, later⟩ := List.forall_mem_cons.mp plain
      rw [skipMany_of_some (defaultItem_cons_of_isPlain here text), inductionHypothesis later]

/-- A default text takes everything that reads as default text, up to a comma or
closing bracket. -/
theorem defaultText_append {gap tail : List Char} (isText : defaultText text = some [])
    (isFiller : skipMany defaultItem shortens_defaultItem gap = [])
    (ends : defaultItem tail = none) : defaultText (text ++ (gap ++ tail)) = some tail := by
  obtain ⟨left, item, all⟩ := Option.map_eq_some_iff.mp isText
  rw [defaultText, isExtensible_defaultItem item, Option.map_some,
    skipMany_append_of_isExtensible isExtensible_defaultItem all,
    skipMany_append_of_isExtensible isExtensible_defaultItem isFiller, skipMany_of_none ends]

end Defaults

end Scan

/-- A word that ends one text goes on in the next. -/
def Fuses (text tail : List Char) : Prop :=
  text.getLast?.any Scan.isWordChar ∧ tail.head?.any Scan.isWordChar

namespace Fuses

variable {text tail : List Char}

instance (text tail : List Char) : Decidable (Fuses text tail) :=
  inferInstanceAs (Decidable (_ ∧ _))

theorem avoids_of_not (apart : ¬Fuses text tail) (ends : text.getLast?.any Scan.isWordChar) :
    Avoids (fun character => Scan.isWordChar character) tail := by
  intro next isNext nextWordChar
  exact apart ⟨ends, (Option.any_eq_true _ _).mpr ⟨next, isNext, nextWordChar⟩⟩

theorem not_of_avoids (avoids : Avoids (fun character => Scan.isWordChar character) tail) :
    ¬Fuses text tail := by
  rintro ⟨_, goesOn⟩
  obtain ⟨next, isNext, nextWordChar⟩ := (Option.any_eq_true _ _).mp goesOn
  exact avoids next isNext nextWordChar

theorem not_of_mark {mark : Char} (noWord : ¬Scan.isWordChar mark) :
    ¬Fuses (text ++ [mark]) tail := by
  rintro ⟨ends, _⟩
  rw [List.getLast?_concat] at ends
  exact noWord ends

end Fuses

end MultiDispatch.Manifest
