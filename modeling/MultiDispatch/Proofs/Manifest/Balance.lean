import MultiDispatch.Proofs.Manifest.Recognition

/-!
# Balanced texts

A default text is opaque, but not any text: its brackets match, its quotations end,
and a comma stands in brackets or quotation marks only.  The main statement says that
the texts that are taken whole as default texts are just these.
-/

namespace MultiDispatch.Manifest

/-- What stands between double quotation marks.  A backslash takes the next character
with it. -/
inductive IsQuoted : List Char → Prop where
  | nil : IsQuoted []
  | escaped {character : Char} {text : List Char} (more : IsQuoted text) :
      IsQuoted ('\\' :: character :: text)
  | plain {character : Char} {text : List Char} (noQuote : character ≠ '"')
      (noEscape : character ≠ '\\') (more : IsQuoted text) : IsQuoted (character :: text)

/-- Bracket groups, quotations, quoted characters and plain characters, one behind the
other; inside brackets also commas. -/
inductive IsBalanced : (inBrackets : Bool) → List Char → Prop where
  | nil {inBrackets : Bool} : IsBalanced inBrackets []
  | plain {inBrackets : Bool} {character : Char} {text : List Char}
      (isPlain : Scan.IsPlain character) (more : IsBalanced inBrackets text) :
      IsBalanced inBrackets (character :: text)
  | comma {text : List Char} (more : IsBalanced true text) : IsBalanced true (',' :: text)
  | brackets {inBrackets : Bool} {opener closer : Char} {inside text : List Char}
      (closes : Scan.closer? opener = some closer) (isInside : IsBalanced true inside)
      (more : IsBalanced inBrackets text) :
      IsBalanced inBrackets (opener :: (inside ++ closer :: text))
  | quotation {inBrackets : Bool} {inside text : List Char} (isInside : IsQuoted inside)
      (more : IsBalanced inBrackets text) : IsBalanced inBrackets ('"' :: (inside ++ '"' :: text))
  | quotedCharacter {inBrackets : Bool} {character : Char} {text : List Char}
      (noQuote : character ≠ '\'') (noEscape : character ≠ '\\')
      (more : IsBalanced inBrackets text) :
      IsBalanced inBrackets ('\'' :: character :: '\'' :: text)
  | escapedCharacter {inBrackets : Bool} {character : Char} {text : List Char}
      (more : IsBalanced inBrackets text) :
      IsBalanced inBrackets ('\'' :: '\\' :: character :: '\'' :: text)

namespace Scan

/-- How items begin, with what they open. -/
inductive Opens : List Frame → List Char → Prop where
  | plain {character : Char} (isPlain : IsPlain character) : Opens [] [character]
  | comma : Opens [] [',']
  | quotation : Opens [.text] ['"']
  | quotedCharacter {character : Char} (noQuote : character ≠ '\'') (noEscape : character ≠ '\\') :
      Opens [] ['\'', character, '\'']
  | escapedCharacter {character : Char} : Opens [] ['\'', '\\', character, '\'']
  | bracket {opener closer : Char} (closes : closer? opener = some closer) :
      Opens [.bracket closer] [opener]

section Opening

variable {frames : List Frame} {opening text rest : List Char} {opener closer : Char}

theorem closer?_eq_some_iff :
    closer? opener = some closer ↔
      opener = '(' ∧ closer = ')' ∨ opener = '[' ∧ closer = ']' ∨
        opener = '\x7b' ∧ closer = '\x7d' := by
  unfold closer?
  split <;> simp_all [eq_comm]

theorem isCloser_of_closer? (closes : closer? opener = some closer) : isCloser closer := by
  rcases closer?_eq_some_iff.mp closes with ⟨_, rfl⟩ | ⟨_, rfl⟩ | ⟨_, rfl⟩ <;> decide

theorem openItem_append_of_opens (opens : Opens frames opening) (rest : List Char) :
    openItem (opening ++ rest) = some (frames, rest) := by
  cases opens with
  | @plain character isPlain =>
      simp only [IsPlain, List.mem_cons, List.not_mem_nil, or_false, not_or] at isPlain
      rw [List.singleton_append, openItem]
      · simp [closer?, isCloser, isPlain]
      all_goals simp_all
  | comma => rfl
  | quotation => rfl
  | quotedCharacter noQuote noEscape => simp [openItem, noQuote, noEscape]
  | escapedCharacter => rfl
  | bracket closes =>
      rcases closer?_eq_some_iff.mp closes with ⟨rfl, rfl⟩ | ⟨rfl, rfl⟩ | ⟨rfl, rfl⟩ <;> rfl

theorem exists_opens_of_openItem (opens : openItem text = some (frames, rest)) :
    ∃ opening, Opens frames opening ∧ text = opening ++ rest := by
  unfold openItem at opens
  split at opens
  · cases opens
  · cases opens
    exact ⟨['"'], .quotation, rfl⟩
  · cases opens
    exact ⟨_, .escapedCharacter, rfl⟩
  · split at opens
    · cases opens
    · rename_i plain
      cases opens
      rw [Bool.or_eq_true, decide_eq_true_eq, decide_eq_true_eq, not_or] at plain
      exact ⟨_, .quotedCharacter plain.1 plain.2, rfl⟩
  · cases opens
  · rename_i character _ noText _ _ noQuote
    split at opens
    · rename_i closes
      cases opens
      exact ⟨[character], .bracket closes, rfl⟩
    · split at opens
      · cases opens
      · rename_i noOpener noCloser
        cases opens
        by_cases isComma : character = ','
        · subst isComma
          exact ⟨[','], .comma, rfl⟩
        · refine ⟨[character], .plain ?_, rfl⟩
          have openers : ∀ opener ∈ ['(', '[', '\x7b'], character ≠ opener := by
            rintro opener isOpener rfl
            revert noOpener
            simp only [List.mem_cons, List.not_mem_nil, or_false] at isOpener
            rcases isOpener with rfl | rfl | rfl <;> decide
          have closers : ∀ closer ∈ [')', ']', '\x7d'], character ≠ closer := by
            rintro closer isOpener rfl
            revert noCloser
            simp only [List.mem_cons, List.not_mem_nil, or_false] at isOpener
            rcases isOpener with rfl | rfl | rfl <;> decide
          simp only [List.forall_mem_cons, List.not_mem_nil, false_implies, implies_true,
            and_true] at openers closers
          simp [IsPlain, isComma, openers, closers, mt noText, mt noQuote]

end Opening

section Completeness

variable {frames : List Frame} {inside text rest : List Char} {closer : Char}

/-- No item begins with a closing bracket. -/
theorem Opens.exists_cons {opening : List Char} {inner : List Frame} (opens : Opens inner opening)
    (closes : isCloser closer) :
    ∃ first others, opening = first :: others ∧ first ≠ closer := by
  simp only [isCloser, Bool.or_eq_true, decide_eq_true_eq] at closes
  cases opens with
  | @plain character isPlain =>
      refine ⟨character, [], rfl, ?_⟩
      rintro rfl
      rcases closes with (rfl | rfl) | rfl <;> simp [IsPlain] at isPlain
  | bracket opensBracket =>
      refine ⟨_, [], rfl, ?_⟩
      rintro rfl
      rcases closes with (rfl | rfl) | rfl <;> cases opensBracket
  | comma | quotation | quotedCharacter | escapedCharacter =>
      refine ⟨_, _, rfl, ?_⟩
      rcases closes with (rfl | rfl) | rfl <;> decide

theorem closeAll_bracket_of_opens {opening : List Char} {inner : List Frame}
    (opens : Opens inner opening) (closes : isCloser closer) (rest : List Char) :
    closeAll (.bracket closer :: frames) (opening ++ rest) =
      closeAll (inner ++ .bracket closer :: frames) rest := by
  have begins := openItem_append_of_opens opens rest
  rcases opens.exists_cons closes with ⟨first, others, rfl, differs⟩
  rw [List.cons_append] at begins ⊢
  rw [closeAll, if_neg differs]
  split
  · rename_i alsoBegins
    cases begins.symm.trans alsoBegins
    rfl
  · rename_i fails
    cases begins.symm.trans fails

theorem closeAll_quoted (isQuoted : IsQuoted inside) (rest : List Char) :
    closeAll (.text :: frames) (inside ++ '"' :: rest) = closeAll frames rest := by
  induction isQuoted with
  | nil =>
      rw [List.nil_append, closeAll]
      · simp
      · simp
  | escaped _ inductionHypothesis =>
      rw [List.cons_append, List.cons_append, closeAll, inductionHypothesis]
  | plain noQuote noEscape _ inductionHypothesis =>
      rw [List.cons_append, closeAll, if_neg noQuote, inductionHypothesis]
      intro _ _ isEscape _
      exact noEscape isEscape

/-- In brackets a balanced text is passed over, up to the bracket that is waited for. -/
theorem closeAll_balanced {inBrackets : Bool} (isBalanced : IsBalanced inBrackets inside)
    (closes : isCloser closer) (rest : List Char) :
    closeAll (.bracket closer :: frames) (inside ++ closer :: rest) = closeAll frames rest := by
  induction isBalanced generalizing frames closer rest with
  | nil => rw [List.nil_append, closeAll, if_pos rfl]
  | plain isPlain _ inductionHypothesis =>
      exact (closeAll_bracket_of_opens (.plain isPlain) closes _).trans
        (inductionHypothesis closes rest)
  | comma _ inductionHypothesis =>
      exact (closeAll_bracket_of_opens .comma closes _).trans (inductionHypothesis closes rest)
  | @brackets _ opener innerCloser inside text opensBracket _ _ insideHypothesis textHypothesis =>
      have begins := @closeAll_bracket_of_opens frames closer [opener] _ (.bracket opensBracket)
        closes (inside ++ innerCloser :: (text ++ closer :: rest))
      rw [List.cons_append, List.append_assoc, List.cons_append]
      calc
        _ = closeAll (.bracket innerCloser :: .bracket closer :: frames) _ := begins
        _ = closeAll (.bracket closer :: frames) (text ++ closer :: rest) :=
          insideHypothesis (isCloser_of_closer? opensBracket) _
        _ = closeAll frames rest := textHypothesis closes rest
  | @quotation _ inside text isInside _ inductionHypothesis =>
      have begins := @closeAll_bracket_of_opens frames closer _ _ .quotation closes
        (inside ++ '"' :: (text ++ closer :: rest))
      rw [List.cons_append, List.append_assoc, List.cons_append]
      calc
        _ = closeAll (.text :: .bracket closer :: frames) _ := begins
        _ = closeAll (.bracket closer :: frames) (text ++ closer :: rest) :=
          closeAll_quoted isInside _
        _ = closeAll frames rest := inductionHypothesis closes rest
  | quotedCharacter noQuote noEscape _ inductionHypothesis =>
      exact (closeAll_bracket_of_opens (.quotedCharacter noQuote noEscape) closes _).trans
        (inductionHypothesis closes rest)
  | escapedCharacter _ inductionHypothesis =>
      exact (closeAll_bracket_of_opens .escapedCharacter closes _).trans
        (inductionHypothesis closes rest)

/-- An item is taken with all that it opens. -/
theorem defaultItem_append_of_opens {opening : List Char} (opens : Opens frames opening)
    (noComma : opening ≠ [',']) (closes : closeAll frames text = some rest) :
    defaultItem (opening ++ text) = some rest := by
  have begins := openItem_append_of_opens opens text
  have notComma : ∀ others, opening ++ text ≠ ',' :: others := by
    intro others
    cases opens with
    | plain isPlain =>
        rintro same
        cases same
        exact isPlain List.mem_cons_self
    | comma => contradiction
    | bracket opensBracket =>
        intro same
        cases same
        cases opensBracket
    | quotation | quotedCharacter | escapedCharacter => simp
  rw [defaultItem, begins]
  · exact closes
  · exact notComma

theorem skipMany_defaultItem_of_isBalanced (isBalanced : IsBalanced false text) :
    skipMany defaultItem shortens_defaultItem text = [] := by
  have nothingOpen : ∀ text, closeAll [] text = some text := fun text => by rw [closeAll]
  generalize atTop : false = inBrackets at isBalanced
  induction isBalanced with
  | nil => exact skipMany_of_none rfl
  | comma => cases atTop
  | plain isPlain _ inductionHypothesis =>
      rw [← inductionHypothesis atTop]
      exact skipMany_of_some (defaultItem_cons_of_isPlain isPlain _)
  | @brackets _ opener closer _ text opensBracket isInside _ _ inductionHypothesis =>
      rw [← inductionHypothesis atTop]
      refine skipMany_of_some (@defaultItem_append_of_opens _ _ text [opener]
        (.bracket opensBracket) ?_ ?_)
      · rintro isComma
        cases isComma
        cases opensBracket
      · exact (closeAll_balanced isInside (isCloser_of_closer? opensBracket) text).trans
          (nothingOpen text)
  | @quotation _ _ text isInside _ inductionHypothesis =>
      rw [← inductionHypothesis atTop]
      exact skipMany_of_some (@defaultItem_append_of_opens _ _ text _ .quotation (by simp)
        ((closeAll_quoted isInside text).trans (nothingOpen text)))
  | @quotedCharacter _ _ text noQuote noEscape _ inductionHypothesis =>
      rw [← inductionHypothesis atTop]
      exact skipMany_of_some (@defaultItem_append_of_opens _ _ text _
        (.quotedCharacter noQuote noEscape) (by simp) (nothingOpen text))
  | @escapedCharacter _ _ text _ inductionHypothesis =>
      rw [← inductionHypothesis atTop]
      exact skipMany_of_some (@defaultItem_append_of_opens _ _ text _ .escapedCharacter (by simp)
        (nothingOpen text))

end Completeness

section Soundness

variable {frames : List Frame} {text rest : List Char}

/-- The text closes the frames one by one, each behind what belongs in it. -/
def Closes : List Frame → List Char → List Char → Prop
  | [], text, rest => text = rest
  | .text :: frames, text, rest => ∃ inside behind,
      text = inside ++ '"' :: behind ∧ IsQuoted inside ∧ Closes frames behind rest
  | .bracket closer :: frames, text, rest => ∃ inside behind,
      text = inside ++ closer :: behind ∧ IsBalanced true inside ∧ Closes frames behind rest

/-- An item belongs to the brackets in which it stands. -/
theorem Closes.bracket_of_opens {opening : List Char} {inner : List Frame} {closer : Char}
    (opens : Opens inner opening)
    (closes : Closes (inner ++ .bracket closer :: frames) text rest) :
    Closes (.bracket closer :: frames) (opening ++ text) rest := by
  cases opens with
  | plain isPlain =>
      rcases closes with ⟨inside, behind, rfl, isInside, more⟩
      exact ⟨_ :: inside, behind, rfl, .plain isPlain isInside, more⟩
  | comma =>
      rcases closes with ⟨inside, behind, rfl, isInside, more⟩
      exact ⟨_ :: inside, behind, rfl, .comma isInside, more⟩
  | quotation =>
      rcases closes with ⟨quoted, _, rfl, isQuoted, inside, behind, rfl, isInside, more⟩
      exact ⟨'"' :: (quoted ++ '"' :: inside), behind, by simp, .quotation isQuoted isInside, more⟩
  | quotedCharacter noQuote noEscape =>
      rcases closes with ⟨inside, behind, rfl, isInside, more⟩
      exact ⟨_ :: _ :: _ :: inside, behind, rfl, .quotedCharacter noQuote noEscape isInside, more⟩
  | escapedCharacter =>
      rcases closes with ⟨inside, behind, rfl, isInside, more⟩
      exact ⟨_ :: _ :: _ :: _ :: inside, behind, rfl, .escapedCharacter isInside, more⟩
  | @bracket opener innerCloser opensBracket =>
      rcases closes with ⟨group, _, rfl, isGroup, inside, behind, rfl, isInside, more⟩
      exact ⟨opener :: (group ++ innerCloser :: inside), behind, by simp,
        .brackets opensBracket isGroup isInside, more⟩

theorem closes_of_closeAll (closes : closeAll frames text = some rest) :
    Closes frames text rest := by
  fun_induction closeAll frames text with
  | case1 text =>
      cases closes
      rfl
  | case2 => cases closes
  | case3 frames character text inductionHypothesis =>
      rcases inductionHypothesis closes with ⟨inside, behind, rfl, isInside, more⟩
      exact ⟨'\\' :: character :: inside, behind, rfl, .escaped isInside, more⟩
  | case4 frames character text noEscape inductionHypothesis =>
      have closed := inductionHypothesis closes
      by_cases ends : character = '"'
      · rw [dif_pos ends] at closed
        exact ⟨[], text, by rw [ends]; rfl, .nil, closed⟩
      · rw [dif_neg ends] at closed
        rcases closed with ⟨inside, behind, rfl, isInside, more⟩
        refine ⟨character :: inside, behind, rfl, .plain ends ?_ isInside, more⟩
        rintro rfl
        -- a backslash is no character of its own where something follows
        rcases inside with _ | ⟨second, inside⟩
        · exact noEscape '"' behind rfl rfl
        · exact noEscape second (inside ++ '"' :: behind) rfl rfl
  | case5 frames closer text inductionHypothesis =>
      exact ⟨[], text, rfl, .nil, inductionHypothesis closes⟩
  | case6 frames closer character text differs inner after opened _ inductionHypothesis =>
      rcases exists_opens_of_openItem opened with ⟨opening, opens, same⟩
      rw [same]
      exact (inductionHypothesis closes).bracket_of_opens opens
  | case7 => cases closes

/-- In front of a balanced text an item makes a balanced text. -/
theorem isBalanced_of_defaultItem (found : defaultItem text = some rest)
    (isBalanced : IsBalanced false rest) : IsBalanced false text := by
  unfold defaultItem at found
  split at found
  · cases found
  · rename_i noComma
    rcases Option.bind_eq_some_iff.mp found with ⟨⟨frames, inside⟩, begins, closes⟩
    rcases exists_opens_of_openItem begins with ⟨opening, opens, rfl⟩
    have closed := closes_of_closeAll closes
    cases opens with
    | plain isPlain =>
        rcases closed with rfl
        exact .plain isPlain isBalanced
    | comma => exact absurd rfl (noComma inside)
    | quotation =>
        rcases closed with ⟨quoted, _, rfl, isQuoted, rfl⟩
        exact .quotation isQuoted isBalanced
    | quotedCharacter noQuote noEscape =>
        rcases closed with rfl
        exact .quotedCharacter noQuote noEscape isBalanced
    | escapedCharacter =>
        rcases closed with rfl
        exact .escapedCharacter isBalanced
    | bracket opensBracket =>
        rcases closed with ⟨group, _, rfl, isGroup, rfl⟩
        exact .brackets opensBracket isGroup isBalanced

end Soundness

theorem skipMany_defaultItem_eq_nil_iff {text : List Char} :
    skipMany defaultItem shortens_defaultItem text = [] ↔ IsBalanced false text := by
  constructor
  · intro all
    fun_induction skipMany defaultItem shortens_defaultItem text with
    | case1 text rest found _ inductionHypothesis =>
        exact isBalanced_of_defaultItem found (inductionHypothesis all)
    | case2 =>
        rw [all]
        exact .nil
  · exact skipMany_defaultItem_of_isBalanced

/-- What is taken whole as a default text is balanced and not empty. -/
theorem defaultText_eq_nil_iff {text : List Char} :
    defaultText text = some [] ↔ text ≠ [] ∧ IsBalanced false text := by
  rw [← skipMany_defaultItem_eq_nil_iff, defaultText, Option.map_eq_some_iff]
  constructor
  · intro taken
    rcases taken with ⟨rest, found, all⟩
    refine ⟨?_, (skipMany_of_some found).trans all⟩
    rintro rfl
    cases found
  · intro taken
    rcases taken with ⟨nonempty, all⟩
    rw [skipMany] at all
    split at all
    · rename_i rest found
      exact ⟨rest, found, all⟩
    · contradiction

end Scan

end MultiDispatch.Manifest
