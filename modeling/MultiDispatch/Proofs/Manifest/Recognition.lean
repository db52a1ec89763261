import MultiDispatch.Proofs.Manifest.TypeText

/-!
# Recognising types

What a reader takes for a type is one: its text is built up by the rules that
describe texts of types, with gaps at no other places.  Together with the
converse this makes the description exact.
-/

namespace MultiDispatch.Manifest

section Gaps

theorem IsGap.cons_comment {character : Char} {gap : List Char} (within : ¬IsLineEnd character)
    (isComment : IsGap ('#' :: gap)) : IsGap ('#' :: character :: gap) := by
  generalize same : '#' :: gap = comment at isComment
  cases isComment with
  | nil => cases same
  | spacing isSpacing _ =>
      cases same
      exact absurd isSpacing (by simp [IsSpacing, IsLineEnd])
  | comment oneLine isLineEnd more =>
      cases same
      exact .comment (List.forall_mem_cons.mpr ⟨within, oneLine⟩) isLineEnd more

/-- The text with an end of its last line, unless there is none. -/
def ended (text : List Char) : List Char := if text = [] then [] else text ++ ['\n']

/-- What is skipped is a gap, once the last line is ended: a comment may run to the
end of the text. -/
theorem exists_ended_of_skipGap (inComment : Bool) (text : List Char) :
    ∃ gap, text ++ ['\n'] = gap ++ ended (skipGap inComment text) ∧
      IsGap (if inComment then '#' :: gap else gap) := by
  fun_induction skipGap inComment text with
  | case1 inComment =>
      refine ⟨['\n'], rfl, ?_⟩
      cases inComment with
      | false => exact .spacing (.inr (.inr (.inl rfl))) .nil
      | true => exact @IsGap.comment [] _ _ (by simp) (.inl rfl) .nil
  | case2 inComment character text isLineEnd inductionHypothesis =>
      obtain ⟨gap, same, isGap⟩ := inductionHypothesis
      have isLineEnd : IsLineEnd character := by simpa [IsLineEnd] using isLineEnd
      refine ⟨character :: gap, congrArg (character :: ·) same, ?_⟩
      cases inComment with
      | false => exact .spacing (.inr (.inr isLineEnd)) isGap
      | true => exact @IsGap.comment [] _ _ (by simp) isLineEnd isGap
  | case3 character text within inductionHypothesis =>
      obtain ⟨gap, same, isComment⟩ := inductionHypothesis
      have within : ¬IsLineEnd character := by simpa [IsLineEnd] using within
      exact ⟨character :: gap, congrArg (character :: ·) same, isComment.cons_comment within⟩
  | case4 inComment character text _ notComment isBlank inductionHypothesis =>
      obtain ⟨gap, same, isGap⟩ := inductionHypothesis
      obtain rfl : inComment = false := by simpa using notComment
      have isSpacing : IsSpacing character := by
        rcases (by simpa using isBlank : character = ' ' ∨ character = '\t') with rfl | rfl
        · exact .inl rfl
        · exact .inr (.inl rfl)
      exact ⟨character :: gap, congrArg (character :: ·) same, .spacing isSpacing isGap⟩
  | case5 inComment text notComment _ _ inductionHypothesis =>
      obtain ⟨gap, same, isComment⟩ := inductionHypothesis
      obtain rfl : inComment = false := by simpa using notComment
      exact ⟨'#' :: gap, congrArg ('#' :: ·) same, isComment⟩
  | case6 inComment character text _ notComment _ _ =>
      obtain rfl : inComment = false := by simpa using notComment
      exact ⟨[], rfl, .nil⟩

theorem exists_of_skipGap {text : List Char} (left : skipGap false text ≠ []) :
    ∃ gap, text = gap ++ skipGap false text ∧ IsGap gap := by
  obtain ⟨gap, same, isGap⟩ := exists_ended_of_skipGap false text
  rw [ended, if_neg left, ← List.append_assoc] at same
  exact ⟨gap, List.append_cancel_right same, isGap⟩

end Gaps

theorem Avoids.of_append {P : Char → Prop} {text tail : List Char}
    (avoids : Avoids P (text ++ tail)) :
    Avoids P text := by
  cases text with
  | nil => exact Avoids.nil
  | cons => exact Avoids.cons_iff.mpr (Avoids.cons_iff.mp avoids)

namespace Scan

theorem pathSegment_append {segment tail : List Char} (isSegment : pathSegment segment = some [])
    (avoids : Avoids (fun character => isWordChar character) tail) :
    pathSegment (segment ++ tail) = some tail :=
  IsLocal.eq_some (isLocal_word fun _ => isWordChar_of_isUpper) isSegment avoids

theorem exists_of_skipMany_segments {text : List Char}
    (starts : Avoids (fun character => isWordChar character) text) :
    ∃ taken, text = taken ++ skipMany innerSegment shortens_innerSegment text ∧
      skipMany innerSegment shortens_innerSegment taken = [] ∧
      Avoids (fun character => isWordChar character)
        (skipMany innerSegment shortens_innerSegment text) := by
  fun_induction skipMany innerSegment shortens_innerSegment text with
  | case1 text rest found _ inductionHypothesis =>
      unfold innerSegment at found
      split at found
      · obtain ⟨segment, rfl, isSegment, avoids⟩ := exists_of_word found
        obtain ⟨more, same, all, ends⟩ := inductionHypothesis avoids
        refine ⟨':' :: ':' :: (segment ++ more), by simp [← same], ?_, ends⟩
        rw [same] at avoids
        have takesSegment : innerSegment (':' :: ':' :: (segment ++ more)) = some more :=
          pathSegment_append isSegment avoids.of_append
        rw [skipMany_of_some takesSegment, all]
      · cases found
  | case2 text => exact ⟨[], rfl, skipMany_of_none rfl, starts⟩

theorem exists_of_typePath_eq_some {text rest : List Char} (found : typePath text = some rest) :
    ∃ path, text = path ++ rest ∧ typePath path = some [] ∧
      Avoids (fun character => isWordChar character) rest := by
  obtain ⟨left, isSegment, rfl⟩ := Option.map_eq_some_iff.mp found
  obtain ⟨segment, rfl, isSegment, avoids⟩ := exists_of_word isSegment
  obtain ⟨more, same, all, ends⟩ := exists_of_skipMany_segments avoids
  rw [same] at avoids
  refine ⟨segment ++ more, by rw [List.append_assoc, ← same], ?_, ends⟩
  rw [typePath, pathSegment_append isSegment avoids.of_append, Option.map_some, all]

theorem exists_of_methodName {text rest : List Char} (found : methodName text = some rest) :
    ∃ name, text = name ++ rest ∧ IsMethodName name ∧ ¬Fuses name rest := by
  rcases Option.or_eq_some_iff.mp found with suffixed | ⟨_, isOperator⟩
  · obtain ⟨left, begins, rfl⟩ := Option.map_eq_some_iff.mp suffixed
    obtain ⟨word, rfl, isWord, avoids⟩ := exists_of_word begins
    rcases methodSuffix_cases left with unchanged | ⟨mark, isMark, marked⟩
    · refine ⟨word, by rw [unchanged], ?_, ?_⟩
      · exact .inl ⟨word, [], isWord, by simp, (List.append_nil word).symm⟩
      · rw [unchanged]
        exact Fuses.not_of_avoids avoids
    · refine ⟨word ++ [mark], ?_, ?_, ?_⟩
      · rw [List.append_assoc, List.singleton_append, ← marked]
      · exact .inl ⟨word, [mark], isWord, by simpa using isMark, rfl⟩
      · refine Fuses.not_of_mark ?_
        simp only [List.mem_cons, List.not_mem_nil, or_false] at isMark
        rcases isMark with rfl | rfl | rfl <;> decide
  · obtain ⟨operator, known, taken⟩ := List.exists_of_findSome?_eq_some isOperator
    rw [exactly, List.isPrefixOf?_eq_some_iff_append_eq] at taken
    refine ⟨operator.toList, taken.symm, .inr ⟨operator, known, rfl⟩, ?_⟩
    have noWord : operators.all fun operator => !operator.toList.getLast?.any isWordChar := by
      decide
    exact fun fuses => absurd fuses.1 (by simpa using List.all_eq_true.mp noWord operator known)

section Defaults

/-- What the scan takes, it takes by itself. -/
def Splits (scan : Scan) : Prop :=
  ∀ ⦃text rest⦄, scan text = some rest → ∃ taken, text = taken ++ rest ∧ scan taken = some []

variable {text rest : List Char}

/-- As many items as there are, and none behind them. -/
theorem exists_of_skipMany {item : Scan} {shortens : item.Shortens} (splits : item.Splits)
    (isExtensible : item.IsExtensible) (text : List Char) :
    ∃ taken, text = taken ++ skipMany item shortens text ∧ skipMany item shortens taken = [] ∧
      item (skipMany item shortens text) = none := by
  fun_induction skipMany item shortens text with
  | case1 text rest found _ inductionHypothesis =>
      obtain ⟨others, same, all, ends⟩ := inductionHypothesis
      obtain ⟨first, rfl, isItem⟩ := splits found
      refine ⟨first ++ others, by rw [List.append_assoc, ← same], ?_, ends⟩
      rw [skipMany_of_some (isExtensible isItem others), List.nil_append, all]
  | case2 text fails =>
      cases nothing : item [] with
      | none => exact ⟨[], rfl, skipMany_of_none nothing, fails⟩
      | some rest => exact absurd (shortens nothing) (Nat.not_lt_zero _)

theorem exists_of_openItem {frames : List Frame} (opens : openItem text = some (frames, rest)) :
    ∃ taken, text = taken ++ rest ∧ openItem taken = some (frames, []) := by
  unfold openItem at opens
  split at opens
  · cases opens
  · cases opens
    exact ⟨['"'], rfl, rfl⟩
  · rename_i character _
    cases opens
    exact ⟨['\'', '\\', character, '\''], rfl, rfl⟩
  · rename_i character _ _
    split at opens
    · cases opens
    · rename_i plain
      cases opens
      refine ⟨['\'', character, '\''], rfl, ?_⟩
      simp [openItem, plain]
  · cases opens
  · rename_i character _ _ _ _ _
    split at opens
    · rename_i closes
      cases opens
      refine ⟨[character], rfl, ?_⟩
      rw [openItem]
      all_goals simp_all
    · split at opens
      · cases opens
      · cases opens
        refine ⟨[character], rfl, ?_⟩
        rw [openItem]
        all_goals simp_all

theorem exists_of_closeAll {frames : List Frame} (closes : closeAll frames text = some rest) :
    ∃ taken, text = taken ++ rest ∧ closeAll frames taken = some [] := by
  fun_induction closeAll frames text with
  | case1 =>
      cases closes
      exact ⟨[], rfl, by rw [closeAll]⟩
  | case2 => cases closes
  | case3 frames second text inductionHypothesis =>
      obtain ⟨taken, rfl, closesTaken⟩ := inductionHypothesis closes
      exact ⟨'\\' :: second :: taken, rfl, by rw [closeAll, closesTaken]⟩
  | case4 frames character text noEscape inductionHypothesis =>
      obtain ⟨taken, rfl, closesTaken⟩ := inductionHypothesis closes
      refine ⟨character :: taken, rfl, ?_⟩
      rw [closeAll]
      · exact closesTaken
      · rintro second others rfl rfl
        exact noEscape second (others ++ rest) rfl rfl
  | case5 frames closer text inductionHypothesis =>
      obtain ⟨taken, rfl, closesTaken⟩ := inductionHypothesis closes
      exact ⟨closer :: taken, rfl, by rw [closeAll, if_pos rfl, closesTaken]⟩
  | case6 frames closer character text differs inner after opened _ inductionHypothesis =>
      obtain ⟨taken, rfl, closesTaken⟩ := inductionHypothesis closes
      obtain ⟨item, same, isItem⟩ := exists_of_openItem opened
      have opensTaken := openItem_append isItem taken
      refine ⟨item ++ taken, by rw [same, List.append_assoc], ?_⟩
      cases item with
      | nil => cases isItem
      | cons first others =>
          cases same
          rw [List.cons_append] at opensTaken ⊢
          rw [closeAll, if_neg differs]
          split
          · rename_i alsoOpened
            rw [opensTaken] at alsoOpened
            cases alsoOpened
            exact closesTaken
          · simp_all
  | case7 => cases closes

theorem splits_defaultItem : defaultItem.Splits := by
  intro text rest found
  unfold defaultItem at found
  split at found
  · cases found
  · rename_i noComma
    obtain ⟨⟨frames, inside⟩, opens, closes⟩ := Option.bind_eq_some_iff.1 found
    obtain ⟨item, rfl, isItem⟩ := exists_of_openItem opens
    obtain ⟨taken, rfl, closesTaken⟩ := exists_of_closeAll closes
    refine ⟨item ++ taken, by rw [List.append_assoc], ?_⟩
    rw [defaultItem]
    · rw [openItem_append isItem taken]
      exact closesTaken
    · cases item with
      | nil => cases isItem
      | cons first others =>
          rintro _ same
          cases same
          exact noComma _ rfl

theorem exists_of_defaultText (found : defaultText text = some rest) :
    ∃ taken, text = taken ++ rest ∧ defaultText taken = some [] ∧ defaultItem rest = none := by
  obtain ⟨left, isItem, rfl⟩ := Option.map_eq_some_iff.mp found
  obtain ⟨first, rfl, isFirst⟩ := splits_defaultItem isItem
  obtain ⟨others, same, all, ends⟩ :=
    @exists_of_skipMany _ shortens_defaultItem splits_defaultItem isExtensible_defaultItem left
  refine ⟨first ++ others, by rw [List.append_assoc, ← same], ?_, ends⟩
  rw [defaultText, isExtensible_defaultItem isFirst, Option.map_some, List.nil_append, all]

theorem isPlain_of_isWordChar {character : Char} (wordChar : isWordChar character) :
    IsPlain character := by
  have noWord : [',', '"', '\'', '(', ')', '[', ']', '\x7b', '\x7d'].all (!isWordChar ·) := by
    decide
  intro inside
  simpa [wordChar] using List.all_eq_true.mp noWord character inside

theorem isPlain_of_opensGap {character : Char} (opens : OpensGap character) :
    IsPlain character := by
  rcases opens with (rfl | rfl | rfl | rfl) | rfl <;> simp [IsPlain]

/-- What ends a default text is not a plain character. -/
theorem avoids_isPlain_of_defaultItem (ends : defaultItem text = none) : Avoids IsPlain text := by
  cases text with
  | nil => exact Avoids.nil
  | cons character text =>
      refine Avoids.cons_iff.mpr fun plain => ?_
      rw [defaultItem_cons_of_isPlain plain] at ends
      cases ends

end Defaults

end Scan

namespace Grammar

theorem exists_of_read_symbol {mark : String} {text rest : List Char} {value : Unit}
    (reads : (symbol mark).read text = some (value, rest)) (left : rest ≠ []) :
    ∃ gap, text = mark.toList ++ (gap ++ rest) ∧ IsGap gap := by
  obtain ⟨behind, _, readsExactly, readsGap⟩ := Reader.read_seqLeft_eq_some_iff.mp reads
  cases readsGap
  obtain ⟨_, taken, same⟩ := Option.map_eq_some_iff.mp readsExactly
  cases same
  obtain ⟨gap, same, isGap⟩ := exists_of_skipGap left
  rw [Scan.exactly, List.isPrefixOf?_eq_some_iff_append_eq] at taken
  exact ⟨gap, by rw [← taken, ← same], isGap⟩

section Recognition

variable {α : Type} {item : Reader α} {separator : String} {IsItem : List Char → Prop}

/-- Every text the reader takes is an item, unless nothing is left behind it. -/
def Recognises (item : Reader α) (IsItem : List Char → Prop) : Prop :=
  item.Ensures fun text _ rest => rest ≠ [] → ∃ taken, text = taken ++ rest ∧ IsItem taken

/-- Items with a separator in front of each. -/
inductive Chain (separator : String) (IsItem : List Char → Prop) :
    List Char → List Char → Prop where
  | nil (rest : List Char) : Chain separator IsItem rest rest
  | cons {gap item text rest : List Char} (isGap : IsGap gap) (isItem : IsItem item)
      (more : Chain separator IsItem text rest) :
      Chain separator IsItem (separator.toList ++ (gap ++ (item ++ text))) rest

theorem Chain.ne_nil {text rest : List Char} (chain : Chain separator IsItem text rest)
    (nonempty : separator ≠ "") (left : rest ≠ []) : text ≠ [] := by
  cases chain with
  | nil => exact left
  | cons => simp [nonempty]

theorem Recognises.chain (recognises : Recognises item IsItem) (nonempty : separator ≠ "") :
    (Reader.many do symbol separator; item).Ensures fun text _ rest =>
      rest ≠ [] → Chain separator IsItem text rest := by
  have each : (do symbol separator; item : Reader α).Ensures fun text _ middle =>
      middle ≠ [] → ∃ gap taken, text = separator.toList ++ (gap ++ (taken ++ middle)) ∧ IsGap gap ∧
        IsItem taken := by
    intro text value middle reads left
    obtain ⟨_, inside, readsSeparator, readsItem⟩ := Reader.read_bind_eq_some_iff.mp reads
    obtain ⟨taken, rfl, isItem⟩ := recognises readsItem left
    obtain ⟨gap, rfl, isGap⟩ := exists_of_read_symbol readsSeparator (by simp [left])
    exact ⟨gap, taken, rfl, isGap, isItem⟩
  refine Reader.Ensures.many each (fun text _ => .nil text) ?_
  intro text value middle values rest first more left
  have chain := more left
  obtain ⟨gap, taken, rfl, isGap, isItem⟩ := first (chain.ne_nil nonempty left)
  exact .cons isGap isItem chain

theorem Recognises.seqLeft_gap
    (recognises : item.Ensures fun text _ rest => ∃ taken, text = taken ++ rest ∧ IsItem taken) :
    Recognises (item <* Reader.gap) fun text =>
      ∃ taken gap, text = taken ++ gap ∧ IsItem taken ∧ IsGap gap := by
  intro text value rest reads left
  obtain ⟨behind, _, readsItem, readsGap⟩ := Reader.read_seqLeft_eq_some_iff.mp reads
  cases readsGap
  obtain ⟨taken, rfl, isItem⟩ := recognises readsItem
  obtain ⟨gap, same, isGap⟩ := exists_of_skipGap left
  exact ⟨taken ++ gap, by rw [List.append_assoc, ← same], taken, gap, rfl, isItem, isGap⟩

/-- What is recognised as a name, and as what stands behind it. -/
theorem Recognises.typeAlternatives {name : Reader α}
    (recognises : name.Ensures fun text _ rest => ∃ taken, text = taken ++ rest ∧
      TypeText IsGap .name taken) :
    Recognises (typeAlternatives name) (TypeText IsGap .alternatives) := by
  have alternatives_of_chain : ∀ {name gap text rest : List Char},
      TypeText IsGap .name name → IsGap gap →
      Chain "|"
        (fun text => ∃ taken gap, text = taken ++ gap ∧ TypeText IsGap .name taken ∧ IsGap gap)
        text rest →
      ∃ types, name ++ (gap ++ text) = types ++ rest ∧ TypeText IsGap .alternatives types := by
    intro name gap text rest isName isGap chain
    induction chain generalizing name gap with
    | nil rest => exact ⟨name ++ gap, (List.append_assoc _ _ _).symm, .only isName isGap⟩
    | @cons behind _ text rest isGapBehind isItem _ inductionHypothesis =>
        obtain ⟨next, nextGap, rfl, isNext, isNextGap⟩ := isItem
        obtain ⟨others, same, isOthers⟩ := inductionHypothesis isNext isNextGap
        refine ⟨name ++ (gap ++ '|' :: (behind ++ others)), ?_,
          .either isName isGap isGapBehind isOthers⟩
        simp only [List.append_assoc, List.cons_append, ← same]
        rfl
  refine Reader.Ensures.named ?_
  intro text values rest reads left
  obtain ⟨_, middle, readsFirst, reads⟩ := Reader.read_bind_eq_some_iff.mp reads
  obtain ⟨_, last, readsOthers, same⟩ := Reader.read_bind_eq_some_iff.mp reads
  cases same
  have recognisesGap := Recognises.seqLeft_gap recognises
  have chain := recognisesGap.chain (by decide) readsOthers left
  obtain ⟨_, rfl, first, gap, rfl, isFirst, isGap⟩ :=
    recognisesGap readsFirst (chain.ne_nil (by decide) left)
  rw [List.append_assoc]
  exact alternatives_of_chain isFirst isGap chain

/-- The parenthesis that closes the arguments is part of their text. -/
theorem exists_of_typeArguments {name : Unit → Reader α} {text rest : List Char}
    (recognises : (name ()).Ensures fun text _ rest => ∃ taken, text = taken ++ rest ∧
      TypeText IsGap .name taken)
    (reads : (typeArguments name).read text = some ((), rest)) :
    ∃ gap arguments, text = '(' :: (gap ++ (arguments ++ rest)) ∧ IsGap gap ∧
      TypeText IsGap .arguments arguments := by
  have arguments_of_chain : ∀ {types text rest : List Char}, TypeText IsGap .alternatives types →
      Chain "," (TypeText IsGap .alternatives) text (')' :: rest) →
      ∃ arguments, types ++ text = arguments ++ rest ∧ TypeText IsGap .arguments arguments := by
    intro types text rest isTypes chain
    generalize same : ')' :: rest = closed at chain
    induction chain generalizing types with
    | nil =>
        subst same
        exact ⟨types ++ [')'], by simp, .last isTypes⟩
    | @cons behind next text _ isGap isNext _ inductionHypothesis =>
        obtain ⟨others, sameOthers, isOthers⟩ := inductionHypothesis isNext same
        refine ⟨types ++ ',' :: (behind ++ others), ?_, .next isTypes isGap isOthers⟩
        simp only [List.append_assoc, List.cons_append, ← sameOthers]
        rfl
  rw [typeArguments, Reader.read_named] at reads
  obtain ⟨_, inside, readsOpening, reads⟩ := Reader.read_bind_eq_some_iff.mp reads
  obtain ⟨_, middle, readsTypes, reads⟩ := Reader.read_bind_eq_some_iff.mp reads
  obtain ⟨_, closing, readsOthers, readsClosing⟩ := Reader.read_bind_eq_some_iff.mp reads
  obtain rfl : closing = ')' :: rest := by
    obtain ⟨_, taken, same⟩ := Option.map_eq_some_iff.mp readsClosing
    cases same
    exact (List.isPrefixOf?_eq_some_iff_append_eq.mp taken).symm
  have recognisesTypes := Recognises.typeAlternatives recognises
  have chain := recognisesTypes.chain (by decide) readsOthers (List.cons_ne_nil _ _)
  obtain ⟨types, rfl, isTypes⟩ :=
    recognisesTypes readsTypes (chain.ne_nil (by decide) (List.cons_ne_nil _ _))
  obtain ⟨arguments, same, isArguments⟩ := arguments_of_chain isTypes chain
  rw [same] at readsOpening
  obtain ⟨first, others, rfl, _⟩ := isArguments.exists_isUpper
  obtain ⟨gap, rfl, isGap⟩ := exists_of_read_symbol readsOpening (List.cons_ne_nil _ _)
  exact ⟨gap, _, rfl, isGap, isArguments⟩

end Recognition

theorem exists_of_typeNameWithin_eq_some (depth : Nat) :
    (typeNameWithin depth).Ensures fun text _ rest => ∃ taken, text = taken ++ rest ∧
      TypeText IsGap .name taken ∧ ¬Fuses taken rest := by
  induction depth with
  | zero =>
      intro text _ rest impossible
      cases impossible
  | succ depth recognises =>
      intro text _ rest reads
      rw [typeNameWithin, Reader.read_named] at reads
      obtain ⟨_, middle, readsPath, reads⟩ := Reader.read_bind_eq_some_iff.mp reads
      obtain ⟨arguments, last, readsArguments, same⟩ := Reader.read_bind_eq_some_iff.mp reads
      cases same
      rw [Reader.read_named] at readsPath
      obtain ⟨_, found, same⟩ := Option.map_eq_some_iff.mp readsPath
      cases same
      obtain ⟨path, rfl, isPath, avoids⟩ := Scan.exists_of_typePath_eq_some found
      have recognisesName : (typeNameWithin depth).Ensures fun text _ rest =>
          ∃ taken, text = taken ++ rest ∧ TypeText IsGap .name taken := by
        intro _ _ _ reads
        obtain ⟨taken, same, isName, _⟩ := recognises reads
        exact ⟨taken, same, isName⟩
      have ensures : (typeArguments fun _ => typeNameWithin depth).Ensures fun text _ rest =>
          ∃ gap arguments, text = '(' :: (gap ++ (arguments ++ rest)) ∧ IsGap gap ∧
            TypeText IsGap .arguments arguments :=
        fun _ _ _ reads => exists_of_typeArguments recognisesName reads
      rcases Reader.Ensures.optional ensures readsArguments with
        ⟨_, rfl⟩ | ⟨_, _, gap, inside, rfl, isGap, isInside⟩
      · exact ⟨path, rfl, .path isPath, Fuses.not_of_avoids avoids⟩
      · refine ⟨path ++ '(' :: (gap ++ inside), by simp, .applied isPath isGap isInside, ?_⟩
        obtain ⟨others, rfl⟩ := isInside.exists_closing
        rw [← List.cons_append, ← List.append_assoc, ← List.append_assoc]
        exact Fuses.not_of_mark (by decide)

/-- The text that a type name is read from, and nothing else, is the text of one. -/
theorem read_typeName_eq_some_iff {text : String} :
    typeName.read text.toList = some (text, []) ↔ TypeText IsGap .name text.toList := by
  constructor
  · intro reads
    rw [read_typeName] at reads
    obtain ⟨⟨_, left⟩, readsWithin, same⟩ := Option.map_eq_some_iff.mp reads
    cases congrArg Prod.snd same
    obtain ⟨taken, same, isName, _⟩ := exists_of_typeNameWithin_eq_some _ readsWithin
    rw [List.append_nil] at same
    rwa [same]
  · intro isName
    have reads :=
      @read_typeName_append text.toList [] isName (Fuses.not_of_avoids Avoids.nil) Avoids.nil
    rwa [List.append_nil, String.ofList_toList] at reads

end Grammar

end MultiDispatch.Manifest
