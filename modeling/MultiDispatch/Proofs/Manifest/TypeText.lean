import MultiDispatch.Manifest.Grammar
import MultiDispatch.Proofs.Manifest.Locality
import MultiDispatch.Proofs.Manifest.Reading

/-!
# The text of a type

A type name is a path, or a path with arguments in parentheses: alternatives
between bars, the lists of them between commas.  Gaps stand inside the
parentheses only.  The main statement says that the readers take such a text
whole, however deep its arguments nest.
-/

namespace MultiDispatch.Manifest

/-- What is written: one name, alternatives, or arguments with the parenthesis
that closes them. -/
inductive TypePart where
  | name
  | alternatives
  | arguments

/-- The text of a part, where gaps are filled with what `Fills` allows. -/
inductive TypeText (Fills : List Char → Prop) : TypePart → List Char → Prop where
  | path {path : List Char} (isPath : Scan.typePath path = some []) : TypeText Fills .name path
  | applied {path gap arguments : List Char} (isPath : Scan.typePath path = some [])
      (fills : Fills gap) (isArguments : TypeText Fills .arguments arguments) :
      TypeText Fills .name (path ++ '(' :: (gap ++ arguments))
  | only {name gap : List Char} (isName : TypeText Fills .name name) (fills : Fills gap) :
      TypeText Fills .alternatives (name ++ gap)
  | either {name before behind others : List Char} (isName : TypeText Fills .name name)
      (fillsBefore : Fills before) (fillsBehind : Fills behind)
      (isOthers : TypeText Fills .alternatives others) :
      TypeText Fills .alternatives (name ++ (before ++ '|' :: (behind ++ others)))
  | last {types : List Char} (isTypes : TypeText Fills .alternatives types) :
      TypeText Fills .arguments (types ++ [')'])
  | next {types gap others : List Char} (isTypes : TypeText Fills .alternatives types)
      (fills : Fills gap) (isOthers : TypeText Fills .arguments others) :
      TypeText Fills .arguments (types ++ ',' :: (gap ++ others))

namespace TypeText

variable {Fills : List Char → Prop} {part : TypePart} {text : List Char}

theorem mono {Weaker : List Char → Prop} (weaker : ∀ gap, Fills gap → Weaker gap)
    (isText : TypeText Fills part text) : TypeText Weaker part text := by
  induction isText with
  | path isPath => exact .path isPath
  | applied isPath fills _ inductionHypothesis =>
      exact .applied isPath (weaker _ fills) inductionHypothesis
  | only _ fills inductionHypothesis => exact .only inductionHypothesis (weaker _ fills)
  | either _ fillsBefore fillsBehind _ nameHypothesis othersHypothesis =>
      exact .either nameHypothesis (weaker _ fillsBefore) (weaker _ fillsBehind) othersHypothesis
  | last _ inductionHypothesis => exact .last inductionHypothesis
  | next _ fills _ typesHypothesis othersHypothesis =>
      exact .next typesHypothesis (weaker _ fills) othersHypothesis

/-- Every part begins with the capital letter of a path. -/
theorem exists_isUpper (isText : TypeText Fills part text) :
    ∃ first others, text = first :: others ∧ first.isUpper := by
  induction isText with
  | path isPath =>
      obtain ⟨first, others, rfl, upper⟩ := Scan.exists_of_typePath isPath
      exact ⟨first, others, rfl, upper⟩
  | applied isPath _ _ _ =>
      obtain ⟨first, others, rfl, upper⟩ := Scan.exists_of_typePath isPath
      exact ⟨first, _, rfl, upper⟩
  | only _ _ inductionHypothesis =>
      obtain ⟨first, others, rfl, upper⟩ := inductionHypothesis
      exact ⟨first, _, rfl, upper⟩
  | either _ _ _ _ inductionHypothesis _ =>
      obtain ⟨first, others, rfl, upper⟩ := inductionHypothesis
      exact ⟨first, _, rfl, upper⟩
  | last _ inductionHypothesis =>
      obtain ⟨first, others, rfl, upper⟩ := inductionHypothesis
      exact ⟨first, _, rfl, upper⟩
  | next _ _ _ inductionHypothesis _ =>
      obtain ⟨first, others, rfl, upper⟩ := inductionHypothesis
      exact ⟨first, _, rfl, upper⟩

theorem exists_closing (isText : TypeText Fills .arguments text) :
    ∃ others, text = others ++ [')'] := by
  generalize same : TypePart.arguments = part at isText
  induction isText with
  | last => exact ⟨_, rfl⟩
  | @next types gap _ _ _ _ _ inductionHypothesis =>
      obtain ⟨others, rfl⟩ := inductionHypothesis same
      exact ⟨types ++ ',' :: (gap ++ others), by simp⟩
  | path | applied | only | either => cases same

end TypeText

namespace Grammar

theorem read_typeName (text : List Char) :
    typeName.read text = ((typeNameWithin (text.length + 1)).read text).map fun (_, rest) =>
      (String.ofList (text.take (text.length - rest.length)), rest) := rfl

section Symbols

variable {symbolText : String} {gap tail : List Char}

theorem read_symbol (isGap : IsGap gap) (settled : Avoids OpensGap tail) :
    (symbol symbolText).read (symbolText.toList ++ (gap ++ tail)) = some ((), tail) := by
  simp [symbol, Scan.exactly_append, isGap.skipGap_append settled]

theorem read_symbol_eq_none (nonempty : symbolText ≠ "")
    (avoids : Avoids (· ∈ symbolText.toList) tail) : (symbol symbolText).read tail = none := by
  have empty : Scan.exactly symbolText [] = none := by
    rw [Scan.exactly]
    cases same : symbolText.toList with
    | nil => exact absurd (String.toList_eq_nil_iff.mp same) nonempty
    | cons => rfl
  simp [symbol, (Scan.isLocal_exactly symbolText).eq_none empty avoids]

theorem length_lt_of_read_symbol (nonempty : symbolText ≠ "") {text rest : List Char}
    (reads : (symbol symbolText).read text = some ((), rest)) : rest.length < text.length := by
  simp only [symbol, Reader.read_seqLeft, Reader.read_exactly, Reader.read_gap, Option.map_some,
    Option.bind_eq_some_iff, Option.map_eq_some_iff] at reads
  obtain ⟨_, ⟨left, taken, rfl⟩, same⟩ := reads
  cases same
  have notLonger := (skipGap_isSuffix false left).length_le
  rw [Scan.exactly, List.isPrefixOf?_eq_some_iff_append_eq] at taken
  rw [← taken, List.length_append]
  have positive : 0 < symbolText.toList.length :=
    List.length_pos_iff.mpr (by simpa using nonempty)
  dsimp only
  omega

end Symbols

section Separated

variable {α : Type} {separator : String} {item : Reader α} {text rest : List Char} {values : List α}

/-- The values of items with separators between them, up to where neither another
separator nor another item stands. -/
inductive Separated (separator : String) (item : Reader α) :
    List Char → List α → List Char → Prop where
  | only {text rest : List Char} {value : α} (reads : item.read text = some (value, rest))
      (notLonger : rest.length ≤ text.length)
      (ends : (do symbol separator; item : Reader α).read rest = none) :
      Separated separator item text [value] rest
  | next {text middle later rest : List Char} {value : α} {values : List α}
      (reads : item.read text = some (value, middle)) (notLonger : middle.length ≤ text.length)
      (separates : (symbol separator).read middle = some ((), later))
      (more : Separated separator item later values rest) :
      Separated separator item text (value :: values) rest

theorem Separated.exists_read (separated : Separated separator item text values rest)
    (nonempty : separator ≠ "") :
    ∃ first others middle, values = first :: others ∧ item.read text = some (first, middle) ∧
      middle.length ≤ text.length ∧
      (Reader.many do symbol separator; item).read middle = some (others, rest) := by
  induction separated with
  | only reads notLonger ends =>
      exact ⟨_, _, _, rfl, reads, notLonger, Reader.read_many_of_none ends⟩
  | next reads notLonger separates _ inductionHypothesis =>
      obtain ⟨second, others, last, rfl, readsSecond, lastNotLonger, readsOthers⟩ :=
        inductionHypothesis
      refine ⟨_, _, _, rfl, reads, notLonger, Reader.read_many_of_some ?_ ?_ readsOthers⟩
      · rw [Reader.read_bind_of_some separates, readsSecond]
      · exact Nat.lt_of_le_of_lt lastNotLonger (length_lt_of_read_symbol nonempty separates)

theorem Separated.read_typeAlternatives {name : Reader α}
    (separated : Separated "|" (name <* Reader.gap) text values rest) :
    (typeAlternatives name).read text = some (values, rest) := by
  obtain ⟨first, others, middle, rfl, reads, _, readsOthers⟩ := separated.exists_read (by decide)
  rw [typeAlternatives, Reader.read_named, Reader.read_bind_of_some reads,
    Reader.read_bind_of_some readsOthers]
  rfl

theorem Separated.read_typeArguments {name : Unit → Reader α} {inside : List Char}
    {types : List (List α)} (opens : (symbol "(").read text = some ((), inside))
    (separated : Separated "," (typeAlternatives (name ())) inside types (')' :: rest)) :
    (typeArguments name).read text = some ((), rest) := by
  obtain ⟨first, others, middle, rfl, reads, _, readsOthers⟩ := separated.exists_read (by decide)
  rw [typeArguments, Reader.read_named, Reader.read_bind_of_some opens,
    Reader.read_bind_of_some reads,
    Reader.read_bind_of_some readsOthers]
  rfl

end Separated

end Grammar

/-- What cannot stand behind a type name. -/
def ContinuesTypeName (character : Char) : Prop := character = ':' ∨ character = '('

theorem not_continuesTypeName_of_opensGap {character : Char} (opens : OpensGap character) :
    ¬ContinuesTypeName character := by
  rcases opens with (rfl | rfl | rfl | rfl) | rfl <;> simp [ContinuesTypeName]

theorem not_isWordChar_of_opensGap {character : Char} (opens : OpensGap character) :
    ¬Scan.isWordChar character := by
  rcases opens with (rfl | rfl | rfl | rfl) | rfl <;> simp [Scan.isWordChar]

theorem not_opensGap_of_isUpper {character : Char} (upper : character.isUpper) :
    ¬OpensGap character := by
  rintro ((rfl | rfl | rfl | rfl) | rfl) <;> cases upper

theorem TypeText.settled {Fills : List Char → Prop} {part : TypePart} {text : List Char}
    (isText : TypeText Fills part text) (tail : List Char) : Avoids OpensGap (text ++ tail) := by
  obtain ⟨first, others, rfl, upper⟩ := isText.exists_isUpper
  exact Avoids.cons_iff.mpr (not_opensGap_of_isUpper upper)

namespace Grammar

theorem read_typeNameWithin_succ {depth : Nat} {text middle rest : List Char}
    {arguments : Option Unit}
    (taken : Scan.typePath text = some middle)
    (reads : (Reader.optional (typeArguments fun _ => typeNameWithin depth)).read middle =
      some (arguments, rest)) :
    (typeNameWithin (depth + 1)).read text = some ((), rest) := by
  have readsPath :
      (Reader.named .typePath (.scan Scan.typePath)).read text = some ((), middle) := by
    rw [Reader.read_named, Reader.read_scan, taken]
    rfl
  rw [typeNameWithin, Reader.read_named, Reader.read_bind_of_some readsPath,
    Reader.read_bind_of_some reads]
  rfl

/-- How readers take a part in front of what can follow it. -/
def ReadsPart : TypePart → List Char → Prop
  | .name, text => ∀ ⦃depth : Nat⦄ ⦃rest : List Char⦄, text.length ≤ depth → ¬Fuses text rest →
      Avoids ContinuesTypeName rest → (typeNameWithin depth).read (text ++ rest) = some ((), rest)
  | .alternatives, text => ∀ ⦃depth : Nat⦄ ⦃mark : Char⦄ ⦃rest : List Char⦄, text.length ≤ depth →
      mark ∈ [',', ')'] →
      ∃ names, Separated "|" (typeNameWithin depth <* Reader.gap) (text ++ mark :: rest) names
        (mark :: rest)
  | .arguments, text => ∀ ⦃depth : Nat⦄ ⦃rest : List Char⦄, text.length ≤ depth →
      ∃ types, Separated "," (typeAlternatives (typeNameWithin depth)) (text ++ rest) types
        (')' :: rest)

theorem readsPart_path {path : List Char} (isPath : Scan.typePath path = some []) :
    ReadsPart .name path := by
  intro depth rest deep apart avoids
  cases depth with
  | zero =>
      rw [List.length_eq_zero_iff.mp (Nat.le_zero.mp deep)] at isPath
      cases isPath
  | succ depth =>
      have noWord := Fuses.avoids_of_not apart (Scan.any_getLast?_of_typePath isPath)
      have ends : Avoids Scan.ContinuesPath rest := fun character isNext continues =>
        continues.elim (noWord character isNext) fun colon => avoids character isNext (.inl colon)
      have noParenthesis : (symbol "(").read rest = none :=
        read_symbol_eq_none (by decide)
          (avoids.mono fun _ inside => .inr (List.mem_singleton.mp inside))
      have noArguments : (typeArguments fun _ => typeNameWithin depth).read rest = none := by
        rw [typeArguments, Reader.read_named, Reader.read_bind_of_none noParenthesis]
      exact read_typeNameWithin_succ (Scan.isLocal_typePath.eq_some isPath ends)
        (Reader.read_optional_of_none noArguments)

theorem readsPart_applied {path gap arguments : List Char} (isPath : Scan.typePath path = some [])
    (isGap : IsGap gap) (isArguments : TypeText IsGap .arguments arguments)
    (readsArguments : ReadsPart .arguments arguments) :
    ReadsPart .name (path ++ '(' :: (gap ++ arguments)) := by
  intro depth rest deep _ _
  simp only [List.length_append, List.length_cons] at deep
  cases depth with
  | zero => omega
  | succ depth =>
      obtain ⟨types, separated⟩ := @readsArguments depth rest (by omega)
      have opens : (symbol "(").read ('(' :: (gap ++ (arguments ++ rest))) =
          some ((), arguments ++ rest) :=
        read_symbol isGap (isArguments.settled rest)
      have ends : Avoids Scan.ContinuesPath ('(' :: (gap ++ (arguments ++ rest))) :=
        Avoids.cons_iff.mpr (by simp [Scan.ContinuesPath, Scan.isWordChar])
      rw [List.append_assoc, List.cons_append, List.append_assoc]
      exact read_typeNameWithin_succ (Scan.isLocal_typePath.eq_some isPath ends)
        (Reader.read_optional_of_some
          (separated.read_typeArguments opens))

/-- A name with the gap behind it, in front of a mark. -/
theorem read_name_gap {name gap rest : List Char} {mark : Char} {depth : Nat}
    (readsName : ReadsPart .name name) (deep : name.length ≤ depth) (isGap : IsGap gap)
    (isMark : mark ∈ ['|', ',', ')']) :
    (typeNameWithin depth <* Reader.gap).read (name ++ (gap ++ mark :: rest)) =
      some ((), mark :: rest) := by
  have ends : ∀ mark ∈ ['|', ',', ')'], ¬OpensGap mark ∧ ¬ContinuesTypeName mark ∧
      ¬Scan.isWordChar mark := by
    simp [OpensGap, IsSpacing, IsLineEnd, ContinuesTypeName, Scan.isWordChar]
  obtain ⟨settled, noName, noWord⟩ := ends mark isMark
  have apart : ¬Fuses name (gap ++ mark :: rest) := Fuses.not_of_avoids
    (isGap.avoids_append (fun _ => not_isWordChar_of_opensGap) fun _ => Avoids.cons_iff.mpr noWord)
  have avoids : Avoids ContinuesTypeName (gap ++ mark :: rest) :=
    isGap.avoids_append (fun _ => not_continuesTypeName_of_opensGap) fun _ =>
      Avoids.cons_iff.mpr noName
  simp [readsName deep apart avoids, isGap.skipGap_append (Avoids.cons_iff.mpr settled)]

theorem readsPart_of_typeText {part : TypePart} {text : List Char}
    (isText : TypeText IsGap part text) :
    ReadsPart part text := by
  induction isText with
  | path isPath => exact readsPart_path isPath
  | applied isPath isGap isArguments readsArguments =>
      exact readsPart_applied isPath isGap isArguments readsArguments
  | only _ isGap readsName =>
      intro depth mark rest deep isMark
      rw [List.length_append] at deep
      have noBar : ∀ mark ∈ [',', ')'], mark ∉ "|".toList := by simp
      have ends : (symbol "|").read (mark :: rest) = none :=
        read_symbol_eq_none (by decide) (Avoids.cons_iff.mpr (noBar mark isMark))
      refine ⟨[()], .only ?_ ?_ (Reader.read_bind_of_none ends)⟩
      · rw [List.append_assoc]
        exact read_name_gap readsName (by omega) isGap (List.mem_cons_of_mem _ isMark)
      · simp only [List.length_append]
        omega
  | @either _ _ behind others _ isGapBefore isGapBehind isOthers readsName readsOthers =>
      intro depth mark rest deep isMark
      simp only [List.length_append, List.length_cons] at deep
      obtain ⟨names, separated⟩ := @readsOthers depth mark rest (by omega) isMark
      have bar : (symbol "|").read ('|' :: (behind ++ (others ++ mark :: rest))) =
          some ((), others ++ mark :: rest) :=
        read_symbol isGapBehind (isOthers.settled _)
      refine ⟨() :: names, .next ?_ ?_ bar separated⟩
      · simp only [List.append_assoc, List.cons_append]
        exact read_name_gap readsName (by omega) isGapBefore List.mem_cons_self
      · simp only [List.length_append, List.length_cons]
        omega
  | last _ readsTypes =>
      intro depth rest deep
      rw [List.length_append] at deep
      obtain ⟨names, separated⟩ := @readsTypes depth ')' rest (by omega) (by decide)
      have ends : (symbol ",").read (')' :: rest) = none :=
        read_symbol_eq_none (by decide) (Avoids.cons_iff.mpr (by decide))
      refine ⟨[names], .only ?_ (by simp) (Reader.read_bind_of_none ends)⟩
      rw [List.append_assoc]
      exact separated.read_typeAlternatives
  | @next _ gap others _ isGap isOthers readsTypes readsOthers =>
      intro depth rest deep
      simp only [List.length_append, List.length_cons] at deep
      obtain ⟨names, separated⟩ :=
        @readsTypes depth ',' (gap ++ (others ++ rest)) (by omega) (by decide)
      obtain ⟨moreTypes, separatedMore⟩ := @readsOthers depth rest (by omega)
      have comma : (symbol ",").read (',' :: (gap ++ (others ++ rest))) =
          some ((), others ++ rest) :=
        read_symbol isGap (isOthers.settled rest)
      refine ⟨names :: moreTypes, .next ?_ (by simp) comma separatedMore⟩
      simp only [List.append_assoc, List.cons_append]
      exact separated.read_typeAlternatives

/-- A type name is read as it is written. -/
theorem read_typeName_append {name rest : List Char} (isName : TypeText IsGap .name name)
    (apart : ¬Fuses name rest) (ends : Avoids ContinuesTypeName rest) :
    typeName.read (name ++ rest) = some (String.ofList name, rest) := by
  have reads : (typeNameWithin ((name ++ rest).length + 1)).read (name ++ rest) = some ((), rest) :=
    readsPart_of_typeText isName (by rw [List.length_append]; omega) apart ends
  rw [read_typeName, reads]
  simp

end Grammar

end MultiDispatch.Manifest
