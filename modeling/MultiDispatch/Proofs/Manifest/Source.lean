import MultiDispatch.Proofs.Manifest.Layout
import MultiDispatch.Proofs.Manifest.Outline
import MultiDispatch.Proofs.Text.Intercalate

/-!
# Sources

A manifest as it is built up from blocks, methods and parameters, before it is
laid out as text.  Every rule of the grammar takes what it stands for wherever
it is laid out, and so the outlines read from a manifest are those of its
source, however its gaps are filled.
-/

namespace MultiDispatch.Manifest

structure ParameterSource where
  name : String
  /-- The alternatives, where the parameter is typed. -/
  types : List String
  default : Option String

structure MethodSource where
  attributes : List String
  name : String
  parameters : List ParameterSource
  /-- A comma behind the last parameter. -/
  trailingComma : Bool
  /-- The alternatives of the result, where it is typed. -/
  returns : List String

structure BlockSource where
  attributes : List String
  name : String
  methods : List MethodSource

def attributeTokens (name : String) : List Token := [.symbol "@[", .name .mark name, .symbol "]"]

def typeTokens : List String → List Token
  | [] => []
  | types => .symbol ":" :: [Token.symbol "|"].intercalate (types.map fun type => [.type type])

theorem mem_typeTokens {types : List String} {type : String} (inside : type ∈ types) :
    .type type ∈ typeTokens types := by
  cases types with
  | nil => cases inside
  | cons =>
      exact List.mem_cons_of_mem _
        (Text.mem_intercalate (List.mem_map_of_mem inside) (List.mem_singleton_self _))

def defaultTokens : Option String → List Token
  | none => []
  | some text => [.symbol "=", .default text]

namespace ParameterSource

def tokens (source : ParameterSource) : List Token :=
  .name .parameter source.name :: (typeTokens source.types ++ defaultTokens source.default)

/-- The constraint that alternatives stand for. -/
def constraint? : List String → Option Constraint
  | [] => none
  | types => some (.ofNames types)

def declared (source : ParameterSource) : Parameter where
  name := source.name
  constraint := constraint? source.types
  hasDefault := source.default.isSome

end ParameterSource

/-- There is a trailing comma only behind a parameter. -/
def parameterTokens (trailingComma : Bool) : List ParameterSource → List Token
  | [] => []
  | parameters => [Token.symbol ","].intercalate (parameters.map ParameterSource.tokens) ++
      if trailingComma then [.symbol ","] else []

theorem mem_parameterTokens {trailingComma : Bool} {parameters : List ParameterSource}
    {parameter : ParameterSource} (isParameter : parameter ∈ parameters) {token : Token}
    (inside : token ∈ parameter.tokens) : token ∈ parameterTokens trailingComma parameters := by
  cases parameters with
  | nil => cases isParameter
  | cons =>
      exact List.mem_append_left _ (Text.mem_intercalate (List.mem_map_of_mem isParameter) inside)

namespace MethodSource

def tokens (source : MethodSource) : List Token :=
  source.attributes.flatMap attributeTokens ++
    .symbol "def" :: .name .method source.name :: .symbol "(" ::
      (parameterTokens source.trailingComma source.parameters ++
        .symbol ")" :: typeTokens source.returns)

/-- The tokens behind the attributes. -/
def bodyTokens (source : MethodSource) : List Token :=
  .symbol "def" :: .name .method source.name :: .symbol "(" ::
    (parameterTokens source.trailingComma source.parameters ++
      .symbol ")" :: typeTokens source.returns)

theorem tokens_eq (source : MethodSource) :
    source.tokens = source.attributes.flatMap attributeTokens ++ source.bodyTokens := rfl

def outline (source : MethodSource) : MethodOutline where
  attributes := source.attributes
  name := source.name
  parameters := source.parameters.map ParameterSource.declared

end MethodSource

namespace BlockSource

def tokens (source : BlockSource) : List Token :=
  source.attributes.flatMap attributeTokens ++
    .symbol "type" :: .name .path source.name :: .symbol "\x7b" ::
      (source.methods.flatMap MethodSource.tokens ++ [.symbol "\x7d"])

/-- The tokens between the attributes of a block and its methods. -/
def headTokens (source : BlockSource) : List Token :=
  [.symbol "type", .name .path source.name, .symbol "\x7b"]

/-- The tokens behind the attributes. -/
def bodyTokens (source : BlockSource) : List Token :=
  source.headTokens ++ (source.methods.flatMap MethodSource.tokens ++ [.symbol "\x7d"])

/-- The tokens before the brace that closes the block. -/
def openTokens (source : BlockSource) : List Token :=
  source.attributes.flatMap attributeTokens ++
    .symbol "type" :: .name .path source.name :: .symbol "\x7b" ::
      source.methods.flatMap MethodSource.tokens

theorem tokens_eq (source : BlockSource) :
    source.tokens = source.openTokens ++ [.symbol "\x7d"] := by
  rw [openTokens, List.append_assoc]
  rfl

def outline (source : BlockSource) : TypeOutline where
  attributes := source.attributes
  name := source.name
  methods := source.methods.map MethodSource.outline

end BlockSource

/-- The text begins with one of these characters. -/
def Begins (characters text : List Char) : Prop :=
  ∃ first ∈ characters, ∃ others, text = first :: others

namespace Begins

variable {characters text : List Char}

theorem avoids {P : Char → Prop} (begins : Begins characters text)
    (apart : ∀ character ∈ characters, ¬P character) : Avoids P text := by
  obtain ⟨first, inside, others, rfl⟩ := begins
  exact Avoids.cons_iff.mpr (apart first inside)

theorem mono {more : List Char} (begins : Begins characters text) (weaker : characters ⊆ more) :
    Begins more text := by
  obtain ⟨first, inside, others, rfl⟩ := begins
  exact ⟨first, weaker inside, others, rfl⟩

end Begins

namespace Grammar

variable {text rest : List Char}

section Lists

variable {α σ γ : Type} {item : Reader α} {tokensOf : σ → List Token} {view : α → γ}
    {expected : σ → γ} {Ends : List Char → Prop}

theorem read_many_of_layout
    (each : ∀ ⦃source text rest⦄, Layout .readable (tokensOf source) text rest →
      Avoids OpensGap rest →
      Ends rest → ∃ value, item.read text = some (value, rest) ∧ view value = expected source)
    (begins : ∀ ⦃source text rest⦄, Layout .readable (tokensOf source) text rest → Ends text)
    (nonempty : ∀ source, tokensOf source ≠ []) {sources : List σ}
    (layout : Layout .readable (sources.flatMap tokensOf) text rest)
    (settled : Avoids OpensGap rest)
    (ends : Ends rest) (stops : item.read rest = none) :
    ∃ values, item.many.read text = some (values, rest) ∧
      values.map view = sources.map expected := by
  induction sources generalizing text with
  | nil =>
      obtain rfl := layout.eq_of_nil
      exact ⟨[], Reader.read_many_of_none stops, rfl⟩
  | cons source sources inductionHypothesis =>
      obtain ⟨middle, first, others⟩ := Layout.append_iff.mp layout
      obtain ⟨values, readsOthers, sameOthers⟩ := inductionHypothesis others
      have endsFirst : Ends middle := by
        cases sources with
        | nil =>
            cases others
            exact ends
        | cons next _ =>
            obtain ⟨_, second, _⟩ := Layout.append_iff.mp others
            exact begins second
      obtain ⟨value, reads, same⟩ := each first (others.settled settled) endsFirst
      refine ⟨value :: values, ?_, by rw [List.map_cons, List.map_cons, same, sameOthers]⟩
      exact Reader.read_many_of_some reads (first.length_lt (nonempty source)) readsOthers

theorem separated_of_layout {separator : String}
    (each : ∀ ⦃source text rest⦄, Layout .readable (tokensOf source) text rest →
      Avoids OpensGap rest →
      Ends rest → ∃ value, item.read text = some (value, rest) ∧ view value = expected source)
    (between : ∀ others, Ends (separator.toList ++ others)) {sources : List σ}
    (nonempty : sources ≠ [])
    (layout :
      Layout .readable ([Token.symbol separator].intercalate (sources.map tokensOf)) text rest)
    (settled : Avoids OpensGap rest) (ends : Ends rest)
    (stops : (do symbol separator; item : Reader α).read rest = none) :
    ∃ values, Separated separator item text values rest ∧
      values.map view = sources.map expected := by
  induction sources generalizing text with
  | nil => contradiction
  | cons source sources inductionHypothesis =>
      cases sources with
      | nil =>
          rw [List.map_singleton, List.intercalate_singleton] at layout
          obtain ⟨value, reads, same⟩ := each layout settled ends
          exact ⟨[value], .only reads layout.length_le stops, by simp [same]⟩
      | cons next sources =>
          rw [List.map_cons, List.map_cons, List.intercalate_cons_cons, List.append_assoc] at layout
          obtain ⟨middle, first, separatorFirst⟩ := Layout.append_iff.mp layout
          obtain ⟨others, rfl⟩ := separatorFirst.exists_of_symbol
          obtain ⟨value, reads, same⟩ :=
            each first (separatorFirst.settled settled) (between others)
          obtain ⟨later, separates, more⟩ := read_symbol_of_layout separatorFirst settled
          obtain ⟨values, separated, sameOthers⟩ := inductionHypothesis (List.cons_ne_nil _ _) more
          refine ⟨value :: values, .next reads first.length_le separates separated, ?_⟩
          rw [List.map_cons, List.map_cons, same, sameOthers]

end Lists

section Rules

theorem begins_of_symbol {mark : String} {tokens : List Token} {others : List Char}
    (layout : Layout .readable (.symbol mark :: tokens) text rest) (first : Char)
    (same : mark.toList = first :: others) : Begins [first] text := by
  obtain ⟨more, rfl⟩ := layout.exists_of_symbol
  exact ⟨first, List.mem_singleton_self first, others ++ more, by rw [same]; rfl⟩

/-- Behind alternatives stands nothing that could go on with them. -/
def EndsTypes (text : List Char) : Prop := Avoids ContinuesTypeName text ∧ Avoids (· = '|') text

theorem read_typeExpression_of_layout {types : List String} (nonempty : types ≠ [])
    (layout : Layout .readable
      ([Token.symbol "|"].intercalate (types.map fun type => [.type type])) text rest)
    (settled : Avoids OpensGap rest) (ends : EndsTypes rest) :
    ∃ names, typeExpression.read text = some (names, rest) ∧
      Constraint.ofNames names = .ofNames types := by
  have each : ∀ ⦃name text rest⦄, Layout .readable [.type name] text rest → Avoids OpensGap rest →
      Avoids ContinuesTypeName rest → ∃ written,
        (typeName <* Reader.gap).read text = some (written, rest) ∧
          Ty.ofName written = Ty.ofName name := by
    intro name text rest layout settled ends
    obtain ⟨written, middle, reads, nothing, same⟩ :=
      read_typeName_of_layout layout settled fun _ nothing => nothing.eq_of_nil ▸ ends
    obtain rfl := nothing.eq_of_nil
    exact ⟨written, reads, same⟩
  have stops : (do symbol "|"; typeName <* Reader.gap : Reader String).read rest = none :=
    Reader.read_bind_of_none (read_symbol_eq_none (by decide)
      (ends.2.mono fun _ inside => List.mem_singleton.mp inside))
  have between : ∀ others, Avoids ContinuesTypeName ("|".toList ++ others) :=
    fun others => Avoids.cons_iff.mpr (by simp [ContinuesTypeName] : ¬ContinuesTypeName '|')
  obtain ⟨names, separated, same⟩ :=
    separated_of_layout each between nonempty layout settled ends.1 stops
  refine ⟨names, separated.read_typeAlternatives, ?_⟩
  rw [Constraint.ofNames, same, Constraint.ofNames]

theorem read_optional_types_of_layout {types : List String}
    (layout : Layout .readable (typeTokens types) text rest) (settled : Avoids OpensGap rest)
    (ends : EndsTypes rest) :
    ∃ found, (Reader.optional do symbol ":"; typeExpression).read text = some (found, rest) ∧
      found.map Constraint.ofNames = ParameterSource.constraint? types := by
  cases types with
  | nil =>
      obtain rfl := layout.eq_of_nil
      have stops : (symbol ":").read rest = none := read_symbol_eq_none (by decide)
        (ends.1.mono fun _ inside => .inl (List.mem_singleton.mp inside))
      exact ⟨none, Reader.read_optional_of_none (Reader.read_bind_of_none stops), rfl⟩
  | cons first others =>
      obtain ⟨middle, colon, types⟩ := read_symbol_of_layout layout settled
      obtain ⟨names, reads, same⟩ :=
        read_typeExpression_of_layout (List.cons_ne_nil first others) types settled ends
      refine ⟨some names, Reader.read_optional_of_some ?_, congrArg some same⟩
      rw [Reader.read_bind_of_some colon, reads]

theorem begins_of_typeTokens {types : List String} {characters : List Char}
    (layout : Layout .readable (typeTokens types) text rest) (begins : Begins characters rest) :
    Begins (':' :: characters) text := by
  cases types with
  | nil =>
      obtain rfl := layout.eq_of_nil
      exact begins.mono (List.subset_cons_self _ _)
  | cons => exact (begins_of_symbol layout ':' rfl).mono (by simp)

theorem begins_of_defaultTokens {default : Option String} {characters : List Char}
    (layout : Layout .readable (defaultTokens default) text rest) 
    (begins : Begins characters rest) :
    Begins ('=' :: characters) text := by
  cases default with
  | none =>
      obtain rfl := layout.eq_of_nil
      exact begins.mono (List.subset_cons_self _ _)
  | some => exact (begins_of_symbol layout '=' rfl).mono (by simp)

theorem read_optional_default_of_layout {source : Option String}
    (layout : Layout .readable (defaultTokens source) text rest) (ends : Begins [',', ')'] rest) :
    ∃ found, (Reader.optional default).read text = some (found, rest) ∧
      found.isSome = source.isSome := by
  have settled : Avoids OpensGap rest := ends.avoids (by simp [OpensGap, IsSpacing, IsLineEnd])
  cases source with
  | none =>
      obtain rfl := layout.eq_of_nil
      have stops : (symbol "=").read rest = none :=
        read_symbol_eq_none (by decide) (ends.avoids (by simp))
      refine ⟨none, Reader.read_optional_of_none ?_, rfl⟩
      rw [default, Reader.read_named, Reader.read_bind_of_none stops]
  | some content =>
      obtain ⟨middle, equals, more⟩ := read_symbol_of_layout layout settled
      have stops : Scan.defaultItem rest = none := by
        obtain ⟨first, inside, others, rfl⟩ := ends
        rcases List.mem_pair.mp inside with rfl | rfl <;> rfl
      obtain ⟨taken, last, reads, nothing⟩ :=
        read_default_of_layout more settled fun _ nothing => nothing.eq_of_nil ▸ stops
      obtain rfl := nothing.eq_of_nil
      refine ⟨some taken, Reader.read_optional_of_some ?_, rfl⟩
      rw [default, Reader.read_named, Reader.read_bind_of_some equals, reads]

theorem read_parameter_of_layout {source : ParameterSource}
    (layout : Layout .readable source.tokens text rest) (ends : Begins [',', ')'] rest) :
    ∃ node, parameter.read text = some (node, rest) ∧ node.declared = source.declared := by
  have settled : Avoids OpensGap rest := ends.avoids (by simp [OpensGap, IsSpacing, IsLineEnd])
  have beginsTypes : ∀ middle,
      Layout .readable (typeTokens source.types ++ defaultTokens source.default)
      middle rest → Begins [':', '=', ',', ')'] middle := by
    intro middle layout
    obtain ⟨between, types, content⟩ := Layout.append_iff.mp layout
    exact begins_of_typeTokens types (begins_of_defaultTokens content ends)
  obtain ⟨behindName, readsName, more⟩ :=
    @read_name_of_layout _ _ _ .parameterName _ _ layout settled
    fun middle layout => (beginsTypes middle layout).avoids
      (by simp [NameKind.Continues, Scan.isWordChar])
  change (token .parameterName Scan.parameterName).read text = _ at readsName
  obtain ⟨behindTypes, types, content⟩ := Layout.append_iff.mp more
  have beginsDefault := begins_of_defaultTokens content ends
  obtain ⟨found, readsTypes, sameConstraint⟩ :=
    read_optional_types_of_layout types (content.settled settled)
      ⟨beginsDefault.avoids (by simp [ContinuesTypeName]), beginsDefault.avoids (by simp)⟩
  obtain ⟨foundDefault, readsDefault, sameDefault⟩ := read_optional_default_of_layout content ends
  have readsGap : Reader.gap.read rest = some ((), rest) := by
    rw [Reader.read_gap, skipGap_of_avoids settled]
  refine ⟨⟨source.name, found, foundDefault⟩, ?_, ?_⟩
  · rw [parameter, Reader.read_named, Reader.read_bind_of_some readsName,
      Reader.read_bind_of_some readsTypes, Reader.read_bind_of_some readsDefault,
      Reader.read_bind_of_some readsGap]
    rfl
  · simp [ParameterNode.declared, ParameterSource.declared, sameConstraint, sameDefault]

theorem read_parameter_eq_none (begins : Begins [')'] rest) : parameter.read rest = none := by
  obtain ⟨_, inside, others, rfl⟩ := begins
  obtain rfl := List.mem_singleton.mp inside
  have stops : (token .parameterName Scan.parameterName).read (')' :: others) = none := rfl
  rw [parameter, Reader.read_named, Reader.read_bind_of_none stops]

theorem read_optional_parameters_of_layout {sources : List ParameterSource} {trailingComma : Bool}
    (layout : Layout .readable (parameterTokens trailingComma sources) text rest)
    (ends : Begins [')'] rest) :
    ∃ found, (Reader.optional parameters).read text = some (found, rest) ∧
      (found.getD []).map ParameterNode.declared = sources.map ParameterSource.declared := by
  have settled : Avoids OpensGap rest := ends.avoids (by simp [OpensGap, IsSpacing, IsLineEnd])
  cases sources with
  | nil =>
      obtain rfl := layout.eq_of_nil
      refine ⟨none, Reader.read_optional_of_none ?_, rfl⟩
      rw [parameters, Reader.read_named, Reader.read_bind_of_none (read_parameter_eq_none ends)]
  | cons first others =>
      obtain ⟨middle, all, trailing⟩ := Layout.append_iff.mp layout
      obtain ⟨endsAll, stops, comma, readsComma⟩ :
          Begins [',', ')'] middle ∧
            (do symbol ","; parameter : Reader ParameterNode).read middle = none ∧
            ∃ comma, (Reader.optional (symbol ",")).read middle = some (comma, rest) := by
        cases trailingComma with
        | false =>
            obtain rfl := trailing.eq_of_nil
            have noComma : (symbol ",").read rest = none :=
              read_symbol_eq_none (by decide) (ends.avoids (by simp))
            exact ⟨ends.mono (by simp), Reader.read_bind_of_none noComma, _,
              Reader.read_optional_of_none noComma⟩
        | true =>
            obtain ⟨last, reads, nothing⟩ := read_symbol_of_layout trailing settled
            obtain rfl := nothing.eq_of_nil
            refine ⟨(begins_of_symbol trailing ',' rfl).mono (by simp), ?_, _,
              Reader.read_optional_of_some reads⟩
            rw [Reader.read_bind_of_some reads, read_parameter_eq_none ends]
      obtain ⟨nodes, separated, same⟩ := separated_of_layout
        (fun _ _ _ layout _ ends => read_parameter_of_layout layout ends)
        (fun others => ⟨',', by simp, others, rfl⟩) (List.cons_ne_nil first others) all
        (trailing.settled settled) endsAll stops
      obtain ⟨head, tail, between, rfl, readsFirst, _, readsOthers⟩ :=
        separated.exists_read (by decide)
      refine ⟨some (head :: tail), Reader.read_optional_of_some ?_, same⟩
      rw [parameters, Reader.read_named, Reader.read_bind_of_some readsFirst,
        Reader.read_bind_of_some readsOthers, Reader.read_bind_of_some readsComma]
      rfl

theorem read_mark_of_layout {name : String}
    (layout : Layout .readable (attributeTokens name) text rest)
    (settled : Avoids OpensGap rest) :
    ∃ node, (mark <* Reader.gap).read text = some (node, rest) ∧ node.name = name := by
  obtain ⟨inside, opens, more⟩ := read_symbol_of_layout layout settled
  cases more with
  | @cons _ _ _ nameGap closing _ isName allowsName _ more =>
      have bracketFirst := begins_of_symbol more ']' rfl
      cases more with
      | @cons _ _ _ gap _ _ isBracket allows _ nothing =>
          obtain rfl := nothing.eq_of_nil
          obtain ⟨isName, rfl⟩ := isName
          obtain ⟨_, rfl⟩ := isBracket
          have taken := Reader.read_taken_scan (NameKind.scan_append isName allowsName.isGap
            (bracketFirst.avoids (by simp [NameKind.Continues, Scan.isWordChar])))
          rw [String.ofList_toList, ← Reader.read_named .attributeName] at taken
          obtain ⟨extent, readsName⟩ :
              ∃ extent, (Reader.located _).read _ = some ((name, extent), _) :=
            ⟨_, Reader.read_located_of_some taken⟩
          have readsGap : Reader.gap.read (nameGap ++ ("]".toList ++ (gap ++ rest))) =
              some ((), "]".toList ++ (gap ++ rest)) := by
            rw [Reader.read_gap, allowsName.isGap.skipGap_append
              (bracketFirst.avoids (by simp [OpensGap, IsSpacing, IsLineEnd]))]
          have closes : (Reader.exactly "]").read ("]".toList ++ (gap ++ rest)) =
              some ((), gap ++ rest) := by
            rw [Reader.read_exactly, Scan.exactly_append]
            rfl
          have reads : mark.read text = some (⟨name, extent⟩, gap ++ rest) := by
            rw [mark, Reader.read_named, Reader.read_bind_of_some opens]
            rw [NameKind.scan] at readsName
            rw [Reader.read_bind_of_some readsName, Reader.read_bind_of_some readsGap,
              Reader.read_bind_of_some closes]
            rfl
          refine ⟨⟨name, extent⟩, ?_, rfl⟩
          simp [reads, allows.isGap.skipGap_append settled]

theorem read_mark_gap_eq_none (noMark : Avoids (· ∈ "@[".toList) rest) :
    (mark <* Reader.gap).read rest = none := by
  rw [Reader.read_seqLeft, mark, Reader.read_named,
    Reader.read_bind_of_none (read_symbol_eq_none (by decide) noMark)]
  rfl

theorem read_marks_of_layout {names : List String}
    (layout : Layout .readable (names.flatMap attributeTokens) text rest)
    (settled : Avoids OpensGap rest)
    (ends : Begins ['d', 't'] rest) :
    ∃ nodes, (Reader.many (mark <* Reader.gap)).read text = some (nodes, rest) ∧
      nodes.map AttributeNode.name = names := by
  have stops : (mark <* Reader.gap).read rest = none :=
    read_mark_gap_eq_none (ends.avoids (by simp))
  obtain ⟨nodes, reads, same⟩ :=
    @read_many_of_layout _ _ _ _ _ _ attributeTokens AttributeNode.name id
    (fun _ => True) (fun _ _ _ layout settled _ => read_mark_of_layout layout settled)
    (fun _ _ _ _ => trivial) (fun _ => List.cons_ne_nil _ _) _ layout settled trivial stops
  exact ⟨nodes, reads, by rw [same, List.map_id]⟩

theorem begins_of_marks {names : List String} {characters : List Char}
    (layout : Layout .readable (names.flatMap attributeTokens) text rest)
    (begins : Begins characters rest) :
    Begins ('@' :: characters) text := by
  cases names with
  | nil =>
      obtain rfl := layout.eq_of_nil
      exact begins.mono (List.subset_cons_self _ _)
  | cons => exact (begins_of_symbol layout '@' rfl).mono (by simp)

theorem read_method_of_layout {source : MethodSource}
    (layout : Layout .readable source.tokens text rest)
    (ends : Begins ['@', 'd', '\x7d'] rest) :
    ∃ node, method.read text = some (node, rest) ∧ node.outline = source.outline := by
  have settled : Avoids OpensGap rest := ends.avoids (by simp [OpensGap, IsSpacing, IsLineEnd])
  obtain ⟨behindMarks, marks, more⟩ := Layout.append_iff.mp layout
  obtain ⟨nodes, readsMarks, sameMarks⟩ := read_marks_of_layout marks (more.settled settled)
    ((begins_of_symbol more 'd' rfl).mono (by simp))
  obtain ⟨behindKeyword, readsKeyword, more⟩ :=
    @read_keyword_of_layout _ _ _ .methodKeyword "def" (by decide) more settled
  obtain ⟨behindName, readsName, more⟩ :=
    @read_name_of_layout _ _ _ .methodName .method _ more settled
    fun middle layout => (begins_of_symbol layout '(' rfl).avoids (by
      simp [NameKind.Continues, Scan.ContinuesName, Scan.isWordChar, Scan.operators])
  change (token .methodName Scan.methodName).read behindKeyword = _ at readsName
  obtain ⟨inside, opens, more⟩ := read_symbol_of_layout more settled
  obtain ⟨behindParameters, parameters, more⟩ := Layout.append_iff.mp more
  obtain ⟨found, readsParameters, sameParameters⟩ :=
    read_optional_parameters_of_layout parameters (begins_of_symbol more ')' rfl)
  obtain ⟨behind, closes, returns⟩ := read_symbol_of_layout more settled
  obtain ⟨types, readsReturns, _⟩ := read_optional_types_of_layout returns settled
    ⟨ends.avoids (by simp [ContinuesTypeName]), ends.avoids (by simp)⟩
  rw [← Reader.read_optional_named .returnType] at readsReturns
  change returnType.optional.read behind = _ at readsReturns
  refine ⟨⟨nodes, source.name, found.getD []⟩, ?_, ?_⟩
  · rw [method, Reader.read_named, Reader.read_bind_of_some readsMarks,
      Reader.read_bind_of_some readsKeyword, Reader.read_bind_of_some readsName,
      Reader.read_bind_of_some opens, Reader.read_bind_of_some readsParameters,
      Reader.read_bind_of_some closes, Reader.read_bind_of_some readsReturns]
    rfl
  · simp [MethodNode.outline, MethodSource.outline, sameMarks, sameParameters]

theorem begins_of_method {source : MethodSource}
    (layout : Layout .readable source.tokens text rest) :
    Begins ['@', 'd'] text := by
  obtain ⟨middle, marks, more⟩ := Layout.append_iff.mp layout
  exact begins_of_marks marks (begins_of_symbol more 'd' rfl)

/-- Where no attribute and no keyword stands, no item begins. -/
theorem read_marks_keyword_eq_none {α : Type} {rule : Rule} {keywordText : String}
    {next : List AttributeNode → Unit → Reader α} (noMark : Avoids (· ∈ "@[".toList) rest)
    (noKeyword : Scan.keyword keywordText rest = none) :
    (do let attributes ← Reader.many (mark <* Reader.gap)
        let found ← keyword rule keywordText
        next attributes found : Reader α).read rest = none := by
  have fails : (keyword rule keywordText).read rest = none := by simp [keyword, noKeyword]
  rw [Reader.read_bind_of_some (Reader.read_many_of_none (read_mark_gap_eq_none noMark)),
    Reader.read_bind_of_none fails]

/-- A block ends at its brace, whatever stands behind it. -/
theorem read_typeDecl_of_layout {source : BlockSource} {behind : List Char}
    (layout : Layout .readable source.openTokens text ('\x7d' :: behind)) :
    ∃ node, typeDecl.read text = some (node, behind) ∧ node.outline = source.outline := by
  have settled : Avoids OpensGap ('\x7d' :: behind) :=
    Avoids.cons_iff.mpr (by simp [OpensGap, IsSpacing, IsLineEnd])
  obtain ⟨behindMarks, marks, more⟩ := Layout.append_iff.mp layout
  obtain ⟨nodes, readsMarks, sameMarks⟩ := read_marks_of_layout marks (more.settled settled)
    ((begins_of_symbol more 't' rfl).mono (by simp))
  obtain ⟨behindKeyword, readsKeyword, more⟩ :=
    @read_keyword_of_layout _ _ _ .typeKeyword "type" (by decide) more settled
  obtain ⟨behindName, readsName, more⟩ := @read_name_of_layout _ _ _ .typePath .path _ more settled
    fun middle layout => (begins_of_symbol layout '\x7b' rfl).avoids (by
      simp [NameKind.Continues, Scan.ContinuesPath, Scan.isWordChar])
  change (token .typePath Scan.typePath).read behindKeyword = _ at readsName
  obtain ⟨inside, opens, methods⟩ := read_symbol_of_layout more settled
  have stops : method.read ('\x7d' :: behind) = none := by
    rw [method, Reader.read_named]
    exact read_marks_keyword_eq_none (Avoids.cons_iff.mpr (by decide)) rfl
  obtain ⟨found, readsMethods, sameMethods⟩ := read_many_of_layout
    (fun _ _ _ layout _ ends => read_method_of_layout layout ends)
    (fun _ _ _ layout => (begins_of_method layout).mono (by simp))
    (fun _ => by simp [MethodSource.tokens])
    methods settled ⟨'\x7d', by simp, behind, rfl⟩ stops
  have closes : (Reader.exactly "\x7d").read ('\x7d' :: behind) = some ((), behind) := rfl
  refine ⟨⟨nodes, source.name, found⟩, ?_, ?_⟩
  · rw [typeDecl, Reader.read_named, Reader.read_bind_of_some readsMarks,
      Reader.read_bind_of_some readsKeyword, Reader.read_bind_of_some readsName,
      Reader.read_bind_of_some opens, Reader.read_bind_of_some readsMethods,
      Reader.read_bind_of_some closes]
    rfl
  · simp [TypeNode.outline, BlockSource.outline, sameMarks, sameMethods]

/-- A block is read with what is skipped behind its brace. -/
theorem exists_read_block_of_read_typeDecl {node : TypeNode}
    (reads : typeDecl.read text = some (node, rest)) :
    ∃ block, (Reader.located typeDecl <* Reader.gap).read text =
      some (block, skipGap false rest) ∧ block.1 = node := by
  rw [Reader.read_seqLeft, Reader.read_located_of_some reads]
  exact ⟨_, rfl, rfl⟩

theorem read_block_of_layout {source : BlockSource}
    (layout : Layout .readable source.tokens text rest)
    (settled : Avoids OpensGap rest) :
    ∃ block, (Reader.located typeDecl <* Reader.gap).read text = some (block, rest) ∧
      block.1.outline = source.outline := by
  rw [source.tokens_eq] at layout
  obtain ⟨_, opened, closing⟩ := Layout.append_iff.mp layout
  cases closing with
  | @cons _ _ _ gap _ _ isBrace allows _ nothing =>
      obtain rfl := nothing.eq_of_nil
      obtain ⟨_, rfl⟩ := isBrace
      obtain ⟨node, reads, same⟩ := @read_typeDecl_of_layout _ _ (gap ++ rest) opened
      obtain ⟨block, readsBlock, rfl⟩ := exists_read_block_of_read_typeDecl reads
      rw [allows.isGap.skipGap_append settled] at readsBlock
      exact ⟨block, readsBlock, same⟩

theorem read_block_nil : (Reader.located typeDecl <* Reader.gap).read [] = none := by
  have noBlock : typeDecl.read [] = none := by
    rw [typeDecl, Reader.read_named]
    exact read_marks_keyword_eq_none Avoids.nil rfl
  rw [Reader.read_seqLeft, Reader.read_located, noBlock]
  rfl

/-- Blocks that take all that is left behind the first gap make up a manifest. -/
theorem read_manifest_of_blocks {blocks : List (TypeNode × Reader.Extent)}
    (reads : (Reader.many (Reader.located typeDecl <* Reader.gap)).read (skipGap false text) =
      some (blocks, [])) : manifest.read text = some (blocks, []) := by
  rw [manifest, Reader.read_named, Reader.read_bind_of_some (Reader.read_gap text),
    Reader.read_bind_of_some reads]
  simp [Reader.endOfInput]

theorem read_manifest_of_layout {sources : List BlockSource} {gap : List Char} (isGap : IsGap gap)
    (layout : Layout .readable (sources.flatMap BlockSource.tokens) text []) :
    ∃ blocks, manifest.read (gap ++ text) = some (blocks, []) ∧
      blocks.map (fun block => block.1.outline) = sources.map BlockSource.outline := by
  obtain ⟨blocks, readsBlocks, same⟩ := @read_many_of_layout _ _ _ _ _ _ BlockSource.tokens
    (fun block => block.1.outline) _ (fun _ => True)
    (fun _ _ _ layout settled _ => read_block_of_layout layout settled) (fun _ _ _ _ => trivial)
    (fun _ => by simp [BlockSource.tokens]) _ layout Avoids.nil trivial read_block_nil
  refine ⟨blocks, read_manifest_of_blocks ?_, same⟩
  rwa [isGap.skipGap_append (layout.settled Avoids.nil)]

end Rules

end Grammar

/-- The text lays the blocks out, behind a gap. -/
def LaysOut (filling : Filling) (sources : List BlockSource) (text : String) : Prop :=
  ∃ gap laid, text.toList = gap ++ laid ∧ IsGap gap ∧
    Layout filling (sources.flatMap BlockSource.tokens) laid []

theorem LaysOut.mono {filling weaker : Filling} {sources : List BlockSource} {text : String}
    (laysOut : LaysOut filling sources text)
    (inTypes : ∀ gap, filling.inTypes gap → weaker.inTypes gap)
    (behindDefaults : ∀ gap, filling.behindDefaults gap → weaker.behindDefaults gap) :
    LaysOut weaker sources text := by
  obtain ⟨gap, laid, same, isGap, layout⟩ := laysOut
  exact ⟨gap, laid, same, isGap, layout.mono inTypes behindDefaults⟩

/-- However a manifest is laid out, it declares what the outlines of its blocks do. -/
theorem parse_eq_ok_iff_of_laysOut {sources : List BlockSource} {text : String}
    (laysOut : LaysOut .readable sources text) {decls : List TypeDecl} :
    parse text = .ok decls ↔ Declare (sources.map BlockSource.outline) decls := by
  obtain ⟨gap, laid, same, isGap, layout⟩ := laysOut
  obtain ⟨blocks, reads, sameOutlines⟩ := Grammar.read_manifest_of_layout isGap layout
  rw [← same] at reads
  rw [parse_eq_ok_iff_of_read reads, sameOutlines]

end MultiDispatch.Manifest
