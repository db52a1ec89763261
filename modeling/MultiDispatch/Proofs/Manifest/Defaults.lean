import MultiDispatch.Proofs.Manifest.Balance
import MultiDispatch.Proofs.Manifest.Places

/-!
# Default texts

A default text is opaque: of a manifest that is accepted, each default text is balanced,
and any other balanced text in its place leaves the declarations as they are.
-/

namespace List

variable {α σ : Type*} {first second before after : List α} {item : α}

theorem exists_of_append_eq_append_cons_right (outside : item ∉ first)
    (same : first ++ second = before ++ item :: after) :
    ∃ front, before = first ++ front ∧ second = front ++ item :: after := by
  rcases append_eq_append_iff.mp same with ⟨front, inFront, behind⟩ | ⟨back, inFirst, behind⟩
  · exact ⟨front, inFront, behind⟩
  · cases back with
    | nil => exact ⟨[], by simpa using inFirst.symm, behind.symm⟩
    | cons found back =>
        rw [cons_append, cons.injEq] at behind
        exact absurd (by simp [inFirst, behind.1]) outside

/-- An item of a list of lists stands in one of them. -/
theorem exists_of_flatMap_eq_append_cons {f : σ → List α} {sources : List σ}
    (same : sources.flatMap f = before ++ item :: after) :
    ∃ front source back left right, sources = front ++ source :: back ∧
      f source = left ++ item :: right ∧ before = front.flatMap f ++ left ∧
      after = right ++ back.flatMap f := by
  induction sources generalizing before with
  | nil => simp at same
  | cons source sources inductionHypothesis =>
      rw [flatMap_cons] at same
      rcases append_eq_append_iff.mp same with ⟨left, inFront, more⟩ | ⟨right, inside, behind⟩
      · rcases inductionHypothesis more with ⟨front, found, back, left, right, rfl, here, rfl, rfl⟩
        exact ⟨source :: front, found, back, left, right, rfl, here,
          by rw [inFront, flatMap_cons, append_assoc], rfl⟩
      · cases right with
        | nil =>
            have more : sources.flatMap f = [] ++ item :: after := behind.symm
            rcases inductionHypothesis more with
              ⟨front, found, back, left, right, rfl, here, nothing, rfl⟩
            refine ⟨source :: front, found, back, left, right, rfl, here, ?_, rfl⟩
            rw [flatMap_cons, append_assoc, ← nothing, append_nil, inside, append_nil]
        | cons other right =>
            rw [cons_append, cons.injEq] at behind
            rcases behind with ⟨rfl, rfl⟩
            exact ⟨[], source, sources, before, right, rfl, inside, rfl, rfl⟩

end List

namespace MultiDispatch.Manifest

section Exchange

variable {σ τ γ δ : Type} {tokensOf : σ → List Token} {view : σ → γ}
    {Behind : List Token → Prop}

/-- A default text stands behind its sign, and any other can stand in its place, without
a change in what is seen of the source. -/
def ExchangesDefaults (tokensOf : σ → List Token) (view : σ → γ) (Behind : List Token → Prop) :
    Prop :=
  ∀ ⦃source prior text later⦄, tokensOf source = prior ++ .default text :: later →
    (∃ front, prior = front ++ [.symbol "="]) ∧ Behind later ∧
      ∀ other, ∃ changed, tokensOf changed = prior ++ .default other :: later ∧
        view changed = view source

namespace ExchangesDefaults

theorem flatMap {BehindAll : List Token → Prop}
    (exchanges : ExchangesDefaults tokensOf view Behind)
    (behindAll : ∀ later (back : List σ), Behind later →
      BehindAll (later ++ back.flatMap tokensOf)) :
    ExchangesDefaults (List.flatMap tokensOf) (List.map view) BehindAll := by
  intro sources prior text later whole
  rcases List.exists_of_flatMap_eq_append_cons whole with
    ⟨front, source, back, left, right, rfl, here, rfl, rfl⟩
  rcases exchanges here with ⟨⟨opening, rfl⟩, behind, exchange⟩
  refine ⟨⟨front.flatMap tokensOf ++ opening, by rw [List.append_assoc]⟩,
    behindAll right back behind, ?_⟩
  intro other
  rcases exchange other with ⟨changed, tokensChanged, sameView⟩
  refine ⟨front ++ changed :: back, ?_, ?_⟩
  · rw [List.flatMap_append, List.flatMap_cons, tokensChanged]
    simp only [List.append_assoc, List.cons_append]
  · rw [List.map_append, List.map_cons, sameView, List.map_append, List.map_cons]

/-- The default texts of a source are those of one part of it. -/
theorem ofPart {wholeTokens : τ → List Token} {wholeView : τ → δ}
    {BehindWhole : List Token → Prop} {partTokens : τ → σ → List Token} (part : τ → σ)
    (replace : τ → σ → τ) (opening closing : τ → List Token)
    (exchanges : ∀ whole, ExchangesDefaults (partTokens whole) view Behind)
    (tokens_eq : ∀ whole, wholeTokens whole =
      opening whole ++ (partTokens whole (part whole) ++ closing whole))
    (noneOpening : ∀ whole text, .default text ∉ opening whole)
    (noneClosing : ∀ whole text, .default text ∉ closing whole)
    (behindWhole : ∀ whole later, Behind later → BehindWhole (later ++ closing whole))
    (replaces : ∀ whole changed, view changed = view (part whole) →
      wholeTokens (replace whole changed) =
          opening whole ++ (partTokens whole changed ++ closing whole) ∧
        wholeView (replace whole changed) = wholeView whole) :
    ExchangesDefaults wholeTokens wholeView BehindWhole := by
  intro whole prior text later same
  rw [tokens_eq] at same
  rcases List.exists_of_append_eq_append_cons_right (noneOpening whole text) same with
    ⟨front, rfl, inside⟩
  rcases List.exists_of_append_eq_append_cons_left (noneClosing whole text) inside with
    ⟨back, here, rfl⟩
  rcases exchanges whole here with ⟨⟨sign, rfl⟩, behind, exchange⟩
  refine ⟨⟨opening whole ++ sign, by rw [List.append_assoc]⟩, behindWhole whole back behind, ?_⟩
  intro other
  rcases exchange other with ⟨changed, tokensChanged, sameView⟩
  rcases replaces whole changed sameView with ⟨tokensWhole, sameWhole⟩
  refine ⟨replace whole changed, ?_, sameWhole⟩
  rw [tokensWhole, tokensChanged]
  simp only [List.append_assoc, List.cons_append]

end ExchangesDefaults

theorem default_not_mem_typeTokens (types : List String) (text : String) :
    .default text ∉ typeTokens types := by
  cases types with
  | nil => exact List.not_mem_nil
  | cons first types =>
      intro inside
      rcases List.mem_cons.mp inside with impossible | inside
      · cases impossible
      · have others : ∀ token ∈ [Token.symbol "|"].intercalate
            ((first :: types).map fun type => [Token.type type]), token ≠ .default text := by
          apply Text.forall_mem_intercalate <;> simp
        exact others _ inside rfl

theorem default_not_mem_attributeTokens (attributes : List String) (text : String) :
    .default text ∉ attributes.flatMap attributeTokens := by
  simp [attributeTokens]

theorem exchangesDefaults_content :
    ExchangesDefaults defaultTokens Option.isSome (· = []) := by
  intro content prior text later whole
  cases content with
  | none => simp [defaultTokens] at whole
  | some written =>
      rcases prior with _ | ⟨sign, prior⟩
      · cases whole
      · rw [defaultTokens, List.cons_append, List.cons.injEq] at whole
        rcases whole with ⟨rfl, whole⟩
        rcases List.append_eq_singleton_iff.mp whole.symm with ⟨rfl, isText⟩ | ⟨_, impossible⟩
        · cases isText
          exact ⟨⟨[], rfl⟩, rfl, fun other => ⟨some other, rfl, rfl⟩⟩
        · cases impossible

/-- A parameter with the comma in front of it. -/
def ParameterSource.separatedTokens (source : ParameterSource) : List Token :=
  .symbol "," :: source.tokens

theorem exchangesDefaults_parameter :
    ExchangesDefaults ParameterSource.separatedTokens ParameterSource.declared (· = []) := by
  apply ExchangesDefaults.ofPart ParameterSource.default
    (fun source content => { source with default := content })
    (fun source => .symbol "," :: .name .parameter source.name :: typeTokens source.types)
    (fun _ => []) fun _ => exchangesDefaults_content
  · intro source
    rw [List.append_nil]
    rfl
  · intro source text
    simp [default_not_mem_typeTokens]
  · simp
  · simp
  · intro source content same
    rw [List.append_nil]
    exact ⟨rfl, by simp [ParameterSource.declared, same]⟩

/-- Every parameter has a comma in front of it, but the first one. -/
theorem comma_cons_parameterTokens {parameters : List ParameterSource}
    (nonempty : parameters ≠ []) (trailingComma : Bool) :
    .symbol "," :: parameterTokens trailingComma parameters =
      parameters.flatMap ParameterSource.separatedTokens ++
        if trailingComma then [.symbol ","] else [] := by
  cases parameters with
  | nil => contradiction
  | cons first others =>
      rw [parameterTokens, List.map_cons, Text.intercalate_cons, List.flatMap_map]
      · rfl
      · exact List.cons_ne_nil first others

/-- What stands behind a default text: a comma or the parenthesis that closes the list. -/
def EndsDefault (later : List Token) : Prop :=
  ∃ mark ∈ [",", ")"], ∃ more, later = .symbol mark :: more

theorem EndsDefault.append {later : List Token} (ends : EndsDefault later) (more : List Token) :
    EndsDefault (later ++ more) := by
  rcases ends with ⟨mark, isMark, others, rfl⟩
  exact ⟨mark, isMark, others ++ more, rfl⟩

theorem exchangesDefaults_parameters (trailingComma : Bool) :
    ExchangesDefaults (parameterTokens trailingComma) (List.map ParameterSource.declared)
      fun later => later = [] ∨ EndsDefault later := by
  have separated : ExchangesDefaults (List.flatMap ParameterSource.separatedTokens)
      (List.map ParameterSource.declared) fun later => later = [] ∨ EndsDefault later := by
    apply exchangesDefaults_parameter.flatMap
    rintro _ back rfl
    cases back with
    | nil => exact .inl rfl
    | cons => exact .inr ⟨",", by decide, _, rfl⟩
  intro parameters prior text later whole
  -- With a comma in front of the list too, the first parameter is like the others.
  have nonempty : parameters ≠ [] := by
    rintro rfl
    simp [parameterTokens] at whole
  have sameTokens := comma_cons_parameterTokens nonempty trailingComma
  rw [whole, ← List.cons_append] at sameTokens
  have outside : .default text ∉ if trailingComma then [Token.symbol ","] else [] := by
    cases trailingComma <;> simp
  rcases List.exists_of_append_eq_append_cons_left outside sameTokens.symm with ⟨back, inside, rfl⟩
  rcases separated inside with ⟨⟨front, samePrior⟩, behind, exchange⟩
  rcases front with _ | ⟨comma, front⟩
  · simp at samePrior
  rw [List.cons_append, List.cons.injEq] at samePrior
  refine ⟨⟨front, samePrior.2⟩, ?_, ?_⟩
  · rcases behind with rfl | ends
    · cases trailingComma with
      | false => exact .inl rfl
      | true => exact .inr ⟨",", by decide, [], rfl⟩
    · exact .inr (ends.append _)
  · intro other
    rcases exchange other with ⟨changed, tokensChanged, sameView⟩
    refine ⟨changed, ?_, sameView⟩
    have stillNonempty : changed ≠ [] := by
      rintro rfl
      exact nonempty (List.map_eq_nil_iff.mp sameView.symm)
    have sameChanged := comma_cons_parameterTokens stillNonempty trailingComma
    rw [tokensChanged, List.cons_append, List.cons_append, List.cons.injEq] at sameChanged
    rw [sameChanged.2, List.append_assoc, List.cons_append]

theorem exchangesDefaults_method :
    ExchangesDefaults MethodSource.tokens MethodSource.outline EndsDefault := by
  apply ExchangesDefaults.ofPart MethodSource.parameters
    (fun source parameters => { source with parameters })
    (fun source => source.attributes.flatMap attributeTokens ++
      [.symbol "def", .name .method source.name, .symbol "("])
    (fun source => .symbol ")" :: typeTokens source.returns)
    fun source => exchangesDefaults_parameters source.trailingComma
  · intro source
    rw [MethodSource.tokens, List.append_assoc]
    rfl
  · intro source text
    simp [attributeTokens]
  · intro source text
    simp [default_not_mem_typeTokens]
  · intro source later behind
    rcases behind with rfl | ends
    · exact ⟨")", by decide, _, rfl⟩
    · exact ends.append _
  · intro source parameters same
    rw [MethodSource.tokens, List.append_assoc]
    exact ⟨rfl, by rw [MethodSource.outline, same, MethodSource.outline]⟩

theorem exchangesDefaults_block :
    ExchangesDefaults BlockSource.tokens BlockSource.outline EndsDefault := by
  have methods : ExchangesDefaults (List.flatMap MethodSource.tokens)
      (List.map MethodSource.outline) EndsDefault := by
    apply exchangesDefaults_method.flatMap
    intro later back ends
    exact ends.append _
  apply ExchangesDefaults.ofPart BlockSource.methods
    (fun source methods => { source with methods })
    (fun source => source.attributes.flatMap attributeTokens ++ source.headTokens)
    (fun _ => [.symbol "\x7d"]) fun _ => methods
  · intro source
    rw [BlockSource.tokens, List.append_assoc]
    rfl
  · intro source text
    simp [attributeTokens, BlockSource.headTokens]
  · simp
  · intro source later ends
    exact ends.append _
  · intro source methods same
    rw [BlockSource.tokens, List.append_assoc]
    exact ⟨rfl, by rw [BlockSource.outline, same, BlockSource.outline]⟩

theorem exchangesDefaults_blocks :
    ExchangesDefaults (List.flatMap BlockSource.tokens) (List.map BlockSource.outline)
      EndsDefault := by
  apply exchangesDefaults_block.flatMap
  intro later back ends
  exact ends.append _

end Exchange

section Texts

/-- The default texts among the tokens, in order. -/
def defaultTexts (tokens : List Token) : List String :=
  tokens.filterMap fun
    | .default text => some text
    | .symbol _ | .name _ _ | .type _ => none

theorem defaultTexts_append (tokens others : List Token) :
    defaultTexts (tokens ++ others) = defaultTexts tokens ++ defaultTexts others :=
  List.filterMap_append

theorem defaultTexts_flatMap {σ : Type} (tokensOf : σ → List Token) (sources : List σ) :
    defaultTexts (sources.flatMap tokensOf) =
      sources.flatMap fun source => defaultTexts (tokensOf source) := by
  rw [defaultTexts, List.filterMap_flatMap]
  rfl

theorem defaultTexts_eq_nil {tokens : List Token} (none : ∀ text, .default text ∉ tokens) :
    defaultTexts tokens = [] := by
  rw [defaultTexts, List.filterMap_eq_nil_iff]
  intro token inside
  cases token with
  | default text => exact absurd inside (none text)
  | symbol | name | type => rfl

theorem defaultTexts_parameters (parameters : List ParameterSource) (trailingComma : Bool) :
    defaultTexts (parameterTokens trailingComma parameters) =
      parameters.filterMap ParameterSource.default := by
  have separated : defaultTexts (parameters.flatMap ParameterSource.separatedTokens) =
      parameters.filterMap ParameterSource.default := by
    rw [defaultTexts_flatMap, List.filterMap_eq_flatMap_toList]
    apply List.flatMap_congr
    intro parameter _
    have noTypes := defaultTexts_eq_nil (default_not_mem_typeTokens parameter.types)
    change defaultTexts (typeTokens parameter.types ++ defaultTokens parameter.default) = _
    rw [defaultTexts_append, noTypes]
    cases parameter.default <;> rfl
  by_cases empty : parameters = []
  · rw [empty]
    rfl
  · change defaultTexts (.symbol "," :: parameterTokens trailingComma parameters) = _
    rw [comma_cons_parameterTokens empty, defaultTexts_append, separated]
    cases trailingComma <;> simp [defaultTexts]

theorem defaultTexts_method (source : MethodSource) :
    defaultTexts source.tokens = source.defaults := by
  have noAttributes := defaultTexts_eq_nil (default_not_mem_attributeTokens source.attributes)
  have noReturns := defaultTexts_eq_nil (default_not_mem_typeTokens source.returns)
  rw [MethodSource.tokens, defaultTexts_append, noAttributes]
  change defaultTexts (_ ++ .symbol ")" :: typeTokens source.returns) = _
  rw [defaultTexts_append, defaultTexts_parameters]
  change _ ++ defaultTexts (typeTokens source.returns) = _
  rw [noReturns, List.append_nil, MethodSource.defaults]

theorem defaultTexts_blocks (blocks : List BlockSource) :
    defaultTexts (blocks.flatMap BlockSource.tokens) = blocks.flatMap BlockSource.defaults := by
  rw [defaultTexts_flatMap]
  apply List.flatMap_congr
  intro source _
  have noAttributes := defaultTexts_eq_nil (default_not_mem_attributeTokens source.attributes)
  rw [BlockSource.tokens, defaultTexts_append, noAttributes]
  change defaultTexts (source.methods.flatMap MethodSource.tokens ++ [.symbol "\x7d"]) = _
  rw [defaultTexts_append, defaultTexts_flatMap, BlockSource.defaults]
  simp only [defaultTexts_method]
  exact List.append_nil _

/-- Among the tokens, a default text has the texts of others in front of it and behind. -/
theorem exists_of_defaultTexts_eq {tokens : List Token} {earlier later : List String}
    {text : String} (same : defaultTexts tokens = earlier ++ text :: later) :
    ∃ prior next, tokens = prior ++ .default text :: next ∧ defaultTexts prior = earlier ∧
      defaultTexts next = later := by
  rcases List.filterMap_eq_append_iff.mp same with ⟨prior, more, rfl, isEarlier, sameMore⟩
  rcases List.filterMap_eq_cons_iff.mp sameMore with
    ⟨between, token, next, rfl, none, isText, isLater⟩
  have sameToken : token = .default text := by
    cases token with
    | default => simpa using isText
    | symbol | name | type => cases isText
  rw [sameToken]
  refine ⟨prior ++ between, next, by rw [List.append_assoc], ?_, isLater⟩
  rw [defaultTexts_append, defaultTexts, isEarlier, defaultTexts,
    List.filterMap_eq_nil_iff.mpr none, List.append_nil]

end Texts

/-- Where a default text stands, between the others of the manifest. -/
def DefaultStands (earlier : List String) (text : String) (later : List String)
    (before behind : List Char) : Prop :=
  ∃ blocks : List BlockSource, ∃ prior next,
    blocks.flatMap BlockSource.tokens = prior ++ .default text :: next ∧
    defaultTexts prior = earlier ∧ defaultTexts next = later ∧
    Stands prior [] (.default text) next before text.toList behind

/-- The text is not empty and begins with no gap, its brackets match, its quotations
end, and it has no comma outside them. -/
structure BalancedText (text : String) : Prop where
  nonempty : text ≠ ""
  settled : Avoids OpensGap text.toList
  balanced : IsBalanced false text.toList

section Replacing

variable {text other : String}

theorem balancedText_iff_writtenAs :
    BalancedText text ↔ (Token.default text).WrittenAs .readable text.toList := by
  rw [Token.WrittenAs, Scan.defaultText_eq_nil_iff]
  have nonempty_iff : text ≠ "" ↔ text.toList ≠ [] := by simp
  constructor
  · rintro ⟨nonempty, settled, balanced⟩
    exact ⟨⟨nonempty_iff.mp nonempty, balanced⟩, settled, rfl⟩
  · rintro ⟨⟨nonempty, balanced⟩, settled, _⟩
    exact ⟨nonempty_iff.mpr nonempty, settled, balanced⟩

/-- A default text moves to another place behind its sign. -/
theorem Layout.replace_behind_sign {front : List Token} {laid tail newTail : List Char}
    (layout : Layout .readable (front ++ [.symbol "="]) (laid ++ tail) tail) :
    Layout .readable (front ++ [.symbol "="]) (laid ++ newTail) newTail := by
  rcases Layout.append_iff.mp layout with ⟨middle, layoutFront, layoutSign⟩
  rcases layoutFront.exists_taken with ⟨taken, same, movable⟩
  cases layoutSign with
  | @cons _ _ _ gap _ _ isSign allowed _ nothing =>
      cases nothing
      rcases isSign with ⟨known, rfl⟩
      have sameLaid : laid = taken ++ ("=".toList ++ gap) := by
        apply List.append_cancel_right
        rw [same]
        simp only [List.append_assoc]
      -- The sign is no word, so that nothing can run together with it.
      have sign : Layout .readable [.symbol "="] ("=".toList ++ (gap ++ newTail)) newTail :=
        .cons ⟨known, rfl⟩ allowed (fun fuses => absurd fuses.1 (by decide)) (.nil newTail)
      have moved := movable ("=".toList ++ (gap ++ newTail)) rfl
      have whole := moved.append sign
      rw [sameLaid]
      simpa only [List.append_assoc] using whole

theorem EndsDefault.avoids_isWordChar {later : List Token} (ends : EndsDefault later)
    {laid rest : List Char} (layout : Layout .readable later laid rest) :
    Avoids (fun character => Scan.isWordChar character) laid := by
  rcases ends with ⟨mark, isMark, more, rfl⟩
  rcases List.mem_pair.mp isMark with rfl | rfl
  · exact (Grammar.begins_of_symbol layout ',' rfl).avoids (by simp [Scan.isWordChar])
  · exact (Grammar.begins_of_symbol layout ')' rfl).avoids (by simp [Scan.isWordChar])

/-- In front of what ends it, a default text can be exchanged for another. -/
theorem Layout.replace_default {later : List Token} {behind : List Char}
    (layout : Layout .readable (.default text :: later) (text.toList ++ behind) [])
    (ends : EndsDefault later) (balanced : BalancedText other) :
    Layout .readable (.default other :: later) (other.toList ++ behind) [] := by
  generalize same : text.toList ++ behind = laid at layout
  cases layout with
  | @cons _ _ _ gap rest _ isText allowed _ more =>
      rcases isText with ⟨_, _, rfl⟩
      rw [List.append_cancel_left same]
      apply Layout.cons (balancedText_iff_writtenAs.mp balanced) allowed ?_ more
      apply Fuses.not_of_avoids
      apply allowed.isGap.avoids_append
      · intro character opens
        exact not_isWordChar_of_opensGap opens
      · intro _
        exact ends.avoids_isWordChar more

theorem Stands.replace_default {front later : List Token} {before behind : List Char}
    (stands : Stands (front ++ [.symbol "="]) [] (.default text) later before text.toList behind)
    (ends : EndsDefault later) (balanced : BalancedText other) :
    Stands (front ++ [.symbol "="]) [] (.default other) later before other.toList behind := by
  rcases stands with ⟨⟨gap, laid, same, isGap, layoutPrior⟩, _, layoutLater⟩
  refine ⟨⟨gap, laid, same, isGap, ?_⟩, ⟨[], rfl, .nil _⟩, ?_⟩
  · exact layoutPrior.replace_behind_sign
  · exact layoutLater.replace_default ends balanced

end Replacing

/-- The default texts that are read stand in the text one behind the other; each is
balanced, and in the place of each any balanced text leaves the declarations as they are. -/
theorem default_texts_are_opaque {source : String} {decls : List TypeDecl}
    (accepted : parse source = .ok decls) :
    (∃ nodes rest, Grammar.manifest.read source.toList = some (nodes, rest) ∧
      ∀ earlier text later, nodes.flatMap (fun node => node.1.defaults) = earlier ++ text :: later →
        ∃ before behind, source = before ++ text ++ behind ∧
          DefaultStands earlier text later before.toList behind.toList) ∧
    ∀ before text behind earlier later, source = before ++ text ++ behind →
      DefaultStands earlier text later before.toList behind.toList →
      BalancedText text ∧
        ∀ other, BalancedText other → parse (before ++ other ++ behind) = .ok decls := by
  constructor
  · rcases parse_eq_ok_iff.mp accepted with ⟨nodes, rest, reads, _⟩
    refine ⟨nodes, rest, reads, ?_⟩
    intro earlier text later sameTexts
    rcases exists_laysOut_of_read_manifest reads with ⟨blocks, matching, _, sameDefaults⟩
    rw [sameDefaults, ← defaultTexts_blocks] at sameTexts
    rcases exists_of_defaultTexts_eq sameTexts with ⟨prior, next, whole, isEarlier, isLater⟩
    rcases exchangesDefaults_blocks whole with ⟨_, ⟨mark, _, more, ends⟩, _⟩
    rcases exists_stands_of_matches matching whole (by simp [ends])
      (fun _ isWritten => isWritten.2.2) with ⟨before, behind, same, stands⟩
    refine ⟨.ofList before, .ofList behind, ?_, ?_⟩
    · rw [← String.toList_inj, same]
      simp [Token.text]
    · rw [String.toList_ofList, String.toList_ofList]
      exact ⟨blocks, prior, next, whole, isEarlier, isLater, stands⟩
  · intro before text behind earlier later same isDefault
    rcases isDefault with ⟨blocks, prior, next, whole, _, _, stands⟩
    rcases exchangesDefaults_blocks whole with ⟨⟨front, rfl⟩, ends, exchange⟩
    have matching : Matches source blocks := by
      apply stands.matches whole
      rw [same, String.toList_append, String.toList_append, List.append_assoc]
    constructor
    · rw [balancedText_iff_writtenAs]
      rcases stands.later.writtenAs List.mem_cons_self with ⟨written, isText, settled, sameText⟩
      exact ⟨isText, settled, rfl⟩
    · intro other balanced
      rcases exchange other with ⟨changed, tokensChanged, sameOutlines⟩
      have matchingChanged : Matches (before ++ other ++ behind) changed := by
        apply (stands.replace_default ends balanced).matches tokensChanged
        rw [String.toList_append, String.toList_append, List.append_assoc]
      rw [parse_eq_ok_iff_of_matches matching, ← sameOutlines] at accepted
      exact (parse_eq_ok_iff_of_matches matchingChanged).mpr accepted

/-- Brackets and commas in quotation marks are part of the text, as is a blank behind it. -/
theorem default_texts_are_opaque_box :
    let box : TypeDecl :=
      ⟨"Box", none, [⟨"Box", "put", [⟨"x", none, true⟩, ⟨"y", none, true⟩], none, false⟩]⟩
    let source := "type Box \x7b def put(x = [1, 2] , y = '(') \x7d"
    parse source = .ok [box] ∧ ∃ before behind, source = before ++ "[1, 2] " ++ behind ∧
      BalancedText "[1, 2] " ∧ parse (before ++ "f(\")],\", ',')" ++ behind) = .ok [box] := by
  intro box source
  have accepted : parse source = .ok [box] := by decide +kernel
  have texts : (Grammar.manifest.read source.toList).map
      (fun found => found.1.flatMap fun node => node.1.defaults) = some ["[1, 2] ", "'('"] := by
    decide +kernel
  have balanced : BalancedText "f(\")],\", ',')" := by
    rw [balancedText_iff_writtenAs]
    exact ⟨by decide +kernel, by simp [OpensGap, IsSpacing, IsLineEnd], rfl⟩
  rcases default_texts_are_opaque accepted with ⟨⟨nodes, rest, reads, places⟩, opaques⟩
  rw [reads] at texts
  rcases places [] "[1, 2] " ["'('"] (Option.some.inj texts) with ⟨before, behind, same, isDefault⟩
  rcases opaques before "[1, 2] " behind [] ["'('"] same isDefault with ⟨wasBalanced, exchange⟩
  exact ⟨accepted, before, behind, same, wasBalanced, exchange _ balanced⟩

end MultiDispatch.Manifest
