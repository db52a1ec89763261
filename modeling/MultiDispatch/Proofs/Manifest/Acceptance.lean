import MultiDispatch.Proofs.Manifest.Recognition
import MultiDispatch.Proofs.Manifest.Source

/-!
# What is accepted

Every manifest that is read lays a source out, once its last line is ended.  Along
the grammar, whatever a rule takes is laid out by tokens that stand for the value
read; the tokens of a rule are those of its parts, one after the other.  Attributes
and blocks are read together with their places.
-/

namespace MultiDispatch.Manifest

variable {α β σ γ : Type} {reader : Reader α}

/-- The reader takes single tokens, without the gap behind them. -/
def TakesToken (reader : Reader α) (P : α → Token → Prop) : Prop :=
  reader.Ensures fun text value rest => Avoids OpensGap text → ∃ written token,
    text = written ++ rest ∧ token.WrittenAs .readable written ∧ ¬Fuses written rest ∧
      (∀ gap, IsGap gap → gap <+: rest ++ ['\n'] → token.AllowsBehind .readable gap) ∧ P value token

/-- What the reader takes from settled text is laid out by tokens for which the
condition holds, and settled text is left. -/
def Covers (reader : Reader α) (P : α → List Token → Prop) : Prop :=
  reader.Ensures fun text value rest => Avoids OpensGap text → Avoids OpensGap rest ∧
    ∃ tokens, Layout .readable tokens (ended text) (ended rest) ∧ P value tokens

namespace Fuses

theorem ended_iff {text tail : List Char} : Fuses text (tail ++ ['\n']) ↔ Fuses text tail := by
  cases tail with
  | nil => simp [Fuses, show Scan.isWordChar '\n' = false from rfl]
  | cons => rfl

end Fuses

namespace Covers

variable {P P' : α → List Token → Prop} {Q : α → β → List Token → Prop}

theorem mono (covers : Covers reader P)
    (weaker : ∀ value tokens, P value tokens → P' value tokens) :
    Covers reader P' := by
  intro text value rest reads settled
  obtain ⟨settledRest, tokens, layout, holds⟩ := covers reads settled
  exact ⟨settledRest, tokens, layout, weaker value tokens holds⟩

theorem named {rule : Rule} (covers : Covers reader P) : Covers (Reader.named rule reader) P :=
  Reader.Ensures.named covers

theorem pure (value : α) :
    Covers (Pure.pure value) fun result tokens => result = value ∧ tokens = [] := by
  intro text result rest reads settled
  cases reads
  exact ⟨settled, [], .nil _, rfl, rfl⟩

theorem bind {next : α → Reader β} (first : Covers reader P)
    (second : ∀ value, Covers (next value) (Q value)) :
    Covers (reader >>= next) fun result tokens => ∃ value firstTokens secondTokens,
      tokens = firstTokens ++ secondTokens ∧ P value firstTokens ∧ Q value result secondTokens := by
  intro text result rest reads settled
  obtain ⟨value, middle, readsFirst, readsSecond⟩ := Reader.read_bind_eq_some_iff.mp reads
  obtain ⟨settledMiddle, firstTokens, firstLayout, firstHolds⟩ := first readsFirst settled
  obtain ⟨settledRest, secondTokens, secondLayout, secondHolds⟩ :=
    second value readsSecond settledMiddle
  exact ⟨settledRest, _, firstLayout.append secondLayout, value, firstTokens, secondTokens, rfl,
    firstHolds, secondHolds⟩

theorem optional (covers : Covers reader P) :
    Covers reader.optional fun result tokens => result = none ∧ tokens = [] ∨
      ∃ value, result = some value ∧ P value tokens := by
  intro text result rest reads settled
  rcases Reader.Ensures.optional covers reads with ⟨rfl, rfl⟩ | ⟨value, rfl, covered⟩
  · exact ⟨settled, [], .nil _, .inl ⟨rfl, rfl⟩⟩
  · obtain ⟨settledRest, tokens, layout, holds⟩ := covered settled
    exact ⟨settledRest, tokens, layout, .inr ⟨value, rfl, holds⟩⟩

/-- In settled text there is no gap. -/
theorem gap : Covers Reader.gap fun _ tokens => tokens = [] := by
  intro text value rest reads settled
  rw [Reader.read_gap, skipGap_of_avoids settled] at reads
  cases reads
  exact ⟨settled, [], .nil _, rfl⟩

/-- A token with the gap behind it. -/
theorem seqLeft_gap {P : α → Token → Prop} (takes : TakesToken reader P) :
    Covers (reader <* Reader.gap) fun value tokens =>
      ∃ token, tokens = [token] ∧ P value token := by
  intro text value rest reads settled
  obtain ⟨behind, _, readsToken, readsGap⟩ := Reader.read_seqLeft_eq_some_iff.mp reads
  cases readsGap
  obtain ⟨written, token, rfl, isWritten, apart, allows, holds⟩ := takes readsToken settled
  obtain ⟨gap, same, isGap⟩ := exists_ended_of_skipGap false behind
  have nonempty : written ++ behind ≠ [] := by simp [isWritten.isSettled.1]
  have allowed := allows gap isGap ⟨_, same.symm⟩
  rw [← Fuses.ended_iff, same] at apart
  refine ⟨settled_skipGap false behind, [token], ?_, token, rfl, holds⟩
  rw [ended, if_neg nonempty, List.append_assoc, same]
  exact .cons isWritten allowed apart (.nil _)

end Covers

/-- The tokens are those of a source, of which the value shows what it should. -/
def StandsFor (tokensOf : σ → List Token) (view : α → γ) (expected : σ → γ) (value : α)
    (tokens : List Token) : Prop :=
  ∃ source, tokens = tokensOf source ∧ view value = expected source

/-- The default texts of a method, in order. -/
def MethodNode.defaults (node : MethodNode) : List String :=
  node.parameters.filterMap ParameterNode.default

def TypeNode.defaults (node : TypeNode) : List String :=
  node.methods.flatMap MethodNode.defaults

def MethodSource.defaults (source : MethodSource) : List String :=
  source.parameters.filterMap ParameterSource.default

def BlockSource.defaults (source : BlockSource) : List String :=
  source.methods.flatMap MethodSource.defaults

section Lists

variable {tokensOf : σ → List Token} {view : α → γ} {expected : σ → γ}

/-- What is read one behind the other is laid out one behind the other. -/
theorem Covers.runs (each : Covers reader (StandsFor tokensOf view expected))
    {text rest : List Char} {values : List α} (runs : reader.Runs text values rest)
    (settled : Avoids OpensGap text) :
    Avoids OpensGap rest ∧ ∃ sources : List σ,
      Layout .readable (sources.flatMap tokensOf) (ended text) (ended rest) ∧
        values.map view = sources.map expected := by
  induction runs with
  | nil => exact ⟨settled, [], .nil _, rfl⟩
  | cons reads _ inductionHypothesis =>
      rcases each reads settled with ⟨settledMiddle, _, layout, source, rfl, same⟩
      rcases inductionHypothesis settledMiddle with ⟨settledRest, sources, layouts, sameOthers⟩
      refine ⟨settledRest, source :: sources, layout.append layouts, ?_⟩
      rw [List.map_cons, List.map_cons, same, sameOthers]

theorem Covers.many (each : Covers reader (StandsFor tokensOf view expected)) :
    Covers reader.many (StandsFor (List.flatMap tokensOf) (List.map view) (List.map expected)) := by
  intro text values rest reads settled
  rcases each.runs (Reader.runs_of_read_many reads) settled with
    ⟨settledRest, sources, layout, same⟩
  exact ⟨settledRest, _, layout, sources, rfl, same⟩

end Lists

theorem NameKind.exists_of_scan {kind : NameKind} {text rest : List Char}
    (found : kind.scan text = some rest) :
    ∃ name, text = name ++ rest ∧ kind.scan name = some [] ∧ ¬Fuses name rest := by
  cases kind with
  | mark | parameter =>
      obtain ⟨name, same, isName, avoids⟩ := Scan.exists_of_word found
      exact ⟨name, same, isName, Fuses.not_of_avoids avoids⟩
  | path =>
      obtain ⟨name, same, isName, avoids⟩ := Scan.exists_of_typePath_eq_some found
      exact ⟨name, same, isName, Fuses.not_of_avoids avoids⟩
  | method =>
      obtain ⟨name, same, isName, apart⟩ := Scan.exists_of_methodName found
      exact ⟨name, same, isName.methodName_eq, apart⟩

namespace Grammar

section Tokens

theorem eq_of_read_taken_scan {scan : Scan} {token rest left : List Char} {value : String}
    (found : scan (token ++ rest) = some rest)
    (reads : (Reader.taken (.scan scan)).read (token ++ rest) = some (value, left)) :
    value = String.ofList token ∧ left = rest := by
  cases reads.symm.trans (Reader.read_taken_scan found)
  exact ⟨rfl, rfl⟩

theorem takesToken_exactly {mark : String} (known : mark ∈ symbols) :
    TakesToken (Reader.exactly mark) fun _ token => token = .symbol mark := by
  intro text _ rest reads _
  obtain ⟨_, taken, same⟩ := Option.map_eq_some_iff.mp reads
  cases same
  rw [Scan.exactly, List.isPrefixOf?_eq_some_iff_append_eq] at taken
  have noWord : symbols.all fun mark => !mark.toList.getLast?.any Scan.isWordChar := by decide
  exact ⟨mark.toList, .symbol mark, taken.symm, ⟨List.mem_append_right _ known, rfl⟩,
    fun fuses => absurd fuses.1 (by simpa using List.all_eq_true.mp noWord mark known),
    fun _ isGap _ => isGap, rfl⟩

theorem covers_symbol {mark : String} (known : mark ∈ symbols) :
    Covers (symbol mark) fun _ tokens => tokens = [.symbol mark] :=
  (Covers.seqLeft_gap (takesToken_exactly known)).mono (by simp)

theorem covers_keyword (rule : Rule) {keywordText : String} (isKeyword : keywordText ∈ keywords) :
    Covers (keyword rule keywordText) fun _ tokens => tokens = [.symbol keywordText] := by
  have takes : TakesToken (Reader.named rule (.scan (Scan.keyword keywordText)))
      fun _ token => token = .symbol keywordText := by
    intro text _ rest reads _
    rw [Reader.read_named] at reads
    obtain ⟨_, found, same⟩ := Option.map_eq_some_iff.mp reads
    cases same
    obtain ⟨_, taken, ends⟩ := Option.bind_eq_some_iff.mp found
    split at ends
    · cases ends
    · rename_i noWord
      cases ends
      rw [Scan.exactly, List.isPrefixOf?_eq_some_iff_append_eq] at taken
      exact ⟨keywordText.toList, .symbol keywordText, taken.symm,
        ⟨List.mem_append_left _ isKeyword, rfl⟩, fun fuses => noWord fuses.2,
        fun _ isGap _ => isGap, rfl⟩
  exact (Covers.seqLeft_gap takes).mono (by simp)

theorem takesToken_name (rule : Rule) (kind : NameKind) :
    TakesToken (Reader.named rule (Reader.taken (.scan kind.scan))) fun name token =>
      token = .name kind name := by
  intro text name rest reads _
  rw [Reader.read_named] at reads
  obtain ⟨⟨_, left⟩, found, same⟩ := Option.map_eq_some_iff.mp reads
  obtain ⟨_, found, leftover⟩ := Option.map_eq_some_iff.mp found
  cases leftover
  obtain ⟨written, rfl, isName, apart⟩ := NameKind.exists_of_scan found
  obtain ⟨rfl, rfl⟩ := eq_of_read_taken_scan found reads
  exact ⟨written, .name kind (String.ofList written), rfl, ⟨by simpa using isName, by simp⟩, apart,
    fun _ isGap _ => isGap, rfl⟩

theorem covers_name (rule : Rule) (kind : NameKind) :
    Covers (token rule kind.scan) fun name tokens => tokens = [.name kind name] :=
  (Covers.seqLeft_gap (takesToken_name rule kind)).mono (by simp)

theorem covers_typeName :
    Covers (typeName <* Reader.gap) (StandsFor (fun name => [.type name]) Ty.ofName Ty.ofName) := by
  have takes : TakesToken typeName fun written token =>
      ∃ name, token = .type name ∧ Ty.ofName written = Ty.ofName name := by
    intro text name rest reads _
    rw [read_typeName] at reads
    obtain ⟨⟨_, left⟩, readsWithin, same⟩ := Option.map_eq_some_iff.mp reads
    obtain ⟨written, rfl, isName, apart⟩ := exists_of_typeNameWithin_eq_some _ readsWithin
    cases same
    refine ⟨written, .type (String.ofList (Text.withoutBlanks written)), rfl, ⟨isName, by simp⟩,
      apart, fun _ isGap _ => isGap, _, rfl, ?_⟩
    apply Ty.ofName_congr
    simp
  refine (Covers.seqLeft_gap takes).mono ?_
  rintro written _ ⟨_, rfl, name, rfl, same⟩
  exact ⟨name, rfl, same⟩

/-- Behind a whole default text, at most the end of the text is a gap. -/
theorem skipMany_defaultItem_of_gap {gap text : List Char} (avoids : Avoids Scan.IsPlain text)
    (isGap : IsGap gap) (isPrefix : gap <+: text ++ ['\n']) :
    Scan.skipMany Scan.defaultItem Scan.shortens_defaultItem gap = [] := by
  cases text with
  | nil =>
      refine Scan.skipMany_defaultItem_of_isPlain fun character inside => ?_
      obtain rfl := List.mem_singleton.mp (isPrefix.subset inside)
      simp [Scan.IsPlain]
  | cons first text =>
      cases gap with
      | nil => exact Scan.skipMany_of_none rfl
      | cons character gap =>
          obtain ⟨rfl, _⟩ := List.cons_prefix_cons.mp isPrefix
          exact absurd (Scan.isPlain_of_opensGap isGap.opensGap) (Avoids.cons_iff.mp avoids)

theorem covers_default :
    Covers default fun content tokens => tokens = defaultTokens (some content) := by
  have takes : TakesToken (Reader.named .defaultText (Reader.taken (.scan Scan.defaultText)))
      fun content token => token = .default content := by
    intro text name rest reads settled
    rw [Reader.read_named] at reads
    obtain ⟨⟨_, left⟩, found, same⟩ := Option.map_eq_some_iff.mp reads
    obtain ⟨_, found, leftover⟩ := Option.map_eq_some_iff.mp found
    cases leftover
    obtain ⟨written, rfl, isText, ends⟩ := Scan.exists_of_defaultText found
    obtain ⟨rfl, rfl⟩ := eq_of_read_taken_scan found reads
    have avoids := Scan.avoids_isPlain_of_defaultItem ends
    refine ⟨written, .default (String.ofList written), rfl, ⟨by simpa using isText, ?_, by simp⟩,
      Fuses.not_of_avoids (avoids.mono fun _ => Scan.isPlain_of_isWordChar),
      fun gap isGap isPrefix => ⟨isGap, skipMany_defaultItem_of_gap avoids isGap isPrefix⟩, rfl⟩
    rw [String.toList_ofList]
    exact settled.of_append
  refine ((covers_symbol (by decide)).bind fun _ => Covers.seqLeft_gap takes).named.mono ?_
  rintro _ _ ⟨_, _, _, rfl, rfl, _, rfl, rfl⟩
  rfl

end Tokens

section Rules

/-- Items behind one another with separators between, and what follows them. -/
theorem covers_separated {item : Reader α} {tokensOf : σ → List Token} {view : α → γ}
    {expected : σ → γ} {next : List α → Reader β} {Q : List α → β → List Token → Prop}
    {separator : String}
    (known : separator ∈ symbols) (each : Covers item (StandsFor tokensOf view expected))
    (behind : ∀ values, Covers (next values) (Q values)) :
    Covers (do
        let first ← item
        let more ← Reader.many (do symbol separator; item)
        next (first :: more))
      fun result tokens => ∃ values sources lastTokens, sources ≠ [] ∧
        tokens = [Token.symbol separator].intercalate (sources.map tokensOf) ++ lastTokens ∧
        values.map view = sources.map expected ∧ Q values result lastTokens := by
  have separated : Covers (do symbol separator; item)
      (StandsFor (fun source => .symbol separator :: tokensOf source) view expected) := by
    refine ((covers_symbol known).bind fun _ => each).mono ?_
    rintro value _ ⟨_, _, _, rfl, rfl, source, rfl, same⟩
    exact ⟨source, rfl, same⟩
  refine (each.bind fun _ => separated.many.bind fun _ => behind _).mono ?_
  rintro result _ ⟨first, _, _, rfl, ⟨source, rfl, same⟩, more, _, lastTokens, rfl,
    ⟨sources, rfl, sameOthers⟩, holds⟩
  refine ⟨first :: more, source :: sources, lastTokens, List.cons_ne_nil _ _, ?_, ?_, holds⟩
  · rw [List.map_cons, Text.intercalate_cons, List.flatMap_map, List.append_assoc]
    rfl
  · rw [List.map_cons, List.map_cons, same, sameOthers]

theorem covers_types :
    Covers (do symbol ":"; typeExpression) fun names tokens =>
      ∃ types ≠ [], tokens = typeTokens types ∧ Constraint.ofNames names = .ofNames types := by
  have nothing : ∀ names : List String, Covers (Pure.pure names) fun result tokens =>
      result = names ∧ tokens = [] := Covers.pure
  have separated := covers_separated (by decide : "|" ∈ symbols) covers_typeName nothing
  refine ((covers_symbol (by decide)).bind fun _ => separated.named).mono ?_
  rintro names _ ⟨_, _, _, rfl, rfl, _, types, _, nonempty, rfl, same, rfl, rfl⟩
  refine ⟨types, nonempty, ?_, by rw [Constraint.ofNames, same, Constraint.ofNames]⟩
  cases types with
  | nil => contradiction
  | cons => rw [List.append_nil]; rfl

theorem covers_optional_types {reader : Reader (List String)}
    (covers : Covers reader fun names tokens =>
      ∃ types ≠ [], tokens = typeTokens types ∧ Constraint.ofNames names = .ofNames types) :
    Covers reader.optional
      (StandsFor typeTokens (Option.map Constraint.ofNames) ParameterSource.constraint?) := by
  refine covers.optional.mono ?_
  rintro _ _ (⟨rfl, rfl⟩ | ⟨names, rfl, types, nonempty, rfl, same⟩)
  · exact ⟨[], rfl, rfl⟩
  · refine ⟨types, rfl, ?_⟩
    cases types with
    | nil => contradiction
    | cons => exact congrArg some same

theorem covers_optional_returnType :
    Covers (Reader.optional returnType)
      (StandsFor typeTokens (Option.map Constraint.ofNames) ParameterSource.constraint?) :=
  covers_optional_types covers_types.named

theorem covers_parameter :
    Covers parameter (StandsFor ParameterSource.tokens (fun node => (node.declared, node.default))
      fun source => (source.declared, source.default)) := by
  refine Covers.named (((covers_name .parameterName .parameter).bind fun _ =>
    (covers_optional_types covers_types).bind fun _ => covers_default.optional.bind fun _ =>
      Covers.gap.bind fun _ => Covers.pure _).mono ?_)
  rintro _ _ ⟨name, _, _, rfl, rfl, types, _, _, rfl, ⟨sources, rfl, sameTypes⟩, content, _, _, rfl,
    isContent, _, _, _, rfl, rfl, rfl, rfl⟩
  rcases isContent with ⟨rfl, rfl⟩ | ⟨written, rfl, rfl⟩
  · exact ⟨⟨name, sources, none⟩, by simp [ParameterSource.tokens, defaultTokens],
      by simp [ParameterNode.declared, ParameterSource.declared, sameTypes]⟩
  · exact ⟨⟨name, sources, some written⟩, by simp [ParameterSource.tokens],
      by simp [ParameterNode.declared, ParameterSource.declared, sameTypes]⟩

theorem covers_optional_parameters :
    Covers (Reader.optional parameters) fun found tokens => ∃ sources trailingComma,
      tokens = parameterTokens trailingComma sources ∧
        (found.getD []).map (fun node => (node.declared, node.default)) =
          sources.map fun source => (source.declared, source.default) := by
  have comma := (covers_symbol (by decide : "," ∈ symbols)).optional
  have trailing : ∀ nodes : List ParameterNode,
      Covers (do let _ ← Reader.optional (symbol ","); return nodes) _ :=
    fun nodes => comma.bind fun _ => Covers.pure nodes
  have separated := covers_separated (by decide : "," ∈ symbols) covers_parameter trailing
  refine separated.named.optional.mono ?_
  rintro _ _ (⟨rfl, rfl⟩ |
    ⟨_, rfl, nodes, sources, _, nonempty, rfl, same, comma, _, _, rfl, isComma, rfl, rfl⟩)
  · exact ⟨[], false, rfl, rfl⟩
  · cases sources with
    | nil => contradiction
    | cons source sources =>
        rcases isComma with ⟨_, rfl⟩ | ⟨_, _, rfl⟩
        · exact ⟨source :: sources, false, rfl, same⟩
        · exact ⟨source :: sources, true, rfl, same⟩

/-- An attribute is read with the place of its name. -/
theorem exists_of_read_mark {text rest : List Char} {node : AttributeNode}
    (reads : (mark <* Reader.gap).read text = some (node, rest)) (settled : Avoids OpensGap text) :
    ∃ left, node.extent = ⟨Reader.bytes (node.name.toList ++ left), Reader.bytes left⟩ ∧
      Layout .readable [.symbol "@["] (ended text) (ended (node.name.toList ++ left)) ∧
      Layout .readable [.name .mark node.name, .symbol "]"] (ended (node.name.toList ++ left))
        (ended rest) ∧ Avoids OpensGap rest := by
  rcases Reader.read_seqLeft_eq_some_iff.mp reads with ⟨behind, _, readsMark, readsGap⟩
  rw [mark, Reader.read_named] at readsMark
  rcases Reader.read_bind_eq_some_iff.mp readsMark with ⟨_, inside, readsOpening, readsMark⟩
  rcases Reader.read_bind_eq_some_iff.mp readsMark with ⟨_, left, readsLocated, readsMark⟩
  rcases Reader.read_bind_eq_some_iff.mp readsMark with ⟨_, closing, readsInnerGap, readsMark⟩
  rcases Reader.read_bind_eq_some_iff.mp readsMark with ⟨_, _, readsClosing, same⟩
  cases same
  rw [Reader.read_located] at readsLocated
  rcases Option.map_eq_some_iff.mp readsLocated with ⟨⟨name, _⟩, readsName, same⟩
  cases same
  rcases covers_symbol (by decide) readsOpening settled with ⟨settledInside, _, opening, rfl⟩
  rcases takesToken_name .attributeName .mark readsName settledInside with
    ⟨_, _, rfl, isName, _, _, rfl⟩
  rcases isName with ⟨_, rfl⟩
  have readsToken : (token .attributeName Scan.attributeName).read (name.toList ++ left) =
      some (name, closing) :=
    Reader.read_seqLeft_eq_some_iff.mpr ⟨_, _, readsName, readsInnerGap⟩
  rcases covers_name .attributeName .mark readsToken settledInside with
    ⟨settledClosing, _, layoutName, rfl⟩
  have readsSymbol : (symbol "]").read closing = some ((), rest) :=
    Reader.read_seqLeft_eq_some_iff.mpr ⟨_, _, readsClosing, readsGap⟩
  rcases covers_symbol (by decide) readsSymbol settledClosing with
    ⟨settledRest, _, layoutClosing, rfl⟩
  exact ⟨left, rfl, opening, layoutName.append layoutClosing, settledRest⟩

theorem covers_mark :
    Covers (mark <* Reader.gap) (StandsFor attributeTokens AttributeNode.name id) := by
  intro text node rest reads settled
  rcases exists_of_read_mark reads settled with ⟨_, _, opening, closing, settledRest⟩
  exact ⟨settledRest, _, opening.append closing, node.name, rfl, rfl⟩

theorem covers_marks :
    Covers (Reader.many (mark <* Reader.gap)) fun nodes tokens =>
      tokens = (nodes.map AttributeNode.name).flatMap attributeTokens := by
  refine covers_mark.many.mono ?_
  rintro nodes _ ⟨names, rfl, same⟩
  rw [same, List.map_id]

/-- A method is read as its attributes and what stands behind them. -/
theorem exists_of_read_method {text rest : List Char} {node : MethodNode}
    (reads : method.read text = some (node, rest)) (settled : Avoids OpensGap text) :
    ∃ left, (Reader.many (mark <* Reader.gap)).read text = some (node.attributes, left) ∧
      ∃ source : MethodSource, Layout .readable source.bodyTokens (ended left) (ended rest) ∧
        source.attributes = node.attributes.map AttributeNode.name ∧
        source.outline = node.outline ∧ source.defaults = node.defaults ∧
        Avoids OpensGap rest := by
  rw [method, Reader.read_named] at reads
  rcases Reader.read_bind_eq_some_iff.mp reads with ⟨nodes, left, readsMarks, readsBody⟩
  have settledLeft := (covers_marks readsMarks settled).1
  have covers := (covers_keyword .methodKeyword (by decide : "def" ∈ keywords)).bind fun _ =>
    (covers_name .methodName .method).bind fun name =>
      (covers_symbol (by decide : "(" ∈ symbols)).bind fun _ =>
        covers_optional_parameters.bind fun parameters =>
          (covers_symbol (by decide : ")" ∈ symbols)).bind fun _ =>
            covers_optional_returnType.bind fun _ =>
              Covers.pure (⟨nodes, name, parameters.getD []⟩ : MethodNode)
  rcases covers readsBody settledLeft with ⟨settledRest, _, layout, _, _, _, rfl, rfl, name, _, _,
    rfl, rfl, _, _, _, rfl, rfl, parameters, _, _, rfl, ⟨sources, trailingComma, rfl, same⟩,
    _, _, _, rfl, rfl, _, _, _, rfl, ⟨returns, rfl, _⟩, rfl, rfl⟩
  have sameParameters := congrArg (List.map Prod.fst) same
  have sameDefaults := congrArg (List.filterMap Prod.snd) same
  simp only [List.map_map, List.filterMap_map, Function.comp_def] at sameParameters sameDefaults
  refine ⟨left, readsMarks,
    ⟨nodes.map AttributeNode.name, name, sources, trailingComma, returns⟩, ?_, rfl, ?_, ?_,
    settledRest⟩
  · simpa [MethodSource.bodyTokens] using layout
  · simp [MethodNode.outline, MethodSource.outline, sameParameters]
  · simp [MethodNode.defaults, MethodSource.defaults, sameDefaults]

theorem covers_method :
    Covers method (StandsFor MethodSource.tokens (fun node => (node.outline, node.defaults))
      fun source => (source.outline, source.defaults)) := by
  intro text node rest reads settled
  rcases exists_of_read_method reads settled with
    ⟨left, readsMarks, source, body, sameNames, sameOutline, sameDefaults, settledRest⟩
  rcases covers_marks readsMarks settled with ⟨_, _, marks, rfl⟩
  rw [← sameNames] at marks
  exact ⟨settledRest, _, marks.append body, source, source.tokens_eq.symm,
    by simp only [sameOutline, sameDefaults]⟩

/-- A block is read as its attributes, its head, its methods and a brace, behind which
its place ends. -/
theorem exists_of_read_block {text rest : List Char} {block : TypeNode × Reader.Extent}
    (reads : (Reader.located typeDecl <* Reader.gap).read text = some (block, rest))
    (settled : Avoids OpensGap text) :
    ∃ behindMarks inside behind, block.2 = ⟨Reader.bytes text, Reader.bytes behind⟩ ∧
      (Reader.many (mark <* Reader.gap)).read text = some (block.1.attributes, behindMarks) ∧
      Layout .readable [.symbol "type", .name .path block.1.name, .symbol "\x7b"]
        (ended behindMarks) (ended inside) ∧ Avoids OpensGap inside ∧
      (Reader.many method).read inside = some (block.1.methods, '\x7d' :: behind) ∧
      Layout .readable [.symbol "\x7d"] (ended ('\x7d' :: behind)) (ended rest) ∧
      Avoids OpensGap rest := by
  rcases Reader.read_seqLeft_eq_some_iff.mp reads with ⟨behind, _, readsLocated, readsGap⟩
  rw [Reader.read_located] at readsLocated
  rcases Option.map_eq_some_iff.mp readsLocated with ⟨⟨node, _⟩, readsBlock, same⟩
  cases same
  rw [typeDecl, Reader.read_named] at readsBlock
  rcases Reader.read_bind_eq_some_iff.mp readsBlock with ⟨_, behindMarks, readsMarks, readsBlock⟩
  rcases Reader.read_bind_eq_some_iff.mp readsBlock with ⟨_, name, readsKeyword, readsBlock⟩
  rcases Reader.read_bind_eq_some_iff.mp readsBlock with ⟨_, opening, readsName, readsBlock⟩
  rcases Reader.read_bind_eq_some_iff.mp readsBlock with ⟨_, inside, readsOpening, readsBlock⟩
  rcases Reader.read_bind_eq_some_iff.mp readsBlock with ⟨_, closing, readsMethods, readsBlock⟩
  rcases Reader.read_bind_eq_some_iff.mp readsBlock with ⟨_, _, readsClosing, same⟩
  cases same
  have settledBehindMarks := (covers_marks readsMarks settled).1
  rcases covers_keyword .typeKeyword (by decide) readsKeyword settledBehindMarks with
    ⟨settledName, _, layoutKeyword, rfl⟩
  rcases covers_name .typePath .path readsName settledName with
    ⟨settledOpening, _, layoutName, rfl⟩
  rcases covers_symbol (by decide) readsOpening settledOpening with
    ⟨settledInside, _, layoutOpening, rfl⟩
  have head := layoutKeyword.append (layoutName.append layoutOpening)
  have settledClosing := (covers_method.many readsMethods settledInside).1
  have readsSymbol : (symbol "\x7d").read closing = some ((), rest) :=
    Reader.read_seqLeft_eq_some_iff.mpr ⟨_, _, readsClosing, readsGap⟩
  rcases covers_symbol (by decide) readsSymbol settledClosing with
    ⟨settledRest, _, layoutClosing, rfl⟩
  rcases takesToken_exactly (by decide) readsClosing settledClosing with
    ⟨_, _, rfl, isBrace, _, _, rfl⟩
  rcases isBrace with ⟨_, rfl⟩
  exact ⟨behindMarks, inside, behind, rfl, readsMarks, head, settledInside, readsMethods,
    layoutClosing, settledRest⟩

theorem covers_block :
    Covers (Reader.located typeDecl <* Reader.gap)
      (StandsFor BlockSource.tokens (fun block => (block.1.outline, block.1.defaults))
        fun source => (source.outline, source.defaults)) := by
  intro text block rest reads settled
  rcases exists_of_read_block reads settled with
    ⟨_, _, _, _, readsMarks, head, settledInside, readsMethods, closing, settledRest⟩
  rcases covers_marks readsMarks settled with ⟨_, _, marks, rfl⟩
  rcases covers_method.many readsMethods settledInside with
    ⟨_, _, methods, sources, rfl, same⟩
  have sameOutlines := congrArg (List.map Prod.fst) same
  have sameDefaults := congrArg (List.flatMap Prod.snd) same
  simp only [List.map_map, List.flatMap_map, Function.comp_def] at sameOutlines sameDefaults
  refine ⟨settledRest, _, marks.append (head.append (methods.append closing)),
    ⟨block.1.attributes.map AttributeNode.name, block.1.name, sources⟩, rfl, ?_⟩
  simp [TypeNode.outline, BlockSource.outline, TypeNode.defaults, BlockSource.defaults,
    sameOutlines, sameDefaults]

/-- Behind its first gap a manifest is read block by block, up to its end. -/
theorem runs_of_read_manifest {text rest : List Char} {blocks : List (TypeNode × Reader.Extent)}
    (reads : manifest.read text = some (blocks, rest)) :
    (Reader.located typeDecl <* Reader.gap).Runs (skipGap false text) blocks [] := by
  rw [manifest, Reader.read_named] at reads
  rcases Reader.read_bind_eq_some_iff.mp reads with ⟨_, _, readsGap, reads⟩
  cases readsGap
  rcases Reader.read_bind_eq_some_iff.mp reads with ⟨_, left, readsBlocks, reads⟩
  rcases Reader.read_bind_eq_some_iff.mp reads with ⟨_, _, readsEnd, same⟩
  cases same
  rw [Reader.read_named] at readsEnd
  have atEnd : left = [] := by
    by_contra more
    simp [Reader.endOfInput, more] at readsEnd
  rw [atEnd] at readsBlocks
  exact Reader.runs_of_read_many readsBlocks

/-- What is read as a manifest lays out blocks with the outlines and default texts that
are read. -/
theorem exists_layout_of_read_manifest {text rest : List Char}
    {blocks : List (TypeNode × Reader.Extent)}
    (reads : manifest.read text = some (blocks, rest)) :
    ∃ gap laid, ∃ sources : List BlockSource, text ++ ['\n'] = gap ++ laid ∧ IsGap gap ∧
      Layout .readable (sources.flatMap BlockSource.tokens) laid [] ∧
      blocks.map (fun block => block.1.outline) = sources.map BlockSource.outline ∧
      blocks.flatMap (fun block => block.1.defaults) = sources.flatMap BlockSource.defaults := by
  rcases exists_ended_of_skipGap false text with ⟨gap, same, isGap⟩
  rcases covers_block.runs (runs_of_read_manifest reads) (settled_skipGap false text) with
    ⟨_, sources, layout, sameBlocks⟩
  have sameOutlines := congrArg (List.map Prod.fst) sameBlocks
  have sameDefaults := congrArg (List.flatMap Prod.snd) sameBlocks
  simp only [List.map_map, List.flatMap_map, Function.comp_def] at sameOutlines sameDefaults
  exact ⟨gap, _, sources, same, isGap, layout, sameOutlines, sameDefaults⟩

end Rules

end Grammar

/-- Every manifest that is read lays a source out, once its last line is ended. -/
theorem exists_laysOut_of_read_manifest {text : String} {rest : List Char}
    {blocks : List (TypeNode × Reader.Extent)}
    (reads : Grammar.manifest.read text.toList = some (blocks, rest)) :
    ∃ sources, LaysOut .readable sources (text ++ "\n") ∧
      blocks.map (fun block => block.1.outline) = sources.map BlockSource.outline ∧
      blocks.flatMap (fun block => block.1.defaults) = sources.flatMap BlockSource.defaults := by
  rcases Grammar.exists_layout_of_read_manifest reads with
    ⟨gap, laid, sources, same, isGap, layout, sameBlocks⟩
  refine ⟨sources, ⟨gap, laid, ?_, isGap, layout⟩, sameBlocks⟩
  rw [String.toList_append, ← same]
  rfl

theorem exists_laysOut_of_parse {text : String} {decls : List TypeDecl}
    (accepted : parse text = .ok decls) :
    ∃ sources, LaysOut .readable sources (text ++ "\n") ∧
      Declare (sources.map BlockSource.outline) decls := by
  obtain ⟨blocks, _, reads, declared⟩ := parse_eq_ok_iff.mp accepted
  obtain ⟨sources, laysOut, sameOutlines, _⟩ := exists_laysOut_of_read_manifest reads
  exact ⟨sources, laysOut, sameOutlines ▸ declared⟩

/-- Ending the last line changes nothing. -/
theorem parse_append_lineEnd {text : String} {decls : List TypeDecl}
    (accepted : parse text = .ok decls) :
    parse (text ++ "\n") = .ok decls := by
  obtain ⟨sources, laysOut, declared⟩ := exists_laysOut_of_parse accepted
  exact (parse_eq_ok_iff_of_laysOut laysOut).mpr declared

end MultiDispatch.Manifest
