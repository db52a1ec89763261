import MultiDispatch.Proofs.Constraint.Collected
import MultiDispatch.Proofs.Manifest.Recognition
import MultiDispatch.Proofs.Manifest.Source

/-!
# Printing declarations

The words that print a list of declarations, and the texts that hold these words
in order.  Where the names are ones that a manifest can write and no type is
declared twice, every such text is accepted and declares the list again.
-/

namespace MultiDispatch

open Manifest

section Words

def Strategy.attribute : Strategy → String
  | .closure => "UseClosureStrategy"
  | .valueObject => "UseValueObjectStrategy"

/-- The attributes of an item in the order in which they are printed. -/
def printedAttributes (strategy : Option Strategy) (skip : Bool) : List String :=
  (strategy.map Strategy.attribute).toList ++ if skip then ["Skip"] else []

def attributeWords (name : String) : List String := ["@[", name, "]"]

def Parameter.words (parameter : Parameter) : List String :=
  let types := match parameter.constraint with
    | some constraint => ":" :: ["|"].intercalate (constraint.members.map fun ty => [ty.name])
    | none => []
  let default := if parameter.hasDefault then ["=", "0"] else []
  parameter.name :: (types ++ default)

def MethodDecl.words (method : MethodDecl) : List String :=
  (printedAttributes method.strategy method.skip).flatMap attributeWords ++
    "def" :: method.name :: "(" ::
      ([","].intercalate (method.parameters.map Parameter.words) ++ [")"])

def TypeDecl.words (decl : TypeDecl) : List String :=
  (printedAttributes decl.strategy false).flatMap attributeWords ++
    "type" :: decl.name :: "\x7b" :: (decl.methods.flatMap MethodDecl.words ++ ["\x7d"])

/-- The words in order, each with a single space, a line end or nothing behind it,
so that none runs into the next. -/
inductive Spaced : List String → List Char → Prop where
  | nil : Spaced [] []
  | cons {word separator : String} {words : List String} {text : List Char}
      (single : separator ∈ ["", " ", "\n"])
      (apart : ¬Fuses word.toList (separator.toList ++ text)) (more : Spaced words text) :
      Spaced (word :: words) (word.toList ++ (separator.toList ++ text))

def Prints (decls : List TypeDecl) (text : String) : Prop :=
  Spaced (decls.flatMap TypeDecl.words) text.toList

end Words

section Printable

/-- A text without blanks that is read as the name of a type. -/
def IsTypeName (text : String) : Prop :=
  Grammar.typeName.read text.toList = some (text, []) ∧
    Text.withoutBlanks text.toList = text.toList

instance (text : String) : Decidable (IsTypeName text) := inferInstanceAs (Decidable (_ ∧ _))

structure Constraint.IsPrintable (constraint : Constraint) : Prop where
  collected : constraint.IsCollected
  named : ∀ ty ∈ constraint.members, ∃ text, IsTypeName text ∧ Ty.ofName text = ty

structure Parameter.IsPrintable (parameter : Parameter) : Prop where
  name : Scan.parameterName parameter.name.toList = some []
  constraint : ∀ constraint, parameter.constraint = some constraint → constraint.IsPrintable

structure MethodDecl.IsPrintable (method : MethodDecl) (owner : String) : Prop where
  owner : method.owner = owner
  name : Scan.IsMethodName method.name.toList
  parameters : ∀ parameter ∈ method.parameters, parameter.IsPrintable

structure TypeDecl.IsPrintable (decl : TypeDecl) : Prop where
  name : Scan.typePath decl.name.toList = some []
  methods : ∀ method ∈ decl.methods, method.IsPrintable decl.name

structure Printable (decls : List TypeDecl) : Prop where
  distinct : (decls.map TypeDecl.name).Nodup
  each : ∀ decl ∈ decls, decl.IsPrintable

theorem Constraint.isPrintable_ofNames {names : List String} (nonempty : names ≠ [])
    (named : ∀ name ∈ names, IsTypeName name) : (Constraint.ofNames names).IsPrintable where
  collected := isCollected_ofNames nonempty
  named := by
    intro ty inside
    obtain ⟨name, isName, rfl⟩ := mem_members_ofNames.mp inside
    exact ⟨name, named name isName, rfl⟩

end Printable

section Sources

def Parameter.source (parameter : Parameter) : ParameterSource where
  name := parameter.name
  types := (parameter.constraint.map fun constraint => constraint.members.map Ty.name).getD []
  default := if parameter.hasDefault then some "0" else none

def MethodDecl.source (method : MethodDecl) : MethodSource where
  attributes := printedAttributes method.strategy method.skip
  name := method.name
  parameters := method.parameters.map Parameter.source
  trailingComma := false
  returns := []

def TypeDecl.source (decl : TypeDecl) : BlockSource where
  attributes := printedAttributes decl.strategy false
  name := decl.name
  methods := decl.methods.map MethodDecl.source

theorem attributesSay_printedAttributes (strategy : Option Strategy) (skip : Bool) :
    AttributesSay (printedAttributes strategy skip) strategy skip := by
  rcases strategy with _ | _ | _ <;> cases skip <;> exact ⟨by decide, by decide, by decide⟩

theorem Parameter.IsPrintable.declared_source {parameter : Parameter}
    (printable : parameter.IsPrintable) :
    parameter.source.declared = parameter := by
  obtain ⟨name, constraint, hasDefault⟩ := parameter
  have sameConstraint : ParameterSource.constraint?
      ((constraint.map fun constraint => constraint.members.map Ty.name).getD []) = constraint := by
    cases constraint with
    | none => rfl
    | some constraint =>
        obtain ⟨collected, named⟩ := printable.constraint constraint rfl
        have sameTypes : (constraint.members.map Ty.name).map Ty.ofName = constraint.members := by
          have same : ∀ ty ∈ constraint.members, Ty.ofName ty.name = ty := by
            intro ty inside
            obtain ⟨text, _, rfl⟩ := named ty inside
            exact Ty.ofName_name_ofName text
          rw [List.map_map]
          exact (List.map_congr_left same).trans (List.map_id' _)
        rw [Option.map_some, Option.getD_some, ParameterSource.constraint?]
        · rw [Constraint.ofNames, sameTypes, collected.isCollapsed.ofTypes_members]
        · simpa using collected.members_ne_nil
  have sameDefault : (if hasDefault then some "0" else none).isSome = hasDefault := by
    cases hasDefault <;> rfl
  simp only [Parameter.source, ParameterSource.declared, sameConstraint, sameDefault]

theorem MethodDecl.IsPrintable.declares {method : MethodDecl} {owner : String}
    (printable : method.IsPrintable owner) : method.source.outline.Declares owner method where
  attributes := attributesSay_printedAttributes method.strategy method.skip
  owner := printable.owner
  name := rfl
  parameters := by
    have same : ∀ parameter ∈ method.parameters, parameter.source.declared = parameter :=
      fun parameter inside => (printable.parameters parameter inside).declared_source
    change _ = (method.parameters.map Parameter.source).map ParameterSource.declared
    rw [List.map_map]
    exact ((List.map_congr_left same).trans (List.map_id' _)).symm

theorem TypeDecl.IsPrintable.declares {decl : TypeDecl} (printable : decl.IsPrintable) :
    decl.source.outline.Declares decl where
  attributes := attributesSay_printedAttributes decl.strategy false
  name := rfl
  methods := by
    simp only [BlockSource.outline, TypeDecl.source, List.forall₂_map_left_iff]
    rw [List.forall₂_same]
    exact fun method inside => (printable.methods method inside).declares

theorem Printable.declare {decls : List TypeDecl} (printable : Printable decls) :
    Declare (decls.map fun decl => decl.source.outline) decls where
  blocks := by
    rw [List.forall₂_map_left_iff, List.forall₂_same]
    exact fun decl inside => (printable.each decl inside).declares
  distinct := printable.distinct

end Sources

section Tokens

theorem map_text_attributeTokens (names : List String) :
    (names.flatMap attributeTokens).map Token.text = names.flatMap attributeWords := by
  rw [List.map_flatMap]
  rfl

theorem map_text_typeTokens (types : List String) :
    (typeTokens types).map Token.text =
      if types = [] then [] else ":" :: ["|"].intercalate (types.map fun type => [type]) := by
  cases types with
  | nil => rfl
  | cons first others =>
      rw [typeTokens, List.map_cons, Text.map_intercalate, List.map_map,
        if_neg (List.cons_ne_nil _ _)]
      · rfl
      · simp

theorem parameterTokens_false (sources : List ParameterSource) :
    parameterTokens false sources =
      [Token.symbol ","].intercalate (sources.map ParameterSource.tokens) := by
  cases sources with
  | nil => rfl
  | cons => exact List.append_nil _

theorem Parameter.IsPrintable.map_text_tokens {parameter : Parameter}
    (printable : parameter.IsPrintable) :
    parameter.source.tokens.map Token.text = parameter.words := by
  obtain ⟨name, constraint, hasDefault⟩ := parameter
  have sameDefault : (defaultTokens (if hasDefault then some "0" else none)).map Token.text =
      if hasDefault then ["=", "0"] else [] := by
    cases hasDefault <;> rfl
  simp only [source, ParameterSource.tokens, words, List.map_cons, List.map_append,
    map_text_typeTokens, sameDefault]
  cases constraint with
  | none => rfl
  | some constraint =>
      have nonempty := (printable.constraint constraint rfl).collected.members_ne_nil
      simp [Token.text, nonempty, Function.comp_def]

theorem MethodDecl.IsPrintable.map_text_tokens {method : MethodDecl} {owner : String}
    (printable : method.IsPrintable owner) :
    method.source.tokens.map Token.text = method.words := by
  have sameParameters :
      (parameterTokens false (method.parameters.map Parameter.source)).map Token.text =
        [","].intercalate (method.parameters.map Parameter.words) := by
    rw [parameterTokens_false, Text.map_intercalate, List.map_map, List.map_map]
    exact congrArg _ (List.map_congr_left fun parameter inside =>
      (printable.parameters parameter inside).map_text_tokens)
  simp only [source, MethodSource.tokens, List.map_append, List.map_cons, map_text_attributeTokens,
    sameParameters, words]
  rfl

theorem TypeDecl.IsPrintable.map_text_tokens {decl : TypeDecl} (printable : decl.IsPrintable) :
    decl.source.tokens.map Token.text = decl.words := by
  have sameMethods :
      ((decl.methods.map MethodDecl.source).flatMap MethodSource.tokens).map Token.text =
        decl.methods.flatMap MethodDecl.words := by
    rw [List.flatMap_map, List.map_flatMap]
    exact List.flatMap_congr fun method inside => (printable.methods method inside).map_text_tokens
  simp only [source, BlockSource.tokens, List.map_append, List.map_cons, map_text_attributeTokens,
    sameMethods, words]
  rfl

/-- The token is written as its text. -/
def WrittenPlain (token : Token) : Prop := token.WrittenAs .readable token.text.toList

theorem writtenPlain_symbol {mark : String} (known : mark ∈ keywords ++ symbols) :
    WrittenPlain (.symbol mark) :=
  ⟨known, rfl⟩

theorem writtenPlain_printedAttributes (strategy : Option Strategy) (skip : Bool) :
    ∀ token ∈ (printedAttributes strategy skip).flatMap attributeTokens, WrittenPlain token := by
  have isName : ∀ name ∈ printedAttributes strategy skip,
      Scan.attributeName name.toList = some [] := by
    rcases strategy with _ | _ | _ <;> cases skip <;> decide
  refine List.forall_mem_flatMap.mpr fun name inside => ?_
  simp only [attributeTokens, List.forall_mem_cons]
  exact ⟨writtenPlain_symbol (by decide), ⟨isName name inside, rfl⟩,
    writtenPlain_symbol (by decide),
    by simp⟩

theorem Constraint.IsPrintable.writtenPlain {constraint : Constraint}
    (printable : constraint.IsPrintable) :
    ∀ ty ∈ constraint.members, WrittenPlain (.type ty.name) := by
  intro ty inside
  obtain ⟨text, ⟨isRead, solid⟩, rfl⟩ := printable.named ty inside
  have sameName : (Ty.ofName text).name = text := by
    rw [Ty.name_ofName, solid, String.ofList_toList]
  rw [sameName]
  exact ⟨Grammar.read_typeName_eq_some_iff.mp isRead, solid⟩

theorem Parameter.IsPrintable.writtenPlain {parameter : Parameter}
    (printable : parameter.IsPrintable) :
    ∀ token ∈ parameter.source.tokens, WrittenPlain token := by
  obtain ⟨name, constraint, hasDefault⟩ := parameter
  simp only [source, ParameterSource.tokens, List.forall_mem_cons, List.forall_mem_append]
  refine ⟨⟨printable.name, rfl⟩, ?_, ?_⟩
  · cases constraint with
    | none => simp [typeTokens]
    | some constraint =>
        have isPrintable := printable.constraint constraint rfl
        simp only [Option.map_some, Option.getD_some]
        rw [typeTokens]
        · refine List.forall_mem_cons.mpr ⟨writtenPlain_symbol (by decide), ?_⟩
          refine Text.forall_mem_intercalate (by simpa using writtenPlain_symbol (by decide)) ?_
          simpa using isPrintable.writtenPlain
        · simpa using isPrintable.collected.members_ne_nil
  · cases hasDefault with
    | false => simp [defaultTokens]
    | true =>
        have isText : Scan.defaultText "0".toList = some [] := by cbv
        have settled : Avoids OpensGap ['0'] := by simp [OpensGap, IsSpacing, IsLineEnd]
        simpa [defaultTokens] using ⟨writtenPlain_symbol (by decide), isText, settled, rfl⟩

theorem MethodDecl.IsPrintable.writtenPlain {method : MethodDecl} {owner : String}
    (printable : method.IsPrintable owner) :
    ∀ token ∈ method.source.tokens, WrittenPlain token := by
  simp only [source, MethodSource.tokens, List.forall_mem_append, List.forall_mem_cons,
    parameterTokens_false]
  refine ⟨writtenPlain_printedAttributes _ _, writtenPlain_symbol (by decide),
    ⟨printable.name.methodName_eq, rfl⟩, writtenPlain_symbol (by decide), ?_,
    writtenPlain_symbol (by decide), by simp [typeTokens]⟩
  refine Text.forall_mem_intercalate (by simpa using writtenPlain_symbol (by decide)) ?_
  simpa using fun parameter inside => (printable.parameters parameter inside).writtenPlain

theorem TypeDecl.IsPrintable.writtenPlain {decl : TypeDecl} (printable : decl.IsPrintable) :
    ∀ token ∈ decl.source.tokens, WrittenPlain token := by
  simp only [source, BlockSource.tokens, List.forall_mem_append, List.forall_mem_cons,
    List.flatMap_map]
  refine ⟨writtenPlain_printedAttributes _ _, writtenPlain_symbol (by decide),
    ⟨printable.name, rfl⟩,
    writtenPlain_symbol (by decide), ?_, writtenPlain_symbol (by decide), by simp⟩
  exact List.forall_mem_flatMap.mpr fun method inside =>
    (printable.methods method inside).writtenPlain

theorem allowsBehind_separator {separator : String} (single : separator ∈ ["", " ", "\n"])
    (token : Token) : token.AllowsBehind .readable separator.toList := by
  have isGap : IsGap separator.toList := by
    apply IsGap.of_isSpacing
    revert separator
    simp [IsSpacing, IsLineEnd]
  have isText : Filling.readable.behindDefaults separator.toList := by
    apply Scan.skipMany_defaultItem_of_isPlain
    revert separator
    simp [Scan.IsPlain]
  cases token with
  | default => exact ⟨isGap, isText⟩
  | symbol | name | type => exact isGap

theorem layout_of_spaced {tokens : List Token} {text : List Char}
    (plain : ∀ token ∈ tokens, WrittenPlain token) (spaced : Spaced (tokens.map Token.text) text) :
    Layout .readable tokens text [] := by
  induction tokens generalizing text with
  | nil =>
      cases spaced
      exact .nil []
  | cons token tokens inductionHypothesis =>
      obtain ⟨first, others⟩ := List.forall_mem_cons.mp plain
      cases spaced with
      | cons single apart more =>
          exact .cons first (allowsBehind_separator single token) apart
            (inductionHypothesis others more)

theorem Printable.laysOut {decls : List TypeDecl} (printable : Printable decls) {text : String}
    (prints : Prints decls text) : LaysOut .readable (decls.map TypeDecl.source) text := by
  refine ⟨[], text.toList, rfl, .nil, ?_⟩
  rw [List.flatMap_map]
  apply layout_of_spaced
  · exact List.forall_mem_flatMap.mpr fun decl inside => (printable.each decl inside).writtenPlain
  · rw [List.map_flatMap, List.flatMap_congr fun decl inside =>
      (printable.each decl inside).map_text_tokens]
    exact prints

end Tokens

section Printing

/-- The words with a space behind each. -/
def print (decls : List TypeDecl) : String :=
  String.ofList ((decls.flatMap TypeDecl.words).flatMap fun word => word.toList ++ [' '])

theorem prints_print (decls : List TypeDecl) : Prints decls (print decls) := by
  rw [Prints, print, String.toList_ofList]
  induction decls.flatMap TypeDecl.words with
  | nil => exact .nil
  | cons word words inductionHypothesis =>
      rw [List.flatMap_cons, List.append_assoc]
      have single : " " ∈ ["", " ", "\n"] := by decide
      exact .cons single (Fuses.not_of_avoids (Avoids.cons_iff.mpr (by decide))) inductionHypothesis

/-- A printable list can be printed, and however its words are spaced, the text is
accepted and declares exactly the list. -/
theorem parse_eq_ok_of_prints {decls : List TypeDecl} (printable : Printable decls) :
    (∃ text, Prints decls text) ∧ ∀ text, Prints decls text → parse text = .ok decls := by
  refine ⟨⟨print decls, prints_print decls⟩, fun text prints => ?_⟩
  rw [parse_eq_ok_iff_of_laysOut (printable.laysOut prints), List.map_map]
  exact printable.declare

/-- Names that look like keywords and operators, and arguments in arguments. -/
def shapes : List TypeDecl :=
  [⟨"Geo::Shape", some .valueObject,
    [⟨"Geo::Shape", "<=>",
      [⟨"other", some (.ofNames ["Hash(String,Array(Int32|Nil))", "Nil"]), false⟩,
        ⟨"type", some (.ofNames ["Int::Signed"]), true⟩, ⟨"_", none, true⟩], some .closure, true⟩,
      ⟨"Geo::Shape", "def?", [], none, false⟩]⟩,
    ⟨"Type", none, []⟩]

theorem parse_eq_ok_of_prints_shapes : Printable shapes ∧ parse (print shapes) = .ok shapes := by
  have printable : Printable shapes := by
    refine ⟨by decide, ?_⟩
    simp only [shapes, List.forall_mem_cons]
    refine ⟨⟨by decide +kernel, ?_⟩, ⟨by decide +kernel, by simp⟩, by simp⟩
    simp only [List.forall_mem_cons]
    refine ⟨⟨rfl, ?_, ?_⟩, ⟨rfl, ?_, by simp⟩, by simp⟩
    · exact .inr ⟨"<=>", by decide, rfl⟩
    · simp only [List.forall_mem_cons]
      refine ⟨⟨rfl, ?_⟩, ⟨rfl, ?_⟩, ⟨rfl, by simp⟩, by simp⟩
      · rintro _ same
        cases same
        exact Constraint.isPrintable_ofNames (by simp) (by decide +kernel)
      · rintro _ same
        cases same
        exact Constraint.isPrintable_ofNames (by simp) (by decide +kernel)
    · exact .inl ⟨"def".toList, ['?'], rfl, by decide, rfl⟩
  exact ⟨printable, (parse_eq_ok_of_prints printable).2 (print shapes) (prints_print shapes)⟩

end Printing

end MultiDispatch
