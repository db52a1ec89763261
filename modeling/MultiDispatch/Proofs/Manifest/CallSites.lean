import MultiDispatch.Proofs.Label.CallSite
import MultiDispatch.Proofs.Manifest.Acceptance
import MultiDispatch.Proofs.Plan.Extraction

/-!
# Call sites of a manifest

The identifier of a call site is made of the name of its method and the label of
its signature.  As a manifest writes them, neither can be taken for a part of
the other: two methods with one identifier have the same name and signature.
-/

namespace MultiDispatch.Manifest

theorem withoutBlanks_methodName {name : List Char} (isName : Scan.methodName name = some []) :
    Text.withoutBlanks name = name := by
  obtain ⟨taken, rfl, isName, _⟩ := Scan.exists_of_methodName isName
  simpa [Text.withoutBlanks] using isName.isBlank_eq_false

theorem isCapitalised_of_writtenAs {name : String} {written : List Char}
    (isWritten : (Token.type name).WrittenAs .readable written) :
    (Ty.ofName name).IsCapitalised := by
  obtain ⟨isText, solid⟩ := isWritten
  obtain ⟨first, others, rfl, upper⟩ := isText.exists_isUpper
  have isSolid := Scan.isBlank_eq_false_of_isWordChar (Scan.isWordChar_of_isUpper upper)
  refine ⟨first, Text.withoutBlanks others, ?_, upper⟩
  rw [Ty.name_ofName, String.toList_ofList, ← solid, Text.withoutBlanks_withoutBlanks,
    Text.withoutBlanks, Text.withoutBlanks, List.filter_cons_of_pos]
  simp [isSolid]

theorem isWritten_of_constraint? {types : List String}
    (writtenTypes : ∀ type ∈ types, ∃ written, (Token.type type).WrittenAs .readable written)
    {constraint : Constraint} (typed : ParameterSource.constraint? types = some constraint) :
    Label.IsWritten constraint := by
  cases types with
  | nil => cases typed
  | cons first others =>
      cases typed
      refine ⟨Label.isLabelled_ofNames (List.cons_ne_nil _ _), ?_⟩
      intro ty inside
      obtain ⟨name, isName, rfl⟩ := Constraint.mem_members_ofNames.mp inside
      obtain ⟨_, isWritten⟩ := writtenTypes name isName
      exact isCapitalised_of_writtenAs isWritten

/-- Every method of an accepted manifest is declared by a source whose tokens can be
written. -/
theorem exists_source_of_parse {text : String} {decls : List TypeDecl}
    (accepted : parse text = .ok decls) {decl : TypeDecl} (isDecl : decl ∈ decls)
    {method : MethodDecl} (isMethod : method ∈ decl.methods) :
    ∃ source : MethodSource,
      (∀ token ∈ source.tokens, ∃ written, token.WrittenAs .readable written) ∧
      method.name = source.name ∧
      method.parameters = source.parameters.map ParameterSource.declared := by
  obtain ⟨sources, ⟨_, _, _, _, layout⟩, declare⟩ := exists_laysOut_of_parse accepted
  obtain ⟨outline, isOutline, declares⟩ := declare.blocks.exists_of_mem_right isDecl
  obtain ⟨block, isBlock, rfl⟩ := List.mem_map.mp isOutline
  obtain ⟨methodOutline, isMethodOutline, methodDeclares⟩ :=
    declares.methods.exists_of_mem_right isMethod
  obtain ⟨source, isSource, rfl⟩ := List.mem_map.mp isMethodOutline
  refine ⟨source, fun token inside => layout.writtenAs ?_, methodDeclares.name,
    methodDeclares.parameters⟩
  refine List.mem_flatMap.mpr ⟨block, isBlock, List.mem_append_right _ ?_⟩
  have isMethodToken := List.mem_flatMap.mpr ⟨source, isSource, inside⟩
  simp [isMethodToken]

/-- The signature of a fully typed method of an accepted manifest has constraints as
a manifest writes them. -/
theorem written_of_parse {source : String} {decls : List TypeDecl}
    (accepted : parse source = .ok decls) {decl : TypeDecl} (isDecl : decl ∈ decls)
    {method : MethodDecl} (isMethod : method ∈ decl.methods) {signature : Signature}
    (typed : method.signature? = some signature) :
    Text.withoutBlanks method.name.toList = method.name.toList ∧
      ∀ constraint ∈ signature.constraints, Label.IsWritten constraint := by
  obtain ⟨source, written, sameName, sameParameters⟩ :=
    exists_source_of_parse accepted isDecl isMethod
  constructor
  · obtain ⟨_, isName, _⟩ := written (.name .method source.name) (by simp [MethodSource.tokens])
    rw [sameName]
    exact withoutBlanks_methodName isName
  · intro constraint inside
    rw [MethodDecl.signature?_eq_some_iff, sameParameters, List.map_map] at typed
    have present : some constraint ∈ signature.constraints.map some := List.mem_map_of_mem inside
    rw [← typed] at present
    obtain ⟨parameter, isParameter, isTyped⟩ := List.mem_map.mp present
    refine isWritten_of_constraint? (fun type isType => written (.type type) ?_) isTyped
    have isToken : .type type ∈ parameter.tokens :=
      List.mem_cons_of_mem _ (List.mem_append_left _ (mem_typeTokens isType))
    simp [MethodSource.tokens, mem_parameterTokens isParameter isToken]

/-- Two fully typed methods of an accepted manifest with one call-site identifier
have the same name and the same signature. -/
theorem method_determined_by_callSite {source : String} {decls : List TypeDecl}
    (accepted : parse source = .ok decls) {decl otherDecl : TypeDecl} (isDecl : decl ∈ decls)
    (isOtherDecl : otherDecl ∈ decls) {method other : MethodDecl} (isMethod : method ∈ decl.methods)
    (isOther : other ∈ otherDecl.methods) {signature otherSignature : Signature}
    (typed : method.signature? = some signature)
    (otherTyped : other.signature? = some otherSignature)
    (same : Label.callSite method.name signature = Label.callSite other.name otherSignature) :
    method.name = other.name ∧ signature = otherSignature := by
  obtain ⟨solid, written⟩ := written_of_parse accepted isDecl isMethod typed
  obtain ⟨otherSolid, otherWritten⟩ := written_of_parse accepted isOtherDecl isOther otherTyped
  exact Label.callSite_injective solid otherSolid written otherWritten same

/-- Two types that declare one comparison, with the alternatives in another order. -/
def comparisons : String :=
  "type A \x7b def <=>(x : Int32 | Nil) \x7d type B \x7b def <=>(y : Nil | Int32 | Nil) \x7d"

def comparison (owner parameter : String) (types : List String) : MethodDecl where
  owner
  name := "<=>"
  parameters := [⟨parameter, some (.ofNames types), false⟩]
  strategy := none
  skip := false

theorem method_determined_by_callSite_comparison :
    let method := comparison "A" "x" ["Int32", "Nil"]
    let other := comparison "B" "y" ["Nil", "Int32", "Nil"]
    let signature : Signature := ⟨[.ofNames ["Int32", "Nil"]]⟩
    let otherSignature : Signature := ⟨[.ofNames ["Nil", "Int32", "Nil"]]⟩
    parse comparisons = .ok [⟨"A", none, [method]⟩, ⟨"B", none, [other]⟩] ∧
      method.signature? = some signature ∧ other.signature? = some otherSignature ∧
      Label.callSite method.name signature = Label.callSite other.name otherSignature ∧
      method.name = other.name ∧ signature = otherSignature := by
  intro method other signature otherSignature
  have accepted : parse comparisons =
      .ok [⟨"A", none, [method]⟩, ⟨"B", none, [other]⟩] := by decide +kernel
  have typed : method.signature? = some signature := rfl
  have otherTyped : other.signature? = some otherSignature := rfl
  have same : Label.callSite method.name signature = Label.callSite other.name otherSignature := by
    decide +kernel
  exact ⟨accepted, typed, otherTyped, same, method_determined_by_callSite accepted
    List.mem_cons_self (List.mem_cons_of_mem _ List.mem_cons_self) (List.mem_singleton_self method)
    (List.mem_singleton_self other) typed otherTyped same⟩

end MultiDispatch.Manifest
