import MultiDispatch.Proofs.Constraint.Collected
import MultiDispatch.Proofs.Manifest.Acceptance
import MultiDispatch.Proofs.Plan.Extraction
import MultiDispatch.Proofs.Signature.Odometer

/-!
# Well-formed manifests

A text matches the grammar when blocks can be laid out as it, once its last line is
ended.  It is accepted when these blocks are well-formed, which is a matter of their
attributes and of the names of the types; and then its declarations describe the
blocks one by one, with nothing added, left out or exchanged.
-/

namespace List

/-- An item that is not among the last stands in what comes before them. -/
theorem exists_of_append_eq_append_cons_left {α : Type*} {first second before after : List α}
    {item : α} (outside : item ∉ second)
    (same : first ++ second = before ++ item :: after) :
    ∃ back, first = before ++ item :: back ∧ after = back ++ second := by
  rcases append_eq_append_iff.mp same with ⟨front, _, behind⟩ | ⟨back, inFirst, behind⟩
  · exact absurd (by simp [behind]) outside
  · cases back with
    | nil => exact absurd (by simp [← (show _ = second from behind)]) outside
    | cons found back =>
        rw [cons_append, cons.injEq] at behind
        rcases behind with ⟨rfl, rfl⟩
        exact ⟨back, inFirst, rfl⟩

theorem toList_head?_of_length_le_one {α : Type*} {items : List α} (short : items.length ≤ 1) :
    items.head?.toList = items := by
  rcases items with _ | ⟨only, _ | ⟨second, others⟩⟩
  · rfl
  · rfl
  · simp at short

end List

namespace MultiDispatch.Manifest

/-- Once its last line is ended, the text lays the blocks out. -/
def Matches (source : String) (blocks : List BlockSource) : Prop :=
  LaysOut .readable blocks (source ++ "\n")

section Reading

variable {text : List Char} {sources : List BlockSource}

theorem settled_ended (settled : Avoids OpensGap text) : Avoids OpensGap (ended text) := by
  by_cases empty : text = []
  · rw [ended, if_pos empty]
    exact Avoids.nil
  · rw [ended, if_neg empty]
    exact settled.append empty

/-- What stands behind the first gap of a text with its last line ended is what is left
of the text itself when gaps are skipped, ended alike. -/
theorem eq_ended_of_isGap {gap tail : List Char} (isGap : IsGap gap)
    (settled : Avoids OpensGap tail) (same : text ++ ['\n'] = gap ++ tail) :
    tail = ended (skipGap false text) := by
  rcases exists_ended_of_skipGap false text with ⟨skipped, alsoSame, isSkipped⟩
  calc
    tail = skipGap false (gap ++ tail) := (isGap.skipGap_append settled).symm
    _ = skipGap false (skipped ++ ended (skipGap false text)) := by rw [← same, alsoSame]
    _ = ended (skipGap false text) :=
      IsGap.skipGap_append isSkipped (settled_ended (settled_skipGap false text))

/-- The last line need not be ended: what stands behind the last brace is skipped. -/
theorem Grammar.read_blocks_of_layout_ended
    (layout : Layout .readable (sources.flatMap BlockSource.tokens) (ended text) []) :
    ∃ blocks, (Reader.many (Reader.located typeDecl <* Reader.gap)).read text =
        some (blocks, []) ∧
      blocks.map (fun block => block.1.outline) = sources.map BlockSource.outline := by
  induction sources generalizing text with
  | nil =>
      have empty : text = [] := by
        by_contra nonempty
        have nothing := layout.eq_of_nil
        rw [ended, if_neg nonempty] at nothing
        simp at nothing
      subst empty
      exact ⟨[], Reader.read_many_of_none read_block_nil, rfl⟩
  | cons source sources inductionHypothesis =>
      rw [List.flatMap_cons, source.tokens_eq, List.append_assoc] at layout
      rcases Layout.append_iff.mp layout with ⟨_, opened, closing⟩
      cases closing with
      | @cons _ _ _ gap left _ isBrace allows _ others =>
          rcases isBrace with ⟨_, rfl⟩
          rcases opened.exists_taken with ⟨taken, same, movable⟩
          have nonempty : text ≠ [] := by
            rintro rfl
            simp [ended] at same
          rw [ended, if_neg nonempty] at same
          rcases List.exists_of_append_eq_append_cons_left (by decide) same with
            ⟨behind, rfl, behindSame⟩
          rcases read_typeDecl_of_layout (movable ('\x7d' :: behind) rfl) with
            ⟨node, readsNode, sameNode⟩
          rcases exists_read_block_of_read_typeDecl readsNode with ⟨block, readsBlock, rfl⟩
          have endedLeft := eq_ended_of_isGap allows.isGap (others.settled Avoids.nil) behindSame.symm
          rw [endedLeft] at others
          rcases inductionHypothesis others with ⟨blocks, readsBlocks, sameBlocks⟩
          refine ⟨block :: blocks, ?_, by rw [List.map_cons, List.map_cons, sameNode, sameBlocks]⟩
          apply Reader.read_many_of_some readsBlock ?_ readsBlocks
          have shorter := (skipGap_isSuffix false behind).length_le
          rw [List.length_append, List.length_cons]
          omega

theorem read_manifest_of_matches {source : String} (matching : Matches source sources) :
    ∃ blocks, Grammar.manifest.read source.toList = some (blocks, []) ∧
      blocks.map (fun block => block.1.outline) = sources.map BlockSource.outline := by
  rcases matching with ⟨gap, laid, same, isGap, layout⟩
  rw [String.toList_append] at same
  rw [eq_ended_of_isGap isGap (layout.settled Avoids.nil) same] at layout
  rcases Grammar.read_blocks_of_layout_ended layout with ⟨blocks, reads, sameOutlines⟩
  exact ⟨blocks, Grammar.read_manifest_of_blocks reads, sameOutlines⟩

/-- The grammar reads just the texts that lay blocks out. -/
theorem exists_read_manifest_iff {source : String} :
    (∃ nodes rest, Grammar.manifest.read source.toList = some (nodes, rest)) ↔
      ∃ blocks, Matches source blocks := by
  constructor
  · intro reads
    rcases reads with ⟨nodes, rest, reads⟩
    rcases exists_laysOut_of_read_manifest reads with ⟨sources, matching, _⟩
    exact ⟨sources, matching⟩
  · intro laidOut
    rcases laidOut with ⟨sources, matching⟩
    rcases read_manifest_of_matches matching with ⟨blocks, reads, _⟩
    exact ⟨blocks, [], reads⟩

theorem parse_eq_ok_iff_of_matches {source : String} {decls : List TypeDecl}
    (matching : Matches source sources) :
    parse source = .ok decls ↔ Declare (sources.map BlockSource.outline) decls := by
  rcases read_manifest_of_matches matching with ⟨blocks, reads, sameOutlines⟩
  rw [parse_eq_ok_iff_of_read reads, sameOutlines]

end Reading

section Attributes

/-- Only known attributes, and at most one strategy among them. -/
structure WellMarked (attributes : List String) : Prop where
  known : ∀ name ∈ attributes, name ∈ ["Skip", "UseClosureStrategy", "UseValueObjectStrategy"]
  oneStrategy : (attributes.filterMap strategyOfAttribute?).length ≤ 1

/-- The strategy and the skipping are what the attributes ask for. -/
structure MarkedBy (attributes : List String) (strategy : Option Strategy) (skip : Bool) :
    Prop where
  strategy : ∀ own, strategy = some own ↔
    ∃ name ∈ attributes, strategyOfAttribute? name = some own
  skip : skip = true ↔ "Skip" ∈ attributes

variable {attributes : List String} {strategy : Option Strategy} {skip : Bool}

theorem mem_known_iff {name : String} :
    name ∈ ["Skip", "UseClosureStrategy", "UseValueObjectStrategy"] ↔
      name = "Skip" ∨ (strategyOfAttribute? name).isSome := by
  unfold strategyOfAttribute?
  split <;> simp_all

theorem head?_strategies_eq_some_iff (wellMarked : WellMarked attributes) {own : Strategy} :
    (attributes.filterMap strategyOfAttribute?).head? = some own ↔
      ∃ name ∈ attributes, strategyOfAttribute? name = some own := by
  rw [← List.mem_filterMap, ← List.toList_head?_of_length_le_one wellMarked.oneStrategy,
    Option.mem_toList, Option.head?_toList]

theorem attributesSay_iff :
    AttributesSay attributes strategy skip ↔
      WellMarked attributes ∧ MarkedBy attributes strategy skip := by
  constructor
  · intro say
    refine ⟨⟨fun name inside => mem_known_iff.mpr (say.known name inside), ?_⟩, ?_, say.skip⟩
    · rw [say.strategy]
      cases strategy <;> simp
    · intro own
      rw [← List.mem_filterMap, say.strategy, Option.mem_toList]
  · intro marked
    rcases marked with ⟨wellMarked, markedBy⟩
    refine ⟨fun name inside => mem_known_iff.mp (wellMarked.known name inside), ?_, markedBy.skip⟩
    rw [← List.toList_head?_of_length_le_one wellMarked.oneStrategy]
    apply congrArg Option.toList
    apply Option.ext
    intro own
    rw [head?_strategies_eq_some_iff wellMarked, markedBy.strategy]

theorem exists_attributesSay (wellMarked : WellMarked attributes) :
    ∃ strategy, AttributesSay attributes strategy (decide ("Skip" ∈ attributes)) := by
  refine ⟨(attributes.filterMap strategyOfAttribute?).head?, attributesSay_iff.mpr ⟨wellMarked, ?_⟩⟩
  exact ⟨fun own => head?_strategies_eq_some_iff wellMarked, decide_eq_true_iff⟩

end Attributes

/-- Attributes fit for their items, and a name for each type. -/
structure WellFormed (blocks : List BlockSource) : Prop where
  types : ∀ block ∈ blocks, WellMarked block.attributes
  notSkipped : ∀ block ∈ blocks, "Skip" ∉ block.attributes
  methods : ∀ block ∈ blocks, ∀ method ∈ block.methods, WellMarked method.attributes
  distinct : (blocks.map BlockSource.name).Nodup

/-- The parameter has the name of the source, a default where there is one, and a
constraint to the types that are written, where there are any. -/
structure ParameterSource.Describes (source : ParameterSource) (parameter : Parameter) :
    Prop where
  name : parameter.name = source.name
  default : parameter.hasDefault = true ↔ source.default ≠ none
  untyped : parameter.constraint = none ↔ source.types = []
  typed : ∀ constraint ∈ parameter.constraint, constraint.IsCollected ∧
    ∀ ty, ty ∈ constraint.members ↔ ∃ name ∈ source.types, Ty.ofName name = ty

structure MethodSource.Describes (owner : String) (source : MethodSource) (decl : MethodDecl) :
    Prop where
  owner : decl.owner = owner
  name : decl.name = source.name
  parameters : List.Forall₂ ParameterSource.Describes source.parameters decl.parameters
  marked : MarkedBy source.attributes decl.strategy decl.skip

structure BlockSource.Describes (source : BlockSource) (decl : TypeDecl) : Prop where
  name : decl.name = source.name
  methods : List.Forall₂ (MethodSource.Describes source.name) source.methods decl.methods
  marked : MarkedBy source.attributes decl.strategy false

section Declarations

theorem ParameterSource.describes_declared (source : ParameterSource) :
    source.Describes source.declared := by
  rcases source with ⟨name, types, default⟩
  refine ⟨rfl, ?_, ?_, ?_⟩
  · simp [declared, Option.isSome_iff_ne_none]
  · cases types <;> simp [declared, constraint?]
  · intro constraint isConstraint
    cases types with
    | nil => cases isConstraint
    | cons first types =>
        cases isConstraint
        refine ⟨Constraint.isCollected_ofNames (List.cons_ne_nil _ _), ?_⟩
        intro ty
        exact Constraint.mem_members_ofNames

theorem MethodSource.describes_of_declares {owner : String} {source : MethodSource}
    {decl : MethodDecl} (declares : source.outline.Declares owner decl) :
    WellMarked source.attributes ∧ source.Describes owner decl := by
  rcases attributesSay_iff.mp declares.attributes with ⟨wellMarked, marked⟩
  refine ⟨wellMarked, declares.owner, declares.name, ?_, marked⟩
  rw [declares.parameters]
  exact List.forall₂_map_right_iff.mpr
    (List.forall₂_same.mpr fun parameter _ => parameter.describes_declared)

theorem BlockSource.describes_of_declares {source : BlockSource} {decl : TypeDecl}
    (declares : source.outline.Declares decl) : source.Describes decl := by
  refine ⟨declares.name, ?_, (attributesSay_iff.mp declares.attributes).2⟩
  apply (List.forall₂_map_left_iff.mp declares.methods).imp
  intro method declared isDeclared
  exact (MethodSource.describes_of_declares isDeclared).2

theorem MethodSource.exists_declares_iff {owner : String} {source : MethodSource} :
    (∃ decl, source.outline.Declares owner decl) ↔ WellMarked source.attributes := by
  constructor
  · intro declared
    rcases declared with ⟨decl, declares⟩
    exact (describes_of_declares declares).1
  · intro wellMarked
    rcases exists_attributesSay wellMarked with ⟨strategy, say⟩
    exact ⟨⟨owner, source.name, source.outline.parameters, strategy, _⟩, say, rfl, rfl, rfl⟩

theorem BlockSource.exists_declares_iff {source : BlockSource} :
    (∃ decl, source.outline.Declares decl) ↔
      WellMarked source.attributes ∧ "Skip" ∉ source.attributes ∧
        ∀ method ∈ source.methods, WellMarked method.attributes := by
  have methods_iff : (∃ decls, List.Forall₂ (fun method declared =>
      MethodOutline.Declares method source.name declared) source.outline.methods decls) ↔
        ∀ method ∈ source.methods, WellMarked method.attributes := by
    rw [List.exists_forall₂_iff, outline, List.forall_mem_map]
    simp only [MethodSource.exists_declares_iff]
  constructor
  · intro declared
    rcases declared with ⟨decl, declares⟩
    rcases attributesSay_iff.mp declares.attributes with ⟨wellMarked, markedBy⟩
    refine ⟨wellMarked, ?_, methods_iff.mp ⟨decl.methods, declares.methods⟩⟩
    intro skips
    exact absurd (markedBy.skip.mpr skips) Bool.false_ne_true
  · intro wellMarked
    rcases wellMarked with ⟨ownMarked, notSkipped, methodsMarked⟩
    rcases exists_attributesSay ownMarked with ⟨strategy, say⟩
    rcases methods_iff.mpr methodsMarked with ⟨methods, declares⟩
    rw [decide_eq_false notSkipped] at say
    exact ⟨⟨source.name, strategy, methods⟩, say, rfl, declares⟩

theorem map_name_of_declares {sources : List BlockSource} {decls : List TypeDecl}
    (declares : List.Forall₂ TypeOutline.Declares (sources.map BlockSource.outline) decls) :
    decls.map TypeDecl.name = sources.map BlockSource.name := by
  rw [← List.forall₂_eq_eq_eq, List.forall₂_map_left_iff, List.forall₂_map_right_iff]
  apply (List.forall₂_map_left_iff.mp declares).flip.imp
  intro decl source declares
  exact declares.name

theorem exists_declare_iff {sources : List BlockSource} :
    (∃ decls, Declare (sources.map BlockSource.outline) decls) ↔ WellFormed sources := by
  have blocks_iff : (∃ decls,
      List.Forall₂ TypeOutline.Declares (sources.map BlockSource.outline) decls) ↔
        ∀ source ∈ sources, WellMarked source.attributes ∧ "Skip" ∉ source.attributes ∧
          ∀ method ∈ source.methods, WellMarked method.attributes := by
    rw [List.exists_forall₂_iff, List.forall_mem_map]
    simp only [BlockSource.exists_declares_iff]
  constructor
  · intro declared
    rcases declared with ⟨decls, declares, distinct⟩
    have each := blocks_iff.mp ⟨decls, declares⟩
    rw [map_name_of_declares declares] at distinct
    exact ⟨fun source inside => (each source inside).1, fun source inside => (each source inside).2.1,
      fun source inside => (each source inside).2.2, distinct⟩
  · intro wellFormed
    have each := blocks_iff.mpr fun source inside =>
      ⟨wellFormed.types source inside, wellFormed.notSkipped source inside,
        wellFormed.methods source inside⟩
    rcases each with ⟨decls, declares⟩
    refine ⟨decls, declares, ?_⟩
    rw [map_name_of_declares declares]
    exact wellFormed.distinct

theorem describes_of_declare {sources : List BlockSource} {decls : List TypeDecl}
    (declare : Declare (sources.map BlockSource.outline) decls) :
    List.Forall₂ BlockSource.Describes sources decls := by
  apply (List.forall₂_map_left_iff.mp declare.blocks).imp
  intro source decl declares
  exact BlockSource.describes_of_declares declares

end Declarations

/-- A constraint that a described declaration has anywhere is collected from types. -/
theorem BlockSource.Describes.isCollected {source : BlockSource} {decl : TypeDecl}
    (describes : source.Describes decl) {method : MethodDecl} (isMethod : method ∈ decl.methods)
    {parameter : Parameter} (isParameter : parameter ∈ method.parameters)
    {constraint : Constraint} (isConstraint : constraint ∈ parameter.constraint) :
    constraint.IsCollected := by
  rcases describes.methods.exists_of_mem_right isMethod with ⟨_, _, methodDescribes⟩
  rcases methodDescribes.parameters.exists_of_mem_right isParameter with
    ⟨_, _, parameterDescribes⟩
  exact (parameterDescribes.typed constraint isConstraint).1

theorem one_le_count {method : MethodDecl} {signature : Signature}
    (collected : ∀ parameter ∈ method.parameters, ∀ constraint ∈ parameter.constraint,
      constraint.IsCollected)
    (typed : method.signature? = some signature) : 1 ≤ signature.count := by
  rw [MethodDecl.signature?_eq_some_iff] at typed
  apply Signature.count_pos_iff.mpr
  intro constraint inside
  have isConstraint : some constraint ∈ method.parameters.map (·.constraint) := by
    rw [typed]
    exact List.mem_map_of_mem inside
  rcases List.mem_map.mp isConstraint with ⟨parameter, isParameter, same⟩
  exact (collected parameter isParameter constraint same).members_ne_nil

/-- The texts that lay blocks out are those that the grammar reads, and the accepted
ones are those of well-formed blocks.  What is declared then describes the blocks in
their order; all constraints are collected, and so every typed method has a combination. -/
theorem parse_accepts_wellFormed_blocks (source : String) :
    ((∃ nodes rest, Grammar.manifest.read source.toList = some (nodes, rest)) ↔
      ∃ blocks, Matches source blocks) ∧
    ((∃ decls, parse source = .ok decls) ↔
      ∃ blocks, Matches source blocks ∧ WellFormed blocks) ∧
    ∀ decls, parse source = .ok decls →
      (∀ blocks, Matches source blocks → List.Forall₂ BlockSource.Describes blocks decls) ∧
      ∀ decl ∈ decls, ∀ method ∈ decl.methods,
        (∀ parameter ∈ method.parameters, ∀ constraint ∈ parameter.constraint,
          constraint.IsCollected ∧ constraint.members.Nodup) ∧
        ∀ signature, method.signature? = some signature → 1 ≤ signature.count := by
  have exists_blocks : ∀ decls, parse source = .ok decls → ∃ blocks, Matches source blocks := by
    intro decls accepted
    rcases exists_laysOut_of_parse accepted with ⟨blocks, matching, _⟩
    exact ⟨blocks, matching⟩
  refine ⟨exists_read_manifest_iff, ?accepted, ?described⟩
  case accepted =>
    constructor
    · intro succeeds
      rcases succeeds with ⟨decls, accepted⟩
      rcases exists_blocks decls accepted with ⟨blocks, matching⟩
      have declare := (parse_eq_ok_iff_of_matches matching).mp accepted
      exact ⟨blocks, matching, exists_declare_iff.mp ⟨decls, declare⟩⟩
    · intro succeeds
      rcases succeeds with ⟨blocks, matching, wellFormed⟩
      rcases exists_declare_iff.mpr wellFormed with ⟨decls, declare⟩
      exact ⟨decls, (parse_eq_ok_iff_of_matches matching).mpr declare⟩
  case described =>
    intro decls accepted
    have describes : ∀ blocks, Matches source blocks →
        List.Forall₂ BlockSource.Describes blocks decls := by
      intro blocks matching
      exact describes_of_declare ((parse_eq_ok_iff_of_matches matching).mp accepted)
    refine ⟨describes, ?_⟩
    intro decl isDecl method isMethod
    rcases exists_blocks decls accepted with ⟨blocks, matching⟩
    rcases (describes blocks matching).exists_of_mem_right isDecl with ⟨block, _, blockDescribes⟩
    have collected : ∀ parameter ∈ method.parameters, ∀ constraint ∈ parameter.constraint,
        constraint.IsCollected := by
      intro parameter isParameter constraint isConstraint
      exact blockDescribes.isCollected isMethod isParameter isConstraint
    refine ⟨?_, fun signature typed => one_le_count collected typed⟩
    intro parameter isParameter constraint isConstraint
    exact ⟨collected parameter isParameter constraint isConstraint, constraint.nodup_members⟩

/-- The end of the last line may be missing and a type be written twice among
alternatives, but no type be declared twice. -/
theorem parse_accepts_wellFormed_blocks_shape :
    let accepted := "type Shape \x7b @[Skip] def scale(by : Int32 | Int32 = 1) \x7d # the end"
    let refused := "type Shape \x7b \x7d type Shape \x7b \x7d"
    (∃ blocks, Matches accepted blocks ∧ WellFormed blocks) ∧
      (∃ blocks, Matches refused blocks) ∧ ¬∃ blocks, Matches refused blocks ∧ WellFormed blocks := by
  intro accepted refused
  rcases parse_accepts_wellFormed_blocks accepted with ⟨_, accepts_iff, _⟩
  rcases parse_accepts_wellFormed_blocks refused with ⟨reads_iff, refuses_iff, _⟩
  have succeeds : (parse accepted).isOk := by decide +kernel
  have fails : ¬(parse refused).isOk := by decide +kernel
  have reads : (Grammar.manifest.read refused.toList).isSome := by decide +kernel
  refine ⟨accepts_iff.mp ?_, reads_iff.mp ?_, mt refuses_iff.mpr ?_⟩
  · rcases parsed : parse accepted with fault | decls
    · rw [parsed] at succeeds
      cases succeeds
    · exact ⟨decls, rfl⟩
  · rcases Option.isSome_iff_exists.mp reads with ⟨⟨nodes, rest⟩, isRead⟩
    exact ⟨nodes, rest, isRead⟩
  · intro parsed
    rcases parsed with ⟨decls, parsed⟩
    rw [parsed] at fails
    exact fails rfl

end MultiDispatch.Manifest
