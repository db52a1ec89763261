import Mathlib.Data.List.Induction
import MultiDispatch.Manifest
import MultiDispatch.Proofs.Pointwise

/-!
# Outlines

What a block declares depends on the names in it, its attributes and its
parameters, and not on where they stand.  The outline keeps just these; a
manifest is accepted exactly when its outlines declare something, under names
that all differ.
-/

namespace MultiDispatch.Manifest

structure MethodOutline where
  attributes : List String
  name : String
  parameters : List Parameter

structure TypeOutline where
  attributes : List String
  name : String
  methods : List MethodOutline

def MethodNode.outline (node : MethodNode) : MethodOutline where
  attributes := node.attributes.map AttributeNode.name
  name := node.name
  parameters := node.parameters.map ParameterNode.declared

def TypeNode.outline (node : TypeNode) : TypeOutline where
  attributes := node.attributes.map AttributeNode.name
  name := node.name
  methods := node.methods.map MethodNode.outline

def strategyOfAttribute? : String → Option Strategy
  | "UseClosureStrategy" => some .closure
  | "UseValueObjectStrategy" => some .valueObject
  | _ => none

/-- The attributes are known, and among them is at most one strategy. -/
structure AttributesSay (attributes : List String) (strategy : Option Strategy) (skip : Bool) :
    Prop where
  known : ∀ name ∈ attributes, name = "Skip" ∨ (strategyOfAttribute? name).isSome
  strategy : attributes.filterMap strategyOfAttribute? = strategy.toList
  skip : skip = true ↔ "Skip" ∈ attributes

structure MethodOutline.Declares (outline : MethodOutline) (owner : String) (decl : MethodDecl) :
    Prop where
  attributes : AttributesSay outline.attributes decl.strategy decl.skip
  owner : decl.owner = owner
  name : decl.name = outline.name
  parameters : decl.parameters = outline.parameters

structure TypeOutline.Declares (outline : TypeOutline) (decl : TypeDecl) : Prop where
  attributes : AttributesSay outline.attributes decl.strategy false
  name : decl.name = outline.name
  methods : List.Forall₂ (fun method declared =>
    MethodOutline.Declares method outline.name declared)
    outline.methods decl.methods

/-- The blocks declare these types, and no name twice. -/
structure Declare (outlines : List TypeOutline) (decls : List TypeDecl) : Prop where
  blocks : List.Forall₂ TypeOutline.Declares outlines decls
  distinct : (decls.map TypeDecl.name).Nodup

section Attributes

variable {total : Nat} {start marks : Marks} {node : AttributeNode} {nodes : List AttributeNode}

theorem add_eq_ok_iff :
    Marks.add total start node = .ok marks ↔
      node.name = "Skip" ∧ marks = { start with skip := some (node.extent.span total) } ∨
        ∃ strategy, strategyOfAttribute? node.name = some strategy ∧ start.strategy = none ∧
          marks = { start with strategy := some strategy } := by
  obtain ⟨name, extent⟩ := node
  obtain ⟨strategy, skip⟩ := start
  simp only [Marks.add]
  split
  · simp [strategyOfAttribute?, pure, Except.pure, eq_comm]
  · cases strategy <;>
      simp [strategyOfAttribute?, pure, Except.pure, eq_comm, throw, throwThe, MonadExceptOf.throw]
  · cases strategy <;>
      simp [strategyOfAttribute?, pure, Except.pure, eq_comm, throw, throwThe, MonadExceptOf.throw]
  · rename_i notSkip _ _
    simp [strategyOfAttribute?, throw, throwThe, MonadExceptOf.throw]
    exact fun isSkip => absurd isSkip notSkip

theorem attributesSay_nil_iff {strategy : Option Strategy} {skip : Bool} :
    AttributesSay [] strategy skip ↔ strategy = none ∧ skip = false := by
  constructor
  · intro say
    have noStrategy := say.strategy
    have noSkip := say.skip
    cases strategy <;> simp_all
  · rintro ⟨rfl, rfl⟩
    exact ⟨by simp, rfl, by simp⟩

theorem attributesSay_append_singleton_iff {names : List String} {name : String}
    {strategy : Option Strategy} {skip : Bool} :
    AttributesSay (names ++ [name]) strategy skip ↔
      name = "Skip" ∧ skip = true ∧ (∃ before, AttributesSay names strategy before) ∨
        ∃ own, strategyOfAttribute? name = some own ∧ strategy = some own ∧
          AttributesSay names none skip := by
  constructor
  · intro say
    have known := say.known
    have strategies := say.strategy
    have skips := say.skip
    simp only [List.mem_append, List.mem_singleton, List.filterMap_append] at known strategies skips
    rcases known name (.inr rfl) with rfl | isStrategy
    · refine .inl ⟨rfl, by simpa using skips, decide ("Skip" ∈ names), ?_⟩
      exact ⟨fun name inside => known name (.inl inside),
        by simpa [strategyOfAttribute?] using strategies,
        by simp⟩
    · obtain ⟨own, isOwn⟩ := Option.isSome_iff_exists.mp isStrategy
      have notSkip : "Skip" ≠ name := by
        rintro rfl
        cases isOwn
      simp only [List.filterMap_cons, isOwn, List.filterMap_nil] at strategies
      obtain ⟨none, rfl⟩ : names.filterMap strategyOfAttribute? = [] ∧ strategy = some own := by
        cases strategy with
        | none => simp at strategies
        | some only => simpa [List.append_eq_singleton_iff, eq_comm] using strategies
      refine .inr ⟨own, isOwn, rfl, fun name inside => known name (.inl inside), none, ?_⟩
      simpa [notSkip] using skips
  · rintro (⟨rfl, rfl, before, say⟩ | ⟨own, isOwn, rfl, say⟩)
    · refine ⟨?_, ?_, by simp⟩
      · exact List.forall_mem_append.mpr ⟨say.known, by simp⟩
      · simp [say.strategy, strategyOfAttribute?]
    · have notSkip : "Skip" ≠ name := by
        rintro rfl
        cases isOwn
      refine ⟨?_, ?_, ?_⟩
      · exact List.forall_mem_append.mpr ⟨say.known, by simp [isOwn]⟩
      · simp [say.strategy, isOwn]
      · simp [say.skip, notSkip]

theorem collect_append_singleton :
    Marks.collect total (nodes ++ [node]) =
      Marks.collect total nodes >>= fun marks => Marks.add total marks node := by
  simp only [Marks.collect, List.foldlM_append, List.foldlM_cons, List.foldlM_nil, bind_pure]

/-- Collecting the attributes of an item succeeds with what they say. -/
theorem exists_collect_iff {strategy : Option Strategy} {skip : Bool} :
    (∃ marks, Marks.collect total nodes = .ok marks ∧ marks.strategy = strategy ∧
        marks.skip.isSome = skip) ↔
      AttributesSay (nodes.map AttributeNode.name) strategy skip := by
  induction nodes using List.reverseRecOn generalizing strategy skip with
  | nil =>
      rw [List.map_nil, attributesSay_nil_iff]
      simp [Marks.collect, pure, Except.pure, Marks.none, eq_comm]
  | append_singleton nodes node inductionHypothesis =>
      rw [List.map_append, List.map_singleton, attributesSay_append_singleton_iff,
        collect_append_singleton]
      simp only [Except.bind_eq_ok_iff, add_eq_ok_iff, ← inductionHypothesis]
      constructor
      · rintro ⟨_, ⟨marks, collected, ⟨isSkip, rfl⟩ | ⟨own, isOwn, unset, rfl⟩⟩, rfl, rfl⟩
        · exact .inl ⟨isSkip, rfl, _, marks, collected, rfl, rfl⟩
        · exact .inr ⟨own, isOwn, rfl, marks, collected, unset, rfl⟩
      · rintro (⟨isSkip, rfl, _, marks, collected, rfl, _⟩ |
          ⟨own, isOwn, rfl, marks, collected, unset, rfl⟩)
        · exact ⟨_, ⟨marks, collected, .inl ⟨isSkip, rfl⟩⟩, rfl, rfl⟩
        · exact ⟨_, ⟨marks, collected, .inr ⟨own, isOwn, unset, rfl⟩⟩, rfl, rfl⟩

end Attributes

section Declarations

variable {total : Nat} {owner : String}

theorem MethodNode.declared_eq_ok_iff {node : MethodNode} {decl : MethodDecl} :
    node.declared total owner = .ok decl ↔ node.outline.Declares owner decl := by
  rw [MethodNode.declared, Except.bind_eq_ok_iff]
  constructor
  · rintro ⟨marks, collected, same⟩
    cases same
    exact ⟨exists_collect_iff.mp ⟨marks, collected, rfl, rfl⟩, rfl, rfl, rfl⟩
  · intro declares
    obtain ⟨marks, collected, strategy, skip⟩ := exists_collect_iff.mpr declares.attributes
    refine ⟨marks, collected, ?_⟩
    have owner := declares.owner
    have name := declares.name
    have parameters := declares.parameters
    obtain ⟨_, _, _, _, _⟩ := decl
    subst owner name parameters strategy skip
    rfl

theorem TypeNode.declared_eq_ok_iff {node : TypeNode} {decl : TypeDecl} :
    node.declared total = .ok decl ↔ node.outline.Declares decl := by
  simp only [TypeNode.declared, Except.bind_eq_ok_iff, List.mapM_eq_ok_iff,
    MethodNode.declared_eq_ok_iff]
  constructor
  · rintro ⟨marks, collected, methods, declared, same⟩
    cases unskipped : marks.skip with
    | some span =>
        rw [unskipped] at same
        cases same
    | none =>
        rw [unskipped] at same
        cases same
        refine ⟨exists_collect_iff.mp ⟨marks, collected, rfl, by rw [unskipped]; rfl⟩, rfl, ?_⟩
        exact List.forall₂_map_left_iff.mpr declared
  · intro declares
    obtain ⟨marks, collected, strategy, skip⟩ := exists_collect_iff.mpr declares.attributes
    refine ⟨marks, collected, decl.methods, List.forall₂_map_left_iff.mp declares.methods, ?_⟩
    have name := declares.name
    obtain ⟨_, _, _⟩ := decl
    subst name strategy
    rw [Option.isSome_eq_false_iff, Option.isNone_iff_eq_none] at skip
    rw [skip]
    rfl

variable {earlier decls : List TypeDecl} {blocks : List (TypeNode × Reader.Extent)}

theorem declareAll_cons_eq_ok_iff {block : TypeNode × Reader.Extent} :
    declareAll total earlier (block :: blocks) = .ok decls ↔
      ∃ decl others, block.1.outline.Declares decl ∧
        (∀ other ∈ earlier, other.name ≠ decl.name) ∧
        declareAll total (earlier ++ [decl]) blocks = .ok others ∧ decls = decl :: others := by
  obtain ⟨node, extent⟩ := block
  simp only [declareAll, Except.bind_eq_ok_iff, TypeNode.declared_eq_ok_iff]
  refine exists_congr fun decl => ?_
  by_cases taken : earlier.any fun other => other.name = decl.name
  · obtain ⟨other, isOther, same⟩ := List.any_eq_true.mp taken
    rw [if_pos taken]
    constructor
    · rintro ⟨_, impossible⟩
      cases impossible
    · rintro ⟨_, _, fresh, _⟩
      exact absurd (of_decide_eq_true same) (fresh other isOther)
  · have fresh : ∀ other ∈ earlier, other.name ≠ decl.name := by simpa using taken
    rw [if_neg taken]
    simp only [Except.bind_eq_ok_iff, pure, Except.pure, Except.ok.injEq]
    constructor
    · rintro ⟨declares, others, declared, rfl⟩
      exact ⟨others, declares, fresh, declared, rfl⟩
    · rintro ⟨others, declares, _, declared, rfl⟩
      exact ⟨declares, others, declared, rfl⟩

theorem declareAll_eq_ok_iff :
    declareAll total earlier blocks = .ok decls ↔
      Declare (blocks.map fun block => block.1.outline) decls ∧
        ∀ decl ∈ decls, ∀ other ∈ earlier, other.name ≠ decl.name := by
  induction blocks generalizing earlier decls with
  | nil =>
      rw [declareAll]
      constructor
      · intro declared
        cases declared
        exact ⟨⟨.nil, List.nodup_nil⟩, by simp⟩
      · rintro ⟨⟨declared, _⟩, _⟩
        cases declared
        rfl
  | cons block blocks inductionHypothesis =>
      simp only [declareAll_cons_eq_ok_iff, inductionHypothesis]
      constructor
      · rintro ⟨decl, others, declares, fresh, ⟨declare, apart⟩, rfl⟩
        have new : decl.name ∉ others.map TypeDecl.name := by
          intro inside
          obtain ⟨other, isOther, same⟩ := List.mem_map.mp inside
          exact apart other isOther decl (by simp) same.symm
        refine ⟨⟨.cons declares declare.blocks, List.nodup_cons.mpr ⟨new, declare.distinct⟩⟩, ?_⟩
        refine List.forall_mem_cons.mpr ⟨fresh, fun other isOther before inside => ?_⟩
        exact apart other isOther before (List.mem_append_left _ inside)
      · rintro ⟨⟨declares, distinct⟩, apart⟩
        cases declares with
        | @cons _ decl _ others head tail =>
            obtain ⟨new, distinct⟩ := List.nodup_cons.mp distinct
            obtain ⟨fresh, othersApart⟩ := List.forall_mem_cons.mp apart
            refine ⟨decl, others, head, fresh, ⟨⟨tail, distinct⟩, ?_⟩, rfl⟩
            intro other isOther before inside
            rcases List.mem_append.mp inside with inside | isLast
            · exact othersApart other isOther before inside
            · rw [List.mem_singleton.mp isLast]
              intro same
              exact new (List.mem_map.mpr ⟨other, isOther, same.symm⟩)

end Declarations

section Parsing

variable {source : String}

theorem parse_of_read {rest : List Char} {blocks : List (TypeNode × Reader.Extent)}
    (reads : Grammar.manifest.read source.toList = some (blocks, rest)) :
    parse source = declareAll (Reader.bytes source.toList) [] blocks := by
  rw [parse, parseChars]
  split
  · rename_i others left noted ran
    cases reads.symm.trans (congrArg Prod.fst ran)
    rfl
  · rename_i noted ran
    cases reads.symm.trans (congrArg Prod.fst ran)

/-- Where nothing can be read, the place of the fault is that of a piece of the text. -/
theorem parse_of_read_eq_none (fails : Grammar.manifest.read source.toList = none) :
    ∃ expected place, parse source = .error (.malformed expected
      (Reader.bytes source.toList - Reader.bytes (source.toList.drop place))) := by
  rw [parse, parseChars]
  split
  · rename_i ran
    cases fails.symm.trans (congrArg Prod.fst ran)
  · exact ⟨_, _, rfl⟩

/-- A text is accepted exactly when its blocks can be read and their outlines
declare something. -/
theorem parse_eq_ok_iff {decls : List TypeDecl} :
    parse source = .ok decls ↔
      ∃ blocks rest, Grammar.manifest.read source.toList = some (blocks, rest) ∧
        Declare (blocks.map fun block => block.1.outline) decls := by
  constructor
  · intro accepted
    cases reads : Grammar.manifest.read source.toList with
    | none =>
        rcases parse_of_read_eq_none reads with ⟨_, _, fails⟩
        cases fails.symm.trans accepted
    | some result =>
        rcases result with ⟨blocks, rest⟩
        rw [parse_of_read reads, declareAll_eq_ok_iff] at accepted
        exact ⟨blocks, rest, rfl, accepted.1⟩
  · intro accepted
    rcases accepted with ⟨blocks, rest, reads, declare⟩
    rw [parse_of_read reads, declareAll_eq_ok_iff]
    exact ⟨declare, by simp⟩

/-- What is declared depends on the outlines of the blocks that are read alone. -/
theorem parse_eq_ok_iff_of_read {rest : List Char} {blocks : List (TypeNode × Reader.Extent)}
    (reads : Grammar.manifest.read source.toList = some (blocks, rest)) {decls : List TypeDecl} :
    parse source = .ok decls ↔ Declare (blocks.map fun block => block.1.outline) decls := by
  rw [parse_of_read reads, declareAll_eq_ok_iff]
  simp

end Parsing

end MultiDispatch.Manifest
