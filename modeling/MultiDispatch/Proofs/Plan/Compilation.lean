import MultiDispatch.Plan
import MultiDispatch.Proofs.Combination.Layout
import MultiDispatch.Proofs.Plan.Tables

/-!
# When a declaration compiles

The checks of a compilation run on one combination at a time.  What they amount
to is said here of the methods alone: no expansion is oversized, no two methods
clash, and whatever is packed into records can be stored.  A declaration that
meets these three conditions compiles, and no other does.
-/

namespace MultiDispatch

namespace TypeDecl

/-- The strategy of the method, else that of its type, else the default. -/
def resolvedStrategy (decl : TypeDecl) (options : CompileOptions) (method : Retained) : Strategy :=
  (method.declared.strategy.or decl.strategy).getD options.defaultStrategy

theorem resolvedStrategy_of_unfixed {decl : TypeDecl} {options : CompileOptions}
    {method : Retained} (unfixed : method.declared.strategy.or decl.strategy = none) :
    decl.resolvedStrategy options method = options.defaultStrategy := by
  rw [resolvedStrategy, unfixed, Option.getD_none]

/-- What a declaration has to meet; skipped methods are exempt from all but the
limit. -/
structure Compilable (decl : TypeDecl) (options : CompileOptions) : Prop where
  withinLimit : ∀ method ∈ decl.retained, ∀ limit ∈ options.maxCombinations,
    method.signature.count ≤ limit
  unambiguous : Retained.Unambiguous decl.retained
  /-- A method without any combination stores nothing. -/
  storable : ∀ method ∈ decl.retained, method.skip = false →
    decl.resolvedStrategy options method = .valueObject →
    (∀ constraint ∈ method.signature.constraints, constraint.members ≠ []) →
    ∀ constraint ∈ method.signature.constraints, ∀ ty ∈ constraint.members, ¬ty.IsAbstract

/-- The plan of a declaration, whether or not it is free of faults. -/
def plan (decl : TypeDecl) (options : CompileOptions) : Plan where
  owner := decl.name
  methods := decl.retained
  tables := Table.allOfMethods decl.retained
  fallback := decl.strategy.getD options.defaultStrategy
  index := .build decl.retained options.introspectSkipped

/-- There is one table for each distinct combination, first come first. -/
theorem combinations_plan (decl : TypeDecl) (options : CompileOptions) :
    (decl.plan options).combinations =
      (decl.retained.flatMap fun method => method.signature.expand).eraseDups := by
  rw [← Table.flatMap_fresh decl.pairwise_index_retained]
  exact Table.map_combination_allOfMethods decl.retained

theorem nodup_combinations_plan (decl : TypeDecl) (options : CompileOptions) :
    (decl.plan options).combinations.Nodup := by
  rw [combinations_plan]
  exact List.nodup_eraseDups _

theorem strategyOf_plan {decl : TypeDecl} {options : CompileOptions} {method : Retained}
    (kept : method.skip = false) :
    (decl.plan options).strategyOf method = decl.resolvedStrategy options method := by
  simp only [Plan.strategyOf, Plan.strategy?, plan, resolvedStrategy, kept]
  cases method.declared.strategy <;> rfl

theorem throwFirst_bind_eq_ok_iff {α : Type} {faults : List ConfigurationError}
    {continuation : Unit → Except ConfigurationError α} {result : α} :
    (throwFirst faults >>= continuation) = .ok result ↔
      faults = [] ∧ continuation () = .ok result := by
  cases faults with
  | nil => simp [throwFirst, pure, Except.pure, bind, Except.bind]
  | cons fault _ => simp [throwFirst, throw, throwThe, MonadExceptOf.throw, bind, Except.bind]

theorem compile_eq_ok_iff {decl : TypeDecl} {options : CompileOptions} {compiled : Compiled} :
    decl.compile options = .ok compiled ↔
      decl.retained.filterMap (decl.limitFault? options) = [] ∧
        decl.retained.filterMap (Retained.collision? decl.name decl.retained) = [] ∧
        (decl.plan options).storageFaults = [] ∧
        compiled = ⟨decl.plan options, (Extraction.ofDecl decl).diagnostics ++
          decl.retained.filterMap (decl.largeExpansion? options)⟩ := by
  simp only [compile, throwFirst_bind_eq_ok_iff]
  simp only [pure, Except.pure, Except.ok.injEq, eq_comm (b := compiled)]
  rfl

theorem plan_of_compile {decl : TypeDecl} {options : CompileOptions} {compiled : Compiled}
    (compiles : decl.compile options = .ok compiled) : compiled.plan = decl.plan options := by
  obtain ⟨_, _, _, rfl⟩ := compile_eq_ok_iff.mp compiles
  rfl

theorem limitFaults_eq_nil_iff {decl : TypeDecl} {options : CompileOptions} :
    decl.retained.filterMap (decl.limitFault? options) = [] ↔
      ∀ method ∈ decl.retained, ∀ limit ∈ options.maxCombinations,
        method.signature.count ≤ limit := by
  simp [List.filterMap_eq_nil_iff, limitFault?, Option.bind_eq_none_iff]

/-- Of two methods that clash the later one reports it. -/
theorem collisions_eq_nil_iff {decl : TypeDecl} :
    decl.retained.filterMap (Retained.collision? decl.name decl.retained) = [] ↔
      Retained.Unambiguous decl.retained := by
  simp only [List.filterMap_eq_nil_iff, Retained.collision?_eq_none_iff]
  constructor
  · intro free first isFirst second isSecond differ clash
    rcases Nat.lt_trichotomy first.index second.index with earlier | same | later
    · exact free second isSecond first isFirst earlier clash
    · exact differ (eq_of_index_eq isFirst isSecond same)
    · exact free first isFirst second isSecond later clash.symm
  · intro unambiguous method inside other otherInside earlier
    apply unambiguous other otherInside method inside
    rintro rfl
    exact Nat.lt_irrefl _ earlier

theorem storageFault?_eq_none_iff {plan : Plan} {table : Table} {method : Retained} :
    plan.storageFault? table method = none ↔
      plan.strategyOf method = .valueObject →
        ∀ ty ∈ table.combination.types, ¬ty.IsAbstract := by
  rw [← Combination.exists_layout_iff, Plan.storageFault?]
  split
  · rename_i valueObject noLayout
    simp [valueObject, noLayout]
  · rename_i other
    simp only [true_iff]
    intro valueObject
    cases layout : table.combination.layout with
    | ok slots => exact ⟨slots, rfl⟩
    | error ty => exact absurd layout (other ty valueObject)

/-- Whatever a table holds is a retained method that answers there. -/
theorem answers_of_find?_of_mem_tables {decl : TypeDecl} {options : CompileOptions} {table : Table}
    (isTable : table ∈ (decl.plan options).tables) {name : String} {method : Retained}
    (found : table.find? name = some method) :
    method ∈ decl.retained ∧ method.name = name ∧ method.Answers table.combination := by
  obtain ⟨_, _, combination, _, rfl⟩ :=
    (Table.mem_allOfMethods_iff decl.pairwise_index_retained).mp isTable
  exact Table.answers_of_find?_ofMethods found

/-- The tables hold each method under every combination at which it answers. -/
theorem storageFaults_eq_nil_iff_forall_answers {decl : TypeDecl} {options : CompileOptions}
    (unambiguous : Retained.Unambiguous decl.retained) :
    (decl.plan options).storageFaults = [] ↔
      ∀ method ∈ decl.retained, ∀ combination, method.Answers combination →
        decl.resolvedStrategy options method = .valueObject →
        ∀ ty ∈ combination.types, ¬ty.IsAbstract := by
  simp only [Plan.storageFaults, List.flatMap_eq_nil_iff, List.filterMap_eq_nil_iff,
    storageFault?_eq_none_iff, NameMap.mem_values_iff]
  constructor
  · intro free method inside combination answers valueObject
    have isTable : Table.ofMethods decl.retained combination ∈ (decl.plan options).tables :=
      (Table.mem_allOfMethods_iff decl.pairwise_index_retained).mpr
        ⟨method, inside, combination, answers.2, rfl⟩
    have isEntry := (Table.find?_ofMethods_eq_some_iff unambiguous).mpr ⟨inside, rfl, answers⟩
    apply free _ isTable method ⟨method.name, isEntry⟩
    rw [strategyOf_plan answers.1, valueObject]
  · intro free table isTable method held valueObject
    obtain ⟨name, isEntry⟩ := held
    obtain ⟨inside, _, answers⟩ := answers_of_find?_of_mem_tables isTable isEntry
    rw [strategyOf_plan answers.1] at valueObject
    exact free method inside table.combination answers valueObject

theorem storageFaults_eq_nil_iff {decl : TypeDecl} {options : CompileOptions}
    (unambiguous : Retained.Unambiguous decl.retained) :
    (decl.plan options).storageFaults = [] ↔
      ∀ method ∈ decl.retained, method.skip = false →
        decl.resolvedStrategy options method = .valueObject →
        (∀ constraint ∈ method.signature.constraints, constraint.members ≠ []) →
        ∀ constraint ∈ method.signature.constraints, ∀ ty ∈ constraint.members,
          ¬ty.IsAbstract := by
  rw [storageFaults_eq_nil_iff_forall_answers unambiguous]
  apply forall_congr'
  intro method
  apply imp_congr_right
  intro _
  rw [← Signature.forall_mem_instantiates_iff]
  constructor
  · intro free kept valueObject combination instantiates
    exact free combination ⟨kept, instantiates⟩ valueObject
  · intro free combination answers valueObject
    exact free answers.1 valueObject combination answers.2

theorem compile_isOk_iff {decl : TypeDecl} {options : CompileOptions} :
    (∃ compiled, decl.compile options = .ok compiled) ↔ decl.Compilable options := by
  simp only [compile_eq_ok_iff, limitFaults_eq_nil_iff, collisions_eq_nil_iff]
  constructor
  · intro compiles
    obtain ⟨_, withinLimit, unambiguous, storable, _⟩ := compiles
    exact ⟨withinLimit, unambiguous, (storageFaults_eq_nil_iff unambiguous).mp storable⟩
  · intro compilable
    obtain ⟨withinLimit, unambiguous, storable⟩ := compilable
    exact ⟨_, withinLimit, unambiguous, (storageFaults_eq_nil_iff unambiguous).mpr storable, rfl⟩

theorem find?_eq_some_iff_of_mem_tables {decl : TypeDecl} {options : CompileOptions}
    (compilable : decl.Compilable options) {table : Table}
    (isTable : table ∈ (decl.plan options).tables) {name : String} {method : Retained} :
    table.find? name = some method ↔
      method ∈ decl.retained ∧ method.name = name ∧ method.Answers table.combination := by
  obtain ⟨_, _, combination, _, rfl⟩ :=
    (Table.mem_allOfMethods_iff decl.pairwise_index_retained).mp isTable
  exact Table.find?_ofMethods_eq_some_iff compilable.unambiguous

theorem table?_plan_eq_some_iff {decl : TypeDecl} {options : CompileOptions} {types : List Ty}
    {table : Table} :
    (decl.plan options).table? types = some table ↔
      table ∈ (decl.plan options).tables ∧ table.combination.types = types := by
  have distinct : ((decl.plan options).tables.map fun table => table.combination.types).Nodup := by
    have distinctTypes := (nodup_combinations_plan decl options).map
      fun _ _ => Combination.eq_of_types_eq
    rwa [Plan.combinations, List.map_map] at distinctTypes
  exact List.find?_eq_some_iff_of_nodup_map distinct

/-- The table at a combination at which the method answers holds it under its name. -/
theorem exists_table?_of_answers {decl : TypeDecl} {options : CompileOptions}
    (compilable : decl.Compilable options) {method : Retained} (inside : method ∈ decl.retained)
    {combination : Combination} (answers : method.Answers combination) :
    ∃ table, (decl.plan options).table? combination.types = some table ∧
      table.find? method.name = some method := by
  refine ⟨Table.ofMethods decl.retained combination, ?_, ?_⟩
  · rw [table?_plan_eq_some_iff]
    refine ⟨?_, rfl⟩
    apply (Table.mem_allOfMethods_iff decl.pairwise_index_retained).mpr
    exact ⟨method, inside, combination, answers.2, rfl⟩
  · apply (Table.find?_ofMethods_eq_some_iff compilable.unambiguous).mpr
    exact ⟨inside, rfl, answers⟩

/-- The three conditions are all that it takes to compile.  What compiles has one
table for each combination of its methods, in each table, under each name, the
method that answers there, and for each method its own strategy or the next in line. -/
theorem compiles_iff_compilable_with_tables (decl : TypeDecl) (options : CompileOptions) :
    ((∃ compiled, decl.compile options = .ok compiled) ↔ decl.Compilable options) ∧
      ∀ compiled, decl.compile options = .ok compiled →
        compiled.plan.methods = decl.retained ∧
        compiled.plan.tables.map (·.combination) =
          (decl.retained.flatMap fun method => method.signature.expand).eraseDups ∧
        (compiled.plan.tables.map (·.combination)).Nodup ∧
        (∀ table ∈ compiled.plan.tables, ∀ name method,
          table.find? name = some method ↔
            method ∈ decl.retained ∧ method.name = name ∧ method.skip = false ∧
              table.combination.Instantiates method.signature) ∧
        ∀ method ∈ decl.retained, method.skip = false →
          compiled.plan.strategyOf method = decl.resolvedStrategy options method := by
  refine ⟨compile_isOk_iff, ?_⟩
  intro compiled compiles
  have compilable := compile_isOk_iff.mp ⟨compiled, compiles⟩
  rw [plan_of_compile compiles]
  refine ⟨rfl, combinations_plan decl options, nodup_combinations_plan decl options, ?_, ?_⟩
  · intro table isTable name method
    exact find?_eq_some_iff_of_mem_tables compilable isTable
  · intro method _ kept
    exact strategyOf_plan kept

/-- A canvas draws at points and in words; only a skipped method takes a character. -/
def canvas : TypeDecl where
  name := "Canvas"
  strategy := some .closure
  methods :=
    [⟨"Canvas", "draw", [⟨"at", some (.single (.family .number)), false⟩], none, false⟩,
      ⟨"Canvas", "tint", [⟨"with", none, false⟩], none, false⟩,
      ⟨"Canvas", "draw",
        [⟨"what", some (.ofTypes [.scalar .string, .scalar (.signed .w32)]), false⟩],
        some .valueObject, false⟩,
      ⟨"Canvas", "draw", [⟨"what", some (.single (.scalar .char)), false⟩], none, true⟩,
      ⟨"Canvas", "wipe", [⟨"what", some (.single (.scalar .string)), false⟩,
        ⟨"slowly", some (.single (.scalar .bool)), true⟩], none, false⟩]

theorem compiles_with_tables_canvas :
    canvas.Compilable {} ∧ ∃ compiled, canvas.compile {} = .ok compiled ∧
      compiled.plan.tables.map (·.combination) =
        [⟨[.family .number]⟩, ⟨[.scalar (.signed .w32)]⟩, ⟨[.scalar .string]⟩,
          ⟨[.scalar .char]⟩, ⟨[.scalar .string, .scalar .bool]⟩] := by
  obtain ⟨succeeds, tables⟩ := compiles_iff_compilable_with_tables canvas {}
  exact ⟨succeeds.mp ⟨_, rfl⟩, _, rfl, (tables _ rfl).2.1.trans (by decide)⟩

end TypeDecl

end MultiDispatch
