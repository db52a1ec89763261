import MultiDispatch.Proofs.Plan.Compilation

/-!
# What the options decide

The methods, combinations and tables of a plan are those of its declaration alone.
Of the options, one decides the index, one the diagnostics and one the strategies.
The limit only decides whether there is a plan at all: a wider limit never takes
one away, and neither do call sites that store nothing.
-/

namespace MultiDispatch

/-- The later options refuse nothing that the earlier ones accept: a limit is raised
or removed, and records may give way to closures. -/
structure CompileOptions.Relaxes (options other : CompileOptions) : Prop where
  limit : ∀ larger ∈ other.maxCombinations, ∃ limit ∈ options.maxCombinations, limit ≤ larger
  strategy : other.defaultStrategy = options.defaultStrategy ∨ other.defaultStrategy = .closure

/-- An oversized expansion or two clashing methods of the type. -/
def ConfigurationError.IsLimitOrCollision (owner : String) (fault : ConfigurationError) : Prop :=
  (∃ name count limit, fault = .combinationLimit owner name count limit) ∨
    ∃ name combination first second, fault = .collision owner name combination first second

namespace TypeDecl

/-- Every method is given the strategy as its own. -/
def override (decl : TypeDecl) (strategy : Strategy) : TypeDecl :=
  { decl with methods := decl.methods.map fun method => { method with strategy := some strategy } }

variable {decl : TypeDecl} {options other : CompileOptions}

theorem resolvedStrategy_override {strategy : Strategy} {method : Retained}
    (inside : method ∈ (decl.override strategy).retained) :
    (decl.override strategy).resolvedStrategy options method = strategy := by
  obtain ⟨declared, _, _⟩ := mem_retained_iff.mp inside
  rw [override, List.getElem?_map, Option.map_eq_some_iff] at declared
  obtain ⟨original, _, overridden⟩ := declared
  have ownStrategy : method.declared.strategy = some strategy := by rw [← overridden]
  rw [resolvedStrategy, ownStrategy, Option.some_or, Option.getD_some]

theorem throwFirst_bind_eq_error_iff {α : Type} {faults : List ConfigurationError}
    {continuation : Unit → Except ConfigurationError α} {fault : ConfigurationError} :
    (throwFirst faults >>= continuation) = .error fault ↔
      faults.head? = some fault ∨ faults = [] ∧ continuation () = .error fault := by
  cases faults with
  | nil => simp [throwFirst, pure, Except.pure, bind, Except.bind]
  | cons first _ => simp [throwFirst, throw, throwThe, MonadExceptOf.throw, bind, Except.bind]

/-- A compilation that fails reports a fault of the first check that finds any. -/
theorem compile_eq_error_iff {fault : ConfigurationError} :
    decl.compile options = .error fault ↔
      (decl.retained.filterMap (decl.limitFault? options)).head? = some fault ∨
        decl.retained.filterMap (decl.limitFault? options) = [] ∧
          ((decl.retained.filterMap
              (Retained.collision? decl.name decl.retained)).head? = some fault ∨
            decl.retained.filterMap (Retained.collision? decl.name decl.retained) = [] ∧
              (decl.plan options).storageFaults.head? = some fault) := by
  simp only [compile, throwFirst_bind_eq_error_iff]
  simp only [pure, Except.pure, reduceCtorEq, and_false, or_false]
  rfl

theorem limitFault?_eq_some_iff {method : Retained} {fault : ConfigurationError} :
    decl.limitFault? options method = some fault ↔
      ∃ limit ∈ options.maxCombinations, limit < method.signature.count ∧
        fault = .combinationLimit decl.name method.name method.signature.count limit := by
  simp only [limitFault?, Option.bind_eq_some_iff, Option.mem_def, Option.ite_none_right_eq_some,
    Option.some.injEq, eq_comm (a := fault)]

theorem eq_collision_of_collision? {owner : String} {methods : List Retained} {method : Retained}
    {fault : ConfigurationError}
    (isFault : Retained.collision? owner methods method = some fault) :
    ∃ combination first second, fault = .collision owner method.name combination first second := by
  simp only [Retained.collision?] at isFault
  split at isFault
  · cases isFault
  · obtain ⟨combination, _, found⟩ := List.exists_of_findSome?_eq_some isFault
    obtain ⟨rival, _, isCollision⟩ := Option.map_eq_some_iff.mp found
    exact ⟨combination, rival.signature, method.signature, isCollision.symm⟩

/-- Closures store nothing. -/
theorem storageFaults_eq_nil_of_closure
    (closures : ∀ method ∈ decl.retained, method.skip = false →
      decl.resolvedStrategy options method = .closure) :
    (decl.plan options).storageFaults = [] := by
  simp only [Plan.storageFaults, List.flatMap_eq_nil_iff, List.filterMap_eq_nil_iff,
    storageFault?_eq_none_iff, NameMap.mem_values_iff]
  intro table isTable method held valueObject
  obtain ⟨name, isEntry⟩ := held
  obtain ⟨inside, _, answers⟩ := answers_of_find?_of_mem_tables isTable isEntry
  rw [strategyOf_plan answers.1, closures method inside answers.1] at valueObject
  cases valueObject

/-- Without records only the limit and clashing methods stand against a plan. -/
theorem isLimitOrCollision_of_closure
    (closures : ∀ method ∈ decl.retained, method.skip = false →
      decl.resolvedStrategy options method = .closure)
    {fault : ConfigurationError} (fails : decl.compile options = .error fault) :
    fault.IsLimitOrCollision decl.name := by
  rcases compile_eq_error_iff.mp fails with oversized | ⟨_, collides | ⟨_, unstorable⟩⟩
  · obtain ⟨method, _, isFault⟩ := List.mem_filterMap.mp (List.mem_of_mem_head? oversized)
    obtain ⟨limit, _, _, isLimitFault⟩ := limitFault?_eq_some_iff.mp isFault
    exact .inl ⟨method.name, method.signature.count, limit, isLimitFault⟩
  · obtain ⟨method, _, isFault⟩ := List.mem_filterMap.mp (List.mem_of_mem_head? collides)
    exact .inr ⟨method.name, eq_collision_of_collision? isFault⟩
  · rw [storageFaults_eq_nil_of_closure closures] at unstorable
    cases unstorable

theorem resolvedStrategy_of_relaxes (relaxes : options.Relaxes other) {method : Retained}
    (valueObject : decl.resolvedStrategy other method = .valueObject) :
    decl.resolvedStrategy options method = .valueObject := by
  cases fixed : method.declared.strategy.or decl.strategy with
  | some strategy =>
      rw [resolvedStrategy, fixed] at valueObject ⊢
      exact valueObject
  | none =>
      rw [resolvedStrategy_of_unfixed fixed] at valueObject ⊢
      rcases relaxes.strategy with same | closure
      · rw [← same, valueObject]
      · rw [closure] at valueObject
        cases valueObject

theorem Compilable.relax (compilable : decl.Compilable options) (relaxes : options.Relaxes other) :
    decl.Compilable other where
  withinLimit := by
    intro method inside larger isLarger
    obtain ⟨limit, isLimit, raised⟩ := relaxes.limit larger isLarger
    exact Nat.le_trans (compilable.withinLimit method inside limit isLimit) raised
  unambiguous := compilable.unambiguous
  storable := by
    intro method inside kept valueObject
    exact compilable.storable method inside kept (resolvedStrategy_of_relaxes relaxes valueObject)

/-- What a declaration compiles to does not depend on the options, but for the index,
the diagnostics and the strategies, each of which is up to a single option. -/
structure DiffersByOptions (options other : CompileOptions) (compiled otherCompiled : Compiled) :
    Prop where
  methods : compiled.plan.methods = otherCompiled.plan.methods
  combinations : compiled.plan.combinations = otherCompiled.plan.combinations
  tables : compiled.plan.tables = otherCompiled.plan.tables
  index : options.introspectSkipped = other.introspectSkipped →
    compiled.plan.index = otherCompiled.plan.index
  diagnostics : options.combinationWarning = other.combinationWarning →
    compiled.diagnostics = otherCompiled.diagnostics
  strategies : options.defaultStrategy = other.defaultStrategy →
    ∀ method, compiled.plan.strategy? method = otherCompiled.plan.strategy? method

theorem differsByOptions_of_compile {compiled otherCompiled : Compiled}
    (compiles : decl.compile options = .ok compiled)
    (otherCompiles : decl.compile other = .ok otherCompiled) :
    DiffersByOptions options other compiled otherCompiled := by
  obtain ⟨_, _, _, rfl⟩ := compile_eq_ok_iff.mp compiles
  obtain ⟨_, _, _, rfl⟩ := compile_eq_ok_iff.mp otherCompiles
  refine ⟨rfl, rfl, rfl, ?index, ?diagnostics, ?strategies⟩
  case index =>
    intro same
    simp only [plan, same]
  case diagnostics =>
    intro same
    have sameReports : decl.largeExpansion? options = decl.largeExpansion? other := by
      funext method
      simp only [largeExpansion?, same]
    simp only [sameReports]
  case strategies =>
    intro same method
    simp only [Plan.strategy?, plan, same]

/-- Options only gate a compilation.  Whatever compiles under two of them compiles to
the same methods, combinations and tables; options that relax others accept what
these accept; and where every method is a closure, which overriding all of them
makes sure of, nothing is unstorable. -/
theorem options_gate_but_never_reshape (decl : TypeDecl) :
    (∀ options other compiled otherCompiled, decl.compile options = .ok compiled →
      decl.compile other = .ok otherCompiled →
        DiffersByOptions options other compiled otherCompiled) ∧
      (∀ options other, options.Relaxes other → (∃ compiled, decl.compile options = .ok compiled) →
        ∃ compiled, decl.compile other = .ok compiled) ∧
      (∀ options fault, decl.compile options = .error fault →
        (∀ method ∈ decl.retained, method.skip = false →
          decl.resolvedStrategy options method = .closure) →
        fault.IsLimitOrCollision decl.name) ∧
      ∀ options fault, (decl.override .closure).compile options = .error fault →
        fault.IsLimitOrCollision decl.name := by
  refine ⟨?same, ?relaxed, ?closures, ?overridden⟩
  case same =>
    intro options other compiled otherCompiled compiles otherCompiles
    exact differsByOptions_of_compile compiles otherCompiles
  case relaxed =>
    intro options other relaxes compiles
    rw [compile_isOk_iff] at compiles ⊢
    exact compiles.relax relaxes
  case closures =>
    intro options fault fails closures
    exact isLimitOrCollision_of_closure closures fails
  case overridden =>
    intro options fault fails
    have closures : ∀ method ∈ (decl.override .closure).retained, method.skip = false →
        (decl.override .closure).resolvedStrategy options method = .closure := by
      intro method inside _
      exact resolvedStrategy_override inside
    exact isLimitOrCollision_of_closure closures fails

/-- A canvas under a limit that it just meets has the tables and the index that it has
without one; under a lower limit it is refused even with closures throughout. -/
theorem options_gate_but_never_reshape_canvas :
    (∃ compiled limited, canvas.compile {} = .ok compiled ∧
      canvas.compile { maxCombinations := some 2, combinationWarning := 1 } = .ok limited ∧
      compiled.plan.tables = limited.plan.tables ∧ compiled.plan.index = limited.plan.index) ∧
      (∃ compiled, canvas.compile { maxCombinations := some 3, defaultStrategy := .closure } =
        .ok compiled) ∧
      ∃ fault, fault = .combinationLimit "Canvas" "draw" 2 1 ∧
        (canvas.override .closure).compile { maxCombinations := some 1 } = .error fault ∧
        fault.IsLimitOrCollision "Canvas" := by
  obtain ⟨same, relaxed, _⟩ := options_gate_but_never_reshape canvas
  obtain ⟨_, _, closures, _⟩ := options_gate_but_never_reshape (canvas.override .closure)
  have relaxes : CompileOptions.Relaxes { maxCombinations := some 2 }
      { maxCombinations := some 3, defaultStrategy := .closure } :=
    ⟨by simp, .inr rfl⟩
  have differs := same {} { maxCombinations := some 2, combinationWarning := 1 } _ _ rfl rfl
  have fails : (canvas.override .closure).compile { maxCombinations := some 1 } =
      .error (.combinationLimit "Canvas" "draw" 2 1) := rfl
  refine ⟨⟨_, _, rfl, rfl, differs.tables, differs.index rfl⟩, ?_, _, rfl, fails, ?_⟩
  · exact relaxed { maxCombinations := some 2 } _ relaxes ⟨_, rfl⟩
  · exact closures _ _ fails fun method inside _ => resolvedStrategy_override inside

end TypeDecl

end MultiDispatch
