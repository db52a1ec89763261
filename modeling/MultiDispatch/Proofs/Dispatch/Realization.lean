import MultiDispatch.Proofs.Plan.Compilation
import MultiDispatch.Registry

/-!
# From plans to dispatchers

A dispatcher has one entry for each populated table of its plan, in the same
order, and in it one call site for each method of the table.  So a send can reach
exactly the call sites of the methods that answer, each with the handler at the
method's place in the declaration.
-/

namespace MultiDispatch

variable {ρ ε : Type}

namespace CallSite

/-- The site is what the method looks like at the combination, with the handler
at its place. -/
def Realizes (site : CallSite ρ ε) (plan : Plan) (handlers : List (Method ρ ε))
    (method : Retained) (combination : Combination) : Prop :=
  ∃ handler, handlers[method.index]? = some handler ∧
    synthesize method combination (plan.strategyOf method) handler = .ok site

theorem Realizes.synthesize_eq {site : CallSite ρ ε} {plan : Plan} {handlers : List (Method ρ ε)}
    {method : Retained} {combination : Combination}
    (realizes : site.Realizes plan handlers method combination) {handler : Method ρ ε}
    (isHandler : handlers[method.index]? = some handler) :
    synthesize method combination (plan.strategyOf method) handler = .ok site := by
  obtain ⟨found, isFound, synthesized⟩ := realizes
  rwa [Option.some.inj (isFound.symm.trans isHandler)] at synthesized

/-- Whatever the strategy, a site shows the method, the combination and the strategy
that it was made from. -/
theorem attributes_of_synthesize {method : Retained} {combination : Combination}
    {strategy : Strategy} {handler : Method ρ ε} {site : CallSite ρ ε}
    (synthesized : synthesize method combination strategy handler = .ok site) :
    site.ident = Label.callSite method.name method.signature ∧ site.combination = combination ∧
      site.strategy = strategy := by
  unfold synthesize at synthesized
  split at synthesized
  · cases synthesized
    exact ⟨rfl, rfl, rfl⟩
  · split at synthesized
    · cases synthesized
      exact ⟨rfl, rfl, rfl⟩
    · cases synthesized

end CallSite

namespace Dispatcher

variable {plan : Plan} {handlers : List (Method ρ ε)}

theorem siteOfMethod_eq_ok_iff {combination : Combination} {named : String × Retained}
    {site : String × CallSite ρ ε} :
    siteOfMethod plan handlers combination named = .ok site ↔
      named.1 = site.1 ∧ site.2.Realizes plan handlers named.2 combination := by
  obtain ⟨siteName, site⟩ := site
  simp only [siteOfMethod, CallSite.Realizes]
  cases handlers[named.2.index]? with
  | none => simp [throw, throwThe, MonadExceptOf.throw]
  | some handler =>
      simp only [Except.bind_eq_ok_iff, pure, Except.pure, Except.ok.injEq, Prod.mk.injEq,
        Option.some.injEq, exists_eq_left']
      constructor
      · intro built
        obtain ⟨_, synthesized, rfl, rfl⟩ := built
        exact ⟨rfl, synthesized⟩
      · intro realized
        obtain ⟨rfl, synthesized⟩ := realized
        exact ⟨site, synthesized, rfl, rfl⟩

theorem entryOfTable_eq_ok_iff {table : Table} {entry : DispatchEntry ρ ε} :
    entryOfTable plan handlers table = .ok entry ↔
      entry.combination = table.combination ∧
        List.Forall₂ (fun named site => named.1 = site.1 ∧
          site.2.Realizes plan handlers named.2 table.combination)
          table.entries.entries entry.sites := by
  obtain ⟨combination, sites⟩ := entry
  simp only [entryOfTable, Except.bind_eq_ok_iff, List.mapM_eq_ok_iff, siteOfMethod_eq_ok_iff, pure,
    Except.pure, Except.ok.injEq, DispatchEntry.mk.injEq]
  constructor
  · intro built
    obtain ⟨_, inStep, rfl, rfl⟩ := built
    exact ⟨rfl, inStep⟩
  · intro realized
    obtain ⟨rfl, inStep⟩ := realized
    exact ⟨sites, inStep, rfl, rfl⟩

section

variable {table : Table} {entry : DispatchEntry ρ ε} {name : String}

theorem exists_site?_of_find? (realized : entryOfTable plan handlers table = .ok entry)
    {method : Retained} (found : table.find? name = some method) :
    ∃ site, entry.site? name = some site ∧
      site.Realizes plan handlers method table.combination :=
  List.Forall₂.exists_lookup_right
    (S := fun method (site : CallSite ρ ε) =>
      site.Realizes plan handlers method table.combination)
    (entryOfTable_eq_ok_iff.mp realized).2 found

theorem exists_find?_of_site? (realized : entryOfTable plan handlers table = .ok entry)
    {site : CallSite ρ ε} (found : entry.site? name = some site) :
    ∃ method, table.find? name = some method ∧
      site.Realizes plan handlers method table.combination :=
  List.Forall₂.exists_lookup_left
    (S := fun method (site : CallSite ρ ε) =>
      site.Realizes plan handlers method table.combination)
    (entryOfTable_eq_ok_iff.mp realized).2 found

end

theorem ofPlan_eq_ok_iff {dispatcher : Dispatcher ρ ε} :
    ofPlan plan handlers = .ok dispatcher ↔
      List.Forall₂ (fun table entry => entryOfTable plan handlers table = .ok entry)
        plan.populated dispatcher.entries ∧
      dispatcher.receiver = plan.owner ∧ dispatcher.index = plan.index := by
  obtain ⟨receiver, entries, index⟩ := dispatcher
  simp only [ofPlan, Except.bind_eq_ok_iff, List.mapM_eq_ok_iff, pure, Except.pure,
    Except.ok.injEq, mk.injEq]
  constructor
  · intro built
    obtain ⟨_, inStep, rfl, rfl, rfl⟩ := built
    exact ⟨inStep, rfl, rfl⟩
  · intro realized
    obtain ⟨inStep, rfl, rfl⟩ := realized
    exact ⟨entries, inStep, rfl, rfl, rfl⟩

/-- The dispatcher is made from the plan of a declaration that compiles. -/
structure Realizes (dispatcher : Dispatcher ρ ε) (decl : TypeDecl) (options : CompileOptions)
    (handlers : List (Method ρ ε)) : Prop where
  compilable : decl.Compilable options
  realized : ofPlan (decl.plan options) handlers = .ok dispatcher

theorem realizes_of_compile {dispatcher : Dispatcher ρ ε} {decl : TypeDecl}
    {options : CompileOptions} {compiled : Compiled}
    (compiles : decl.compile options = .ok compiled)
    (realized : ofPlan compiled.plan handlers = .ok dispatcher) :
    dispatcher.Realizes decl options handlers where
  compilable := TypeDecl.compile_isOk_iff.mp ⟨compiled, compiles⟩
  realized := TypeDecl.plan_of_compile compiles ▸ realized

namespace Realizes

variable {dispatcher : Dispatcher ρ ε} {decl : TypeDecl} {options : CompileOptions}

theorem map_combination (realizes : dispatcher.Realizes decl options handlers) :
    dispatcher.entries.map (·.combination) =
      (decl.plan options).populated.map (·.combination) := by
  have inStep := (ofPlan_eq_ok_iff.mp realizes.realized).1
  apply Eq.symm
  rw [← List.forall₂_eq_eq_eq, List.forall₂_map_left_iff, List.forall₂_map_right_iff]
  exact inStep.imp fun _ _ realized => (entryOfTable_eq_ok_iff.mp realized).1.symm

theorem nodup_combinations (realizes : dispatcher.Realizes decl options handlers) :
    (dispatcher.entries.map (·.combination)).Nodup := by
  rw [realizes.map_combination]
  exact List.Nodup.sublist (List.filter_sublist.map _)
    (TypeDecl.nodup_combinations_plan decl options)

/-- Every method that answers at a combination has its site there. -/
theorem exists_site (realizes : dispatcher.Realizes decl options handlers) {method : Retained}
    (inside : method ∈ decl.retained) {combination : Combination}
    (answers : method.Answers combination) :
    ∃ entry ∈ dispatcher.entries, entry.combination = combination ∧
      ∃ site, entry.site? method.name = some site ∧
        site.Realizes (decl.plan options) handlers method combination := by
  have found := (Table.find?_ofMethods_eq_some_iff realizes.compilable.unambiguous).mpr
    ⟨inside, rfl, answers⟩
  have isPopulated : Table.ofMethods decl.retained combination ∈ (decl.plan options).populated := by
    apply List.mem_filter.mpr
    constructor
    · apply (Table.mem_allOfMethods_iff decl.pairwise_index_retained).mpr
      exact ⟨method, inside, combination, answers.2, rfl⟩
    · apply decide_eq_true
      exact Table.isPopulated_iff.mpr ⟨_, _, found⟩
  obtain ⟨place, isTable⟩ := List.mem_iff_getElem?.mp isPopulated
  obtain ⟨entry, isEntry, realized⟩ :=
    (ofPlan_eq_ok_iff.mp realizes.realized).1.exists_getElem?_right isTable
  have sameCombination := (entryOfTable_eq_ok_iff.mp realized).1
  exact ⟨entry, List.mem_of_getElem? isEntry, sameCombination,
    exists_site?_of_find? realized found⟩

/-- Every site belongs to a method that answers at its combination. -/
theorem exists_method (realizes : dispatcher.Realizes decl options handlers)
    {entry : DispatchEntry ρ ε} (isEntry : entry ∈ dispatcher.entries) {name : String}
    {site : CallSite ρ ε} (found : entry.site? name = some site) :
    ∃ method ∈ decl.retained, method.name = name ∧ method.Answers entry.combination ∧
      site.Realizes (decl.plan options) handlers method entry.combination := by
  obtain ⟨place, atPlace⟩ := List.mem_iff_getElem?.mp isEntry
  obtain ⟨table, isTable, realized⟩ :=
    (ofPlan_eq_ok_iff.mp realizes.realized).1.exists_getElem?_left atPlace
  obtain ⟨method, isMethod, siteRealizes⟩ := exists_find?_of_site? realized found
  have populated := (List.mem_filter.mp (List.mem_of_getElem? isTable)).1
  obtain ⟨_, _, combination, _, rfl⟩ :=
    (Table.mem_allOfMethods_iff decl.pairwise_index_retained).mp populated
  obtain ⟨inside, sameName, answers⟩ := Table.answers_of_find?_ofMethods isMethod
  have sameCombination := (entryOfTable_eq_ok_iff.mp realized).1
  rw [sameCombination]
  exact ⟨method, inside, sameName, answers, siteRealizes⟩

end Realizes

end Dispatcher

theorem TypeSpec.realizes_of_build {spec : TypeSpec ρ ε} {options : CompileOptions}
    {dispatcher : Dispatcher ρ ε} {diagnostics : List Diagnostic}
    (builds : spec.build options = .ok (dispatcher, diagnostics)) :
    dispatcher.Realizes spec.decl options (spec.methods.map MethodSpec.method) := by
  simp only [TypeSpec.build, Except.bind_eq_ok_iff] at builds
  obtain ⟨compiled, compiles, realized, isRealized, same⟩ := builds
  cases same
  exact Dispatcher.realizes_of_compile compiles isRealized

end MultiDispatch
