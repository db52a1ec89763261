import MultiDispatch.Proofs.Dispatch.Invocation
import MultiDispatch.Proofs.Dispatch.Realization

/-!
# Attaching handlers

A plan that was compiled needs nothing but its handlers.  Everything that could
keep a call site from being made has been checked before, so a dispatcher is made
of every such plan, and it has what the plan prints: table by table, name by name.
Building a type therefore fails only as compiling it does.
-/

namespace MultiDispatch

variable {ρ ε : Type}

/-- The lines of an entry, in the form in which a plan prints its tables. -/
def DispatchEntry.lines (entry : DispatchEntry ρ ε) : List String :=
  s!"  {entry.ident} {entry.combination.text}" ::
    entry.sites.map fun (name, site) => s!"    {name} -> {site.ident} [{site.strategy.text}]"

/-- The named site is the one that the plan prints for the method at the combination. -/
structure CallSite.Mirrors (plan : Plan) (combination : Combination)
    (planned : String × Retained) (attached : String × CallSite ρ ε) : Prop where
  name_eq : attached.1 = planned.1
  combination_eq : attached.2.combination = combination
  ident_eq : attached.2.ident = Label.callSite planned.1 planned.2.signature
  strategy_eq : attached.2.strategy = plan.strategyOf planned.2

/-- The entry is the one that the plan prints for the table. -/
structure DispatchEntry.Mirrors (plan : Plan) (table : Table) (entry : DispatchEntry ρ ε) :
    Prop where
  ident_eq : entry.ident = Label.table table.combination
  combination_eq : entry.combination = table.combination
  sites : List.Forall₂ (CallSite.Mirrors plan table.combination) table.entries.entries entry.sites

theorem DispatchEntry.Mirrors.lines_eq {plan : Plan} {table : Table} {entry : DispatchEntry ρ ε}
    (mirrors : entry.Mirrors plan table) : plan.tableLines table = entry.lines := by
  rw [Plan.tableLines, lines, mirrors.ident_eq, mirrors.combination_eq]
  apply congrArg (List.cons _)
  rw [← List.forall₂_eq_eq_eq, List.forall₂_map_left_iff, List.forall₂_map_right_iff]
  apply mirrors.sites.imp
  intro planned attached site
  simp only [Plan.entryLine, site.name_eq, site.ident_eq, site.strategy_eq]

/-- Only an abstract type in a record keeps a call site from being made. -/
theorem CallSite.exists_synthesize {method : Retained} {combination : Combination}
    {strategy : Strategy} (storable : strategy = .valueObject →
      ∀ ty ∈ combination.types, ¬ty.IsAbstract) (handler : Method ρ ε) :
    ∃ site, synthesize method combination strategy handler = .ok site := by
  cases strategy with
  | closure => exact ⟨_, rfl⟩
  | valueObject =>
      obtain ⟨layout, hasLayout⟩ := Combination.exists_layout_iff.mpr (storable rfl)
      exact ⟨_, synthesize_valueObject_eq_ok_iff.mpr ⟨layout, hasLayout, rfl⟩⟩

namespace Dispatcher

variable {decl : TypeDecl} {options : CompileOptions} {handlers : List (Method ρ ε)}

section

variable (compilable : decl.Compilable options) (enough : decl.methods.length ≤ handlers.length)
include compilable enough

/-- A method that answers has a handler at its place, and a site can be made of it. -/
theorem exists_realizes_of_answers {method : Retained} (inside : method ∈ decl.retained)
    {combination : Combination} (answers : method.Answers combination) :
    ∃ site : CallSite ρ ε, site.Realizes (decl.plan options) handlers method combination := by
  have declared := (TypeDecl.mem_retained_iff.mp inside).1
  have placed : method.index < handlers.length :=
    Nat.lt_of_lt_of_le (List.getElem?_eq_some_iff.mp declared).1 enough
  have unfaulted := (TypeDecl.storageFaults_eq_nil_iff compilable.unambiguous).mpr
    compilable.storable
  have storable := (TypeDecl.storageFaults_eq_nil_iff_forall_answers
    compilable.unambiguous).mp unfaulted method inside combination answers
  rw [← TypeDecl.strategyOf_plan answers.1] at storable
  obtain ⟨site, synthesized⟩ := CallSite.exists_synthesize storable handlers[method.index]
  exact ⟨site, _, List.getElem?_eq_getElem placed, synthesized⟩

theorem exists_entryOfTable {table : Table} (isTable : table ∈ (decl.plan options).tables) :
    ∃ entry, entryOfTable (decl.plan options) handlers table = .ok entry := by
  have attachable : ∀ named ∈ table.entries.entries, ∃ site : String × CallSite ρ ε,
      named.1 = site.1 ∧
        site.2.Realizes (decl.plan options) handlers named.2 table.combination := by
    intro named isNamed
    have found := NameMap.mem_entries_iff.mp isNamed
    obtain ⟨inside, _, answers⟩ :=
      (TypeDecl.find?_eq_some_iff_of_mem_tables compilable isTable).mp found
    obtain ⟨site, realizes⟩ := exists_realizes_of_answers compilable enough inside answers
    exact ⟨(named.1, site), rfl, realizes⟩
  obtain ⟨sites, inStep⟩ := List.exists_forall₂_iff.mpr attachable
  exact ⟨⟨table.combination, sites⟩, entryOfTable_eq_ok_iff.mpr ⟨rfl, inStep⟩⟩

theorem exists_ofPlan : ∃ dispatcher, ofPlan (decl.plan options) handlers = .ok dispatcher := by
  have attachable : ∀ table ∈ (decl.plan options).populated,
      ∃ entry, entryOfTable (decl.plan options) handlers table = .ok entry := by
    intro table populated
    exact exists_entryOfTable compilable enough (List.mem_filter.mp populated).1
  obtain ⟨entries, inStep⟩ := List.exists_forall₂_iff.mpr attachable
  exact ⟨⟨_, entries, _⟩, ofPlan_eq_ok_iff.mpr ⟨inStep, rfl, rfl⟩⟩

end

namespace Realizes

variable {dispatcher : Dispatcher ρ ε}

theorem mirrors_of_entryOfTable (realizes : dispatcher.Realizes decl options handlers)
    {table : Table} (isTable : table ∈ (decl.plan options).tables) {entry : DispatchEntry ρ ε}
    (realized : entryOfTable (decl.plan options) handlers table = .ok entry) :
    entry.Mirrors (decl.plan options) table := by
  obtain ⟨sameCombination, inStep⟩ := entryOfTable_eq_ok_iff.mp realized
  refine ⟨congrArg Label.table sameCombination, sameCombination, ?_⟩
  have named : ∀ named ∈ table.entries.entries, named.2.name = named.1 := by
    intro named isNamed
    have found := NameMap.mem_entries_iff.mp isNamed
    exact ((TypeDecl.find?_eq_some_iff_of_mem_tables realizes.compilable isTable).mp found).2.1
  apply ((List.forall₂_and_left _ _).mpr ⟨named, inStep⟩).imp
  intro planned attached related
  obtain ⟨sameName, keptName, _, _, synthesized⟩ := related
  obtain ⟨ident, combination, strategy⟩ := CallSite.attributes_of_synthesize synthesized
  exact ⟨keptName.symm, combination, sameName ▸ ident, strategy⟩

/-- Each entry is the one that is printed for the table at its place. -/
theorem mirrors (realizes : dispatcher.Realizes decl options handlers) :
    List.Forall₂ (fun table entry => entry.Mirrors (decl.plan options) table)
      (decl.plan options).populated dispatcher.entries := by
  have inStep := (ofPlan_eq_ok_iff.mp realizes.realized).1
  apply ((List.forall₂_and_left _ _).mpr ⟨fun _ => id, inStep⟩).imp
  intro table entry related
  obtain ⟨populated, realized⟩ := related
  exact realizes.mirrors_of_entryOfTable (List.mem_filter.mp populated).1 realized

end Realizes

end Dispatcher

theorem TypeSpec.build_eq_error_iff {spec : TypeSpec ρ ε} {options : CompileOptions}
    {fault : ConfigurationError} :
    spec.build options = .error fault ↔ spec.decl.compile options = .error fault := by
  cases compiles : spec.decl.compile options with
  | error other => simp [build, compiles, bind, Except.bind]
  | ok compiled =>
      have compilable := TypeDecl.compile_isOk_iff.mp ⟨compiled, compiles⟩
      have enough : spec.decl.methods.length ≤ (spec.methods.map MethodSpec.method).length := by
        simp [decl]
      obtain ⟨dispatcher, realized⟩ := Dispatcher.exists_ofPlan compilable enough
      rw [← TypeDecl.plan_of_compile compiles] at realized
      simp [build, compiles, realized, bind, Except.bind, pure, Except.pure]

namespace Dispatcher

/-- Given a handler for each declared method, every compiled plan becomes a
dispatcher, and what the plan prints is what the dispatcher has; so a type fails to
build exactly when its declaration fails to compile. -/
theorem every_plan_attaches_as_printed :
    (∀ (decl : TypeDecl) (options : CompileOptions) (compiled : Compiled)
      (handlers : List (Method ρ ε)), decl.compile options = .ok compiled →
        decl.methods.length ≤ handlers.length →
        ∃ dispatcher, ofPlan compiled.plan handlers = .ok dispatcher ∧
          List.Forall₂ (fun table entry => DispatchEntry.Mirrors compiled.plan table entry)
            compiled.plan.populated dispatcher.entries ∧
          compiled.plan.populated.map compiled.plan.tableLines =
            dispatcher.entries.map DispatchEntry.lines) ∧
    ∀ (spec : TypeSpec ρ ε) (options : CompileOptions) (fault : ConfigurationError),
      spec.build options = .error fault ↔ spec.decl.compile options = .error fault := by
  refine ⟨?attaches, fun _ _ _ => TypeSpec.build_eq_error_iff⟩
  intro decl options compiled handlers compiles enough
  have compilable := TypeDecl.compile_isOk_iff.mp ⟨compiled, compiles⟩
  rw [TypeDecl.plan_of_compile compiles]
  obtain ⟨dispatcher, realized⟩ := exists_ofPlan compilable enough
  have mirrors := Realizes.mirrors ⟨compilable, realized⟩
  refine ⟨dispatcher, realized, mirrors, ?_⟩
  rw [← List.forall₂_eq_eq_eq, List.forall₂_map_left_iff, List.forall₂_map_right_iff]
  exact mirrors.imp fun _ _ mirrored => mirrored.lines_eq

/-- The table of the skipped method is not populated, so it has no entry. -/
theorem every_plan_attaches_as_printed_canvas :
    ∃ compiled dispatcher, TypeDecl.canvas.compile {} = .ok compiled ∧
      ofPlan compiled.plan (List.replicate 5 fun _ => pure none : List (Method Unit Unit)) =
        .ok dispatcher ∧
      dispatcher.entries.map DispatchEntry.lines =
        [["  SendLookup___Number (Number)",
            "    draw -> Send_draw_Number [closure]"],
          ["  SendLookup___Int32 (Int32)",
            "    draw -> Send_draw_Int32_or_String [value-object]"],
          ["  SendLookup___String (String)",
            "    draw -> Send_draw_Int32_or_String [value-object]"],
          ["  SendLookup___String__Bool (String, Bool)",
            "    wipe -> Send_wipe_String__Bool [closure]"]] := by
  have compiles : TypeDecl.canvas.compile {} = .ok ⟨TypeDecl.canvas.plan {}, _⟩ := rfl
  obtain ⟨attaches, _⟩ := every_plan_attaches_as_printed (ρ := Unit) (ε := Unit)
  obtain ⟨dispatcher, realized, _, printed⟩ := attaches TypeDecl.canvas {} _
    (List.replicate 5 fun _ => pure none) compiles (by decide)
  refine ⟨_, dispatcher, compiles, realized, ?_⟩
  rw [← printed]
  decide

end Dispatcher

end MultiDispatch
