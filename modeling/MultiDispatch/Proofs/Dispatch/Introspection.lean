import MultiDispatch.Proofs.Dispatch.Selection
import MultiDispatch.Proofs.Plan.Introspection

/-!
# Introspection and dispatch

The index and the tables are made apart from each other, yet they agree: whatever a
send finds exists, and takes that many arguments.  Where skipped methods are hidden
and every parameter has an alternative, nothing else exists.
-/

namespace MultiDispatch

/-- A retained method has as many parameters as its signature has positions. -/
theorem TypeDecl.length_constraints_of_mem_retained {decl : TypeDecl} {method : Retained}
    (inside : method ∈ decl.retained) :
    method.signature.constraints.length = method.arity.max := by
  have typed := MethodDecl.signature?_eq_some_iff.mp (mem_retained_iff.mp inside).2.2
  have sameLength := congrArg List.length typed
  rw [List.length_map, List.length_map] at sameLength
  exact sameLength.symm

theorem Retained.min_le_max (method : Retained) : method.arity.min ≤ method.arity.max :=
  List.countP_le_length

/-- A method that answers at a combination is sent as many arguments as it has
parameters. -/
theorem Retained.Answers.length_eq {decl : TypeDecl} {method : Retained}
    (inside : method ∈ decl.retained) {combination : Combination}
    (answers : method.Answers combination) {types : List Ty}
    (accepts : combination.Accepts types) : types.length = method.arity.max := by
  rw [← accepts.1, answers.2.1, TypeDecl.length_constraints_of_mem_retained inside]

namespace Dispatcher

variable {ρ ε : Type} {dispatcher : Dispatcher ρ ε} {decl : TypeDecl} {options : CompileOptions}
  {handlers : List (Method ρ ε)}

namespace Realizes

theorem index_eq (realizes : dispatcher.Realizes decl options handlers) :
    dispatcher.index = .build decl.retained options.introspectSkipped :=
  (ofPlan_eq_ok_iff.mp realizes.realized).2.2

theorem exists_of_resolve (realizes : dispatcher.Realizes decl options handlers) {name : String}
    {types : List Ty} {site : CallSite ρ ε} (resolves : dispatcher.resolve name types = some site) :
    dispatcher.Exists name ∧ ∃ arity, dispatcher.arity? name = some arity ∧
      arity.min ≤ types.length ∧ types.length ≤ arity.max := by
  obtain ⟨accepts, method, inside, sameName, answers, _⟩ :=
    realizes.exists_method_of_resolve resolves
  have counts : method.Counts options.introspectSkipped name := ⟨sameName, .inl answers.1⟩
  have present : dispatcher.Exists name := by
    rw [Exists, realizes.index_eq, ArityIndex.exists_build_iff]
    exact ⟨method, inside, counts⟩
  refine ⟨present, ?_⟩
  obtain ⟨record, found⟩ := Option.isSome_iff_exists.mp present
  have recorded : dispatcher.arity? name = some record.arity := by
    rw [arity?, ArityIndex.arity?, found, Option.map_some]
  refine ⟨record.arity, recorded, ?_⟩
  rw [arity?, realizes.index_eq, ArityIndex.arity?_build_eq_some_iff] at recorded
  rw [answers.length_eq inside accepts]
  constructor
  · exact Nat.le_trans (recorded.1.2 ⟨method, inside, counts, rfl⟩) method.min_le_max
  · exact recorded.2.2 ⟨method, inside, counts, rfl⟩

/-- A method that is shown has a combination, if no parameter lacks alternatives. -/
theorem exists_resolve_of_exists (realizes : dispatcher.Realizes decl options handlers)
    (hidden : options.introspectSkipped = false)
    (inhabited : ∀ method ∈ decl.retained, ∀ constraint ∈ method.signature.constraints,
      constraint.members ≠ []) {name : String} (present : dispatcher.Exists name) :
    ∃ types site, dispatcher.resolve name types = some site := by
  rw [Exists, realizes.index_eq, ArityIndex.exists_build_iff] at present
  obtain ⟨method, inside, rfl, shown⟩ := present
  have kept : method.skip = false := shown.resolve_right (by simp [hidden])
  obtain ⟨combination, instantiates⟩ := Signature.exists_instantiates (inhabited method inside)
  obtain ⟨site, resolves, _⟩ := realizes.exists_resolve_of_answers inside ⟨kept, instantiates⟩
  exact ⟨combination.types, site, resolves⟩

end Realizes

/-- A name exists when a method of that name is shown, and its range is from the fewest
required parameters to the most parameters of those methods.  A send that finds a
site finds a name that exists, within its range; and where nothing skipped is shown
and no parameter lacks alternatives, every name that exists can be sent. -/
theorem introspection_agrees_with_dispatch {compiled : Compiled}
    (compiles : decl.compile options = .ok compiled) :
    (∀ name, compiled.plan.index.Exists name ↔
      ∃ method ∈ compiled.plan.methods, method.Counts options.introspectSkipped name) ∧
    (∀ name arity, compiled.plan.index.arity? name = some arity ↔
      IsLeast {count | ∃ method ∈ compiled.plan.methods,
        method.Counts options.introspectSkipped name ∧
          method.declared.parameters.countP (fun parameter => !parameter.hasDefault) = count}
        arity.min ∧
      IsGreatest {count | ∃ method ∈ compiled.plan.methods,
        method.Counts options.introspectSkipped name ∧
          method.declared.parameters.length = count} arity.max) ∧
    ∀ (handlers : List (Method ρ ε)) (dispatcher : Dispatcher ρ ε),
      ofPlan compiled.plan handlers = .ok dispatcher →
      dispatcher.index = compiled.plan.index ∧
      (∀ name types site, dispatcher.resolve name types = some site →
        dispatcher.Exists name ∧ ∃ arity, dispatcher.arity? name = some arity ∧
          arity.min ≤ types.length ∧ types.length ≤ arity.max) ∧
      (options.introspectSkipped = false →
        (∀ method ∈ compiled.plan.methods, ∀ constraint ∈ method.signature.constraints,
          constraint.members ≠ []) →
        ∀ name, dispatcher.Exists name →
          ∃ types site, dispatcher.resolve name types = some site) := by
  have compilable := TypeDecl.compile_isOk_iff.mp ⟨compiled, compiles⟩
  rw [TypeDecl.plan_of_compile compiles]
  refine ⟨fun _ => ArityIndex.exists_build_iff, fun _ _ => ArityIndex.arity?_build_eq_some_iff, ?_⟩
  intro handlers dispatcher realized
  have realizes : dispatcher.Realizes decl options handlers := ⟨compilable, realized⟩
  refine ⟨realizes.index_eq, ?_, ?_⟩
  · intro name types site resolves
    exact realizes.exists_of_resolve resolves
  · intro hidden inhabited name present
    exact realizes.exists_resolve_of_exists hidden inhabited present

/-- Wiping takes one or two arguments, and can be sent with two. -/
theorem introspection_agrees_with_dispatch_canvas :
    ∃ compiled dispatcher, TypeDecl.canvas.compile { introspectSkipped := false } = .ok compiled ∧
      ofPlan compiled.plan (List.replicate 5 fun _ => pure none : List (Method Unit Unit)) =
        .ok dispatcher ∧
      dispatcher.Exists "wipe" ∧
      (∃ arity, dispatcher.arity? "wipe" = some arity ∧ arity.min ≤ 2 ∧ 2 ≤ arity.max) ∧
      ∃ types site, dispatcher.resolve "wipe" types = some site := by
  have compiles : TypeDecl.canvas.compile { introspectSkipped := false } = .ok _ := rfl
  obtain ⟨_, _, agrees⟩ := introspection_agrees_with_dispatch (ρ := Unit) (ε := Unit) compiles
  obtain ⟨_, within, conversely⟩ := agrees (List.replicate 5 fun _ => pure none) _ rfl
  obtain ⟨present, range⟩ := within "wipe" [.scalar .string, .scalar .bool] _ rfl
  refine ⟨_, _, compiles, rfl, present, range, ?_⟩
  apply conversely rfl _ "wipe" present
  decide

end Dispatcher

end MultiDispatch
