import MultiDispatch.Proofs.Decoding
import MultiDispatch.Proofs.Dispatch.Invocation
import MultiDispatch.Proofs.Dispatch.Selection
import MultiDispatch.Proofs.Registry.Specification

/-!
# Sending

What a send comes to, from the declared parameters of a type's handlers to the
body that runs.  Where every parameter is builtin and no argument is an object,
a site that is found neither declines nor fails to decode, so a send misses only
when no method takes its arguments.
-/

namespace MultiDispatch

variable {ρ ε : Type} {arguments : List Value}

theorem Value.IsScalar.not_passesForScalar {value : Value} (isScalar : value.IsScalar) :
    ¬value.PassesForScalar := by
  obtain ⟨_, _, rfl⟩ := isScalar
  exact id

/-- A site that accepts scalars passes them to the handler, whatever its strategy. -/
theorem CallSite.Realizes.invoke_eq {site : CallSite ρ ε} {plan : Plan}
    {handlers : List (Method ρ ε)} {method : Retained} {combination : Combination}
    (realizes : site.Realizes plan handlers method combination) {handler : Method ρ ε}
    (isHandler : handlers[method.index]? = some handler)
    (accepts : combination.Accepts (arguments.map Value.ty))
    (scalars : ∀ argument ∈ arguments, argument.IsScalar) :
    site.invoke arguments = handler arguments := by
  have synthesized := realizes.synthesize_eq isHandler
  cases strategy : plan.strategyOf method with
  | closure =>
      rw [strategy] at synthesized
      exact invoke_of_closure synthesized
  | valueObject =>
      rw [strategy] at synthesized
      rw [invoke_of_valueObject synthesized accepts, if_pos]
      intro argument inside
      exact (scalars argument inside).not_passesForScalar

namespace MethodSpec.Runs

variable {spec : MethodSpec ρ ε} {handler : Handler ρ ε}

/-- Arguments that the declared signature admits decode. -/
theorem exists_decode (runs : spec.Runs handler)
    (builtin : ∀ type ∈ handler.parameters, type.IsBuiltin) {signature : Signature}
    (typed : spec.constraints = signature.constraints.map some)
    (admits : signature.Admits (arguments.map Value.ty))
    (scalars : ∀ argument ∈ arguments, argument.IsScalar) :
    ∃ decoded, Arguments.decode handler.parameters arguments = some decoded := by
  rw [Arguments.exists_decode_iff, List.forall₂_iff_zip]
  have declares : List.Forall₂ (fun type constraint => type.constraint? = some constraint)
      handler.parameters signature.constraints := by
    rw [runs.constraints_eq, ← List.forall₂_eq_eq_eq, List.forall₂_map_left_iff,
      List.forall₂_map_right_iff] at typed
    exact typed
  rw [Signature.Admits, List.forall₂_map_right_iff] at admits
  have together := List.forall₂_exists_iff.mpr ⟨_, declares, admits⟩
  refine ⟨together.length_eq, ?_⟩
  intro type argument pair
  obtain ⟨isParameter, isArgument⟩ := List.of_mem_zip pair
  obtain ⟨constraint, declared, accepts⟩ := (List.forall₂_iff_zip.mp together).2 pair
  exact (ParamType.decode_isSome_iff (builtin type isParameter) declared
    (scalars argument isArgument)).mpr accepts

end MethodSpec.Runs

namespace TypeSpec

variable {spec : TypeSpec ρ ε} {handlers : List (Handler ρ ε)} {options : CompileOptions}
  {dispatcher : Dispatcher ρ ε} {diagnostics : List Diagnostic} {name : String}

section

variable (builds : spec.build options = .ok (dispatcher, diagnostics))
include builds

theorem tryInvoke_of_not_takes (untaken : ¬spec.Takes name (arguments.map Value.ty)) :
    dispatcher.tryInvoke name arguments = pure (.error (dispatcher.missing name arguments)) := by
  apply Dispatcher.tryInvoke_of_resolve_eq_none
  rw [Option.eq_none_iff_forall_ne_some]
  intro site resolves
  apply untaken
  rw [takes_iff_exists_retained, ← (realizes_of_build builds).exists_resolve_iff]
  exact ⟨site, resolves⟩

variable (typed : List.Forall₂ MethodSpec.Runs spec.methods handlers)
  (builtin : ∀ handler ∈ handlers, ∀ type ∈ handler.parameters, type.IsBuiltin)
  (scalars : ∀ argument ∈ arguments, argument.IsScalar)
include typed builtin scalars

theorem tryInvoke_of_takes (takes : spec.Takes name (arguments.map Value.ty)) :
    ∃ site method handler decoded,
      dispatcher.tryInvoke name arguments = Except.ok <$> handler.body decoded ∧
      dispatcher.resolve name (arguments.map Value.ty) = some site ∧
      method ∈ spec.decl.retained ∧ method.name = name ∧ method.Answers site.combination ∧
      handlers[method.index]? = some handler ∧
      Arguments.decode handler.parameters arguments = some decoded := by
  have realizes := realizes_of_build builds
  rw [takes_iff_exists_retained, ← realizes.exists_resolve_iff] at takes
  obtain ⟨site, resolves⟩ := takes
  obtain ⟨accepts, method, inside, sameName, answers, siteRealizes⟩ :=
    realizes.exists_method_of_resolve resolves
  obtain ⟨declared, isDeclared, _, constrained⟩ := mem_retained_decl_iff.mp inside
  obtain ⟨handler, isHandler, declares⟩ := typed.exists_getElem?_right isDeclared
  obtain ⟨decoded, decodes⟩ := declares.exists_decode
    (builtin handler (List.mem_of_getElem? isHandler)) constrained
    (Signature.admits_iff.mpr ⟨_, answers.2, accepts⟩) scalars
  have body : site.invoke arguments = some <$> handler.body decoded := by
    rw [siteRealizes.invoke_eq (getElem?_map_method typed isHandler) accepts scalars,
      Handler.method_of_decode decodes]
  have runs := Dispatcher.tryInvoke_of_runs resolves body
  exact ⟨site, method, handler, decoded, runs, resolves, inside, sameName, answers, isHandler,
    decodes⟩

/-- A send misses, and leaves everything alone, exactly when no method takes the
arguments; else it is the body of one handler, the one that stands at the place of
the method under which the resolved site was made. -/
theorem tryInvoke_runs_declared_handler (name : String) :
    (∀ receiver, (∃ missing,
      ((dispatcher.tryInvoke name arguments).run receiver).1 = .error missing) ↔
        ¬spec.Takes name (arguments.map Value.ty)) ∧
    (¬spec.Takes name (arguments.map Value.ty) →
      dispatcher.tryInvoke name arguments = pure (.error (dispatcher.missing name arguments))) ∧
    (spec.Takes name (arguments.map Value.ty) →
      ∃ compiled site table method handler decoded,
        spec.decl.compile options = .ok compiled ∧
        dispatcher.resolve name (arguments.map Value.ty) = some site ∧
        compiled.plan.table? site.combination.types = some table ∧
        table.find? name = some method ∧
        handlers[method.index]? = some handler ∧
        Arguments.decode handler.parameters arguments = some decoded ∧
        dispatcher.tryInvoke name arguments = Except.ok <$> handler.body decoded) := by
  refine ⟨?misses, tryInvoke_of_not_takes builds, ?runs⟩
  case misses =>
    intro receiver
    by_cases takes : spec.Takes name (arguments.map Value.ty)
    · obtain ⟨_, _, _, _, runs, _⟩ := tryInvoke_of_takes builds typed builtin scalars takes
      simp [runs, takes]
    · rw [tryInvoke_of_not_takes builds takes]
      exact ⟨fun _ => takes, fun _ => ⟨_, rfl⟩⟩
  case runs =>
    intro takes
    obtain ⟨site, method, handler, decoded, runs, resolves, inside, rfl, answers, isHandler,
      decodes⟩ := tryInvoke_of_takes builds typed builtin scalars takes
    have compilable := (realizes_of_build builds).compilable
    obtain ⟨compiled, compiles⟩ := TypeDecl.compile_isOk_iff.mpr compilable
    obtain ⟨table, isTable, isEntry⟩ := TypeDecl.exists_table?_of_answers compilable inside answers
    rw [← TypeDecl.plan_of_compile compiles] at isTable
    exact ⟨compiled, site, table, method, handler, decoded, compiles, resolves, isTable, isEntry,
      isHandler, decodes, runs⟩

end

/-- Handlers on a counter: one that can not be dispatched, one for whole numbers and
texts, one for all other numbers, and one that is left out. -/
def tallyHandlers : List (Handler Nat String) :=
  [⟨[.any], fun _ => pure (.ok .nil)⟩,
    ⟨[.or (.scalar (.signed .w32)) (.scalar .string)], fun _ count => (.ok .nil, count + 1)⟩,
    ⟨[.family .number], fun (number, _) count => (.ok number, count + 2)⟩,
    ⟨[.scalar .char], fun _ => pure (.error "skipped")⟩]

def tally : TypeSpec Nat String where
  name := "Tally"
  strategy := none
  methods := tallyHandlers.zipWith
    (fun handler (name, strategy, skip) =>
      { MethodSpec.ofHandler name handler with strategy, skip })
    [("log", none, false), ("add", none, false), ("add", some .closure, false),
      ("add", none, true)]

theorem tryInvoke_runs_declared_handler_tally :
    ∃ dispatcher diagnostics, tally.build {} = .ok (dispatcher, diagnostics) ∧
      tally.Takes "add" [.scalar (.signed .w32)] ∧
      ∃ site handler decoded,
        dispatcher.resolve "add" [.scalar (.signed .w32)] = some site ∧
        handler ∈ tallyHandlers ∧
        Arguments.decode handler.parameters [.signed .w32 5] = some decoded ∧
        dispatcher.tryInvoke "add" [.signed .w32 5] = Except.ok <$> handler.body decoded := by
  have builds : tally.build {} = .ok (_, _) := rfl
  have typed : List.Forall₂ MethodSpec.Runs tally.methods tallyHandlers :=
    .cons ⟨rfl, rfl⟩ (.cons ⟨rfl, rfl⟩ (.cons ⟨rfl, rfl⟩ (.cons ⟨rfl, rfl⟩ .nil)))
  have builtin : ∀ handler ∈ tallyHandlers, ∀ type ∈ handler.parameters, type.IsBuiltin := by
    decide
  have scalars : ∀ argument ∈ [Value.signed .w32 5], argument.IsScalar := by
    intro argument inside
    cases List.mem_singleton.mp inside
    exact ⟨_, _, rfl⟩
  have takes : tally.Takes "add" [.scalar (.signed .w32)] :=
    ⟨_, List.mem_cons_of_mem _ List.mem_cons_self, rfl, rfl,
      .cons ⟨_, rfl, .scalar (.signed .w32), by decide, by decide⟩ .nil⟩
  obtain ⟨_, site, _, _, handler, decoded, _, resolves, _, _, isHandler, decodes, runs⟩ :=
    (tryInvoke_runs_declared_handler builds typed builtin scalars "add").2.2 takes
  exact ⟨_, _, builds, takes, site, handler, decoded, resolves, List.mem_of_getElem? isHandler,
    decodes, runs⟩

end TypeSpec

end MultiDispatch
