import MultiDispatch.Proofs.Dispatch.Invocation
import MultiDispatch.Proofs.Dispatch.Selection
import MultiDispatch.Proofs.Registry.Specification

/-!
# Where the strategies agree

Whether call sites close over their methods or pack their arguments makes no
difference to a run of sends, but for one kind of argument.  An object whose
declared name is that of a scalar has the scalar's type, and a handler of such
objects decodes it; a record, which stores the scalar itself, has no place for it.
-/

namespace MultiDispatch

variable {ρ ε : Type} {arguments : List Value} {name : String}

/-- The results of the sends, one after the other, and what becomes of the receiver. -/
def Dispatcher.sendAll (dispatcher : Dispatcher ρ ε) (sends : List (String × List Value))
    (receiver : ρ) : List (Except MethodMissing (Except ε Value)) × ρ :=
  (sends.mapM fun send => dispatcher.tryInvoke send.1 send.2).run receiver

theorem Dispatcher.sendAll_cons (dispatcher : Dispatcher ρ ε) (send : String × List Value)
    (sends : List (String × List Value)) (receiver : ρ) :
    dispatcher.sendAll (send :: sends) receiver =
      (((dispatcher.tryInvoke send.1 send.2).run receiver).1 ::
          (dispatcher.sendAll sends ((dispatcher.tryInvoke send.1 send.2).run receiver).2).1,
        (dispatcher.sendAll sends ((dispatcher.tryInvoke send.1 send.2).run receiver).2).2) := by
  rw [sendAll, List.mapM_cons]
  rfl

/-- Under the name, without a strategy of its own, and at exactly the types of the
arguments, the method takes an object that passes for a scalar. -/
structure MethodSpec.TakesDisguised (spec : MethodSpec ρ ε) (handler : Handler ρ ε)
    (name : String) (arguments : List Value) : Prop where
  kept : spec.skip = false
  isNamed : spec.name = name
  unfixed : spec.strategy = none
  atTypes : List.Forall₂ (fun declared argument => ∃ constraint : Constraint,
    declared = some constraint ∧ argument.ty ∈ constraint.members) spec.constraints arguments
  disguised : ∃ argument ∈ arguments, argument.PassesForScalar
  decodes : ∃ decoded, Arguments.decode handler.parameters arguments = some decoded

/-- A method takes an object that passes for a scalar, under the default strategy. -/
def TypeSpec.Diverges (spec : TypeSpec ρ ε) (handlers : List (Handler ρ ε)) (name : String)
    (arguments : List Value) : Prop :=
  spec.strategy = none ∧ ∃ (place : Nat) (method : MethodSpec ρ ε) (handler : Handler ρ ε),
    spec.methods[place]? = some method ∧ handlers[place]? = some handler ∧
      method.TakesDisguised handler name arguments

namespace TypeSpec

variable {spec : TypeSpec ρ ε} {handlers : List (Handler ρ ε)} {options : CompileOptions}

theorem diverges_iff_exists_retained :
    spec.Diverges handlers name arguments ↔
      ∃ method ∈ spec.decl.retained, method.name = name ∧
        method.Answers ⟨arguments.map Value.ty⟩ ∧
        method.declared.strategy.or spec.decl.strategy = none ∧
        (∃ argument ∈ arguments, argument.PassesForScalar) ∧
        ∃ handler decoded, handlers[method.index]? = some handler ∧
          Arguments.decode handler.parameters arguments = some decoded := by
  simp only [Option.or_eq_none_iff, Retained.Answers, Combination.instantiates_iff_forall₂,
    List.forall₂_map_left_iff]
  constructor
  · intro diverges
    obtain ⟨unfixedType, place, declared, handler, isDeclared, isHandler, taken⟩ := diverges
    obtain ⟨constraints, constrained, atTypes⟩ := List.forall₂_exists_some_iff.mp taken.atTypes
    obtain ⟨decoded, decodes⟩ := taken.decodes
    let method : Retained := ⟨declared.declared spec.name, ⟨constraints⟩, place⟩
    have inside : method ∈ spec.decl.retained :=
      mem_retained_decl_iff.mpr ⟨declared, isDeclared, rfl, constrained⟩
    exact ⟨method, inside, taken.isNamed, ⟨taken.kept, atTypes.flip⟩,
      ⟨taken.unfixed, unfixedType⟩, taken.disguised, handler, decoded, isHandler, decodes⟩
  · intro reached
    obtain ⟨method, inside, isNamed, ⟨kept, atTypes⟩, ⟨unfixed, unfixedType⟩, disguised, handler,
      decoded, isHandler, decodes⟩ := reached
    obtain ⟨declared, isDeclared, same, constrained⟩ := mem_retained_decl_iff.mp inside
    rw [Retained.name, same] at isNamed
    rw [Retained.skip, same] at kept
    rw [same] at unfixed
    refine ⟨unfixedType, method.index, declared, handler, isDeclared, isHandler, ?_⟩
    exact {
      kept
      isNamed
      unfixed
      atTypes := List.forall₂_exists_some_iff.mpr ⟨_, constrained, atTypes.flip⟩
      disguised
      decodes := ⟨decoded, decodes⟩ }

section

variable {method : Retained} {combination : Combination} {handler : Method ρ ε}
  {site : CallSite ρ ε} {strategy : Strategy}

/-- A method without a strategy of its own gets the default one. -/
theorem synthesize_of_unfixed
    (realizes : site.Realizes (spec.decl.plan { options with defaultStrategy := strategy })
      (spec.methods.map MethodSpec.method) method combination)
    (answers : method.Answers combination)
    (unfixed : method.declared.strategy.or spec.decl.strategy = none)
    (isMethod : (spec.methods.map MethodSpec.method)[method.index]? = some handler) :
    CallSite.synthesize method combination strategy handler = .ok site := by
  have synthesized := realizes.synthesize_eq isMethod
  rwa [TypeDecl.strategyOf_plan answers.1, TypeDecl.resolvedStrategy_of_unfixed unfixed]
    at synthesized

end

variable {closures records : Dispatcher ρ ε}
  {closureDiagnostics recordDiagnostics : List Diagnostic}
  (typed : List.Forall₂ MethodSpec.Runs spec.methods handlers)
  (buildsClosures : spec.build { options with defaultStrategy := .closure } =
    .ok (closures, closureDiagnostics))
  (buildsRecords : spec.build { options with defaultStrategy := .valueObject } =
    .ok (records, recordDiagnostics))

section

include typed buildsClosures buildsRecords

/-- A closure runs the handler on the object in disguise; a record declines it. -/
theorem tryInvoke_of_diverges (diverges : spec.Diverges handlers name arguments) :
    (∃ run, closures.tryInvoke name arguments = Except.ok <$> run) ∧
      records.tryInvoke name arguments = pure (.error (records.missing name arguments)) := by
  obtain ⟨method, inside, rfl, answers, unfixed, ⟨argument, isArgument, passes⟩, handler, decoded,
    isHandler, decodes⟩ := diverges_iff_exists_retained.mp diverges
  have isMethod := getElem?_map_method typed isHandler
  constructor
  · obtain ⟨site, resolves, siteRealizes⟩ :=
      (realizes_of_build buildsClosures).exists_resolve_of_answers inside answers
    have synthesized := synthesize_of_unfixed siteRealizes answers unfixed isMethod
    refine ⟨handler.body decoded, Dispatcher.tryInvoke_of_runs resolves ?_⟩
    rw [CallSite.invoke_of_closure synthesized, Handler.method_of_decode decodes]
  · obtain ⟨site, resolves, siteRealizes⟩ :=
      (realizes_of_build buildsRecords).exists_resolve_of_answers inside answers
    have synthesized := synthesize_of_unfixed siteRealizes answers unfixed isMethod
    apply Dispatcher.tryInvoke_of_declines resolves
    rw [CallSite.invoke_of_valueObject synthesized (Combination.accepts_refl _), if_neg]
    intro undisguised
    exact undisguised argument isArgument passes

omit buildsClosures buildsRecords in
/-- A method reached under both strategies sees the same, unless it diverges. -/
theorem invoke_eq_of_not_diverges (agrees : ¬spec.Diverges handlers name arguments)
    {method : Retained} (inside : method ∈ spec.decl.retained) (isNamed : method.name = name)
    {combination : Combination} (answers : method.Answers combination)
    (accepts : combination.Accepts (arguments.map Value.ty)) {site otherSite : CallSite ρ ε}
    (siteRealizes : site.Realizes (spec.decl.plan { options with defaultStrategy := .closure })
      (spec.methods.map MethodSpec.method) method combination)
    (otherRealizes : otherSite.Realizes
      (spec.decl.plan { options with defaultStrategy := .valueObject })
      (spec.methods.map MethodSpec.method) method combination) :
    site.invoke arguments = otherSite.invoke arguments := by
  obtain ⟨_, isDeclared, _, _⟩ := mem_retained_decl_iff.mp inside
  obtain ⟨handler, isHandler, _⟩ := typed.exists_getElem?_right isDeclared
  have isMethod := getElem?_map_method typed isHandler
  cases own : method.declared.strategy.or spec.decl.strategy with
  | some strategy =>
      have synthesized := siteRealizes.synthesize_eq isMethod
      have otherSynthesized := otherRealizes.synthesize_eq isMethod
      rw [TypeDecl.strategyOf_plan answers.1, TypeDecl.resolvedStrategy, own, Option.getD_some]
        at synthesized otherSynthesized
      rw [Except.ok.inj (synthesized.symm.trans otherSynthesized)]
  | none =>
      have synthesized := synthesize_of_unfixed siteRealizes answers own isMethod
      have otherSynthesized := synthesize_of_unfixed otherRealizes answers own isMethod
      have sameTypes := CallSite.types_eq_of_valueObject otherSynthesized accepts
      rw [CallSite.invoke_of_closure synthesized,
        CallSite.invoke_of_valueObject otherSynthesized accepts]
      by_cases undisguised : ∀ argument ∈ arguments, ¬argument.PassesForScalar
      · rw [if_pos undisguised]
      · rw [if_neg undisguised]
        -- Only arguments that do not decode are left, and the closure declines those too.
        cases decodes : Arguments.decode handler.parameters arguments with
        | none => exact Handler.method_of_decode_none decodes
        | some decoded =>
            push Not at undisguised
            exfalso
            apply agrees
            apply diverges_iff_exists_retained.mpr
            refine ⟨method, inside, isNamed, ?_, own, undisguised, handler, decoded, isHandler,
              decodes⟩
            rwa [← sameTypes]

/-- Any other send is the same under both strategies. -/
theorem tryInvoke_eq_of_not_diverges (agrees : ¬spec.Diverges handlers name arguments) :
    closures.tryInvoke name arguments = records.tryInvoke name arguments := by
  have closuresRealize := realizes_of_build buildsClosures
  have recordsRealize := realizes_of_build buildsRecords
  have sameMissing : closures.missing name arguments = records.missing name arguments := by
    rw [closuresRealize.missing_eq, recordsRealize.missing_eq]
  cases resolves : closures.resolve name (arguments.map Value.ty) with
  | none =>
      have alsoMisses : records.resolve name (arguments.map Value.ty) = none := by
        rw [Option.eq_none_iff_forall_ne_some]
        intro site found
        obtain ⟨_, impossible, _⟩ :=
          recordsRealize.exists_resolve_counterpart closuresRealize found
        cases resolves.symm.trans impossible
      rw [Dispatcher.tryInvoke_of_resolve_eq_none resolves,
        Dispatcher.tryInvoke_of_resolve_eq_none alsoMisses, sameMissing]
  | some site =>
      obtain ⟨otherSite, method, combination, otherResolves, accepts, inside, isNamed, answers,
        siteRealizes, otherRealizes⟩ :=
        closuresRealize.exists_common_method recordsRealize resolves
      apply Dispatcher.tryInvoke_congr resolves otherResolves ?_ sameMissing
      exact invoke_eq_of_not_diverges typed agrees inside isNamed answers accepts siteRealizes
        otherRealizes

/-- Two runs of the same sends end alike, results and receiver, exactly when no send
among them makes the strategies diverge. -/
theorem sendAll_eq_iff_not_diverges (sends : List (String × List Value)) (receiver : ρ) :
    closures.sendAll sends receiver = records.sendAll sends receiver ↔
      ∀ send ∈ sends, ¬spec.Diverges handlers send.1 send.2 := by
  induction sends generalizing receiver with
  | nil => simp [Dispatcher.sendAll, List.mapM_nil]
  | cons send sends inductionHypothesis =>
      rw [Dispatcher.sendAll_cons, Dispatcher.sendAll_cons, List.forall_mem_cons]
      by_cases diverges : spec.Diverges handlers send.1 send.2
      · obtain ⟨⟨run, runs⟩, misses⟩ :=
          tryInvoke_of_diverges typed buildsClosures buildsRecords diverges
        have differ : ((closures.tryInvoke send.1 send.2).run receiver).1 ≠
            ((records.tryInvoke send.1 send.2).run receiver).1 := by
          rw [runs, misses]
          intro same
          cases same
        simp only [Prod.mk.injEq, List.cons.injEq, differ, diverges, not_true_eq_false, false_and]
      · rw [tryInvoke_eq_of_not_diverges typed buildsClosures buildsRecords diverges]
        have restAgrees := inductionHypothesis ((records.tryInvoke send.1 send.2).run receiver).2
        rw [Prod.ext_iff] at restAgrees
        simp only [Prod.mk.injEq, List.cons.injEq, true_and, restAgrees, diverges,
          not_false_eq_true]

end

/-- Objects of a host type that goes by the name of a scalar. -/
def disguised : ObjectType := ⟨0, "Int32"⟩

def shelfHandlers : List (Handler Unit String) :=
  [⟨[.handle disguised], fun _ => pure (.ok (.string "alias"))⟩]

def shelf : TypeSpec Unit String where
  name := "Shelf"
  strategy := none
  methods := shelfHandlers.map (.ofHandler "put")

theorem sendAll_eq_iff_not_diverges_shelf :
    ∃ closures records closureDiagnostics recordDiagnostics,
      shelf.build { defaultStrategy := .closure } = .ok (closures, closureDiagnostics) ∧
      shelf.build { defaultStrategy := .valueObject } = .ok (records, recordDiagnostics) ∧
      closures.sendAll [("put", [.signed .w32 1])] () =
        records.sendAll [("put", [.signed .w32 1])] () ∧
      closures.sendAll [("put", [.signed .w32 1]), ("put", [.object ⟨disguised, 0⟩])] () ≠
        records.sendAll [("put", [.signed .w32 1]), ("put", [.object ⟨disguised, 0⟩])] () := by
  have typed : List.Forall₂ MethodSpec.Runs shelf.methods shelfHandlers := .cons ⟨rfl, rfl⟩ .nil
  have buildsClosures : shelf.build { ({} : CompileOptions) with defaultStrategy := .closure } =
    .ok (_, _) := rfl
  have buildsRecords : shelf.build { ({} : CompileOptions) with defaultStrategy := .valueObject } =
    .ok (_, _) := rfl
  have agree := sendAll_eq_iff_not_diverges typed buildsClosures buildsRecords
  have diverges : shelf.Diverges shelfHandlers "put" [.object ⟨disguised, 0⟩] := by
    refine ⟨rfl, 0, _, _, rfl, rfl, ?_⟩
    exact {
      kept := rfl
      isNamed := rfl
      unfixed := rfl
      atTypes := .cons ⟨_, rfl, List.mem_singleton_self _⟩ .nil
      disguised := ⟨_, List.mem_singleton_self _, _, rfl⟩
      decodes := ⟨_, rfl⟩ }
  refine ⟨_, _, _, _, buildsClosures, buildsRecords, (agree _ ()).mpr ?_, ?_⟩
  · intro send inside alsoDiverges
    obtain ⟨_, _, _, _, _, _, taken⟩ := alsoDiverges
    cases List.mem_singleton.mp inside
    obtain ⟨argument, isArgument, passes⟩ := taken.disguised
    cases List.mem_singleton.mp isArgument
    exact passes
  · intro same
    exact (agree _ ()).mp same _ (List.mem_cons_of_mem _ List.mem_cons_self) diverges

/-- A closure puts the object on the shelf, and a record does not. -/
theorem sendAll_differs_on_disguised_object :
    ∃ closures records closureDiagnostics recordDiagnostics,
      shelf.build { defaultStrategy := .closure } = .ok (closures, closureDiagnostics) ∧
      shelf.build { defaultStrategy := .valueObject } = .ok (records, recordDiagnostics) ∧
      closures.sendAll [("put", [.object ⟨disguised, 0⟩])] () =
        ([.ok (.ok (.string "alias"))], ()) ∧
      records.sendAll [("put", [.object ⟨disguised, 0⟩])] () =
        ([.error ⟨"Shelf", "put", ⟨[.scalar (.signed .w32)]⟩⟩], ()) :=
  ⟨_, _, _, _, rfl, rfl, rfl, rfl⟩

end TypeSpec

end MultiDispatch
