import Mathlib.Logic.Basic
import MultiDispatch.Proofs.Dispatch.Invocation
import MultiDispatch.Proofs.Dispatch.Selection
import MultiDispatch.Proofs.Registry.Specification
import MultiDispatch.Proofs.TypedMethod

/-!
# Misses

A send to a type whose methods are all typed either misses or runs one body.
A miss leaves no trace but the report of it.  What a body returns is passed on as it
is, and so is an error of its own that looks like a miss.
-/

namespace MultiDispatch

variable {ρ ε : Type} {name : String} {arguments : List Value}

/-- A site hands its arguments to the handler or declines them. -/
theorem CallSite.declines_or_invokes {method : Retained} {combination : Combination}
    {strategy : Strategy} {handler : Method ρ ε} {site : CallSite ρ ε}
    (synthesized : synthesize method combination strategy handler = .ok site)
    (arguments : List Value) :
    site.invoke arguments = pure none ∨ site.invoke arguments = handler arguments := by
  cases strategy with
  | closure => exact .inr (invoke_of_closure synthesized)
  | valueObject =>
      obtain ⟨layout, _, rfl⟩ := synthesize_valueObject_eq_ok_iff.mp synthesized
      by_cases packs : Packs layout arguments
      · exact .inr (if_pos packs)
      · exact .inl (if_neg packs)

/-- Behind any site a typed method runs its body, once, or nothing runs at all. -/
theorem CallSite.declines_or_runs {method : Retained} {combination : Combination}
    {strategy : Strategy} {typed : TypedMethod ρ ε} {site : CallSite ρ ε}
    (synthesized : synthesize method combination strategy typed.method = .ok site)
    (arguments : List Value) :
    site.invoke arguments = pure none ∨
      ∃ decoded, Readable.decode typed.parameters arguments = some decoded ∧
        site.invoke arguments = some <$> typed.body decoded := by
  rcases declines_or_invokes synthesized arguments with declines | invokes
  · exact .inl declines
  · rw [invokes]
    exact typed.declines_or_runs arguments

/-- The method is declared like the typed one's parameters, and is that one. -/
structure MethodSpec.Performs (spec : MethodSpec ρ ε) (typed : TypedMethod ρ ε) : Prop where
  constraints_eq : spec.constraints = typed.parameters.map (·.constraint?)
  method_eq : spec.method = typed.method

theorem MethodSpec.performs_ofHandler (name : String) (handler : Handler ρ ε) :
    (ofHandler name handler).Performs handler.typed where
  constraints_eq := by
    simp only [ofHandler, Handler.typed, List.map_map]
    rfl
  method_eq := handler.method_typed.symm

namespace Dispatcher

variable [RaisesMissing ε] {dispatcher : Dispatcher ρ ε} {missing : MethodMissing}
  {body : StateM ρ (Except ε Value)}

/-- However it is sent, the send leaves the receiver alone and reports the miss. -/
structure Misses (dispatcher : Dispatcher ρ ε) (missing : MethodMissing) (name : String)
    (arguments : List Value) : Prop where
  tryInvoke_eq : dispatcher.tryInvoke name arguments = pure (.error missing)
  invoke_eq : dispatcher.invoke name arguments = pure (.error (RaisesMissing.ofMissing missing))
  invokeOrAbsent_eq : dispatcher.invokeOrAbsent name arguments = pure (.ok none)

/-- However it is sent, the send is the body, with its value or its error. -/
structure PassesOn (dispatcher : Dispatcher ρ ε) (body : StateM ρ (Except ε Value))
    (name : String) (arguments : List Value) : Prop where
  tryInvoke_eq : dispatcher.tryInvoke name arguments = Except.ok <$> body
  invoke_eq : dispatcher.invoke name arguments = body
  invokeOrAbsent_eq : dispatcher.invokeOrAbsent name arguments = Except.map some <$> body

theorem misses_of_tryInvoke
    (misses : dispatcher.tryInvoke name arguments = pure (.error missing)) :
    dispatcher.Misses missing name arguments where
  tryInvoke_eq := misses
  invoke_eq := by simp only [invoke, misses, pure_bind]
  invokeOrAbsent_eq := by simp only [invokeOrAbsent, misses, pure_bind]

theorem passesOn_of_tryInvoke
    (runs : dispatcher.tryInvoke name arguments = Except.ok <$> body) :
    dispatcher.PassesOn body name arguments where
  tryInvoke_eq := runs
  invoke_eq := by simp only [invoke, runs, bind_map_left, bind_pure]
  invokeOrAbsent_eq := by
    simp only [invokeOrAbsent, runs, bind_map_left]
    exact (map_eq_pure_bind (Except.map some) body).symm

/-- A result of the body is present, and its error stays one. -/
theorem PassesOn.not_absent (passesOn : dispatcher.PassesOn body name arguments) (receiver : ρ) :
    ((dispatcher.invokeOrAbsent name arguments).run receiver).1 ≠ .ok none := by
  rw [passesOn.invokeOrAbsent_eq]
  change Except.map some (body.run receiver).1 ≠ .ok none
  cases (body.run receiver).1 <;> simp [Except.map]

end Dispatcher

namespace TypeSpec

variable {spec : TypeSpec ρ ε} {typed : List (TypedMethod ρ ε)} {options : CompileOptions}
  {dispatcher : Dispatcher ρ ε} {diagnostics : List Diagnostic}

/-- The body is that of the method at the place, which goes by the name and can read
the arguments. -/
structure Reaches (spec : TypeSpec ρ ε) (typed : List (TypedMethod ρ ε)) (name : String)
    (arguments : List Value) (place : Nat) (body : StateM ρ (Except ε Value)) : Prop where
  declared : ∃ method, spec.methods[place]? = some method ∧ method.name = name ∧
    method.skip = false
  decodes : ∃ method decoded, typed[place]? = some method ∧
    Readable.decode method.parameters arguments = some decoded ∧ body = method.body decoded

theorem tryInvoke_misses_or_runs (builds : spec.build options = .ok (dispatcher, diagnostics))
    (performs : List.Forall₂ MethodSpec.Performs spec.methods typed) (name : String)
    (arguments : List Value) :
    dispatcher.tryInvoke name arguments =
        pure (.error ⟨spec.name, name, ⟨arguments.map Value.ty⟩⟩) ∨
      ∃ place body, spec.Reaches typed name arguments place body ∧
        dispatcher.tryInvoke name arguments = Except.ok <$> body := by
  have realizes := realizes_of_build builds
  have sameMissing := realizes.missing_eq name arguments
  cases resolves : dispatcher.resolve name (arguments.map Value.ty) with
  | none =>
      rw [Dispatcher.tryInvoke_of_resolve_eq_none resolves, sameMissing]
      exact .inl rfl
  | some site =>
      obtain ⟨_, method, inside, sameName, answers, siteRealizes⟩ :=
        realizes.exists_method_of_resolve resolves
      obtain ⟨declared, isDeclared, same, _⟩ := mem_retained_decl_iff.mp inside
      obtain ⟨performed, isPerformed, performance⟩ := performs.exists_getElem?_right isDeclared
      have isMethod :
          (spec.methods.map MethodSpec.method)[method.index]? = some performed.method := by
        rw [List.getElem?_map, isDeclared, Option.map_some, performance.method_eq]
      rcases CallSite.declines_or_runs (siteRealizes.synthesize_eq isMethod) arguments with
        declines | ⟨decoded, decodes, runs⟩
      · rw [Dispatcher.tryInvoke_of_declines resolves declines, sameMissing]
        exact .inl rfl
      · rw [Retained.name, same] at sameName
        have kept := answers.1
        rw [Retained.skip, same] at kept
        refine .inr ⟨method.index, performed.body decoded, ?_,
          Dispatcher.tryInvoke_of_runs resolves runs⟩
        exact {
          declared := ⟨declared, isDeclared, sameName, kept⟩
          decodes := ⟨performed, decoded, isPerformed, decodes, rfl⟩ }

/-- A send misses in all its forms or is one method's body in all of them, and only a
miss is ever reported as an absent value. -/
theorem send_misses_or_passes_on [RaisesMissing ε]
    (builds : spec.build options = .ok (dispatcher, diagnostics))
    (performs : List.Forall₂ MethodSpec.Performs spec.methods typed) (receiver : ρ)
    (name : String) (arguments : List Value) :
    Xor (dispatcher.Misses ⟨spec.name, name, ⟨arguments.map Value.ty⟩⟩ name arguments)
        (∃ place body, spec.Reaches typed name arguments place body ∧
          dispatcher.PassesOn body name arguments) ∧
      (((dispatcher.invokeOrAbsent name arguments).run receiver).1 = .ok none ↔
        dispatcher.Misses ⟨spec.name, name, ⟨arguments.map Value.ty⟩⟩ name arguments) := by
  have absent_of_misses :
      dispatcher.Misses ⟨spec.name, name, ⟨arguments.map Value.ty⟩⟩ name arguments →
        ((dispatcher.invokeOrAbsent name arguments).run receiver).1 = .ok none := by
    intro misses
    rw [misses.invokeOrAbsent_eq]
    rfl
  rcases tryInvoke_misses_or_runs builds performs name arguments with
    missing | ⟨place, body, reaches, runs⟩
  · have misses := Dispatcher.misses_of_tryInvoke missing
    refine ⟨.inl ⟨misses, ?_⟩, fun _ => misses, absent_of_misses⟩
    intro reached
    obtain ⟨_, _, _, passesOn⟩ := reached
    exact passesOn.not_absent receiver (absent_of_misses misses)
  · have passesOn := Dispatcher.passesOn_of_tryInvoke runs
    refine ⟨.inr ⟨⟨place, body, reaches, passesOn⟩, ?_⟩, ?_, absent_of_misses⟩
    · intro misses
      exact passesOn.not_absent receiver (absent_of_misses misses)
    · intro absent
      exact absurd absent (passesOn.not_absent receiver)

/-- Texts of one letter, which any text is declared to be. -/
def letter : Readable where
  Data := Char
  constraint? := some (.single (.scalar .string))
  read value := value.text?.bind fun text => text.toList.head?.filter fun _ => text.length = 1

/-- Counts the letters that it is asked to pass on, and reports that there is no such
method. -/
def relayed : TypedMethod Nat MethodMissing where
  parameters := [letter]
  body := fun (name, _) count => (.error ⟨"Elsewhere", name.toString, ⟨[]⟩⟩, count + 1)

/-- Answers with the number of letters so far. -/
def counted : Handler Nat MethodMissing := ⟨[.scalar .bool], fun _ count =>
  (.ok (.signed .w64 count), count)⟩

def relay : TypeSpec Nat MethodMissing where
  name := "Relay"
  strategy := none
  methods :=
    [⟨"pass", [letter.constraint?], [], 0, none, false, relayed.method⟩, .ofHandler "pass" counted]

theorem send_misses_or_passes_on_relay :
    ∃ dispatcher diagnostics, relay.build {} = .ok (dispatcher, diagnostics) ∧
      dispatcher.Misses ⟨"Relay", "pass", ⟨[.scalar .string]⟩⟩ "pass" [.string "ping"] ∧
      (∃ place body, relay.Reaches [relayed, counted.typed] "pass" [.string "p"] place body ∧
        dispatcher.PassesOn body "pass" [.string "p"]) ∧
      (dispatcher.invokeOrAbsent "pass" [.string "p"]).run 3 =
        (.error ⟨"Elsewhere", "p", ⟨[]⟩⟩, 4) := by
  have builds : relay.build {} = .ok (_, _) := rfl
  have performs : List.Forall₂ MethodSpec.Performs relay.methods [relayed, counted.typed] :=
    .cons ⟨rfl, rfl⟩ (.cons (MethodSpec.performs_ofHandler "pass" counted) .nil)
  obtain ⟨_, long⟩ := send_misses_or_passes_on builds performs 3 "pass" [.string "ping"]
  obtain ⟨either, short⟩ := send_misses_or_passes_on builds performs 3 "pass" [.string "p"]
  refine ⟨_, _, builds, long.mp rfl, ?_, rfl⟩
  rcases either with ⟨missed, _⟩ | ⟨passed, _⟩
  · cases short.mpr missed
  · exact passed

end TypeSpec

end MultiDispatch
