import MultiDispatch.Dispatch.Dispatcher

/-!
# Sending to values

What can be sent to by name: a receiver bound to its dispatcher, and a
participant that looks its dispatcher up.  A participant without one misses
every send, in the name of its own type.
-/

namespace MultiDispatch

/-- Values `σ` that can be sent to, with errors `ε`. -/
class Dispatchable (σ : Type) (ε : outParam Type) where
  invoke : String → List Value → StateM σ (Except ε Value)
  invokeOrAbsent : String → List Value → StateM σ (Except ε (Option Value))
  arity? : σ → String → Option Arity
  answers : σ → String → Bool

/-- A receiver together with the dispatcher that it is sent to through. -/
structure Bound (ρ ε : Type) where
  dispatcher : Dispatcher ρ ε
  receiver : ρ

namespace Bound

variable {ρ ε α : Type}

/-- Runs on the receiver. -/
def onReceiver (run : Dispatcher ρ ε → StateM ρ α) : StateM (Bound ρ ε) α := fun bound =>
  let (result, receiver) := (run bound.dispatcher).run bound.receiver
  (result, { bound with receiver })

instance [RaisesMissing ε] : Dispatchable (Bound ρ ε) ε where
  invoke name arguments := onReceiver (·.invoke name arguments)
  invokeOrAbsent name arguments := onReceiver (·.invokeOrAbsent name arguments)
  arity? bound name := bound.dispatcher.arity? name
  answers bound name := bound.dispatcher.Exists name

end Bound

/-- A receiver of the type `typeName`, with its dispatcher once there is one. -/
structure Participant (ρ ε : Type) where
  typeName : String
  dispatcher : Option (Dispatcher ρ ε)
  receiver : ρ

namespace Participant

variable {ρ ε α : Type}

/-- What a send misses by while there is no dispatcher. -/
def missing (participant : Participant ρ ε) (name : String) (arguments : List Value) :
    MethodMissing :=
  ⟨participant.typeName, name, ⟨arguments.map Value.ty⟩⟩

/-- Runs on the receiver, or yields `otherwise` without a dispatcher. -/
def onReceiver (otherwise : Participant ρ ε → α) (run : Dispatcher ρ ε → StateM ρ α) :
    StateM (Participant ρ ε) α := fun participant =>
  match participant.dispatcher with
  | none => (otherwise participant, participant)
  | some dispatcher =>
      let (result, receiver) := (run dispatcher).run participant.receiver
      (result, { participant with receiver })

instance [RaisesMissing ε] : Dispatchable (Participant ρ ε) ε where
  invoke name arguments :=
    onReceiver (fun participant =>
        .error (RaisesMissing.ofMissing (participant.missing name arguments)))
      (·.invoke name arguments)
  invokeOrAbsent name arguments :=
    onReceiver (fun _ => .ok none) (·.invokeOrAbsent name arguments)
  arity? participant name := participant.dispatcher.bind (·.arity? name)
  answers participant name := participant.dispatcher.any fun dispatcher => dispatcher.Exists name

end Participant

end MultiDispatch
