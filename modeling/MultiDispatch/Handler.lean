import MultiDispatch.ParamType

/-!
# Methods and typed handlers

A method takes untyped arguments and either declines them, without touching the
receiver, or runs to a value or an error of its own.  A typed handler is a body
over decoded arguments; as a method it declines exactly the arguments that do
not decode.
-/

namespace MultiDispatch

/-- Absent when the arguments were declined. -/
abbrev Outcome (ε : Type) := Option (Except ε Value)

/-- A method on receivers `ρ` with errors `ε`. -/
abbrev Method (ρ ε : Type) := List Value → StateM ρ (Outcome ε)

abbrev Arguments : List ParamType → Type
  | [] => Unit
  | type :: types => type.Data × Arguments types

/-- One argument for each parameter, in order. -/
def Arguments.decode : (types : List ParamType) → List Value → Option (Arguments types)
  | [], [] => some ()
  | type :: types, value :: values => do
      return (← type.decode value, ← Arguments.decode types values)
  | [], _ :: _ | _ :: _, [] => none

structure Handler (ρ ε : Type) where
  parameters : List ParamType
  body : Arguments parameters → StateM ρ (Except ε Value)

namespace Handler

variable {ρ ε : Type}

def method (handler : Handler ρ ε) : Method ρ ε := fun values =>
  match Arguments.decode handler.parameters values with
  | some arguments => some <$> handler.body arguments
  | none => pure none

/-- The body is run exactly on the arguments that decode, and only once. -/
theorem method_of_decode {handler : Handler ρ ε} {values : List Value}
    {arguments : Arguments handler.parameters}
    (decodes : Arguments.decode handler.parameters values = some arguments) :
    handler.method values = some <$> handler.body arguments := by
  simp [method, decodes]

theorem method_of_decode_none {handler : Handler ρ ε} {values : List Value}
    (fails : Arguments.decode handler.parameters values = none) :
    handler.method values = pure none := by
  simp [method, fails]

end Handler

end MultiDispatch
