import MultiDispatch.Handler

/-!
# Methods over readable types

The parameter types of handlers are some of many: any type can be a parameter that
declares a constraint and can be read off a value.  A typed method has its body
behind parameters of any such types, and every handler is a typed method.
-/

namespace MultiDispatch

/-- A type that can be a parameter.  Its values need not be those that satisfy the
constraint. -/
structure Readable where
  Data : Type
  constraint? : Option Constraint
  read : Value → Option Data

def ParamType.readable (type : ParamType) : Readable := ⟨type.Data, type.constraint?, type.decode⟩

namespace Readable

abbrev Arguments : List Readable → Type
  | [] => Unit
  | type :: types => type.Data × Arguments types

/-- One argument for each parameter, in order. -/
def decode : (types : List Readable) → List Value → Option (Arguments types)
  | [], [] => some ()
  | type :: types, value :: values => do
      return (← type.read value, ← decode types values)
  | [], _ :: _ | _ :: _, [] => none

/-- The arguments of a handler, read type by type. -/
def ofArguments : (types : List ParamType) →
    Arguments (types.map ParamType.readable) → MultiDispatch.Arguments types
  | [], () => ()
  | _ :: types, (argument, arguments) => (argument, ofArguments types arguments)

theorem decode_readable (types : List ParamType) (values : List Value) :
    (decode (types.map ParamType.readable) values).map (ofArguments types) =
      MultiDispatch.Arguments.decode types values := by
  induction types generalizing values with
  | nil => cases values <;> rfl
  | cons type types inductionHypothesis =>
      cases values with
      | nil => rfl
      | cons value values =>
          simp only [MultiDispatch.Arguments.decode, ← inductionHypothesis]
          change ((type.decode value).bind fun argument => _).map _ = _
          cases type.decode value with
          | none => rfl
          | some _ => cases decode (types.map ParamType.readable) values <;> rfl

end Readable

structure TypedMethod (ρ ε : Type) where
  parameters : List Readable
  body : Readable.Arguments parameters → StateM ρ (Except ε Value)

variable {ρ ε : Type}

namespace TypedMethod

def method (typed : TypedMethod ρ ε) : Method ρ ε := fun values =>
  match Readable.decode typed.parameters values with
  | some arguments => some <$> typed.body arguments
  | none => pure none

/-- The body runs once, on arguments that all decode, or nothing runs. -/
theorem declines_or_runs (typed : TypedMethod ρ ε) (values : List Value) :
    typed.method values = pure none ∨
      ∃ arguments, Readable.decode typed.parameters values = some arguments ∧
        typed.method values = some <$> typed.body arguments := by
  cases decodes : Readable.decode typed.parameters values with
  | none => exact .inl (by simp [method, decodes])
  | some arguments => exact .inr ⟨arguments, rfl, by simp [method, decodes]⟩

end TypedMethod

namespace Handler

def typed (handler : Handler ρ ε) : TypedMethod ρ ε where
  parameters := handler.parameters.map ParamType.readable
  body arguments := handler.body (Readable.ofArguments handler.parameters arguments)

theorem method_typed (handler : Handler ρ ε) : handler.typed.method = handler.method := by
  funext values
  simp only [TypedMethod.method, method, typed, ← Readable.decode_readable]
  cases Readable.decode (handler.parameters.map ParamType.readable) values <;> rfl

end Handler

end MultiDispatch
