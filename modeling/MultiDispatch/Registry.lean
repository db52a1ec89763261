import MultiDispatch.Dispatch.Dispatcher

/-!
# Registries

Types are registered one by one and activated together, once.  Activation is
all or nothing: what it builds is gathered apart, and the first type that does
not build leaves the registry as it was.  Receivers and errors are told apart by
keys, so a dispatcher is found only under the two keys that its type was
registered with.
-/

namespace MultiDispatch

/-- One method with its handler. -/
structure MethodSpec (ρ ε : Type) where
  name : String
  /-- One for each parameter; absent for a parameter without a restriction. -/
  constraints : List (Option Constraint)
  parameterNames : List String := []
  /-- How many of the last parameters have defaults. -/
  defaults : Nat := 0
  strategy : Option Strategy := none
  skip : Bool := false
  method : Method ρ ε

namespace MethodSpec

variable {ρ ε : Type}

def ofHandler (name : String) (handler : Handler ρ ε) : MethodSpec ρ ε where
  name
  constraints := handler.parameters.map ParamType.constraint?
  method := handler.method

/-- A parameter without a name is called by its place. -/
def parameters (spec : MethodSpec ρ ε) : List Parameter :=
  let firstDefault := spec.constraints.length - spec.defaults
  spec.constraints.zipIdx.map fun (constraint, place) =>
    { name := spec.parameterNames[place]?.getD s!"arg{place}"
      constraint
      hasDefault := firstDefault ≤ place }

def declared (owner : String) (spec : MethodSpec ρ ε) : MethodDecl where
  owner
  name := spec.name
  parameters := spec.parameters
  strategy := spec.strategy
  skip := spec.skip

end MethodSpec

/-- A type with the handlers of its methods. -/
structure TypeSpec (ρ ε : Type) where
  name : String
  strategy : Option Strategy
  methods : List (MethodSpec ρ ε)

namespace TypeSpec

variable {ρ ε : Type}

def decl (spec : TypeSpec ρ ε) : TypeDecl where
  name := spec.name
  strategy := spec.strategy
  methods := spec.methods.map (MethodSpec.declared spec.name)

/-- Compiles the type on its own. -/
def build (spec : TypeSpec ρ ε) (options : CompileOptions) :
    Except ConfigurationError (Dispatcher ρ ε × List Diagnostic) := do
  let compiled ← spec.decl.compile options
  let dispatcher ← Dispatcher.ofPlan compiled.plan (spec.methods.map MethodSpec.method)
  return (dispatcher, compiled.diagnostics)

end TypeSpec

section

variable {τ η : Type} (Receiver : τ → Type) (Failure : η → Type)

/-- A registered type under the keys of its receiver and its errors. -/
structure Pending where
  receiver : τ
  failure : η
  spec : TypeSpec (Receiver receiver) (Failure failure)

/-- A dispatcher under the keys of its receiver and its errors. -/
structure Published where
  receiver : τ
  failure : η
  dispatcher : Dispatcher (Receiver receiver) (Failure failure)

/-- What an activation gathers before any of it is published. -/
structure Publication where
  dispatchers : List (Published Receiver Failure)
  diagnostics : List Diagnostic

inductive Stage where
  | uninitialized
  | activated
  deriving DecidableEq

structure Registry where
  options : CompileOptions
  stage : Stage
  /-- In the order of registration. -/
  pending : List (Pending Receiver Failure)
  published : List (Published Receiver Failure)
  diagnostics : List Diagnostic

end

section

variable {τ η : Type} {Receiver : τ → Type} {Failure : η → Type}

def Pending.build (options : CompileOptions) (pending : Pending Receiver Failure) :
    Except ConfigurationError (Published Receiver Failure × List Diagnostic) := do
  let (dispatcher, diagnostics) ← pending.spec.build options
  return (⟨pending.receiver, pending.failure, dispatcher⟩, diagnostics)

/-- The dispatcher, if its type has these keys. -/
def Published.dispatcher? [DecidableEq τ] [DecidableEq η]
    (published : Published Receiver Failure) (receiver : τ) (failure : η) :
    Option (Dispatcher (Receiver receiver) (Failure failure)) :=
  if same : published.receiver = receiver ∧ published.failure = failure then
    some (same.1 ▸ same.2 ▸ published.dispatcher)
  else none

namespace Publication

instance : EmptyCollection (Publication Receiver Failure) where
  emptyCollection := ⟨[], []⟩

/-- Adds what was built.  A dispatcher takes the place of an earlier one of its
receiver. -/
def add [DecidableEq τ] (publication : Publication Receiver Failure)
    (built : Published Receiver Failure × List Diagnostic) : Publication Receiver Failure where
  dispatchers :=
    publication.dispatchers.filter (fun earlier => earlier.receiver ≠ built.1.receiver) ++ [built.1]
  diagnostics := publication.diagnostics ++ built.2

/-- Builds the types, in order, and gathers what comes of them. -/
def gather [DecidableEq τ] (options : CompileOptions)
    (pending : List (Pending Receiver Failure)) :
    Except ConfigurationError (Publication Receiver Failure) :=
  pending.foldlM (fun publication entry => return publication.add (← entry.build options)) ∅

end Publication

namespace Registry

def new (options : CompileOptions) : Registry Receiver Failure where
  options
  stage := .uninitialized
  pending := []
  published := []
  diagnostics := []

def IsActivated (registry : Registry Receiver Failure) : Prop := registry.stage = .activated

instance (registry : Registry Receiver Failure) : Decidable registry.IsActivated :=
  inferInstanceAs (Decidable (_ = _))

/-- Adds a type, whose receiver and name must both be new. -/
def register [DecidableEq τ] (added : Pending Receiver Failure) :
    StateM (Registry Receiver Failure) (Except ConfigurationError Unit) := fun registry =>
  if registry.IsActivated then (.error (.registerAfterActivation added.spec.name), registry)
  else if registry.pending.any fun other =>
      other.receiver = added.receiver ∨ other.spec.name = added.spec.name then
    (.error (.duplicateType added.spec.name), registry)
  else (.ok (), { registry with pending := registry.pending ++ [added] })

/-- Builds every registered type and publishes the dispatchers. -/
def activate [DecidableEq τ] :
    StateM (Registry Receiver Failure) (Except ConfigurationError Unit) := fun registry =>
  if registry.IsActivated then (.error .alreadyActivated, registry)
  else
    match Publication.gather registry.options registry.pending with
    | .error fault => (.error fault, registry)
    | .ok publication =>
        (.ok (), { registry with
          stage := .activated
          pending := []
          published := publication.dispatchers
          diagnostics := publication.diagnostics })

/-- The published dispatcher of the receiver, if it has errors of this key. -/
def dispatcher? [DecidableEq τ] [DecidableEq η] (registry : Registry Receiver Failure)
    (receiver : τ) (failure : η) :
    Option (Dispatcher (Receiver receiver) (Failure failure)) :=
  (registry.published.find? fun published => published.receiver = receiver).bind
    (·.dispatcher? receiver failure)

def inspect (registry : Registry Receiver Failure) : String :=
  let stage := if registry.IsActivated then "Activated" else "Uninitialized"
  let pending := ", ".intercalate (registry.pending.map fun entry => Text.quoted entry.spec.name)
  "Registry \x7b state: " ++ stage ++ ", pending: [" ++ pending ++ "], activated: " ++
    toString registry.published.length ++ " \x7d"

end Registry

end

end MultiDispatch
