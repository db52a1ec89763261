import MultiDispatch.Dispatch.CallSite

/-!
# Dispatchers

A dispatcher holds one entry per populated table.  A send goes to the entry for
exactly the types of its arguments if that entry answers the name, and else to
the most specific entry that accepts them: with the fewest families, then the
narrowest, then the earliest.  A send that no entry answers misses, and leaves
its receiver alone.
-/

namespace MultiDispatch

structure DispatchEntry (ρ ε : Type) where
  combination : Combination
  /-- The sites in the order of their names. -/
  sites : List (String × CallSite ρ ε)

namespace DispatchEntry

variable {ρ ε : Type}

def ident (entry : DispatchEntry ρ ε) : String := Label.table entry.combination

def site? (entry : DispatchEntry ρ ε) (name : String) : Option (CallSite ρ ε) :=
  entry.sites.lookup name

/-- Whether the first of two entries is tried before the second, or either may be. -/
def precedes (left right : DispatchEntry ρ ε) : Bool :=
  (compareLex (compareOn Combination.abstractPositions) (compareOn Combination.breadth)
    left.combination right.combination).isLE

end DispatchEntry

/-- A send that no entry answers. -/
structure MethodMissing where
  receiver : String
  name : String
  arguments : Combination
  deriving DecidableEq

namespace MethodMissing

def message (missing : MethodMissing) : String :=
  s!"Can not send to '{missing.name}' on {missing.receiver} with argument types " ++
    s!"{missing.arguments.text}; check that it exists and all of its arguments have type " ++
    "restrictions"

def code : String := "send::method_missing"

end MethodMissing

/-- Errors among which a miss can be raised. -/
class RaisesMissing (ε : Type) where
  ofMissing : MethodMissing → ε

instance : RaisesMissing MethodMissing := ⟨id⟩

structure Dispatcher (ρ ε : Type) where
  receiver : String
  entries : List (DispatchEntry ρ ε)
  index : ArityIndex

namespace Dispatcher

variable {ρ ε : Type}

/-- The site of one method of a table, under the method's name. -/
def siteOfMethod (plan : Plan) (handlers : List (Method ρ ε)) (combination : Combination)
    (named : String × Retained) : Except ConfigurationError (String × CallSite ρ ε) :=
  match handlers[named.2.index]? with
  | none => throw (.missingHandler plan.owner named.1)
  | some handler => do
      let site ← CallSite.synthesize named.2 combination (plan.strategyOf named.2) handler
      return (named.1, site)

def entryOfTable (plan : Plan) (handlers : List (Method ρ ε)) (table : Table) :
    Except ConfigurationError (DispatchEntry ρ ε) := do
  let sites ← table.entries.entries.mapM (siteOfMethod plan handlers table.combination)
  return ⟨table.combination, sites⟩

/-- The handlers stand in the order of the declared methods. -/
def ofPlan (plan : Plan) (handlers : List (Method ρ ε)) :
    Except ConfigurationError (Dispatcher ρ ε) := do
  let entries ← plan.populated.mapM (entryOfTable plan handlers)
  return ⟨plan.owner, entries, plan.index⟩

def entry? (dispatcher : Dispatcher ρ ε) (types : List Ty) : Option (DispatchEntry ρ ε) :=
  dispatcher.entries.find? fun entry => entry.combination.types = types

/-- The entries that accept the types by a family, most specific first. -/
def byFamily (dispatcher : Dispatcher ρ ε) (types : List Ty) : List (DispatchEntry ρ ε) :=
  (dispatcher.entries.filter fun entry =>
    entry.combination.types ≠ types ∧ entry.combination.Accepts types).mergeSort
      DispatchEntry.precedes

/-- The call site of a send. -/
def resolve (dispatcher : Dispatcher ρ ε) (name : String) (types : List Ty) :
    Option (CallSite ρ ε) :=
  ((dispatcher.entry? types).bind (·.site? name)).or
    ((dispatcher.byFamily types).findSome? (·.site? name))

def missing (dispatcher : Dispatcher ρ ε) (name : String) (arguments : List Value) :
    MethodMissing :=
  ⟨dispatcher.receiver, name, ⟨arguments.map Value.ty⟩⟩

/-- A miss is the outer error; the inner result is the method's own. -/
def tryInvoke (dispatcher : Dispatcher ρ ε) (name : String) (arguments : List Value) :
    StateM ρ (Except MethodMissing (Except ε Value)) := do
  match dispatcher.resolve name (arguments.map Value.ty) with
  | none => return .error (dispatcher.missing name arguments)
  | some site =>
      match ← site.invoke arguments with
      | none => return .error (dispatcher.missing name arguments)
      | some result => return .ok result

/-- A miss is raised as an error of the method's kind. -/
def invoke [RaisesMissing ε] (dispatcher : Dispatcher ρ ε) (name : String)
    (arguments : List Value) : StateM ρ (Except ε Value) := do
  match ← dispatcher.tryInvoke name arguments with
  | .ok result => return result
  | .error missing => return .error (RaisesMissing.ofMissing missing)

/-- A miss is an absent value; an error of the method stays one. -/
def invokeOrAbsent (dispatcher : Dispatcher ρ ε) (name : String) (arguments : List Value) :
    StateM ρ (Except ε (Option Value)) := do
  match ← dispatcher.tryInvoke name arguments with
  | .ok result => return result.map some
  | .error _ => return .ok none

def arity? (dispatcher : Dispatcher ρ ε) (name : String) : Option Arity :=
  dispatcher.index.arity? name

def Exists (dispatcher : Dispatcher ρ ε) (name : String) : Prop := dispatcher.index.Exists name

instance (dispatcher : Dispatcher ρ ε) (name : String) : Decidable (dispatcher.Exists name) :=
  inferInstanceAs (Decidable (dispatcher.index.Exists name))

def inspect (dispatcher : Dispatcher ρ ε) : String :=
  let idents := ", ".intercalate (dispatcher.entries.map fun entry => Text.quoted entry.ident)
  "Dispatcher \x7b receiver: " ++ Text.quoted dispatcher.receiver ++
    ", entries: [" ++ idents ++ "] \x7d"

end Dispatcher

end MultiDispatch
