import MultiDispatch.Declaration

/-!
# Configuration errors

The faults that stop a compilation or an activation before any table is
published.
-/

namespace MultiDispatch

inductive ConfigurationError where
  | alreadyActivated
  | registerAfterActivation (type : String)
  | duplicateType (type : String)
  /-- Two methods of one name claim one combination. -/
  | collision (owner name : String) (combination : Combination) (first second : Signature)
  /-- A record cannot store an argument of the abstract type `ty`. -/
  | unstorable (owner name : String) (ty : Ty) (combination : Combination)
  | missingHandler (owner name : String)
  | combinationLimit (owner name : String) (count limit : Nat)
  deriving DecidableEq

namespace ConfigurationError

def message : ConfigurationError → String
  | .alreadyActivated => "dispatch tables were already activated"
  | .registerAfterActivation type => s!"cannot register `{type}` after activation"
  | .duplicateType type => s!"type `{type}` is registered more than once"
  | .collision owner name combination first second =>
      s!"`{owner}#{name}` is declared more than once for argument types {combination.text}: " ++
        s!"{first.text} and {second.text}"
  | .unstorable owner name ty combination =>
      s!"`{owner}#{name}` cannot use the value-object strategy: `{ty.name}` has no fixed storage " ++
        s!"(argument types {combination.text})"
  | .missingHandler owner name => s!"no handler was supplied for `{owner}#{name}`"
  | .combinationLimit owner name count limit =>
      s!"`{owner}#{name}` expands to {count} combinations, more than the limit of {limit}"

def code : ConfigurationError → String
  | .alreadyActivated => "send::already_activated"
  | .registerAfterActivation _ => "send::register_after_activation"
  | .duplicateType _ => "send::duplicate_type"
  | .collision _ _ _ _ _ => "send::collision"
  | .unstorable _ _ _ _ => "send::unstorable"
  | .missingHandler _ _ => "send::missing_handler"
  | .combinationLimit _ _ _ _ => "send::combination_limit"

def help? : ConfigurationError → Option String
  | .alreadyActivated =>
      some "activation is write-once; register every type before the single `activate` call"
  | .collision _ _ _ _ _ =>
      some "overloads sharing a name must not overlap in any expanded combination"
  | .unstorable _ _ _ _ => some "mark the method or its type with the closure strategy"
  | .combinationLimit _ _ _ _ =>
      some "narrow the union parameters or raise `max_combinations`"
  | .registerAfterActivation _ | .duplicateType _ | .missingHandler _ _ => none

end ConfigurationError

end MultiDispatch
