import MultiDispatch.Handler
import MultiDispatch.Plan

/-!
# Call sites

A call site is what one method looks like at one combination.  A closure passes
its arguments on; a record first packs them into the slots of its layout, and
declines the ones that do not fit.  Either way the method runs at most once, on
the arguments as they were given.
-/

namespace MultiDispatch

/-- Each argument fits its slot. -/
def Packs (layout : List Slot) (arguments : List Value) : Prop :=
  layout.length = arguments.length ∧ ∀ pair ∈ layout.zip arguments, pair.1.Admits pair.2

instance (layout : List Slot) (arguments : List Value) : Decidable (Packs layout arguments) :=
  inferInstanceAs (Decidable (_ ∧ _))

@[simp]
theorem packs_nil : Packs [] [] := by simp [Packs]

@[simp]
theorem packs_cons_cons_iff {slot : Slot} {slots : List Slot} {value : Value}
    {values : List Value} :
    Packs (slot :: slots) (value :: values) ↔ slot.Admits value ∧ Packs slots values := by
  simp only [Packs, List.length_cons, Nat.add_right_cancel_iff, List.zip_cons_cons,
    List.forall_mem_cons]
  exact and_left_comm

inductive Site (ρ ε : Type) where
  | closure (method : Method ρ ε)
  | record (layout : List Slot) (method : Method ρ ε)

structure CallSite (ρ ε : Type) where
  ident : String
  combination : Combination
  site : Site ρ ε

namespace CallSite

variable {ρ ε : Type}

def strategy (callSite : CallSite ρ ε) : Strategy :=
  match callSite.site with
  | .closure _ => .closure
  | .record _ _ => .valueObject

def invoke (callSite : CallSite ρ ε) : Method ρ ε := fun arguments =>
  match callSite.site with
  | .closure method => method arguments
  | .record layout method => if Packs layout arguments then method arguments else pure none

/-- The call site of a method at a combination; nothing is called. -/
def synthesize (method : Retained) (combination : Combination) (strategy : Strategy)
    (handler : Method ρ ε) : Except ConfigurationError (CallSite ρ ε) :=
  let ident := Label.callSite method.name method.signature
  match strategy with
  | .closure => .ok ⟨ident, combination, .closure handler⟩
  | .valueObject =>
      match combination.layout with
      | .ok layout => .ok ⟨ident, combination, .record layout handler⟩
      | .error ty =>
          .error (.unstorable method.declared.owner method.name ty combination)

def inspect (callSite : CallSite ρ ε) : String :=
  "CallSite \x7b ident: " ++ Text.quoted callSite.ident ++
    ", combination: " ++ callSite.combination.inspect ++
    ", strategy: " ++ callSite.strategy.inspect ++ " \x7d"

end CallSite

end MultiDispatch
