import MultiDispatch.NameMap
import MultiDispatch.Plan.Error
import MultiDispatch.Plan.Extraction

/-!
# Dispatch tables

One table per combination, in the order in which the combinations first occur,
maps a method name to the single method that answers it for exactly those
argument types.  A skipped method leaves its combinations but no entry.  Two
methods of one name must not answer at one combination; whether they do is
decided before the tables are laid out.
-/

namespace MultiDispatch

namespace Retained

/-- A method answers at the combinations of its signature, unless it is skipped. -/
def Answers (method : Retained) (combination : Combination) : Prop :=
  method.skip = false ∧ combination.Instantiates method.signature

instance (method : Retained) (combination : Combination) :
    Decidable (method.Answers combination) :=
  inferInstanceAs (Decidable (_ ∧ _))

/-- The methods that are declared before `method`. -/
def before (methods : List Retained) (method : Retained) : List Retained :=
  methods.filter fun other => other.index < method.index

@[simp]
theorem mem_before {methods : List Retained} {method other : Retained} :
    other ∈ before methods method ↔ other ∈ methods ∧ other.index < method.index := by
  simp [before]

/-- The combinations of `method` that no method before it has. -/
def fresh (methods : List Retained) (method : Retained) : List Combination :=
  let earlier := before methods method
  method.signature.expand.filter fun combination =>
    ∀ other ∈ earlier, ¬combination.Instantiates other.signature

/-- The first combination at which `method` and an earlier method of its name both
answer. -/
def collision? (owner : String) (methods : List Retained) (method : Retained) :
    Option ConfigurationError :=
  let rivals := (before methods method).filter fun other => other.name = method.name
  if method.skip then none
  else
    method.signature.expand.findSome? fun combination =>
      (rivals.find? fun other => other.Answers combination).map fun other =>
        .collision owner method.name combination other.signature method.signature

end Retained

structure Table where
  combination : Combination
  entries : NameMap Retained

namespace Table

def find? (table : Table) (name : String) : Option Retained := table.entries.find? name

def IsPopulated (table : Table) : Prop := table.entries.entries ≠ []

instance : DecidablePred IsPopulated := fun table =>
  inferInstanceAs (Decidable (table.entries.entries ≠ []))

/-- The methods that answer at a combination, by name. -/
def ofMethods (methods : List Retained) (combination : Combination) : Table where
  combination
  entries := (methods.filter fun method => method.Answers combination).foldl
    (fun entries method => entries.insert method.name method) ∅

/-- A table for each combination of the methods. -/
def allOfMethods (methods : List Retained) : List Table :=
  (methods.flatMap (Retained.fresh methods)).map (ofMethods methods)

@[simp]
theorem combination_ofMethods (methods : List Retained) (combination : Combination) :
    (ofMethods methods combination).combination = combination := rfl

@[simp]
theorem map_combination_allOfMethods (methods : List Retained) :
    (allOfMethods methods).map Table.combination = methods.flatMap (Retained.fresh methods) := by
  simp [allOfMethods, Function.comp_def]

end Table

end MultiDispatch
