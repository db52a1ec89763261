import MultiDispatch.NameMap
import MultiDispatch.Plan.Extraction

/-!
# Introspection

Which names exist and with how many arguments, apart from the dispatch tables.
Whether skipped methods count is decided when the index is built.
-/

namespace MultiDispatch

/-- The arities of the overloads of one name, and the range around them all. -/
structure ArityRecord where
  arity : Arity
  overloads : List Arity
  deriving DecidableEq

def ArityRecord.add (arity : Arity) : Option ArityRecord → ArityRecord
  | none => ⟨arity, [arity]⟩
  | some record => ⟨record.arity.merge arity, record.overloads ++ [arity]⟩

structure ArityIndex where
  records : NameMap ArityRecord

namespace ArityIndex

def build (methods : List Retained) (includeSkipped : Bool) : ArityIndex where
  records := (methods.filter fun method => includeSkipped || !method.skip).foldl
    (fun records method => records.alter method.name (.add method.arity)) ∅

def record? (index : ArityIndex) (name : String) : Option ArityRecord := index.records.find? name

def arity? (index : ArityIndex) (name : String) : Option Arity := (index.record? name).map (·.arity)

def Exists (index : ArityIndex) (name : String) : Prop := (index.record? name).isSome

instance (index : ArityIndex) (name : String) : Decidable (index.Exists name) :=
  inferInstanceAs (Decidable (_ = true))

def names (index : ArityIndex) : List String := index.records.names

end ArityIndex

end MultiDispatch
