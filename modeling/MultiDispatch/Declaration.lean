import MultiDispatch.Signature
import MultiDispatch.Strategy

/-!
# Declarations

What is declared before anything is expanded: parameters, methods and the types
that own them.
-/

namespace MultiDispatch

/-- The least and the greatest number of arguments. -/
structure Arity where
  min : Nat
  max : Nat
  deriving DecidableEq

namespace Arity

/-- The narrowest range around both. -/
def merge (left right : Arity) : Arity where
  min := Nat.min left.min right.min
  max := Nat.max left.max right.max

def text (arity : Arity) : String :=
  if arity.min = arity.max then toString arity.min else s!"{arity.min}..{arity.max}"

def inspect (arity : Arity) : String :=
  s!"{arity.min}..={arity.max}"

end Arity

structure Parameter where
  name : String
  /-- Absent when the parameter takes any argument. -/
  constraint : Option Constraint
  hasDefault : Bool
  deriving DecidableEq

def Parameter.text (parameter : Parameter) : String :=
  let restriction := match parameter.constraint with
    | some constraint => s!" : {constraint.text}"
    | none => ""
  parameter.name ++ restriction ++ (if parameter.hasDefault then " = ..." else "")

structure MethodDecl where
  owner : String
  name : String
  parameters : List Parameter
  strategy : Option Strategy
  /-- A skipped method has no entry in any table. -/
  skip : Bool
  deriving DecidableEq

namespace MethodDecl

def firstUntyped? (method : MethodDecl) : Option Parameter :=
  method.parameters.find? fun parameter => parameter.constraint.isNone

/-- Present exactly when every parameter is typed. -/
def signature? (method : MethodDecl) : Option Signature :=
  (method.parameters.mapM Parameter.constraint).map .mk

theorem firstUntyped?_eq_none_iff {method : MethodDecl} :
    method.firstUntyped? = none ↔ ∀ parameter ∈ method.parameters, parameter.constraint ≠ none := by
  simp [firstUntyped?, Option.ne_none_iff_isSome]

def arity (method : MethodDecl) : Arity where
  min := method.parameters.countP fun parameter => !parameter.hasDefault
  max := method.parameters.length

/-- The first required parameter that comes after a defaulted one. -/
def requiredAfterDefault? (method : MethodDecl) : Option Parameter :=
  (method.parameters.dropWhile fun parameter => !parameter.hasDefault).find?
    fun parameter => !parameter.hasDefault

def text (method : MethodDecl) : String :=
  let parameters := ", ".intercalate (method.parameters.map Parameter.text)
  s!"{method.owner}#{method.name}({parameters})"

end MethodDecl

structure TypeDecl where
  name : String
  /-- For the methods without a strategy of their own. -/
  strategy : Option Strategy
  methods : List MethodDecl
  deriving DecidableEq

end MultiDispatch
