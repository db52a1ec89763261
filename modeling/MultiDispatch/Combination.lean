import MultiDispatch.Ty.Order

/-!
# Combinations of argument types

A combination fixes one type for each argument position.  It accepts a list of
argument types when it accepts them position by position; among the
combinations that do, fewer families and narrower families are more specific.
-/

namespace MultiDispatch

structure Combination where
  types : List Ty
  deriving DecidableEq

namespace Combination

instance : Ord Combination where
  compare left right := compare left.types right.types

def abstractPositions (combination : Combination) : Nat :=
  combination.types.countP fun ty => ty.IsAbstract

def breadth (combination : Combination) : Nat :=
  (combination.types.map Ty.breadth).foldr (· + ·) 0

def Accepts (combination : Combination) (arguments : List Ty) : Prop :=
  combination.types.length = arguments.length ∧
    ∀ pair ∈ combination.types.zip arguments, pair.1.Accepts pair.2

instance (combination : Combination) (arguments : List Ty) :
    Decidable (combination.Accepts arguments) :=
  inferInstanceAs (Decidable (_ ∧ _))

@[simp]
theorem accepts_nil_iff {arguments : List Ty} :
    (Combination.mk []).Accepts arguments ↔ arguments = [] := by
  cases arguments <;> simp [Accepts]

@[simp]
theorem accepts_cons_cons_iff {expected argument : Ty} {types arguments : List Ty} :
    (Combination.mk (expected :: types)).Accepts (argument :: arguments) ↔
      expected.Accepts argument ∧ (Combination.mk types).Accepts arguments := by
  simp only [Accepts, List.length_cons, Nat.add_right_cancel_iff, List.zip_cons_cons,
    List.forall_mem_cons]
  exact and_left_comm

/-- Storage for every position, or the leftmost type that has none. -/
def layout (combination : Combination) : Except Ty (List Slot) :=
  combination.types.mapM fun ty => ty.slot?.elim (throw ty) pure

def text (combination : Combination) : String :=
  "(" ++ ", ".intercalate (combination.types.map Ty.name) ++ ")"

def inspect (combination : Combination) : String :=
  "Combo[" ++ ", ".intercalate (combination.types.map Ty.name) ++ "]"

end Combination

end MultiDispatch
