import MultiDispatch.Combination
import MultiDispatch.Constraint

/-!
# Method signatures

A signature lists one constraint per parameter and stands for the product of
their alternatives: the combinations that pick one alternative at each
position, in lexicographic order.
-/

namespace MultiDispatch

structure Signature where
  constraints : List Constraint
  deriving DecidableEq

namespace Signature

/-- The largest count that is told apart; larger products count as this. -/
def countLimit : Nat := UInt64.size - 1

/-- The number of combinations, which sticks at `countLimit`. -/
def count (signature : Signature) : Nat :=
  signature.constraints.foldl (fun total constraint => min (total * constraint.radix) countLimit) 1

/-- The choices of one alternative each, the rightmost changing fastest.  What
follows a constraint without alternatives is never multiplied out. -/
def product : List Constraint → List (List Ty)
  | [] => [[]]
  | constraint :: rest =>
      match constraint.members with
      | [] => []
      | members =>
          let tails := product rest
          members.flatMap fun ty => tails.map (ty :: ·)

@[simp]
theorem product_nil : product [] = [[]] := rfl

@[simp]
theorem product_cons (constraint : Constraint) (rest : List Constraint) :
    product (constraint :: rest) =
      constraint.members.flatMap fun ty => (product rest).map (ty :: ·) := by
  rw [product]
  split
  · rename_i none
    rw [none]
    rfl
  · rfl

/-- Every combination that the signature stands for.  Memory is idealised: there is room
for a list of any length, where a machine fails on one that outgrows its address space. -/
def expand (signature : Signature) : List Combination :=
  (product signature.constraints).map .mk

def text (signature : Signature) : String :=
  "(" ++ ", ".intercalate (signature.constraints.map Constraint.text) ++ ")"

def inspect (signature : Signature) : String :=
  "Sig[" ++ ", ".intercalate (signature.constraints.map Constraint.inspect) ++ "]"

end Signature

/-- The combination picks an alternative of each constraint. -/
def Combination.Instantiates (combination : Combination) (signature : Signature) : Prop :=
  combination.types.length = signature.constraints.length ∧
    ∀ pair ∈ combination.types.zip signature.constraints, pair.1 ∈ pair.2.members

instance (combination : Combination) (signature : Signature) :
    Decidable (combination.Instantiates signature) :=
  inferInstanceAs (Decidable (_ ∧ _))

theorem Combination.instantiates_cons_cons_iff {ty : Ty} {types : List Ty}
    {constraint : Constraint} {constraints : List Constraint} :
    (Combination.mk (ty :: types)).Instantiates ⟨constraint :: constraints⟩ ↔
      ty ∈ constraint.members ∧ (Combination.mk types).Instantiates ⟨constraints⟩ := by
  simp only [Instantiates, List.length_cons, Nat.add_right_cancel_iff, List.zip_cons_cons,
    List.forall_mem_cons]
  exact and_left_comm

end MultiDispatch
