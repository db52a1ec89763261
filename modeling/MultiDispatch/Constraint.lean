import MultiDispatch.MemberSet
import MultiDispatch.Ty.Order

/-!
# Parameter constraints

A parameter is restricted to one type or to a set of alternatives.  A
constraint collected from a list of types is `single` exactly when the list has
one distinct member.
-/

namespace MultiDispatch

inductive Constraint where
  | single (ty : Ty)
  | union (alternatives : MemberSet Ty)
  deriving DecidableEq

namespace Constraint

def ofSet (alternatives : MemberSet Ty) : Constraint :=
  match alternatives.single? with
  | some only => .single only
  | none => .union alternatives

def ofTypes (types : List Ty) : Constraint :=
  ofSet (.ofList types)

def ofNames (names : List String) : Constraint :=
  ofTypes (names.map Ty.ofName)

/-- The alternatives in the order of types. -/
def members : Constraint → List Ty
  | .single ty => [ty]
  | .union alternatives => alternatives.members

theorem members_ofSet (alternatives : MemberSet Ty) :
    (ofSet alternatives).members = alternatives.members := by
  unfold ofSet
  split
  · rename_i only isSingle
    unfold MemberSet.single? at isSingle
    split at isSingle
    · rename_i found
      simp_all [members]
    · cases isSingle
  · rfl

@[simp]
theorem mem_members_ofTypes {ty : Ty} {types : List Ty} :
    ty ∈ (ofTypes types).members ↔ ty ∈ types := by
  rw [ofTypes, members_ofSet]
  exact MemberSet.mem_ofList

/-- The number of alternatives. -/
def radix (constraint : Constraint) : Nat := constraint.members.length

def member? (constraint : Constraint) (index : Nat) : Option Ty := constraint.members[index]?

def IsUnion (constraint : Constraint) : Prop := ∃ alternatives, constraint = .union alternatives

instance : DecidablePred IsUnion
  | .single _ => isFalse fun ⟨_, equal⟩ => nomatch equal
  | .union alternatives => isTrue ⟨alternatives, rfl⟩

/-- The alternatives of either side. -/
def join (left right : Constraint) : Constraint :=
  ofTypes (left.members ++ right.members)

@[simp]
theorem mem_members_join {ty : Ty} {left right : Constraint} :
    ty ∈ (left.join right).members ↔ ty ∈ left.members ∨ ty ∈ right.members := by
  simp [join]

/-- Single types come before unions; unions compare member by member. -/
instance : Ord Constraint where
  compare
    | .single left, .single right => compare left right
    | .single _, .union _ => .lt
    | .union _, .single _ => .gt
    | .union left, .union right => compare left.members right.members

def text (constraint : Constraint) : String :=
  " | ".intercalate (constraint.members.map Ty.name)

/-- The inspection form, which tells a union of one member from a single type. -/
def inspect : Constraint → String
  | .single ty => ty.name
  | .union alternatives => "Union(\x7b" ++ ", ".intercalate (alternatives.members.map Ty.name) ++ "\x7d)"

end Constraint

end MultiDispatch
