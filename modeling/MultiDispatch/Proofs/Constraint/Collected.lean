import Mathlib.Data.List.Nodup
import MultiDispatch.Constraint

/-!
# Collected constraints

What is collected from a list of types is a single type or a union, but no union of one.
Such a constraint is determined by its members: collecting them again gives it back.  So
the order in which types are collected or constraints joined does not matter.
-/

namespace MultiDispatch

namespace MemberSet

variable {α : Type} [Ord α]

theorem single?_eq_some_iff {set : MemberSet α} {only : α} :
    set.single? = some only ↔ set.members = [only] := by
  unfold single?
  split <;> simp_all

variable [Std.TransOrd α]

theorem members_ofList_of_increasing {members : List α}
    (increasing : members.Pairwise fun left right => compare left right = .lt) :
    (ofList members).members = members := by
  induction members with
  | nil => rfl
  | cons first rest inductionHypothesis =>
      obtain ⟨firstLess, restIncreasing⟩ := List.pairwise_cons.mp increasing
      have sameRest := inductionHypothesis restIncreasing
      change insertSorted first (ofList rest).members = first :: rest
      rw [sameRest]
      cases rest with
      | nil => rfl
      | cons second _ => rw [insertSorted, firstLess second List.mem_cons_self]

@[simp]
theorem ofList_members (set : MemberSet α) : ofList set.members = set :=
  ext_members (members_ofList_of_increasing set.increasing)

theorem nodup_of_increasing {members : List α}
    (increasing : members.Pairwise fun left right => compare left right = .lt) :
    members.Nodup := by
  apply increasing.imp
  rintro left right less rfl
  rw [Std.ReflOrd.compare_self] at less
  cases less

theorem eq_of_mem_iff {set other : MemberSet α} (same : ∀ member, member ∈ set ↔ member ∈ other) :
    set = other := by
  have perm := (List.perm_ext_iff_of_nodup (nodup_of_increasing set.increasing)
    (nodup_of_increasing other.increasing)).mpr same
  apply ext_members
  refine perm.eq_of_pairwise ?_ set.increasing other.increasing
  intro left right _ _ less greater
  rw [Std.OrientedCmp.gt_of_lt less] at greater
  cases greater

end MemberSet

namespace Constraint

theorem ofTypes_congr {types others : List Ty} (same : ∀ ty, ty ∈ types ↔ ty ∈ others) :
    ofTypes types = ofTypes others := by
  have sameSet : MemberSet.ofList types = MemberSet.ofList others := by
    apply MemberSet.eq_of_mem_iff
    intro ty
    rw [MemberSet.mem_ofList, MemberSet.mem_ofList]
    exact same ty
  rw [ofTypes, sameSet, ofTypes]

theorem join_comm (left right : Constraint) : left.join right = right.join left := by
  apply ofTypes_congr
  intro ty
  rw [List.mem_append, List.mem_append]
  exact or_comm

theorem join_assoc (left middle right : Constraint) :
    (left.join middle).join right = left.join (middle.join right) := by
  apply ofTypes_congr
  intro ty
  rw [List.mem_append, List.mem_append, mem_members_join, mem_members_join]
  exact or_assoc

theorem pairwise_members (constraint : Constraint) :
    constraint.members.Pairwise fun earlier later => compare earlier later = .lt := by
  cases constraint with
  | single ty => exact List.pairwise_singleton _ ty
  | union alternatives => exact alternatives.increasing

theorem nodup_members (constraint : Constraint) : constraint.members.Nodup :=
  MemberSet.nodup_of_increasing constraint.pairwise_members

/-- A single type, no type at all, or a union of at least two. -/
def IsCollapsed : Constraint → Prop
  | .single _ => True
  | .union alternatives => alternatives = ∅ ∨ 2 ≤ alternatives.members.length

theorem isCollapsed_ofTypes (types : List Ty) : (ofTypes types).IsCollapsed := by
  rw [ofTypes, ofSet]
  split
  · trivial
  · rename_i notSingle
    rcases same : (MemberSet.ofList types).members with _ | ⟨only, _ | ⟨second, others⟩⟩
    · exact .inl (MemberSet.ext_members same)
    · rw [MemberSet.single?_eq_some_iff.mpr same] at notSingle
      cases notSingle
    · exact .inr (by simp [same])

namespace IsCollapsed

variable {constraint other : Constraint}

/-- Collecting the members again changes nothing. -/
theorem ofTypes_members (collapsed : constraint.IsCollapsed) :
    ofTypes constraint.members = constraint := by
  cases constraint with
  | single ty => rfl
  | union alternatives =>
      simp only [members, ofTypes, MemberSet.ofList_members, ofSet]
      split
      · rename_i only isSingle
        rw [MemberSet.single?_eq_some_iff] at isSingle
        rcases collapsed with rfl | several
        · cases isSingle
        · simp [isSingle] at several
      · rfl

theorem eq_of_members_eq (collapsed : constraint.IsCollapsed) (otherCollapsed : other.IsCollapsed)
    (same : constraint.members = other.members) : constraint = other := by
  rw [← collapsed.ofTypes_members, same, otherCollapsed.ofTypes_members]

end IsCollapsed

/-- A single type, or a union of at least two. -/
def IsCollected : Constraint → Prop
  | .single _ => True
  | .union alternatives => 2 ≤ alternatives.members.length

theorem isCollected_iff {constraint : Constraint} :
    constraint.IsCollected ↔ constraint.IsCollapsed ∧ constraint.members ≠ [] := by
  cases constraint with
  | single ty => simp [IsCollected, IsCollapsed, members]
  | union alternatives =>
      simp only [IsCollected, IsCollapsed, members]
      constructor
      · intro several
        refine ⟨.inr several, ?_⟩
        intro none
        simp [none] at several
      · intro collapsed
        rcases collapsed with ⟨rfl | several, nonempty⟩
        · exact absurd rfl nonempty
        · exact several

theorem isCollected_ofTypes {types : List Ty} (nonempty : types ≠ []) :
    (ofTypes types).IsCollected := by
  rw [isCollected_iff]
  refine ⟨isCollapsed_ofTypes types, ?_⟩
  rcases List.exists_mem_of_ne_nil types nonempty with ⟨ty, inside⟩
  exact List.ne_nil_of_mem (mem_members_ofTypes.mpr inside)

theorem mem_members_ofNames {names : List String} {ty : Ty} :
    ty ∈ (ofNames names).members ↔ ∃ name ∈ names, Ty.ofName name = ty := by
  rw [ofNames, mem_members_ofTypes, List.mem_map]

theorem isCollected_ofNames {names : List String} (nonempty : names ≠ []) :
    (ofNames names).IsCollected :=
  isCollected_ofTypes (by simpa using nonempty)

namespace IsCollected

variable {constraint : Constraint}

theorem isCollapsed (collected : constraint.IsCollected) : constraint.IsCollapsed :=
  (isCollected_iff.mp collected).1

theorem members_ne_nil (collected : constraint.IsCollected) : constraint.members ≠ [] :=
  (isCollected_iff.mp collected).2

end IsCollected

end Constraint

end MultiDispatch
