import Mathlib.Data.List.Fold
import MultiDispatch.Proofs.Constraint.Collected
import MultiDispatch.Proofs.Ty.Spelling

/-!
# Joining constraints

A collapsed constraint stands for a finite set of types, and joining constraints is the
union of the sets.  So the join is a semilattice with the constraint without alternatives
at its bottom, and names are collected by joining their types one by one: the order of
the names, their repetitions and the blanks in them do not matter.
-/

namespace MultiDispatch

/-- The members are the one increasing list of what is in the set. -/
theorem MemberSet.members_eq_iff {α : Type} [Ord α] [Std.TransOrd α] {set : MemberSet α}
    {members : List α} :
    set.members = members ↔
      (members.Pairwise fun left right => compare left right = .lt) ∧
        ∀ member, member ∈ members ↔ member ∈ set := by
  constructor
  · intro same
    subst same
    exact ⟨set.increasing, fun _ => Iff.rfl⟩
  · intro listed
    rcases listed with ⟨increasing, sameMembers⟩
    have sameSet : set = ⟨members, increasing⟩ := by
      apply MemberSet.eq_of_mem_iff
      intro member
      exact (sameMembers member).symm
    rw [sameSet]

namespace Constraint

/-- The alternatives are read back one by one at their places. -/
theorem filterMap_member?_range (constraint : Constraint) :
    (List.range constraint.radix).filterMap constraint.member? = constraint.members := by
  unfold radix member?
  induction constraint.members with
  | nil => rfl
  | cons first rest inductionHypothesis =>
      rw [List.length_cons, List.range_succ_eq_map, List.filterMap_cons_some List.getElem?_cons_zero,
        List.filterMap_map]
      exact congrArg (first :: ·) inductionHypothesis

theorem members_join_eq_iff {left right : Constraint} {types : List Ty} :
    (left.join right).members = types ↔
      (types.Pairwise fun earlier later => compare earlier later = .lt) ∧
        ∀ ty, ty ∈ types ↔ ty ∈ left.members ∨ ty ∈ right.members := by
  rw [join, ofTypes, members_ofSet, MemberSet.members_eq_iff]
  simp only [MemberSet.mem_ofList, List.mem_append]

section

variable {constraint : Constraint}

theorem IsCollapsed.join_self (collapsed : constraint.IsCollapsed) :
    constraint.join constraint = constraint := by
  calc
    constraint.join constraint = ofTypes constraint.members :=
      ofTypes_congr fun ty => by rw [List.mem_append, or_self]
    _ = constraint := collapsed.ofTypes_members

theorem IsCollapsed.join_empty (collapsed : constraint.IsCollapsed) :
    constraint.join (.union ∅) = constraint := by
  rw [join, members, MemberSet.members_empty, List.append_nil, collapsed.ofTypes_members]

end

instance : Std.Commutative join := ⟨join_comm⟩

instance : Std.Associative join := ⟨join_assoc⟩

theorem ofTypes_cons (ty : Ty) (types : List Ty) :
    ofTypes (ty :: types) = (Constraint.single ty).join (ofTypes types) := by
  apply ofTypes_congr
  intro other
  rw [List.mem_append, mem_members_ofTypes, members, List.mem_singleton, List.mem_cons]

/-- Types are collected by joining them one by one. -/
theorem ofTypes_eq_foldl (types : List Ty) :
    ofTypes types = (types.map .single).foldl join (.union ∅) := by
  rw [List.foldl_eq_foldr]
  induction types with
  | nil => rfl
  | cons ty types inductionHypothesis =>
      rw [ofTypes_cons, inductionHypothesis, List.map_cons, List.foldr_cons]

theorem ofTypes_eq_iff {types others : List Ty} :
    ofTypes types = ofTypes others ↔ ∀ ty, ty ∈ types ↔ ty ∈ others := by
  constructor
  · intro same ty
    rw [← mem_members_ofTypes, same, mem_members_ofTypes]
  · exact ofTypes_congr

/-- What a list of names declares is determined by the names without their blanks. -/
theorem ofNames_eq_iff {names others : List String} :
    ofNames names = ofNames others ↔
      ∀ solid, solid ∈ names.map (Text.withoutBlanks ∘ String.toList) ↔
        solid ∈ others.map (Text.withoutBlanks ∘ String.toList) := by
  have within : ∀ firsts seconds : List String,
      (∀ ty ∈ firsts.map Ty.ofName, ty ∈ seconds.map Ty.ofName) ↔
        ∀ solid ∈ firsts.map (Text.withoutBlanks ∘ String.toList),
          solid ∈ seconds.map (Text.withoutBlanks ∘ String.toList) := by
    intro firsts seconds
    rw [List.forall_mem_map, List.forall_mem_map]
    simp only [List.mem_map, Ty.ofName_eq_iff, Function.comp_apply]
  rw [ofNames, ofNames, ofTypes_eq_iff]
  constructor
  · intro same solid
    constructor
    · exact (within names others).mp (fun ty => (same ty).mp) solid
    · exact (within others names).mp (fun ty => (same ty).mpr) solid
  · intro same ty
    constructor
    · exact (within names others).mpr (fun solid => (same solid).mp) ty
    · exact (within others names).mpr (fun solid => (same solid).mpr) ty

/-- Joining collapsed constraints is commutative, associative and idempotent, with no
alternatives as its identity.  It lists the alternatives of either side in order, and
collecting names is joining their types, whatever their order, repetitions and blanks. -/
theorem join_is_semilattice {left : Constraint} (collapsed : left.IsCollapsed)
    (middle right : Constraint) :
    (left.join right = right.join left ∧
      (left.join middle).join right = left.join (middle.join right) ∧
      left.join left = left ∧
      left.join (.union ∅) = left ∧ (Constraint.union ∅).join left = left) ∧
      (left.join right).IsCollapsed ∧
      (∀ types, (List.range (left.join right).radix).filterMap (left.join right).member? = types ↔
        (types.Pairwise fun earlier later => compare earlier later = .lt) ∧
          ∀ ty, ty ∈ types ↔ ty ∈ left.members ∨ ty ∈ right.members) ∧
      (∀ names, ofNames names =
        (names.map fun name => Constraint.single (.ofName name)).foldl join (.union ∅)) ∧
      ∀ names others, ofNames names = ofNames others ↔
        ∀ solid, solid ∈ names.map (Text.withoutBlanks ∘ String.toList) ↔
          solid ∈ others.map (Text.withoutBlanks ∘ String.toList) := by
  refine ⟨⟨?_, ?_, ?_, ?_, ?_⟩, ?_, ?_, ?_, ?_⟩
  · exact join_comm left right
  · exact join_assoc left middle right
  · exact collapsed.join_self
  · exact collapsed.join_empty
  · rw [join_comm, collapsed.join_empty]
  · exact isCollapsed_ofTypes _
  · intro types
    rw [filterMap_member?_range]
    exact members_join_eq_iff
  · intro names
    rw [ofNames, ofTypes_eq_foldl, List.map_map]
    rfl
  · intro names others
    exact ofNames_eq_iff

/-- Names in another order, with another repetition and other blanks. -/
theorem join_is_semilattice_bag :
    let text : Constraint := .ofNames ["String"]
    let bag : Constraint := .ofNames ["Hash(A, B)", "Int32", "Hash(A,B)"]
    text.IsCollapsed ∧
      (List.range (text.join bag).radix).filterMap (text.join bag).member? =
        [.scalar (.signed .w32), .scalar .string, .named "Hash(A,B)"] ∧
      bag = .ofNames [" Int32", "Int 32", "Hash( A,B )"] := by
  intro text bag
  have collapsed : text.IsCollapsed := isCollapsed_ofTypes _
  rcases join_is_semilattice collapsed (.union ∅) bag with ⟨_, _, reads, _, names⟩
  refine ⟨collapsed, (reads _).mpr ⟨by decide, ?_⟩, (names _ _).mpr ?_⟩
  · have textMembers : text.members = [.scalar .string] := by decide
    have bagMembers : bag.members = [.scalar (.signed .w32), .named "Hash(A,B)"] := by decide
    intro ty
    rw [textMembers, bagMembers]
    simp [or_left_comm]
  · intro solid
    have solids : ["Hash(A, B)", "Int32", "Hash(A,B)"].map (Text.withoutBlanks ∘ String.toList) =
        ["Hash(A,B)".toList, "Int32".toList, "Hash(A,B)".toList] := by decide
    have otherSolids : [" Int32", "Int 32", "Hash( A,B )"].map
        (Text.withoutBlanks ∘ String.toList) =
          ["Int32".toList, "Int32".toList, "Hash(A,B)".toList] := by decide
    rw [solids, otherSolids]
    grind

end Constraint

end MultiDispatch
