/-!
# Ordered sets of members

A set is its strictly increasing list of members, so two sets with the same
members are equal and every way of writing a set lists it in one order.
-/

namespace MultiDispatch

universe u

structure MemberSet (α : Type u) [Ord α] where
  members : List α
  increasing : members.Pairwise fun left right => compare left right = .lt

namespace MemberSet

variable {α : Type u} [Ord α]

@[ext]
theorem ext_members {left right : MemberSet α} (equal : left.members = right.members) :
    left = right := by
  cases left
  cases right
  cases equal
  rfl

instance [DecidableEq α] : DecidableEq (MemberSet α) := fun _ _ =>
  decidable_of_iff _ ⟨ext_members, congrArg members⟩

instance : Membership α (MemberSet α) where
  mem set member := member ∈ set.members

theorem mem_iff {set : MemberSet α} {member : α} : member ∈ set ↔ member ∈ set.members := Iff.rfl

instance : EmptyCollection (MemberSet α) where
  emptyCollection := ⟨[], .nil⟩

@[simp]
theorem members_empty : (∅ : MemberSet α).members = [] := rfl

/-- Puts `new` before the first larger member, unless it is already there. -/
def insertSorted (new : α) : List α → List α
  | [] => [new]
  | first :: rest =>
      match compare new first with
      | .lt => new :: first :: rest
      | .eq => first :: rest
      | .gt => first :: insertSorted new rest

theorem mem_of_mem_insertSorted {new member : α} {members : List α}
    (inside : member ∈ insertSorted new members) : member = new ∨ member ∈ members := by
  induction members with
  | nil => simpa [insertSorted] using inside
  | cons first rest inductionHypothesis =>
      simp only [insertSorted] at inside
      split at inside
      · simpa using inside
      · exact .inr inside
      · rcases List.mem_cons.1 inside with rfl | later
        · simp
        · rcases inductionHypothesis later with rfl | later <;> simp [*]

theorem mem_insertSorted_of_mem {new member : α} {members : List α}
    (inside : member ∈ members) : member ∈ insertSorted new members := by
  induction members with
  | nil => cases inside
  | cons first rest inductionHypothesis =>
      simp only [insertSorted]
      split
      · exact List.mem_cons_of_mem _ inside
      · exact inside
      · rcases List.mem_cons.1 inside with rfl | later
        · simp
        · exact List.mem_cons_of_mem _ (inductionHypothesis later)

theorem mem_insertSorted_self [Std.LawfulEqOrd α] (new : α) (members : List α) :
    new ∈ insertSorted new members := by
  induction members with
  | nil => simp [insertSorted]
  | cons first rest inductionHypothesis =>
      simp only [insertSorted]
      split
      · simp
      · rename_i equal
        simp [Std.LawfulEqOrd.eq_of_compare equal]
      · exact List.mem_cons_of_mem _ inductionHypothesis

variable [Std.TransOrd α]

theorem pairwise_insertSorted (new : α) {members : List α}
    (increasing : members.Pairwise fun left right => compare left right = .lt) :
    (insertSorted new members).Pairwise fun left right => compare left right = .lt := by
  induction members with
  | nil => simp [insertSorted]
  | cons first rest inductionHypothesis =>
      rw [List.pairwise_cons] at increasing
      simp only [insertSorted]
      split
      · rename_i less
        refine List.pairwise_cons.2 ⟨fun later inside => ?_, List.pairwise_cons.2 increasing⟩
        rcases List.mem_cons.1 inside with rfl | inside
        · exact less
        · exact Std.TransCmp.lt_trans less (increasing.1 later inside)
      · exact List.pairwise_cons.2 increasing
      · rename_i greater
        refine List.pairwise_cons.2 ⟨fun later inside => ?_, inductionHypothesis increasing.2⟩
        rcases mem_of_mem_insertSorted inside with rfl | inside
        · exact Std.OrientedCmp.gt_iff_lt.1 greater
        · exact increasing.1 later inside

def insert (new : α) (set : MemberSet α) : MemberSet α :=
  ⟨insertSorted new set.members, pairwise_insertSorted new set.increasing⟩

@[simp]
theorem mem_insert [Std.LawfulEqOrd α] {new member : α} {set : MemberSet α} :
    member ∈ set.insert new ↔ member = new ∨ member ∈ set :=
  ⟨mem_of_mem_insertSorted, fun inside => inside.elim
    (fun equal => equal ▸ mem_insertSorted_self new set.members) mem_insertSorted_of_mem⟩

def ofList (members : List α) : MemberSet α :=
  members.foldr insert ∅

@[simp]
theorem mem_ofList [Std.LawfulEqOrd α] {member : α} {members : List α} :
    member ∈ ofList members ↔ member ∈ members := by
  induction members with
  | nil => simp [ofList, mem_iff]
  | cons first rest inductionHypothesis =>
      rw [List.mem_cons, ← inductionHypothesis]
      exact mem_insert

/-- The member of a one-member set. -/
def single? (set : MemberSet α) : Option α :=
  match set.members with
  | [only] => some only
  | _ => none

end MemberSet

end MultiDispatch
