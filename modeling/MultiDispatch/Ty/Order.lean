import MultiDispatch.Ty

/-!
# The order of types

Builtin types come first, in the order of `Ty.builtins`; user types follow by
name.  The order is lawful, so a sorted list of types is determined by its
members.
-/

namespace MultiDispatch.Ty

/-- The place among the builtin types; user types share the place after the last. -/
def rank (ty : Ty) : Nat := builtins.idxOf ty

instance : Ord Ty where
  compare := compareLex (compareOn rank) (compareOn name)

instance : Std.TransOrd Ty :=
  inferInstanceAs (Std.TransCmp (compareLex (compareOn rank) (compareOn name)))

theorem rank_lt_length_iff {ty : Ty} : ty.rank < builtins.length ↔ ty ∈ builtins :=
  List.idxOf_lt_length_iff

theorem eq_of_rank_eq {left right : Ty} (builtin : left ∈ builtins)
    (equal : left.rank = right.rank) : left = right := by
  have inside : left.rank < builtins.length := rank_lt_length_iff.2 builtin
  have alsoInside : right.rank < builtins.length := equal ▸ inside
  calc
    left = builtins[left.rank] := (List.getElem_idxOf inside).symm
    _ = builtins[right.rank] := by simp only [equal]
    _ = right := List.getElem_idxOf alsoInside

instance : Std.LawfulEqOrd Ty where
  eq_of_compare {left right} equal := by
    have equal : (compare left.rank right.rank).then (compare left.name right.name) = .eq := equal
    obtain ⟨sameRank, sameName⟩ := Ordering.then_eq_eq.1 equal
    have sameRank := Std.LawfulEqOrd.eq_of_compare sameRank
    have sameName := Std.LawfulEqOrd.eq_of_compare sameName
    cases left with
    | scalar _ => exact eq_of_rank_eq (scalar_mem_builtins _) sameRank
    | family _ => exact eq_of_rank_eq (family_mem_builtins _) sameRank
    | named _ =>
        cases right with
        | scalar _ => exact (eq_of_rank_eq (scalar_mem_builtins _) sameRank.symm).symm
        | family _ => exact (eq_of_rank_eq (family_mem_builtins _) sameRank.symm).symm
        | named _ => exact congrArg Ty.named sameName

end MultiDispatch.Ty
