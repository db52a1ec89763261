import Mathlib.Data.List.Induction
import Mathlib.Order.Bounds.Basic
import MultiDispatch.Plan.Introspection
import MultiDispatch.Proofs.NameMap
import MultiDispatch.Proofs.Plan.Extraction

/-!
# Arity records

The record of a name lists the arities of its overloads in the order of their
declaration, and its own arity is the narrowest range around them all.  A name
without overloads has no record.
-/

namespace MultiDispatch

theorem Arity.eq_of_bounds_eq {left right : Arity} (sameMin : left.min = right.min)
    (sameMax : left.max = right.max) : left = right := by
  cases left
  cases right
  cases sameMin
  cases sameMax
  rfl

namespace ArityRecord

variable {record other : ArityRecord} {arities otherArities : List Arity}

/-- The record of these overloads: the range begins with the least minimum and ends
with the greatest maximum. -/
structure Summarizes (record : ArityRecord) (arities : List Arity) : Prop where
  overloads_eq : record.overloads = arities
  least : IsLeast {count | ∃ arity ∈ arities, arity.min = count} record.arity.min
  greatest : IsGreatest {count | ∃ arity ∈ arities, arity.max = count} record.arity.max

theorem summarizes_add_none (arity : Arity) : (add arity none).Summarizes [arity] where
  overloads_eq := rfl
  least := by simp [add]
  greatest := by simp [add]

/-- One more overload adds its own count to the counts of the others. -/
theorem counts_append_singleton (bound : Arity → Nat) (arities : List Arity) (last : Arity) :
    {count | ∃ arity ∈ arities ++ [last], bound arity = count} =
      insert (bound last) {count | ∃ arity ∈ arities, bound arity = count} := by
  ext count
  simp [or_and_right, exists_or, or_comm, eq_comm]

theorem Summarizes.add (summarizes : record.Summarizes arities) (arity : Arity) :
    (add arity (some record)).Summarizes (arities ++ [arity]) where
  overloads_eq := congrArg (· ++ [arity]) summarizes.overloads_eq
  least := by
    rw [counts_append_singleton]
    have least := summarizes.least.insert arity.min
    rwa [min_comm] at least
  greatest := by
    rw [counts_append_singleton]
    have greatest := summarizes.greatest.insert arity.max
    rwa [max_comm] at greatest

/-- The record that adding the arities one by one comes to. -/
def ofOverloads? (arities : List Arity) : Option ArityRecord :=
  arities.foldl (fun found arity => some (add arity found)) none

theorem ofOverloads?_append_singleton (arities : List Arity) (last : Arity) :
    ofOverloads? (arities ++ [last]) = some (add last (ofOverloads? arities)) := by
  rw [ofOverloads?, List.foldl_append]
  rfl

theorem ofOverloads?_eq_none_iff : ofOverloads? arities = none ↔ arities = [] := by
  induction arities using List.reverseRecOn with
  | nil => simp [ofOverloads?]
  | append_singleton arities last _ => simp [ofOverloads?_append_singleton]

theorem summarizes_of_ofOverloads? (found : ofOverloads? arities = some record) :
    record.Summarizes arities := by
  induction arities using List.reverseRecOn generalizing record with
  | nil => cases found
  | append_singleton arities last inductionHypothesis =>
      rw [ofOverloads?_append_singleton, Option.some.injEq] at found
      subst found
      cases earlier : ofOverloads? arities with
      | none =>
          rw [ofOverloads?_eq_none_iff.mp earlier]
          exact summarizes_add_none last
      | some record => exact (inductionHypothesis earlier).add last

theorem Summarizes.arity_eq_of_perm (summarizes : record.Summarizes arities)
    (otherSummarizes : other.Summarizes otherArities) (permuted : arities.Perm otherArities) :
    record.arity = other.arity := by
  have least := summarizes.least
  have greatest := summarizes.greatest
  simp only [permuted.mem_iff] at least greatest
  exact Arity.eq_of_bounds_eq (least.unique otherSummarizes.least)
    (greatest.unique otherSummarizes.greatest)

/-- The order of the overloads shows in their list, not in the range. -/
theorem map_arity_ofOverloads?_of_perm (permuted : arities.Perm otherArities) :
    (ofOverloads? arities).map (·.arity) = (ofOverloads? otherArities).map (·.arity) := by
  cases found : ofOverloads? arities with
  | none =>
      rw [ofOverloads?_eq_none_iff] at found
      subst found
      rw [← permuted.nil_eq]
      rfl
  | some record =>
      cases otherFound : ofOverloads? otherArities with
      | none =>
          rw [ofOverloads?_eq_none_iff] at otherFound
          subst otherFound
          rw [permuted.eq_nil] at found
          cases found
      | some other =>
          exact congrArg some ((summarizes_of_ofOverloads? found).arity_eq_of_perm
            (summarizes_of_ofOverloads? otherFound) permuted)

end ArityRecord

/-- The method counts under the name: a skipped one only where skipped ones are shown. -/
def Retained.Counts (includeSkipped : Bool) (name : String) (method : Retained) : Prop :=
  method.name = name ∧ (method.skip = false ∨ includeSkipped = true)

namespace ArityIndex

variable {methods : List Retained} {includeSkipped : Bool} {name : String}

/-- The arities of the methods that count under the name. -/
def overloads (methods : List Retained) (includeSkipped : Bool) (name : String) : List Arity :=
  ((methods.filter fun method => includeSkipped || !method.skip).filter
    fun method => method.name = name).map Retained.arity

theorem mem_overloads_iff {arity : Arity} :
    arity ∈ overloads methods includeSkipped name ↔
      ∃ method ∈ methods, method.Counts includeSkipped name ∧ method.arity = arity := by
  simp only [overloads, List.mem_map, List.mem_filter, Bool.or_eq_true, Bool.not_eq_true',
    decide_eq_true_eq, Retained.Counts]
  constructor
  · intro listed
    obtain ⟨method, ⟨⟨inside, shown⟩, sameName⟩, sameArity⟩ := listed
    exact ⟨method, inside, ⟨sameName, shown.symm⟩, sameArity⟩
  · intro counted
    obtain ⟨method, inside, ⟨sameName, shown⟩, sameArity⟩ := counted
    exact ⟨method, ⟨⟨inside, shown.symm⟩, sameName⟩, sameArity⟩

theorem exists_mem_overloads_iff (bound : Arity → Nat) (count : Nat) :
    (∃ arity ∈ overloads methods includeSkipped name, bound arity = count) ↔
      ∃ method ∈ methods, method.Counts includeSkipped name ∧ bound method.arity = count := by
  simp only [mem_overloads_iff]
  constructor
  · intro listed
    obtain ⟨_, ⟨method, inside, counts, rfl⟩, sameBound⟩ := listed
    exact ⟨method, inside, counts, sameBound⟩
  · intro counted
    obtain ⟨method, inside, counts, sameBound⟩ := counted
    exact ⟨_, ⟨method, inside, counts, rfl⟩, sameBound⟩

theorem record?_build (methods : List Retained) (includeSkipped : Bool) (name : String) :
    (build methods includeSkipped).record? name =
      ArityRecord.ofOverloads? (overloads methods includeSkipped name) := by
  rw [record?, build, NameMap.find?_foldl_alter, NameMap.find?_empty, ArityRecord.ofOverloads?,
    overloads, List.foldl_map]

theorem build_eq_of_overloads_eq {others : List Retained} {otherIncludeSkipped : Bool}
    (same : ∀ name, overloads methods includeSkipped name =
      overloads others otherIncludeSkipped name) :
    build methods includeSkipped = build others otherIncludeSkipped := by
  apply congrArg ArityIndex.mk
  apply NameMap.eq_of_find?_eq
  intro name
  have sameRecord : (build methods includeSkipped).record? name =
      (build others otherIncludeSkipped).record? name := by
    rw [record?_build, record?_build, same]
  exact sameRecord

/-- The same names with the same ranges, around overloads listed in any order. -/
structure Agrees (left right : ArityIndex) : Prop where
  exists_iff : ∀ name, left.Exists name ↔ right.Exists name
  arity?_eq : ∀ name, left.arity? name = right.arity? name
  overloads_perm : ∀ name record other, left.record? name = some record →
    right.record? name = some other → record.overloads.Perm other.overloads

theorem agrees_build_of_perm {others : List Retained}
    (permuted : ∀ name, (overloads methods includeSkipped name).Perm
      (overloads others includeSkipped name)) :
    (build methods includeSkipped).Agrees (build others includeSkipped) := by
  constructor
  case arity?_eq =>
    intro name
    rw [arity?, arity?, record?_build, record?_build,
      ArityRecord.map_arity_ofOverloads?_of_perm (permuted name)]
  case exists_iff =>
    intro name
    rw [Exists, Exists, record?_build, record?_build, ← Option.isSome_map,
      ArityRecord.map_arity_ofOverloads?_of_perm (permuted name), Option.isSome_map]
  case overloads_perm =>
    intro name record other found otherFound
    rw [record?_build] at found otherFound
    rw [(ArityRecord.summarizes_of_ofOverloads? found).overloads_eq,
      (ArityRecord.summarizes_of_ofOverloads? otherFound).overloads_eq]
    exact permuted name

/-- The places of the methods have no part in their arities. -/
theorem overloads_retained (decl : TypeDecl) (includeSkipped : Bool) (name : String) :
    overloads decl.retained includeSkipped name =
      (((decl.methods.filter fun method => method.exclusion? = none).filter
        fun method => includeSkipped || !method.skip).filter
          fun method => method.name = name).map MethodDecl.arity := by
  rw [← TypeDecl.map_declared_retained, List.filter_map, List.filter_map, List.map_map]
  rfl

/-- A name exists when some method counts under it. -/
theorem exists_build_iff :
    (build methods includeSkipped).Exists name ↔
      ∃ method ∈ methods, method.Counts includeSkipped name := by
  rw [Exists, record?_build, Option.isSome_iff_ne_none, Ne, ArityRecord.ofOverloads?_eq_none_iff]
  constructor
  · intro nonempty
    obtain ⟨arity, listed⟩ := List.exists_mem_of_ne_nil _ nonempty
    obtain ⟨method, inside, counts, _⟩ := mem_overloads_iff.mp listed
    exact ⟨method, inside, counts⟩
  · intro counted
    obtain ⟨method, inside, counts⟩ := counted
    exact List.ne_nil_of_mem (mem_overloads_iff.mpr ⟨method, inside, counts, rfl⟩)

/-- The range of a name is around all methods that count under it, and no wider. -/
theorem arity?_build_eq_some_iff {arity : Arity} :
    (build methods includeSkipped).arity? name = some arity ↔
      IsLeast {count | ∃ method ∈ methods, method.Counts includeSkipped name ∧
        method.arity.min = count} arity.min ∧
      IsGreatest {count | ∃ method ∈ methods, method.Counts includeSkipped name ∧
        method.arity.max = count} arity.max := by
  simp only [← exists_mem_overloads_iff, arity?, record?_build, Option.map_eq_some_iff]
  constructor
  · intro recorded
    obtain ⟨record, found, rfl⟩ := recorded
    have summarizes := ArityRecord.summarizes_of_ofOverloads? found
    exact ⟨summarizes.least, summarizes.greatest⟩
  · intro ranges
    obtain ⟨least, greatest⟩ := ranges
    cases found : ArityRecord.ofOverloads? (overloads methods includeSkipped name) with
    | none =>
        obtain ⟨overload, inside, _⟩ := least.1
        rw [ArityRecord.ofOverloads?_eq_none_iff.mp found] at inside
        cases inside
    | some record =>
        have summarizes := ArityRecord.summarizes_of_ofOverloads? found
        exact ⟨record, rfl, Arity.eq_of_bounds_eq (summarizes.least.unique least)
          (summarizes.greatest.unique greatest)⟩

end ArityIndex

end MultiDispatch
