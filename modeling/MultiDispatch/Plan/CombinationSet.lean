import MultiDispatch.Combination

/-!
# Interned combinations

A set keeps the distinct combinations in the order in which they were first
interned and, apart from them, an index in which the identifier of a combination
is looked up.  The identifier of a combination is its place, which later
interning never changes.
-/

namespace MultiDispatch

structure CombinationSet where
  /-- The combinations by their identifiers. -/
  toList : List Combination
  /-- The identifiers by their combinations, the last one first. -/
  index : List (Combination × Nat)

namespace CombinationSet

instance : EmptyCollection CombinationSet where
  emptyCollection := ⟨[], []⟩

def size (set : CombinationSet) : Nat := set.toList.length

def id? (set : CombinationSet) (combination : Combination) : Option Nat :=
  set.index.lookup combination

def get? (set : CombinationSet) (id : Nat) : Option Combination := set.toList[id]?

@[simp]
theorem size_empty : (∅ : CombinationSet).size = 0 := rfl

@[simp]
theorem id?_empty (combination : Combination) : (∅ : CombinationSet).id? combination = none := rfl

@[simp]
theorem get?_empty (id : Nat) : (∅ : CombinationSet).get? id = none := rfl

/-- A new combination gets the next identifier. -/
def add (set : CombinationSet) (combination : Combination) : CombinationSet where
  toList := set.toList ++ [combination]
  index := (combination, set.size) :: set.index

@[simp]
theorem size_add (set : CombinationSet) (combination : Combination) :
    (set.add combination).size = set.size + 1 := by
  simp [size, add]

theorem id?_add (set : CombinationSet) (combination other : Combination) :
    (set.add combination).id? other =
      if other = combination then some set.size else set.id? other := by
  rw [id?, add, List.lookup_cons]
  by_cases same : other = combination
  · simp [same]
  · rw [beq_eq_false_iff_ne.2 same, if_neg same]
    rfl

theorem get?_add (set : CombinationSet) (combination : Combination) (id : Nat) :
    (set.add combination).get? id = if id = set.size then some combination else set.get? id := by
  by_cases last : id = set.size
  · rw [if_pos last, last]
    exact List.getElem?_concat_length
  · rw [if_neg last]
    rcases Nat.lt_or_gt_of_ne last with before | behind
    · exact List.getElem?_append_left before
    · have outside : set.get? id = none := List.getElem?_eq_none (Nat.le_of_lt behind)
      rw [outside]
      apply List.getElem?_eq_none
      rw [add, List.length_append]
      exact Nat.succ_le_of_lt behind

/-- The identifier of `combination`, with the set that holds it. -/
def intern (set : CombinationSet) (combination : Combination) : Nat × CombinationSet :=
  match set.id? combination with
  | some id => (id, set)
  | none => (set.size, set.add combination)

theorem intern_of_known {set : CombinationSet} {combination : Combination} {id : Nat}
    (known : set.id? combination = some id) : set.intern combination = (id, set) := by
  rw [intern, known]

theorem intern_of_new {set : CombinationSet} {combination : Combination}
    (new : set.id? combination = none) :
    set.intern combination = (set.size, set.add combination) := by
  rw [intern, new]

end CombinationSet

end MultiDispatch
