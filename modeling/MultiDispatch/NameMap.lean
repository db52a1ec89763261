/-!
# Maps from names

A map is its list of entries in strictly increasing order of names, so two maps
with the same entries are equal and entries are always listed by name.
-/

namespace MultiDispatch

universe u

structure NameMap (α : Type u) where
  entries : List (String × α)
  increasing : entries.Pairwise fun left right => compare left.1 right.1 = .lt

namespace NameMap

variable {α : Type u}

@[ext]
theorem ext_entries {left right : NameMap α} (equal : left.entries = right.entries) :
    left = right := by
  cases left
  cases right
  cases equal
  rfl

instance : EmptyCollection (NameMap α) where
  emptyCollection := ⟨[], .nil⟩

def find? (map : NameMap α) (name : String) : Option α := map.entries.lookup name

@[simp]
theorem find?_empty (name : String) : (∅ : NameMap α).find? name = none := rfl

def names (map : NameMap α) : List String := map.entries.map Prod.fst

def values (map : NameMap α) : List α := map.entries.map Prod.snd

/-- Replaces what stands under `name`, or its absence, by what `change` makes of it. -/
def alterSorted (name : String) (change : Option α → α) :
    List (String × α) → List (String × α)
  | [] => [(name, change none)]
  | (key, value) :: rest =>
      match compare name key with
      | .lt => (name, change none) :: (key, value) :: rest
      | .eq => (key, change (some value)) :: rest
      | .gt => (key, value) :: alterSorted name change rest

theorem key_of_mem_alterSorted {name : String} {change : Option α → α}
    {entries : List (String × α)} {entry : String × α}
    (inside : entry ∈ alterSorted name change entries) :
    entry.1 = name ∨ ∃ earlier ∈ entries, entry.1 = earlier.1 := by
  induction entries with
  | nil =>
      simp only [alterSorted, List.mem_singleton] at inside
      simp [inside]
  | cons first rest inductionHypothesis =>
      obtain ⟨key, value⟩ := first
      simp only [alterSorted] at inside
      split at inside
      · rcases List.mem_cons.1 inside with rfl | inside
        · simp
        · exact .inr ⟨entry, inside, rfl⟩
      · rcases List.mem_cons.1 inside with rfl | inside
        · exact .inr ⟨(key, value), List.mem_cons_self, rfl⟩
        · exact .inr ⟨entry, List.mem_cons_of_mem _ inside, rfl⟩
      · rcases List.mem_cons.1 inside with rfl | inside
        · exact .inr ⟨(key, value), List.mem_cons_self, rfl⟩
        · rcases inductionHypothesis inside with sameName | ⟨earlier, isEarlier, sameKey⟩
          · exact .inl sameName
          · exact .inr ⟨earlier, List.mem_cons_of_mem _ isEarlier, sameKey⟩

theorem pairwise_alterSorted (name : String) (change : Option α → α)
    {entries : List (String × α)}
    (increasing : entries.Pairwise fun left right => compare left.1 right.1 = .lt) :
    (alterSorted name change entries).Pairwise fun left right =>
      compare left.1 right.1 = .lt := by
  induction entries with
  | nil => simp [alterSorted]
  | cons first rest inductionHypothesis =>
      obtain ⟨key, value⟩ := first
      rw [List.pairwise_cons] at increasing
      simp only [alterSorted]
      split
      · rename_i less
        refine List.pairwise_cons.2 ⟨fun later inside => ?_, List.pairwise_cons.2 increasing⟩
        rcases List.mem_cons.1 inside with rfl | inside
        · exact less
        · exact Std.TransCmp.lt_trans less (increasing.1 later inside)
      · exact List.pairwise_cons.2 increasing
      · rename_i greater
        refine List.pairwise_cons.2 ⟨fun later inside => ?_, inductionHypothesis increasing.2⟩
        rcases key_of_mem_alterSorted inside with sameName | ⟨earlier, isEarlier, sameKey⟩
        · rw [sameName]
          exact Std.OrientedCmp.gt_iff_lt.1 greater
        · rw [sameKey]
          exact increasing.1 earlier isEarlier

def alter (map : NameMap α) (name : String) (change : Option α → α) : NameMap α :=
  ⟨alterSorted name change map.entries, pairwise_alterSorted name change map.increasing⟩

def insert (map : NameMap α) (name : String) (value : α) : NameMap α :=
  map.alter name fun _ => value

theorem lookup_cons_eq_ite (name key : String) (value : α) (rest : List (String × α)) :
    ((key, value) :: rest).lookup name = if name = key then some value else rest.lookup name := by
  rw [List.lookup_cons]
  by_cases same : name = key
  · simp [same]
  · rw [if_neg same, beq_eq_false_iff_ne.2 same]

theorem ne_of_compare_eq_lt {left right : String} (less : compare left right = .lt) :
    left ≠ right := by
  rintro rfl
  rw [Std.ReflOrd.compare_self] at less
  cases less

theorem lookup_eq_none_of_lt {name : String} {entries : List (String × α)}
    (below : ∀ entry ∈ entries, compare name entry.1 = .lt) : entries.lookup name = none :=
  List.lookup_eq_none_iff.2 fun entry inside =>
    bne_iff_ne.2 (ne_of_compare_eq_lt (below entry inside))

theorem find?_alter (map : NameMap α) (name other : String) (change : Option α → α) :
    (map.alter name change).find? other =
      if other = name then some (change (map.find? name)) else map.find? other := by
  obtain ⟨entries, increasing⟩ := map
  simp only [find?, alter]
  induction entries with
  | nil => simp [alterSorted, lookup_cons_eq_ite]
  | cons first rest inductionHypothesis =>
      obtain ⟨key, value⟩ := first
      rw [List.pairwise_cons] at increasing
      simp only [alterSorted]
      split
      · rename_i less
        have absent : ((key, value) :: rest).lookup name = none := by
          refine lookup_eq_none_of_lt fun entry inside => ?_
          rcases List.mem_cons.1 inside with rfl | inside
          · exact less
          · exact Std.TransCmp.lt_trans less (increasing.1 entry inside)
        rw [absent, lookup_cons_eq_ite]
      · rename_i equal
        have sameKey := Std.LawfulEqOrd.eq_of_compare equal
        subst sameKey
        simp only [lookup_cons_eq_ite, ↓reduceIte]
        by_cases same : other = name <;> simp [same]
      · rename_i greater
        have differs : name ≠ key :=
          (ne_of_compare_eq_lt (Std.OrientedCmp.gt_iff_lt.1 greater)).symm
        simp only [lookup_cons_eq_ite, inductionHypothesis increasing.2, if_neg differs]
        by_cases same : other = name
        · simp [same, differs]
        · simp [same]

@[simp]
theorem find?_insert (map : NameMap α) (name other : String) (value : α) :
    (map.insert name value).find? other = if other = name then some value else map.find? other :=
  find?_alter map name other _

end NameMap

end MultiDispatch
