import MultiDispatch.NameMap

/-!
# Entries and lookups

A map's entries are its lookups, which also determine it.  Of several values that
are inserted under one name the last one stands, and several changes under one name
are made one after the other.
-/

namespace MultiDispatch.NameMap

universe u v

variable {α : Type u} {β : Type v}

theorem mem_entries_iff {map : NameMap α} {name : String} {value : α} :
    (name, value) ∈ map.entries ↔ map.find? name = some value := by
  obtain ⟨entries, increasing⟩ := map
  simp only [find?]
  induction entries with
  | nil => simp
  | cons first rest inductionHypothesis =>
      obtain ⟨key, held⟩ := first
      rw [List.pairwise_cons] at increasing
      rw [lookup_cons_eq_ite, List.mem_cons, inductionHypothesis increasing.2]
      by_cases same : name = key
      · subst same
        have absent : rest.lookup name = none :=
          lookup_eq_none_of_lt fun entry inside => increasing.1 entry inside
        simp [absent, eq_comm]
      · simp [same]

theorem mem_values_iff {map : NameMap α} {value : α} :
    value ∈ map.values ↔ ∃ name, map.find? name = some value := by
  simp only [values, List.mem_map, ← mem_entries_iff]
  constructor
  · intro listed
    obtain ⟨⟨name, held⟩, inside, rfl⟩ := listed
    exact ⟨name, inside⟩
  · intro found
    obtain ⟨name, inside⟩ := found
    exact ⟨(name, value), inside, rfl⟩

theorem find?_foldl_insert (name : β → String) (value : β → α) (items : List β) (map : NameMap α)
    (sought : String) :
    (items.foldl (fun map item => map.insert (name item) (value item)) map).find? sought =
      ((items.reverse.find? fun item => name item = sought).map value).or (map.find? sought) := by
  induction items generalizing map with
  | nil => simp
  | cons first rest inductionHypothesis =>
      rw [List.foldl_cons, inductionHypothesis, List.reverse_cons, List.find?_append, find?_insert]
      cases rest.reverse.find? fun item => decide (name item = sought) with
      | some later => simp
      | none =>
          by_cases same : name first = sought
          · simp [same]
          · have differs : sought ≠ name first := fun equal => same equal.symm
            simp [same, differs]

/-- What stands under a name in the end is what the changes made under this name come to. -/
theorem find?_foldl_alter (name : β → String) (change : β → Option α → α) (items : List β)
    (map : NameMap α) (sought : String) :
    (items.foldl (fun map item => map.alter (name item) (change item)) map).find? sought =
      (items.filter fun item => name item = sought).foldl
        (fun found item => some (change item found)) (map.find? sought) := by
  induction items generalizing map with
  | nil => rfl
  | cons first rest inductionHypothesis =>
      rw [List.foldl_cons, inductionHypothesis, find?_alter]
      by_cases same : name first = sought
      · subst same
        rw [List.filter_cons_of_pos (by simp), List.foldl_cons, if_pos rfl]
      · rw [List.filter_cons_of_neg (by simpa using same), if_neg fun equal => same equal.symm]

/-- A map is determined by its lookups. -/
theorem eq_of_find?_eq {left right : NameMap α}
    (same : ∀ name, left.find? name = right.find? name) : left = right := by
  have distinct : ∀ map : NameMap α, map.entries.Nodup := by
    intro map
    apply map.increasing.imp
    rintro first second less rfl
    exact ne_of_compare_eq_lt less rfl
  apply ext_entries
  apply List.Perm.eq_of_pairwise ?antisymmetric left.increasing right.increasing
  · apply (List.perm_ext_iff_of_nodup (distinct left) (distinct right)).mpr
    intro entry
    obtain ⟨name, value⟩ := entry
    rw [mem_entries_iff, mem_entries_iff, same]
  · intro first second _ _ less greater
    exact absurd (Std.TransCmp.lt_trans less greater) (ne_of_compare_eq_lt · rfl)

/-- Keeps the entries whose values pass the test. -/
def filter (map : NameMap α) (keep : α → Bool) : NameMap α :=
  ⟨map.entries.filter fun entry => keep entry.2, map.increasing.filter _⟩

theorem find?_filter_eq_some_iff {map : NameMap α} {keep : α → Bool} {name : String} {value : α} :
    (map.filter keep).find? name = some value ↔ map.find? name = some value ∧ keep value := by
  rw [← mem_entries_iff, ← mem_entries_iff, filter, List.mem_filter]

end MultiDispatch.NameMap
